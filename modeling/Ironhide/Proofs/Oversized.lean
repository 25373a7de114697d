import Ironhide.Proofs.Forwarded

namespace Ironhide.Proofs.Oversized
open Model Lib.Bytes Lib.Program PacketUtils SfcUtilities Framing Observed Forwarded Client

def maxPayload : Nat := 65507

variable {φ : Type} [Descriptor φ]

/-- The network resolves the host, opens and connects sockets, and sends every
message that one datagram has room for; on others `sendto` fails. -/
def Carries : Event (Client.Op φ) (Client.Reply φ) → Prop
  | ⟨.getaddrinfo .., r⟩ => ∃ rp rps, r = some (rp :: rps)
  | ⟨.socket .., fd⟩ => Descriptor.num fd > 0
  | ⟨.connect .., n⟩ => n = 0
  | ⟨.sendto _ message _, n⟩ => n = if message.length ≤ maxPayload then (message.length : Int) else -1
  | ⟨.close _, _⟩ => True

def Sent (message : List Byte) (es : List (Event (Client.Op φ) (Client.Reply φ))) : Prop :=
  ∃ fd addr, ⟨.sendto fd message addr, (message.length : Int)⟩ ∈ es

section Client
variable {message : List Byte} {es : List (Event (Client.Op φ) (Client.Reply φ))}

def Unresolved : Event (Client.Op φ) (Client.Reply φ) → Prop
  | ⟨.getaddrinfo .., r⟩ => r = none
  | _ => False

theorem closeOpen_raises (sfd : φ) :
    (closeOpen sfd).Raises Unresolved (fun _ : Stop => True) := by
  unfold closeOpen
  split
  · exact fun _ => Or.inr ⟨id, trivial⟩
  · trivial

theorem sendLoop_raises (rps : List Addrinfo) (sfd : φ) :
    (sendLoop message rps sfd).Raises Unresolved (fun _ : Stop => True) := by
  induction rps generalizing sfd with
  | nil => trivial
  | cons rp rps ih =>
    refine (closeOpen_raises sfd).bind fun _ => fun sfd' => Or.inr ⟨id, ?_⟩
    change Prog.Raises _ _ (if Descriptor.num sfd' > 0 then _ else _)
    split
    · refine fun connected => Or.inr ⟨id, ?_⟩
      change Prog.Raises _ _ (if connected ≠ -1 then _ else _)
      split
      · refine fun res => Or.inr ⟨id, ?_⟩
        change Prog.Raises _ _ (if res > 0 then _ else _)
        split
        · trivial
        · exact ih sfd'
      · exact ih sfd'
    · exact ih sfd'

/-- The client stops only on a host it cannot resolve. Whatever else goes wrong
it returns as if it had sent the message. -/
theorem sendAndWaitResponse_raises (dst : String) (port : BitVec 16) :
    (sendAndWaitResponse message dst port : Calls φ Unit).Raises Unresolved
      (fun _ => True) := by
  intro reply
  cases reply with
  | none => exact Or.inl ⟨rfl, _, rfl, trivial⟩
  | some result =>
    refine Or.inr ⟨Option.some_ne_none result, ?_⟩
    exact (sendLoop_raises result _).bind closeOpen_raises

/-- A message that fits goes to the first address of the host. -/
theorem sendLoop_sends {rp : Addrinfo} {rps : List Addrinfo} {out : Except Stop φ}
    (hfits : message.length ≤ maxPayload)
    (h : (sendLoop message (rp :: rps) Descriptor.notFound).Runs es out)
    (hcarries : ∀ e ∈ es, Carries e) : Sent message es := by
  have hclosed : (closeOpen Descriptor.notFound : Calls φ Unit) = .ret () := by simp [closeOpen]
  rw [sendLoop, hclosed, Prog.ret_bind, Prog.perform_bind, Prog.runs_op] at h
  obtain ⟨fd, es₁, rfl, h⟩ := h
  have hfd : Descriptor.num fd > 0 := hcarries _ List.mem_cons_self
  rw [if_pos hfd, Prog.perform_bind, Prog.runs_op] at h
  obtain ⟨connected, es₂, rfl, h⟩ := h
  have hconnected : connected = 0 := hcarries ⟨.connect fd rp.aiAddr, connected⟩ (by simp)
  subst hconnected
  rw [if_pos (show (0 : Int) ≠ -1 by decide), Prog.perform_bind, Prog.runs_op] at h
  obtain ⟨res, es₃, rfl, h⟩ := h
  have hres : res = if message.length ≤ maxPayload then (message.length : Int) else -1 :=
    hcarries ⟨.sendto fd message rp.aiAddr, res⟩ (by simp)
  rw [if_pos hfits] at hres
  exact ⟨fd, rp.aiAddr, by simp [hres]⟩

/-- The client returns in any case, and has sent what one datagram has room for. -/
theorem sent_iff {dst : String} {port : BitVec 16} {out : Except Stop Unit}
    (h : (sendAndWaitResponse message dst port).Runs es out) (hcarries : ∀ e ∈ es, Carries e) :
    out = .ok () ∧ (Sent message es ↔ message.length ≤ maxPayload) := by
  refine ⟨?_, ?_, ?_⟩
  · cases out with
    | ok u => rfl
    | error stop =>
      obtain ⟨ev, hmem, hun⟩ := (h.raises (sendAndWaitResponse_raises dst port)).mp ⟨stop, rfl, trivial⟩
      have hc := hcarries ev hmem
      unfold Unresolved at hun
      split at hun
      · obtain ⟨rp, rps, hr⟩ := hc
        rw [hr] at hun
        cases hun
      · exact hun.elim
  · intro hsent
    obtain ⟨fd, addr, hmem⟩ := hsent
    have hres : (message.length : Int) = if message.length ≤ maxPayload then _ else -1 :=
      hcarries _ hmem
    by_contra hlong
    rw [if_neg hlong] at hres
    omega
  · intro hfits
    obtain ⟨reply, es₁, rfl, hk⟩ := Prog.runs_op.mp h
    obtain ⟨rp, rps, rfl⟩ := hcarries _ List.mem_cons_self
    change Prog.Runs (sendLoop message (rp :: rps) Descriptor.notFound >>= closeOpen) es₁ out at hk
    have hrest : ∀ e ∈ es₁, Carries e := fun e he => hcarries e (List.mem_cons_of_mem _ he)
    have hloop : ∃ es₂ es₃ out', es₁ = es₂ ++ es₃ ∧
        (sendLoop message (rp :: rps) Descriptor.notFound).Runs es₂ out' := by
      rcases Prog.runs_bind.mp hk with ⟨x, hx, _⟩ | ⟨sfd, es₂, es₃, rfl, hx, _⟩
      · exact ⟨es₁, [], _, (List.append_nil _).symm, hx⟩
      · exact ⟨es₂, es₃, _, rfl, hx⟩
    obtain ⟨es₂, es₃, out', rfl, hx⟩ := hloop
    obtain ⟨fd, addr, hmem⟩ := sendLoop_sends hfits hx
      fun e he => hrest e (List.mem_append_left _ he)
    exact ⟨fd, addr, List.mem_cons_of_mem _ (List.mem_append_left _ hmem)⟩

end Client

section Forwarded
variable {self : Self} {start : List Byte} {p : Handler φ Unit}
  {before after : List (Event (Model.Op φ) (Model.Reply φ))} {out : Except Stop Unit}
  {m : List Byte} {dst : String} {port : BitVec 16} {resolved : Bool}

/-- The message for a packet is longer than the packet by the SFC header. -/
theorem message_length (h : Handles self start p)
    (hrun : p.Runs (before ++ ⟨.sendAndWaitResponse m dst port, resolved⟩ :: after) out) :
    m.length = (atHand start before).length + headerSize := by
  obtain ⟨_, _, _, hdr, _, rfl, _, _⟩ := h.message hrun
  rw [List.length_append, bytes_length, Nat.add_comm]

/-- A packet is framed and sent exactly when it leaves room for the SFC header in
one datagram. The client returns in any case. -/
theorem packet_sent_iff (h : Handles self start p)
    (hrun : p.Runs (before ++ ⟨.sendAndWaitResponse m dst port, resolved⟩ :: after) out)
    {es : List (Event (Client.Op φ) (Client.Reply φ))} {out' : Except Stop Unit}
    (hclient : (sendAndWaitResponse m dst port).Runs es out') (hcarries : ∀ e ∈ es, Carries e) :
    m.length = (atHand start before).length + 24 ∧ out' = .ok () ∧
      (m.length ≤ maxPayload ∧ Sent m es ↔ (atHand start before).length ≤ 65483) := by
  have hlen : m.length = (atHand start before).length + 24 := message_length h hrun
  obtain ⟨hout, hsent⟩ := sent_iff hclient hcarries
  refine ⟨hlen, hout, ?_⟩
  rw [hsent, and_self, hlen, maxPayload]
  omega

end Forwarded

def carry (_ : Unit) : (o : Client.Op Int) → Client.Reply Int o × Unit
  | .getaddrinfo .. => (some [⟨2, 2, 17, []⟩], ())
  | .socket .. => (5, ())
  | .connect .. => ((0 : Int), ())
  | .sendto _ message _ => (if message.length ≤ maxPayload then (message.length : Int) else -1, ())
  | .close .. => ((), ())

theorem carry_carries (s : Unit) (o : Client.Op Int) : Carries ⟨o, (carry s o).1⟩ := by
  cases o with
  | getaddrinfo dst port socktype protocol => exact ⟨_, _, rfl⟩
  | socket family socktype protocol => exact show (5 : Int) > 0 by decide
  | connect fd addr => rfl
  | sendto fd message addr => rfl
  | close fd => trivial

def fullDatagram : Packet UdpHeader where
  ip := plainIp 17
  transport := plainUdp
  payload := List.replicate 65479 0
  ipHeader := Keys.udpPacket.ipHeader
  transportHeader := Keys.udpPacket.transportHeader

def carried (m : List Byte) : List (Event (Client.Op Int) (Client.Reply Int)) :=
  ((sendAndWaitResponse m hop.address hop.port).exec carry ()).1

theorem carried_runs (m : List Byte) :
    (sendAndWaitResponse m hop.address hop.port).Runs (carried m) (.ok ()) ∧
      ∀ e ∈ carried m, Carries e := by
  have hrun := (sendAndWaitResponse m hop.address hop.port).runs_exec carry ()
  have hall := Prog.exec_all carry carry_carries (sendAndWaitResponse m hop.address hop.port) ()
  refine ⟨?_, hall⟩
  have hout := (sent_iff hrun hall).1
  rwa [hout] at hrun

section Full
open Keys

def fullArgs : UdpArgs Int := ⟨3, SockaddrIn.zero, fullDatagram.bytes, 65507⟩

def fullFrame : List Byte := (sampleConnection.header 1 0).bytes ++ fullDatagram.bytes.take 65507

theorem fullDatagram_length : fullDatagram.bytes.length = 65507 := by
  have hip : fullDatagram.ip.length = 20 := rfl
  have hudp : fullDatagram.transport.length = 8 := rfl
  have hpayload : fullDatagram.payload.length = 65479 := List.length_replicate
  rw [Packet.bytes, List.length_append, List.length_append, hip, hudp, hpayload]

theorem fullFrame_length : fullFrame.length = 65531 := by
  have htake : (fullDatagram.bytes.take 65507).length = 65507 := by
    rw [List.length_take, fullDatagram_length, Nat.min_self]
  rw [fullFrame, List.length_append, bytes_length, htake]
  rfl

theorem fullDatagram_runs :
    (Ingress.manageEnteringUdpPackets proxy fullArgs).Runs
      ([⟨.addEntry (sampleConnection.entry .udp) 3 SockaddrIn.zero .ingressT .udp, .ok ()⟩,
        ⟨.getRouteList 0, .ok [hop]⟩] ++
        [⟨.sendAndWaitResponse fullFrame hop.address hop.port, true⟩]) (.ok ()) := by
  have hof : fullDatagram.Of sampleConnection := ⟨rfl, rfl, rfl, rfl⟩
  have hclass : sampleConnection.Classifies proxy fullArgs.pkt fullArgs.pktLen :=
    ⟨by decide, by decide⟩
  have henters : sampleConnection.Enters proxy fullArgs :=
    hof.enters (List.append_nil _).symm hclass
  exact enters_runs henters (by decide) hop []

/-- The ingress accepts it, and the client returns without having sent anything. -/
theorem full_datagram_dropped :
    (Ingress.manageEnteringUdpPackets proxy fullArgs).Runs
      ([⟨.addEntry (sampleConnection.entry .udp) 3 SockaddrIn.zero .ingressT .udp, .ok ()⟩,
        ⟨.getRouteList 0, .ok [hop]⟩] ++
        [⟨.sendAndWaitResponse fullFrame hop.address hop.port, true⟩]) (.ok ()) ∧
    ¬ fullFrame.length ≤ maxPayload ∧
    (sendAndWaitResponse fullFrame hop.address hop.port).Runs (carried fullFrame) (.ok ()) ∧
    ¬ Sent fullFrame (carried fullFrame) := by
  have hlong : ¬ fullFrame.length ≤ maxPayload := by
    rw [fullFrame_length]
    decide
  obtain ⟨hrun, hall⟩ := carried_runs fullFrame
  exact ⟨fullDatagram_runs, hlong, hrun, fun hsent => hlong ((sent_iff hrun hall).2.mp hsent)⟩

end Full

theorem packet_sent_sample :
    (sampleFrame 1).length = (atHand (given (.udp (Keys.udpArgs Keys.udpPacket.bytes)))
      [⟨.addEntry (Keys.sampleConnection.entry .udp) 3 SockaddrIn.zero .ingressT .udp, .ok ()⟩,
        ⟨.getRouteList 0, .ok [hop]⟩]).length + 24 ∧ (Except.ok () : Except Stop Unit) = .ok () ∧
      ((sampleFrame 1).length ≤ maxPayload ∧ Sent (sampleFrame 1) (carried (sampleFrame 1)) ↔
        (atHand (given (.udp (Keys.udpArgs Keys.udpPacket.bytes)))
          [⟨.addEntry (Keys.sampleConnection.entry .udp) 3 SockaddrIn.zero .ingressT .udp, .ok ()⟩,
            ⟨.getRouteList 0, .ok [hop]⟩]).length ≤ 65483) :=
  packet_sent_iff (.ingress (.udp (Keys.udpArgs Keys.udpPacket.bytes))) (sample_runs [])
    (carried_runs _).1 (carried_runs _).2

end Ironhide.Proofs.Oversized
