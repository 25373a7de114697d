import Ironhide.Proofs.FromChain
import Ironhide.Proofs.Keys

namespace Ironhide.Proofs.ReturnUdp
open Model Lib.Bytes Lib.Program PacketUtils SfcUtilities Framing Observed FromChain Keys

variable {φ : Type}

def Routed : Event (Op φ) (Reply φ) → Prop
  | ⟨.getRouteList _, r⟩ => ∃ hop hops, r = .ok (hop :: hops)
  | _ => True

/-- An answer on the connection's chain goes back in one frame, under its header. -/
theorem sendBack_returns {s : Self} {c : Connection} {received : List Byte} {receivedLen hops : Nat}
    {noRoute again : Bool} {es : List (Event (Op φ) (Reply φ))} {out : Except Stop Bool}
    (hclass : c.Classifies s received receivedLen)
    (h : (Egress.sendBack s (c.header hops 0) received receivedLen noRoute again).Runs es out)
    (hr : ∀ e ∈ es, Routed e) :
    ∃ hops', messages es = [(c.header hops' 1).bytes ++ received.take receivedLen] := by
  rw [Egress.sendBack, hclass.classifyPkt, Prog.ret_bind, c.getRouteList_id, Prog.op_bind] at h
  obtain ⟨reply, es₁, rfl, h₁⟩ := Prog.runs_op.mp h
  obtain ⟨hop, path, rfl⟩ := hr _ List.mem_cons_self
  rw [raise_ok, Prog.ret_bind] at h₁
  simp only [Connection.header_sourceAddress, Connection.header_sourcePort,
    Connection.header_destinationAddress, Connection.header_destinationPort,
    Connection.forward_id, Prog.op_bind] at h₁
  obtain ⟨resolved, es₂, rfl, h₂⟩ := Prog.runs_op.mp h₁
  refine ⟨(hop :: path).length, ?_⟩
  cases resolved with
  | false =>
    obtain ⟨rfl, _⟩ := Prog.runs_throw.mp h₂
    rfl
  | true =>
    obtain ⟨rfl, _⟩ := Prog.runs_ret.mp h₂
    rfl

/-- A datagram that is on the chain whatever is left in the buffer behind it. -/
def OnChain (s : Self) (c : Connection) (response : List Byte) : Prop :=
  ∀ stale, c.Classifies s (response ++ stale) response.length

/-- The response loop returns every datagram that is on the connection's chain. -/
theorem exitingUdpLoop_returns {s : Self} {c : Connection} {hops : Nat} {rawSocket : φ} {n : Nat}
    {buffer response : List Byte} {es : List (Event (Op φ) (Reply φ))} {out : Except Stop Unit}
    (h : (Egress.exitingUdpLoop s (c.header hops 0) rawSocket n buffer).Runs es out)
    (hr : ∀ e ∈ es, Routed e) (hon : OnChain s c response) (hread : response ∈ chunks es) :
    ∃ hops', (c.header hops' 1).bytes ++ response ∈ messages es := by
  induction n generalizing buffer es with
  | zero =>
    obtain ⟨rfl, _⟩ := Prog.runs_throw.mp h
    cases hread
  | succ n ih =>
    obtain rfl | rfl | ⟨b, bs, es₁, rfl, h₁⟩ := Egress.runs_exitingUdpLoop h
    · cases hread
    · cases hread
    · change ∃ hops', _ ∈ messages es₁
      have hr₁ : ∀ e ∈ es₁, Routed e := fun e he => hr e (List.mem_cons_of_mem _ he)
      -- a round receives nothing itself, and returns what it was given
      have hround {es₂ : List (Event (Op φ) (Reply φ))} {out₂ : Except Stop Bool}
          (h₂ : (Egress.exitingUdpRound s (c.header hops 0) (overwrite buffer (b :: bs))
            (b :: bs).length).Runs es₂ out₂) (hr₂ : ∀ e ∈ es₂, Routed e) : chunks es₂ = [] ∧
          (response = b :: bs → ∃ hops', (c.header hops' 1).bytes ++ response ∈ messages es₂) := by
        refine ⟨chunks_quiet (h₂.all (P := fun o => ¬ Receives o)
          (Egress.sendBack_all (fun _ => id) (fun _ _ _ => id) s _ _ _ _ _)), ?_⟩
        intro heq
        rw [← heq] at h₂
        obtain ⟨hops', hm⟩ := sendBack_returns (hon _) h₂ hr₂
        rw [List.take_left] at hm
        exact ⟨hops', hm ▸ List.mem_singleton_self _⟩
      rw [Prog.runs_bind] at h₁
      rcases h₁ with ⟨x, hx, rfl⟩ | ⟨again, es₂, es₃, rfl, hx, h₂⟩
      · obtain ⟨hc, hself⟩ := hround hx hr₁
        rcases List.mem_cons.mp hread with heq | hlater
        · exact hself heq
        · change response ∈ chunks es₁ at hlater
          rw [hc] at hlater
          cases hlater
      · obtain ⟨hc, hself⟩ := hround hx fun e he => hr₁ e (List.mem_append_left _ he)
        rw [messages_append]
        rcases List.mem_cons.mp hread with heq | hlater
        · obtain ⟨hops', hm⟩ := hself heq
          exact ⟨hops', List.mem_append_left _ hm⟩
        · change response ∈ chunks (es₂ ++ es₃) at hlater
          rw [chunks_append, hc, List.nil_append] at hlater
          cases again with
          | false =>
            obtain ⟨rfl, _⟩ := Prog.runs_ret.mp h₂
            cases hlater
          | true =>
            obtain ⟨hops', hm⟩ :=
              ih h₂ (fun e he => hr₁ e (List.mem_append_right _ he)) hlater
            exact ⟨hops', List.mem_append_right _ hm⟩

/-- All the handler receives it receives in its response loop. -/
theorem manageExitingUdpPackets_loop {s : Self} {pkt : List Byte} {pktLen : Nat}
    {ce : ConnectionEntry} {sock : φ} {datagram buffer response : List Byte} {fuel : Nat}
    {es : List (Event (Op φ) (Reply φ))} {out : Except Stop Unit}
    (h : (Egress.manageExitingUdpPackets s pkt pktLen ce sock datagram buffer fuel).Runs es out)
    (hread : response ∈ chunks es) :
    ∃ es₁ es₂ rawSocket, es = es₁ ++ es₂ ∧ response ∈ chunks es₂ ∧
      (Egress.exitingUdpLoop s (retrieveHeader pkt) rawSocket fuel buffer).Runs es₂ out := by
  obtain ⟨_, es₁, es₂, rfl, hread, h⟩ :=
    chunks_bind h (Egress.openSender_all (P := fun o => ¬ Receives o) id) hread
  dsimp only at h
  split at h
  · obtain ⟨rfl, _⟩ := Prog.runs_throw.mp h
    cases hread
  · obtain ⟨rawSocket, es₃, es₄, rfl, hread, h⟩ := chunks_bind h
      (Egress.openListener_all (P := fun o => ¬ Receives o) s id (fun _ _ => id) fun _ => id) hread
    obtain ⟨sent, es₅, es₆, rfl, hread, h⟩ := chunks_bind h ⟨id, fun _ => trivial⟩ hread
    split at h
    · obtain ⟨rfl, _⟩ := Prog.runs_throw.mp h
      cases hread
    · obtain ⟨_, es₇, es₈, rfl, hread, h⟩ := chunks_bind h
        (updateEntry_all (P := fun o => ¬ Receives o) id) hread
      exact ⟨es₁ ++ (es₃ ++ (es₅ ++ es₇)), es₈, rawSocket, by simp, hread, h⟩

theorem manageExitingUdpPackets_returns {s : Self} {c : Connection} {hops : Nat} {pkt : List Byte}
    {pktLen : Nat} {ce : ConnectionEntry} {sock : φ} {datagram buffer response : List Byte}
    {fuel : Nat} {es : List (Event (Op φ) (Reply φ))} {out : Except Stop Unit}
    (h : (Egress.manageExitingUdpPackets s pkt pktLen ce sock datagram buffer fuel).Runs es out)
    (hheader : retrieveHeader pkt = c.header hops 0)
    (hr : ∀ e ∈ es, Routed e) (hon : OnChain s c response) (hread : response ∈ chunks es) :
    ∃ hops', (c.header hops' 1).bytes ++ response ∈ messages es := by
  obtain ⟨es₁, es₂, rawSocket, rfl, hread, hrun⟩ := manageExitingUdpPackets_loop h hread
  rw [hheader] at hrun
  obtain ⟨hops', hm⟩ :=
    exitingUdpLoop_returns hrun (fun e he => hr e (List.mem_append_right _ he)) hon hread
  rw [messages_append]
  exact ⟨hops', List.mem_append_right _ hm⟩

def StartedOn (args : UdpArgs φ) : Op φ → Prop
  | .goAsync (.exitingTcp pkt pktLen _ _) => pkt = args.pkt ∧ pktLen = args.pktLen
  | .goAsync (.exitingUdp pkt pktLen _ _) => pkt = args.pkt ∧ pktLen = args.pktLen
  | _ => True

theorem egress_startedOn (args : UdpArgs φ) :
    (Egress.managePktFromChain args).All (StartedOn args) := by
  refine ⟨trivial, fun _ => ?_⟩
  refine (checked_all _).bind fun headers => ⟨trivial, fun sock => ?_⟩
  dsimp only
  split
  · exact ⟨⟨rfl, rfl⟩, fun _ => trivial⟩
  · exact ⟨⟨rfl, rfl⟩, fun _ => trivial⟩

/-- A frame with an IP packet that has no options and is not TCP: the ingress
looks up the entry of the header and takes what is behind the UDP header. -/
theorem udp_frame {hdr : SfcHeader} {p : Packet UdpHeader} {args : UdpArgs φ}
    (hplain : p.ip.length = ipHdrLen) (hprot : (Iphdr.read p.ip).protocol = 17)
    (hpkt : hdr.bytes ++ p.bytes <+: args.pkt) (hlen : args.pktLen = (hdr.bytes ++ p.bytes).length) :
    Fits args ∧ chainPrt args = .udp ∧ chainEntry args = headerEntry hdr .udp ∧
      payloadOffset args ≤ args.pktLen ∧ chainPayload args = p.payload := by
  obtain ⟨stale, hpkt⟩ := hpkt
  have hudp : p.transport.length = udpHdrLen := p.transportHeader
  have hdrop : args.pkt.drop headerSize = p.ip ++ (p.transport ++ (p.payload ++ stale)) := by
    rw [← hpkt, List.append_assoc, drop_bytes_append]
    simp only [Packet.bytes, List.append_assoc]
  have hip : ipPktLen (args.pkt.drop headerSize) = ipHdrLen := by
    rw [hdrop, p.ipHeader.ipPktLen, hplain]
  have hprt : chainPrt args = .udp := by
    have hread : (retrieveIpHeader (args.pkt.drop headerSize)).value = Iphdr.read p.ip := by
      simp only [retrieveIpHeader, hip]
      rw [hdrop, List.take_left' hplain]
    rw [chainPrt, hread, hprot]
    rfl
  have hoff : payloadOffset args = headerSize + (p.ip.length + p.transport.length) := by
    rw [payloadOffset_udp hprt, udpPacketHeaderSize, hip, hplain, hudp]
  refine ⟨?_, hprt, ?_, ?_, ?_⟩
  · rw [Fits, retrieveIpHeader_inBounds, hip]
    rfl
  · rw [chainEntry, hprt, ← hpkt, List.append_assoc, retrieveHeader_append]
  · rw [hoff, hlen, List.length_append, bytes_length, Packet.bytes, List.length_append,
      List.length_append]
    omega
  · rw [chainPayload, hoff, hlen, ← hpkt, List.take_left]
    exact drop_headers hdr p.ip p.transport p.payload

/-- A UDP request on its way out and a response read at the other end: one run
of each handler, joined by what they hand on. -/
structure Exchange (φ : Type) where
  ingress : Self
  egress : Self
  connection : Connection
  -- the ingress accepts the request and registers it under `stored`
  request : UdpArgs φ
  enters : connection.Enters ingress request
  requestEvents : List (Event (Op φ) (Reply φ))
  requestOut : Except Stop Unit
  requestRun : (Ingress.manageEnteringUdpPackets ingress request).Runs requestEvents requestOut
  stored : ConnectionEntry
  added : ∃ r, ⟨.addEntry stored request.socketFd request.clientAddress .ingressT .udp, r⟩ ∈
    requestEvents
  frame : List Byte
  sent : frame ∈ messages requestEvents
  -- the egress takes it from the chain and starts the handler
  arrived : UdpArgs φ
  arrives : frame <+: arrived.pkt
  arrivedEvents : List (Event (Op φ) (Reply φ))
  arrivedOut : Except Stop Unit
  arrivedRun : (Egress.managePktFromChain arrived).Runs arrivedEvents arrivedOut
  pkt : List Byte
  pktLen : Nat
  ce : ConnectionEntry
  sock : φ
  started : ⟨.goAsync (.exitingUdp pkt pktLen ce sock), ()⟩ ∈ arrivedEvents
  -- the handler reads the response
  datagram : List Byte
  buffer : List Byte
  fuel : Nat
  exitingEvents : List (Event (Op φ) (Reply φ))
  exitingOut : Except Stop Unit
  exitingRun : (Egress.manageExitingUdpPackets egress pkt pktLen ce sock datagram buffer fuel).Runs
    exitingEvents exitingOut
  routed : ∀ e ∈ exitingEvents, Routed e
  response : Packet UdpHeader
  plain : response.ip.length = ipHdrLen
  udp : (Iphdr.read response.ip).protocol = 17
  onChain : OnChain egress connection response.bytes
  read : response.bytes ∈ chunks exitingEvents

namespace Exchange

variable (x : Exchange φ)

theorem stored_eq : x.stored = x.connection.entry .udp := by
  obtain ⟨r, hadd⟩ := x.added
  exact x.requestRun.all (manageEnteringUdpPackets_ofConnection x.enters) _ hadd

/-- The request reaches the handler with the header the ingress gave it. -/
theorem header : ∃ hops, retrieveHeader x.pkt = x.connection.header hops 0 := by
  obtain ⟨_, _, hops, hrest⟩ := mem_messages x.sent
    (x.requestRun.all (manageEnteringUdpPackets_ofConnection x.enters))
  have hpkt : x.pkt = x.arrived.pkt := (x.arrivedRun.all (egress_startedOn x.arrived) _ x.started).1
  rw [hpkt]
  exact ⟨hops, header_of_prefix hrest x.arrives⟩

end Exchange

/-- A response comes back in a frame, and whenever the ingress gets that frame
it looks up the entry the request was stored under, and sends exactly the
response's payload to whom that entry registers. -/
theorem response_delivered (x : Exchange φ) : ∃ m ∈ messages x.exitingEvents,
    m.drop headerSize = x.response.bytes ∧
    ∀ (back : UdpArgs φ) (es : List (Event (Op φ) (Reply φ))) (out : Except Stop Unit)
      (registered : φ × SockaddrIn),
      m <+: back.pkt → back.pktLen = m.length → (Ingress.managePktFromChain back).Runs es out →
      (∀ sock, ⟨.retrieveConnection2 x.stored, sock⟩ ∈ es → sock = registered) →
      chainEntry back = x.stored ∧ outputs es = [PacketUtils.ack, x.response.payload] ∧
        ∃ r, ⟨.sendto registered.1 x.response.payload registered.2, r⟩ ∈ es := by
  obtain ⟨hops, hheader⟩ := x.header
  obtain ⟨hops', hm⟩ :=
    manageExitingUdpPackets_returns x.exitingRun hheader x.routed x.onChain x.read
  refine ⟨_, hm, drop_bytes_append _ _, ?_⟩
  intro back es out registered hpkt hlen hrun hentry
  obtain ⟨hfit, hprt, hkey, hoff, hpay⟩ := udp_frame x.plain x.udp hpkt hlen
  have hstored : chainEntry back = x.stored := by
    rw [hkey, Connection.headerEntry_header, x.stored_eq]
  refine ⟨hstored, ?_⟩
  rw [managePktFromChain_eq back hfit] at hrun
  obtain ⟨n, es₁, rfl, hlook⟩ := Prog.runs_op.mp hrun
  obtain ⟨sock, es₂, rfl, hsend⟩ := Prog.runs_op.mp hlook
  have hsock : sock = registered := by
    apply hentry
    rw [← hstored]
    exact List.mem_cons_of_mem _ List.mem_cons_self
  rw [deliver_udp back sock hprt hoff, hpay] at hsend
  obtain ⟨r, es₃, rfl, hend⟩ := Prog.runs_op.mp hsend
  have hquiet : outputs es₃ = [] := by
    refine outputs_quiet (hend.all (P := fun o => written o = none) ?_)
    split
    · trivial
    · exact deleteEntry_all (P := fun o => written o = none) rfl
  refine ⟨?_, r, ?_⟩
  · change PacketUtils.ack :: x.response.payload :: outputs es₃ = _
    rw [hquiet]
  · rw [← hsock]
    exact List.mem_cons_of_mem _ (List.mem_cons_of_mem _ List.mem_cons_self)

/-- The source's classifier puts every such response on chain 0. -/
theorem onChain_source (myIp : String) (extPort : BitVec 16) {c : Connection} (hid : c.id = 0)
    {p : Packet UdpHeader} (hplain : p.ip.length = ipHdrLen)
    (hprot : (Iphdr.read p.ip).protocol = 17) : OnChain (Self.source myIp extPort) c p.bytes := by
  intro stale
  have hudp : p.transport.length = udpHdrLen := p.transportHeader
  have hlen : p.bytes.length > ipHdrLen := by
    rw [Packet.bytes, List.length_append, List.length_append, hplain, hudp]
    simp only [ipHdrLen, udpHdrLen]
    omega
  have hip : ipPktLen (p.bytes ++ stale) = ipHdrLen := by
    rw [Packet.bytes, List.append_assoc, p.ipHeader.ipPktLen, hplain]
  have hread : (retrieveIpHeader (p.bytes ++ stale)).value = Iphdr.read p.ip := by
    simp only [retrieveIpHeader, hip]
    rw [Packet.bytes, List.append_assoc, List.take_left' hplain]
  have hzero : Model.toString c.id = "0" := by
    rw [hid]
    decide
  constructor
  · simp [Self.source, Classifier.classifyPkt, Classifier.setPkt, hlen, hip]
  · simp [Self.source, Classifier.classifyPkt, Classifier.setPkt, hlen, hread, hprot, hzero,
      Classifier.sfcMap]

theorem grant_routed (fd : φ) (hop : Address) (cs : List (List Byte)) (o : Op φ) :
    Routed ⟨o, (grant fd hop cs o).1⟩ := by
  cases o with
  | getRouteList pId => exact ⟨hop, [], rfl⟩
  | _ => trivial

def udpExchange : Exchange Int where
  ingress := proxy
  egress := proxy
  connection := sampleConnection
  request := udpArgs udpPacket.bytes
  enters := udpPacket_enters
  requestEvents := udpAccepted
  requestOut := _
  requestRun := Prog.runs_exec _ _ _
  stored := sampleConnection.entry .udp
  added := udpPacket_added
  frame := udpFrame
  sent := udpPacket_sent
  arrived := udpArgs udpFrame
  arrives := List.prefix_rfl
  arrivedEvents := udpArrived
  arrivedOut := _
  arrivedRun := Prog.runs_exec _ _ _
  pkt := udpFrame
  pktLen := udpFrame.length
  ce := sampleConnection.entry .udp
  sock := 3
  started := by
    obtain ⟨_, h⟩ := Prog.exists_reply (show ∃ e ∈ udpArrived,
      e.op = .goAsync (.exitingUdp udpFrame udpFrame.length (sampleConnection.entry .udp) 3) by
        decide +kernel)
    exact h
  datagram := []
  buffer := []
  fuel := 1
  exitingEvents := _
  exitingOut := _
  exitingRun := Prog.runs_exec (grant 7 ⟨"10.0.2.1", 57000, false⟩)
    (Egress.manageExitingUdpPackets proxy udpFrame udpFrame.length (sampleConnection.entry .udp) 3 []
      [] 1) [udpPacket.bytes]
  routed := Prog.exec_all _ (grant_routed _ _) _ _
  response := udpPacket
  plain := rfl
  udp := by decide
  onChain := onChain_source _ _ rfl rfl (by decide)
  read := by decide +kernel

theorem udpPacket_delivered : ∃ m ∈ messages udpExchange.exitingEvents,
    m.drop headerSize = udpPacket.bytes ∧
    ∀ (back : UdpArgs Int) (es : List (Event (Op Int) (Reply Int))) (out : Except Stop Unit)
      (registered : Int × SockaddrIn),
      m <+: back.pkt → back.pktLen = m.length → (Ingress.managePktFromChain back).Runs es out →
      (∀ sock, ⟨.retrieveConnection2 (sampleConnection.entry .udp), sock⟩ ∈ es → sock = registered) →
      chainEntry back = sampleConnection.entry .udp ∧ outputs es = [PacketUtils.ack, [0x61, 0x62, 0x63]] ∧
        ∃ r, ⟨.sendto registered.1 [0x61, 0x62, 0x63] registered.2, r⟩ ∈ es :=
  response_delivered udpExchange

end Ironhide.Proofs.ReturnUdp
