import Ironhide.Proofs.Translation

namespace Ironhide.Proofs.Returning
open Model Lib.Bytes Lib.Text Lib.Program Lib.Passing PacketUtils SfcUtilities
open Framing Observed Translation

variable {φ : Type}

/-- The frame is a response behind a header with the ends of the connection it is for. -/
def FramedBack (response : Ends × List Byte) (m : List Byte) : Prop :=
  ∃ hdr : SfcHeader, m = hdr.bytes ++ response.2 ∧ headerEnds hdr = response.1

section Egress
variable {self : Self}

theorem sendBack_passes (header : SfcHeader) (buffer response : List Byte) (noRoute again : Bool) :
    Passes (takes (Prod.mk (headerEnds header))) message FramedBack
      (Egress.sendBack self header (overwrite buffer response) response.length noRoute again :
        Handler φ Bool) (some (headerEnds header, response)) := by
  have hquiet (o : Op φ) (h : Forwarded.Aside o) := quiet_of_aside (f := Prod.mk (headerEnds header)) h
  refine Passes.after ((classifyPkt_all self _ _).mono hquiet) fun sfcid _ _ => ?_
  refine Passes.after ((getRouteList_all (fun _ => ⟨rfl, id⟩) sfcid).mono hquiet) fun path _ _ => ?_
  cases path with
  | nil => trivial
  | cons hop hops =>
    refine Passes.bind (forward_passes fun hdr hends => ⟨hdr, ?_, hends⟩) fun _ => trivial
    rw [overwrite, List.take_left]

theorem exitingUdpLoop_passes (header : SfcHeader) (rawSocket : φ) (n : Nat) (buffer : List Byte) :
    Passes (takes (Prod.mk (headerEnds header))) message FramedBack
      (Egress.exitingUdpLoop self header rawSocket n buffer) none := by
  induction n generalizing buffer with
  | zero => trivial
  | succ n ih =>
    refine ⟨fun m hm => (by cases hm), fun reply => ?_⟩
    match reply with
    | none => trivial
    | some [] => trivial
    | some (b :: bs) =>
      refine (sendBack_passes header buffer (b :: bs) _ _).bind fun again => ?_
      cases again with
      | false => trivial
      | true => exact ih _

theorem exitingTcpLoop_passes (header : SfcHeader) (socket : φ) (n : Nat) (buffer : List Byte) :
    Passes (takes (Prod.mk (headerEnds header))) message FramedBack
      (Egress.exitingTcpLoop self header socket n buffer) none := by
  induction n generalizing buffer with
  | zero => trivial
  | succ n ih =>
    refine ⟨fun m hm => (by cases hm), fun reply => ?_⟩
    match reply with
    | none => trivial
    | some [] => trivial
    | some (b :: bs) =>
      refine (sendBack_passes header buffer (b :: bs) _ _).bind fun again => ?_
      cases again with
      | false => trivial
      | true => exact ih _

def taskPkt : Model.Task φ → List Byte
  | .exitingTcp pkt .. => pkt
  | .exitingUdp pkt .. => pkt

/-- A task returns to the chain what it receives, each of it once, under the ends
of the frame that it was started for. -/
theorem task_returns [Descriptor φ] (self : Self) (task : Model.Task φ) (datagram buffer : List Byte)
    (fuel : Nat) :
    Passes (takes (Prod.mk (headerEnds (retrieveHeader (taskPkt task))))) message FramedBack
      (Egress.start self (.task task datagram buffer fuel)) none := by
  have hquiet (o : Op φ) (h : Forwarded.Aside o) :=
    quiet_of_aside (f := Prod.mk (headerEnds (retrieveHeader (taskPkt task)))) h
  cases task with
  | exitingTcp pkt pktLen ce socket =>
    change Passes _ _ _ (Egress.manageExitingTcpPackets ..) _
    rw [Egress.manageExitingTcpPackets]
    split
    · trivial
    · refine Passes.after ((Egress.destination_all (P := Forwarded.Aside) (fun _ _ => ⟨rfl, id⟩)
        fun _ _ => ⟨rfl, id⟩).mono hquiet) fun s _ _ => ?_
      exact passes_quiet (hquiet _ ⟨rfl, id⟩) fun _ => exitingTcpLoop_passes _ s fuel buffer
  | exitingUdp pkt pktLen ce sock =>
    refine Passes.after ((Egress.openSender_all (P := Forwarded.Aside) ⟨rfl, id⟩).mono hquiet)
      fun s _ _ => ?_
    dsimp only
    split
    · trivial
    · refine Passes.after ((Egress.openListener_all (P := Forwarded.Aside) self ⟨rfl, id⟩
        (fun _ _ => ⟨rfl, id⟩) fun _ => ⟨rfl, id⟩).mono hquiet) fun r _ _ => ?_
      refine passes_quiet (hquiet _ ⟨rfl, id⟩) fun sent => ?_
      change Passes _ _ _ (if sent < 0 then _ else _) _
      split
      · trivial
      · refine Passes.after ((updateEntry_all (P := Forwarded.Aside) ⟨rfl, id⟩).mono hquiet)
          fun _ _ _ => ?_
        exact exitingUdpLoop_passes _ r fuel buffer

end Egress

/-- What an ingress sends to a client for a frame. -/
def Returns (frame : List Byte) (output : Output) : Prop :=
  headerSize ≤ frame.length ∧ Carries output.prt (frame.drop headerSize) output.bytes

section Ingress

/-- `manage_pkt_from_chain` of the ingress, once the chain has its acknowledgement. -/
def afterAck (args : UdpArgs φ) : Handler φ Unit :=
  checked (retrieveIpHeader (args.pkt.drop headerSize)) >>= fun ipHdr =>
    .op (.retrieveConnection2 (headerEntry (retrieveHeader args.pkt) (connType ipHdr.protocol)))
      fun sock =>
        match connType ipHdr.protocol with
        | .tcp => Ingress.deliverTcp args sock
        | .udp => Ingress.deliverUdp args (retrieveHeader args.pkt) sock

theorem managePktFromChain_afterAck (args : UdpArgs φ) :
    Ingress.managePktFromChain args =
      .op (.sendto args.socketFd PacketUtils.ack args.clientAddress) fun _ => afterAck args := rfl

variable {args : UdpArgs φ}

theorem runs_payloadFrom {pktCalc : Nat} {es : List (Event (Op φ) (Reply φ))} {payload : List Byte}
    (h : (Ingress.payloadFrom args pktCalc).Runs es (.ok payload)) :
    pktCalc ≤ args.pktLen ∧ payload = (args.pkt.take args.pktLen).drop pktCalc := by
  unfold Ingress.payloadFrom at h
  split at h
  · cases h
    exact ⟨‹_›, rfl⟩
  · cases h

/-- What is behind the headers of the packet in a frame is what the packet carries. -/
theorem returns_payload {output : Output} (hlen : args.pktLen ≤ args.pkt.length)
    (hprt : connType (retrieveIpHeader (args.pkt.drop headerSize)).value.protocol = output.prt)
    {es : List (Event (Op φ) (Reply φ))}
    (h : (Ingress.payloadFrom args (headerSize +
      packetHeaderSize output.prt (args.pkt.drop headerSize))).Runs es (.ok output.bytes)) :
    Returns (args.pkt.take args.pktLen) output := by
  obtain ⟨hoff, hpayload⟩ := runs_payloadFrom h
  refine ⟨?_, ?_⟩
  · rw [List.length_take, Nat.min_eq_left hlen]
    exact (Nat.le_add_right ..).trans hoff
  · rw [hpayload]
    exact carries_frame hlen hprt hoff

/-- For a frame from the chain the ingress sends one thing at most, to the client,
and that is the payload of the packet inside. -/
theorem afterAck_passes (hlen : args.pktLen ≤ args.pkt.length) :
    Passes takesNothing writesOn (fun frame w => Returns frame w.2) (afterAck args)
      (some (args.pkt.take args.pktLen)) := by
  have hpay (pktCalc : Nat) : (Ingress.payloadFrom args pktCalc).All fun o => writesOn o = none := by
    unfold Ingress.payloadFrom
    split <;> trivial
  refine Passes.after (all_quiet (checked_all (P := fun o => writesOn o = none) _))
    fun ipHdr _ hread => ?_
  rw [runs_checked hread]
  refine passes_quiet ⟨rfl, fun _ => rfl⟩ fun sock => ?_
  split
  · rename_i hprt
    refine Passes.after (all_quiet (hpay _)) fun payload _ hpayload => ⟨fun w hw => ?_, fun n => ?_⟩
    · cases hw
      exact ⟨_, rfl, returns_payload hlen hprt hpayload⟩
    · change Passes _ _ _ (if n < 0 then _ else _) _
      split
      · trivial
      · exact passes_quiet ⟨rfl, fun _ => rfl⟩ fun _ =>
          passes_quiet ⟨rfl, fun _ => rfl⟩ fun _ => trivial
  · rename_i hprt
    refine Passes.after (all_quiet (hpay _)) fun payload _ hpayload => ⟨fun w hw => ?_, fun n => ?_⟩
    · cases hw
      exact ⟨_, rfl, returns_payload hlen hprt hpayload⟩
    · change Passes _ _ _ (if n < 0 then _ else _) _
      split
      · trivial
      · exact passes_of_all (all_quiet (deleteEntry_all (P := fun o => writesOn o = none) rfl))

def SentTo (sock : φ × SockaddrIn) : φ × Output → Prop
  | (fd, .datagram _ addr) => (fd, addr) = sock
  | (fd, .stream _) => fd = sock.1

/-- What is sent goes to where the table has pointed for the ends that the header
names and the protocol of the packet. -/
def ToFound (args : UdpArgs φ) (past : List (Event (Op φ) (Reply φ))) (o : Op φ) : Prop :=
  ∀ w, writesOn o = some w → ∃ sock,
    ⟨.retrieveConnection2 (headerEntry (retrieveHeader args.pkt) w.2.prt), sock⟩ ∈ past ∧
      SentTo sock w

theorem afterAck_toFound (args : UdpArgs φ) (past : List (Event (Op φ) (Reply φ))) :
    (afterAck args).AllPast (ToFound args) past := by
  have hsilent (past : List (Event (Op φ) (Reply φ))) (o : Op φ) (h : writesOn o = none) :
      ToFound args past o := by
    intro w hw
    rw [h] at hw
    cases hw
  have hpay (pktCalc : Nat) (past : List (Event (Op φ) (Reply φ))) :
      (Ingress.payloadFrom args pktCalc).AllPast (ToFound args) past := by
    unfold Ingress.payloadFrom
    split <;> trivial
  refine Prog.AllPast.bind ((checked_all (P := fun o => writesOn o = none) _).allPast hsilent)
    fun ipHdr _ hread => ?_
  rw [runs_checked hread]
  refine ⟨hsilent _ _ rfl, fun sock => ?_⟩
  dsimp only
  split
  · rename_i hprt
    refine Prog.AllPast.bind (hpay _ _) fun payload _ _ => ⟨fun w hw => ?_, fun n => ?_⟩
    · cases hw
      exact ⟨sock, by simp [hprt, Output.prt], rfl⟩
    · change Prog.AllPast _ (if n < 0 then _ else _) _
      split
      · trivial
      · exact ⟨hsilent _ _ rfl, fun _ => ⟨hsilent _ _ rfl, fun _ => trivial⟩⟩
  · rename_i hprt
    refine Prog.AllPast.bind (hpay _ _) fun payload _ _ => ⟨fun w hw => ?_, fun n => ?_⟩
    · cases hw
      exact ⟨sock, by simp [hprt, Output.prt], rfl⟩
    · change Prog.AllPast _ (if n < 0 then _ else _) _
      split
      · trivial
      · exact (deleteEntry_all (P := fun o => writesOn o = none) rfl).allPast hsilent

end Ingress

/-- A buffer that a packet is read from, and how many bytes have just come into its front. -/
structure Buffered where
  prt : ProtocolType
  pkt : List Byte
  pktLen : Nat
  deriving DecidableEq, Repr

namespace Buffered

def ends (b : Buffered) : Ends := readEnds b.prt b.pkt

/-- The key of the ends and the chain id that an ingress reads from a buffer. -/
def key (self : Self) (b : Buffered) : Option ConnectionEntry :=
  (self.classify b.pkt b.pktLen).value.toOption.map fun sfcid =>
    connectionEntry b.ends.saddr b.ends.daddr b.ends.source b.ends.dest sfcid b.prt

end Buffered

def filled (pkt : List Byte) : List (List Byte) → List Buffered
  | [] => []
  | bytes :: rest =>
    ⟨.tcp, overwrite pkt bytes, bytes.length⟩ :: filled (overwrite pkt bytes) rest

theorem filled_append (pkt : List Byte) (cs ds : List (List Byte)) :
    filled pkt (cs ++ ds) = filled pkt cs ++ filled (cs.foldl overwrite pkt) ds := by
  induction cs generalizing pkt with
  | nil => rfl
  | cons c cs ih => exact congrArg (List.cons _) (ih _)

/-- The buffers in which a handler of the ingress has had what a client has sent. -/
def buffers (cs : List (List Byte)) : Ingress.Callback φ → List Buffered
  | .tcp _ pkt _ => filled pkt cs
  | .udp args => [⟨.udp, args.pkt, args.pktLen⟩]
  | .vnf _ => []

/-- A buffer of the handler stays one when more is received. -/
theorem mem_buffers_append {g : Ingress.Callback φ} {cs : List (List Byte)} {b : Buffered}
    (h : b ∈ buffers cs g) (ds : List (List Byte)) : b ∈ buffers (cs ++ ds) g := by
  cases g with
  | tcp args pkt fuel =>
    rw [buffers, filled_append]
    exact List.mem_append_left _ h
  | udp args => exact h
  | vnf args => exact h

section Registering
variable {self : Self} {g : Ingress.Callback φ} {past : List (Event (Op φ) (Reply φ))}

def registers : Op φ → Option (ConnectionEntry × φ × SockaddrIn)
  | .addEntry ce fd sockin _ _ => some (ce, fd, sockin)
  | .updateEntry ce fd sockin _ => some (ce, fd, sockin)
  | _ => none

/-- A key that is registered is read from one of the handler's buffers. -/
def RegistersRead (self : Self) (g : Ingress.Callback φ) (past : List (Event (Op φ) (Reply φ)))
    (o : Op φ) : Prop :=
  ∀ ce v, registers o = some (ce, v) → ∃ b ∈ buffers (chunks past) g, b.key self = some ce

theorem registersRead_of_none (past : List (Event (Op φ) (Reply φ))) (o : Op φ)
    (h : registers o = none) : RegistersRead self g past o := by
  intro ce v hv
  rw [h] at hv
  cases hv

/-- What a handler registers after it has classified a buffer and read its headers. -/
theorem addEntry_read {b : Buffered} {sfcid : String} {fd : φ} {sockin : SockaddrIn}
    {endpoint : EndpointType} {protocol : ProtocolType} (hb : b ∈ buffers (chunks past) g)
    (hclass : (self.classify b.pkt b.pktLen).value = .ok sfcid) :
    (addEntry (connectionEntry b.ends.saddr b.ends.daddr b.ends.source b.ends.dest sfcid b.prt) fd
      sockin endpoint protocol).AllPast (RegistersRead self g) past := by
  refine ⟨fun ce v hv => ?_, fun r => (raise_all (P := fun o => registers o = none) r).allPast
    registersRead_of_none⟩
  cases hv
  exact ⟨b, hb, by rw [Buffered.key, hclass]; rfl⟩

theorem enteringRound_read {args : TcpArgs φ} {st : Ingress.Entering} {received : List Byte}
    (hb : ⟨.tcp, overwrite st.pkt received, received.length⟩ ∈ buffers (chunks past) g) :
    (Ingress.enteringRound self args st received).AllPast (RegistersRead self g) past := by
  have hsilent {α : Type} {p : Handler φ α} (past : List (Event (Op φ) (Reply φ)))
      (h : p.All fun o => registers o = none) : p.AllPast (RegistersRead self g) past :=
    h.allPast registersRead_of_none
  refine Prog.AllPast.bind (hsilent _ (classifyPkt_all self _ _)) fun sfcid es hclass => ?_
  obtain ⟨rfl, hsfcid⟩ := runs_classifyPkt hclass
  rw [List.append_nil]
  dsimp only
  split
  · refine Prog.AllPast.bind (hsilent _ (checked_all _)) fun headers es hread => ?_
    rw [runs_checked hread, runs_checked_nil hread, List.append_nil]
    refine Prog.AllPast.bind (Prog.AllPast.rescue ?_ fun stop _ _ => ?_) fun turn _ _ => ?_
    · refine Prog.AllPast.bind (addEntry_read (b := ⟨.tcp, overwrite st.pkt received,
        received.length⟩) hb (hsfcid sfcid rfl).2) fun _ _ _ => hsilent _ ?_
      refine (getRouteList_all (fun _ => rfl) _).bind fun path => ?_
      cases path with
      | nil => trivial
      | cons hop hops => exact (forward_all (fun _ _ _ => rfl) ..).bind fun _ => trivial
    · exact hsilent _ (Ingress.catchFailure_all stop)
    · cases turn <;> trivial
  · trivial

/-- A round leaves in the buffer what it was for. -/
theorem enteringRound_pkt {args : TcpArgs φ} {st : Ingress.Entering} {received : List Byte}
    {es : List (Event (Op φ) (Reply φ))} {next : Ingress.Entering × Bool}
    (h : (Ingress.enteringRound self args st received).Runs es (.ok next)) :
    next.1.pkt = overwrite st.pkt received := by
  obtain ⟨_, _, hout⟩ | ⟨sfcid, _, _, _, _, h⟩ := Prog.runs_bind.mp h
  · cases hout
  dsimp only at h
  split at h
  · obtain ⟨_, _, hout⟩ | ⟨headers, _, _, _, _, h⟩ := Prog.runs_bind.mp h
    · cases hout
    obtain ⟨_, _, hout⟩ | ⟨turn, _, _, _, _, h⟩ := Prog.runs_bind.mp h
    · cases hout
    cases turn
    all_goals
      cases h
      rfl
  · cases h
    rfl

theorem enteringLoop_read {args : TcpArgs φ} {pkt : List Byte} {fuel n : Nat} {st : Ingress.Entering}
    (hst : st.pkt = (chunks past).foldl overwrite pkt) :
    (Ingress.enteringLoop self args n st).AllPast (RegistersRead self (.tcp args pkt fuel)) past := by
  induction n generalizing st past with
  | zero => trivial
  | succ n ih =>
    refine ⟨registersRead_of_none _ _ rfl, fun reply => ?_⟩
    match reply with
    | none => trivial
    | some [] => trivial
    | some (b :: bs) =>
      have hchunks : chunks (past ++ [⟨.recv args.newSocketFd bufferSize, some (b :: bs)⟩]) =
          chunks past ++ [b :: bs] := chunks_append ..
      change Prog.AllPast _ (Ingress.enteringRound self args st (b :: bs) >>= _) _
      refine Prog.AllPast.bind (enteringRound_read ?_) fun next es hround => ?_
      · rw [hchunks, hst, buffers, filled_append]
        exact List.mem_append_right _ List.mem_cons_self
      have hquiet : chunks es = [] :=
        chunks_quiet (hround.all (Ingress.enteringRound_all (P := fun o => ¬ Receives o) self
          (fun _ => id) (fun _ => id) (fun _ _ _ => id) _ _))
      dsimp only
      split
      · refine ih ?_
        rw [chunks_append, hquiet, List.append_nil, hchunks, List.foldl_append, enteringRound_pkt hround,
          hst]
        rfl
      · trivial

/-- The handlers of an ingress register no keys but those they read. -/
theorem start_registersRead (self : Self) (g : Ingress.Callback φ) :
    (Ingress.start self g).AllPast (RegistersRead self g) [] := by
  cases g with
  | tcp args pkt fuel =>
    refine Prog.AllPast.bind (enteringLoop_read rfl) fun last _ _ => ?_
    exact (Ingress.afterLoop_all (P := fun o => registers o = none) (fun _ => rfl) rfl _ _).allPast
      registersRead_of_none
  | udp args =>
    have hsilent {α : Type} {p : Handler φ α} (past : List (Event (Op φ) (Reply φ)))
        (h : p.All fun o => registers o = none) : p.AllPast (RegistersRead self (.udp args)) past :=
      h.allPast registersRead_of_none
    refine Prog.AllPast.bind (hsilent _ (classifyPkt_all self _ _)) fun sfcid _ hclass => ?_
    refine Prog.AllPast.bind (hsilent _ (checked_all _)) fun headers _ hread => ?_
    rw [runs_checked hread]
    refine Prog.AllPast.bind (addEntry_read (b := ⟨.udp, args.pkt, args.pktLen⟩) List.mem_cons_self
      ((runs_classifyPkt hclass).2 sfcid rfl).2) fun _ _ _ => hsilent _ ?_
    refine (getRouteList_all (fun _ => rfl) sfcid).bind fun path => ?_
    cases path with
    | nil => trivial
    | cons hop hops => exact forward_all (fun _ _ _ => rfl) ..
  | vnf args =>
    refine (Ingress.managePktFromChain_all (P := fun o => registers o = none) rfl ?_ ?_ ?_ ?_ ?_
      ?_).allPast registersRead_of_none
    all_goals
      intros
      rfl

end Registering

end Ironhide.Proofs.Returning
