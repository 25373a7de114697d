import Ironhide.Proofs.FromChain
import Ironhide.Proofs.SendBack
import Mathlib.Data.List.Flatten
import Mathlib.Data.List.Forall2

namespace Ironhide.Proofs.ReturnTcp
open Model Lib.Bytes Lib.Program PacketUtils SfcUtilities Framing Observed FromChain SendBack

variable {φ ψ : Type}

section Egress
variable (self : Self) (header : SfcHeader)

/-- The chunks of an answer and the frames they are returned in, one by one. -/
def Framed (cs ms : List (List Byte)) : Prop :=
  List.Forall₂ (fun c m => ∃ buffer, AnswerFrame self header buffer c m) cs ms

theorem sendBack_framed {buffer c : List Byte} {noRoute again : Bool}
    {es : List (Event (Op φ) (Reply φ))} {out : Except Stop Bool}
    (h : (Egress.sendBack self header (overwrite buffer c) c.length noRoute again).Runs es out) :
    chunks es = [] ∧ ∃ cs, cs.Sublist [c] ∧ Framed self header cs (messages es) := by
  obtain ⟨hc, hm | ⟨m, hm, hframe⟩⟩ := sendBack_messages h
  · exact ⟨hc, [], List.nil_sublist _, hm ▸ .nil⟩
  · exact ⟨hc, [c], List.Sublist.refl _, hm ▸ .cons ⟨buffer, hframe⟩ .nil⟩

/-- The response loop returns chunks in the order it has read them. -/
theorem exitingTcpLoop_framed (socket : φ) (n : Nat) (buffer : List Byte)
    {es : List (Event (Op φ) (Reply φ))} {out : Except Stop Unit}
    (h : (Egress.exitingTcpLoop self header socket n buffer).Runs es out) :
    ∃ cs, cs.Sublist (chunks es) ∧ Framed self header cs (messages es) := by
  induction n generalizing buffer es out with
  | zero =>
    obtain ⟨rfl, _⟩ := Prog.runs_throw.mp h
    exact ⟨[], List.nil_sublist _, .nil⟩
  | succ n ih =>
    obtain rfl | rfl | ⟨b, bs, es₁, rfl, h₁⟩ := Egress.runs_exitingTcpLoop h
    · exact ⟨[], List.nil_sublist _, .nil⟩
    · exact ⟨[], List.nil_sublist _, .nil⟩
    · change ∃ cs, cs.Sublist ([b :: bs] ++ chunks es₁) ∧ Framed self header cs (messages es₁)
      rw [Prog.runs_bind] at h₁
      rcases h₁ with ⟨x, hx, rfl⟩ | ⟨again, es₂, es₃, rfl, hx, h₂⟩
      · obtain ⟨hc, cs, hsub, hframed⟩ := sendBack_framed self header hx
        rw [hc, List.append_nil]
        exact ⟨cs, hsub, hframed⟩
      · obtain ⟨hc, cs, hsub, hframed⟩ := sendBack_framed self header hx
        have hrest : ∃ cs', cs'.Sublist (chunks es₃) ∧ Framed self header cs' (messages es₃) := by
          cases again with
          | false =>
            obtain ⟨rfl, _⟩ := Prog.runs_ret.mp h₂
            exact ⟨[], List.nil_sublist _, .nil⟩
          | true => exact ih _ h₂
        obtain ⟨cs', hsub', hframed'⟩ := hrest
        rw [chunks_append, messages_append, hc, List.nil_append]
        exact ⟨cs ++ cs', hsub.append hsub', List.rel_append hframed hframed'⟩

/-- The handler's own writes come before it reads anything. -/
theorem manageExitingTcpPackets_framed [Descriptor φ] (pkt : List Byte) (pktLen : Nat)
    (ce : ConnectionEntry) (socket : φ) (buffer : List Byte) (fuel : Nat)
    {es : List (Event (Op φ) (Reply φ))} {out : Except Stop Unit}
    (h : (Egress.manageExitingTcpPackets self pkt pktLen ce socket buffer fuel).Runs es out) :
    ∃ cs, cs.Sublist (chunks es) ∧ Framed self (retrieveHeader pkt) cs (messages es) := by
  simp only [Egress.manageExitingTcpPackets] at h
  split at h
  · obtain ⟨rfl, _⟩ := Prog.runs_throw.mp h
    exact ⟨[], List.nil_sublist _, .nil⟩
  · have hquiet {es₁ : List (Event (Op φ) (Reply φ))} {out₁ : Except Stop φ}
        (hd : (Egress.destination (retrieveHeader pkt) ce socket).Runs es₁ out₁) :
        chunks es₁ = [] ∧ messages es₁ = [] := by
      obtain ⟨rfl, _⟩ | ⟨_, _, rfl, _⟩ | ⟨_, _, _, _, _, rfl, _⟩ | ⟨_, _, _, _, rfl, _⟩ :=
        Egress.runs_destination _ _ _ hd
      all_goals exact ⟨rfl, rfl⟩
    rw [Prog.runs_bind] at h
    rcases h with ⟨x, hd, rfl⟩ | ⟨s, es₁, es₂, rfl, hd, h⟩
    · rw [(hquiet hd).1, (hquiet hd).2]
      exact ⟨[], List.nil_sublist _, .nil⟩
    · obtain ⟨r, es₃, rfl, hloop⟩ := Prog.runs_op.mp h
      rw [chunks_append, messages_append, (hquiet hd).1, (hquiet hd).2]
      obtain ⟨cs, hsub, hframed⟩ := exitingTcpLoop_framed self (retrieveHeader pkt) s fuel buffer hloop
      exact ⟨cs, hsub, hframed⟩

end Egress

section Ingress

/-- What the source's classifier lets through begins with an IP header of at
least twelve bytes: a protocol was read from it. -/
theorem classified_header {myIp : String} {extPort : BitVec 16} {header : SfcHeader}
    {buffer c m : List Byte} (h : AnswerFrame (Self.source myIp extPort) header buffer c m) :
    ∃ hdr : SfcHeader, m = hdr.bytes ++ c ∧ ipHdrLen < c.length ∧ 12 ≤ ipPktLen c := by
  obtain ⟨sfcid, n, hops, _, hvalue, _, rfl⟩ := h
  have hlen : ipHdrLen < c.length := by
    by_contra hc
    simp [Self.source, Classifier.classifyPkt, Classifier.setPkt, hc, Classifier.sfcMap] at hvalue
  have hprot : read8 ((overwrite buffer c).take (ipPktLen (overwrite buffer c))) 9 ≠ 0 := by
    intro h0
    simp [Self.source, Classifier.classifyPkt, Classifier.setPkt, hlen, Classifier.sfcMap,
      retrieveIpHeader, Iphdr.read, h0] at hvalue
  have hne : 9 < ipPktLen (overwrite buffer c) := by
    by_contra hc
    exact hprot (by simp [read8, hc])
  have hcne : c ≠ [] := by
    intro hnil
    simp [hnil] at hlen
  rw [overwrite, ipPktLen_append hcne, ipPktLen_first] at hne
  refine ⟨_, rfl, hlen, ?_⟩
  rw [ipPktLen_first]
  omega

variable [DecidableEq ψ] (fd : ψ)

/-- Once the payload has been sent, nothing more is written. -/
theorem settled_quiet {r : Int} {stop : Stop} {rest : Handler ψ Unit}
    {es : List (Event (Op ψ) (Reply ψ))} {out : Except Stop Unit}
    (h : (if r < 0 then .throw stop else rest : Handler ψ Unit).Runs es out)
    (hrest : rest.All fun o => written o = none) : writtenOn fd es = [] := by
  refine writtenOn_quiet fd (h.all (P := fun o => written o = none) ?_)
  split
  · trivial
  · exact hrest

/-- A packet from the chain costs at least its SFC and IP headers: no more than
what is behind them is written on the client's descriptor. -/
theorem managePktFromChain_written (args : UdpArgs ψ) (hsrv : args.socketFd ≠ fd)
    {es : List (Event (Op ψ) (Reply ψ))} {out : Except Stop Unit}
    (h : (Ingress.managePktFromChain args).Runs es out) :
    (writtenOn fd es).length ≤
      args.pktLen - (headerSize + ipPktLen (args.pkt.drop headerSize)) := by
  have hack (n : Int) (es' : List (Event (Op ψ) (Reply ψ))) :
      writtenOn fd (⟨.sendto args.socketFd ack args.clientAddress, n⟩ :: es') = writtenOn fd es' := by
    rw [writtenOn_sendto, if_neg hsrv, List.nil_append]
  have hpay : (chainPayload args).length ≤
      args.pktLen - (headerSize + ipPktLen (args.pkt.drop headerSize)) := by
    rw [chainPayload, List.length_drop, List.length_take, payloadOffset]
    cases chainPrt args with
    | tcp =>
      simp only [tcpPacketHeaderSize]
      omega
    | udp =>
      simp only [udpPacketHeaderSize]
      omega
  by_cases hfit : Fits args
  · rw [managePktFromChain_eq args hfit] at h
    obtain ⟨n, es₁, rfl, h₁⟩ := Prog.runs_op.mp h
    obtain ⟨sock, es₂, rfl, h₂⟩ := Prog.runs_op.mp h₁
    rw [hack]
    change (writtenOn fd es₂).length ≤ _
    by_cases hoff : payloadOffset args ≤ args.pktLen
    · cases hp : chainPrt args with
      | tcp =>
        rw [deliver_tcp args sock hp hoff] at h₂
        obtain ⟨r, es₃, rfl, h₃⟩ := Prog.runs_op.mp h₂
        have hquiet : writtenOn fd es₃ = [] :=
          settled_quiet fd h₃ ⟨rfl, fun _ => ⟨rfl, fun _ => trivial⟩⟩
        rw [writtenOn_send, hquiet, List.append_nil]
        exact (writtenOn_length_le fd r sock.1 _).trans hpay
      | udp =>
        rw [deliver_udp args sock hp hoff] at h₂
        obtain ⟨r, es₃, rfl, h₃⟩ := Prog.runs_op.mp h₂
        have hquiet : writtenOn fd es₃ = [] :=
          settled_quiet fd h₃ (deleteEntry_all (P := fun o => written o = none) rfl)
        rw [writtenOn_sendto, hquiet, List.append_nil]
        exact (writtenOn_length_le fd r sock.1 _).trans hpay
    · rw [deliver_short args sock hoff] at h₂
      obtain ⟨rfl, _⟩ := Prog.runs_throw.mp h₂
      exact Nat.zero_le _
  · rw [managePktFromChain_overrun args hfit] at h
    obtain ⟨n, es₁, rfl, h₁⟩ := Prog.runs_op.mp h
    obtain ⟨rfl, _⟩ := Prog.runs_throw.mp h₁
    rw [hack]
    exact Nat.zero_le _

/-- The ingress handles frames one after the other, each in a buffer it was
received into, until one takes the process down. The bytes are those it writes
on the descriptor `fd`. -/
inductive Returned : List (List Byte) → List Byte → Prop where
  | done : Returned [] []
  | next {m : List Byte} {ms : List (List Byte)} {w : List Byte} {args : UdpArgs ψ}
      {es : List (Event (Op ψ) (Reply ψ))} :
      m <+: args.pkt → args.pktLen = m.length → args.socketFd ≠ fd →
      (Ingress.managePktFromChain args).Runs es (.ok ()) → Returned ms w →
      Returned (m :: ms) (writtenOn fd es ++ w)
  | down {m : List Byte} {ms : List (List Byte)} {args : UdpArgs ψ}
      {es : List (Event (Op ψ) (Reply ψ))} {stop : Stop} :
      m <+: args.pkt → args.pktLen = m.length → args.socketFd ≠ fd →
      (Ingress.managePktFromChain args).Runs es (.error stop) →
      Returned (m :: ms) (writtenOn fd es)

section Lengths
variable {myIp : String} {extPort : BitVec 16} {header : SfcHeader}

/-- Of a chunk that comes back at least twelve bytes are missing. -/
theorem frame_written {buffer c m : List Byte} {args : UdpArgs ψ}
    (hframe : AnswerFrame (Self.source myIp extPort) header buffer c m)
    (hpkt : m <+: args.pkt) (hlen : args.pktLen = m.length) (hsrv : args.socketFd ≠ fd)
    {es : List (Event (Op ψ) (Reply ψ))} {out : Except Stop Unit}
    (h : (Ingress.managePktFromChain args).Runs es out) :
    (writtenOn fd es).length + 12 ≤ c.length := by
  obtain ⟨hdr, rfl, hlong, hip⟩ := classified_header hframe
  obtain ⟨stale, hpkt⟩ := hpkt
  have hw := managePktFromChain_written fd args hsrv h
  have hne : c ≠ [] := by
    intro hnil
    simp [hnil] at hlong
  rw [← hpkt, List.append_assoc, drop_bytes_append, ipPktLen_append hne, hlen, List.length_append,
    bytes_length] at hw
  simp only [ipHdrLen] at hlong
  omega

theorem returned_shorter {cs ms : List (List Byte)} {w : List Byte}
    (hf : Framed (Self.source myIp extPort) header cs ms) (h : Returned fd ms w) :
    (cs = [] ∧ w = []) ∨ w.length < cs.flatten.length := by
  induction h generalizing cs with
  | done =>
    cases hf
    exact Or.inl ⟨rfl, rfl⟩
  | next hpkt hlen hsrv hrun _ ih =>
    cases hf with
    | cons hframe hrest =>
      obtain ⟨buffer, hframe⟩ := hframe
      have hfirst := frame_written fd hframe hpkt hlen hsrv hrun
      rw [List.flatten_cons, List.length_append, List.length_append]
      obtain ⟨rfl, rfl⟩ | hlater := ih hrest
      · exact Or.inr (by rw [List.length_nil]; omega)
      · exact Or.inr (by omega)
  | down hpkt hlen hsrv hrun =>
    cases hf with
    | cons hframe hrest =>
      obtain ⟨buffer, hframe⟩ := hframe
      have hfirst := frame_written fd hframe hpkt hlen hsrv hrun
      rw [List.flatten_cons, List.length_append]
      exact Or.inr (by omega)

end Lengths

end Ingress

/-- Whatever the destination writes, and however it is read, the bytes the
ingress writes to the client are the same only when there are none: bytes that
do not start with IP and transport headers are refused by the classifier, and
bytes that do come back without them. -/
theorem returned_eq_iff_nil [Descriptor φ] [DecidableEq ψ] (myIp : String) (extPort : BitVec 16)
    (pkt : List Byte) (pktLen : Nat) (ce : ConnectionEntry) (socket : φ) (buffer : List Byte)
    (fuel : Nat) (fd : ψ) {es : List (Event (Op φ) (Reply φ))} {out : Except Stop Unit}
    {answer w : List Byte}
    (h : (Egress.manageExitingTcpPackets (Self.source myIp extPort) pkt pktLen ce socket buffer
      fuel).Runs es out)
    (hread : received es <+: answer) (hw : Returned fd (messages es) w) :
    w = answer ↔ answer = [] := by
  obtain ⟨cs, hsub, hframed⟩ :=
    manageExitingTcpPackets_framed (Self.source myIp extPort) pkt pktLen ce socket buffer fuel h
  have hle : cs.flatten.length ≤ answer.length :=
    (List.Sublist.flatten hsub).length_le.trans hread.length_le
  obtain ⟨rfl, rfl⟩ | hshort := returned_shorter fd hframed hw
  · exact eq_comm
  · constructor
    · intro heq
      rw [heq] at hshort
      omega
    · intro hnil
      rw [hnil, List.length_nil] at hle
      omega

def newConnection : Handler Int Unit :=
  Egress.manageExitingTcpPackets (Self.source "10.0.0.9" 57000)
    ((createHeader 0 0 "10.0.0.1" 0x8813 "10.0.1.1" 0x5000 3 0).bytes ++ tcpPacket) 67
    ⟨"10.0.0.1", "10.0.1.1", 5000, 80, "0", .tcp⟩ (-1) [] 4

def destinationRun (cs : List (List Byte)) : List (Event (Op Int) (Reply Int)) × Except Stop Unit :=
  newConnection.exec (grant 7 ⟨"10.0.2.1", 57000, false⟩) cs

def answerFrame : List Byte :=
  (createHeader 0 0 "10.0.0.1" 0x8813 "10.0.1.1" 0x5000 3 1).bytes ++ tcpPacket

theorem answerFrame_returned : Returned (5 : Int) [answerFrame] ([0x61, 0x62, 0x63] ++ []) := by
  have hrun := Prog.runs_exec (grant (5 : Int) ⟨"10.0.2.1", 57000, false⟩)
    (Ingress.managePktFromChain ⟨3, SockaddrIn.zero, answerFrame, answerFrame.length⟩) []
  exact .next List.prefix_rfl rfl (by decide) hrun .done

/-- Even a destination that speaks IP loses the headers it wrote. -/
theorem packet_returned_short : [0x61, 0x62, 0x63] ++ [] = tcpPacket ↔ tcpPacket = [] := by
  have hframe : messages (destinationRun [tcpPacket]).1 = [answerFrame] := by decide +kernel
  exact returned_eq_iff_nil "10.0.0.9" 57000 _ _ _ _ _ _ (5 : Int)
    (Prog.runs_exec (grant (7 : Int) ⟨"10.0.2.1", 57000, false⟩) newConnection [tcpPacket])
    (by decide +kernel) (hframe ▸ answerFrame_returned)

def hello : List Byte := [0x68, 0x65, 0x6c, 0x6c, 0x6f]

/-- A destination that answers the first packet in plain text: no frame comes back. -/
theorem hello_not_returned :
    newConnection.Runs (destinationRun [hello]).1
      (.error (.exn .outOfRange)) ∧
    received (destinationRun [hello]).1 = hello ∧
    ∀ w, Returned (5 : Int) (messages (destinationRun [hello]).1) w →
      w ≠ hello := by
  have hnone : messages (destinationRun [hello]).1 = [] := by
    decide +kernel
  refine ⟨?_, by decide +kernel, ?_⟩
  · exact Prog.runs_exec (grant (7 : Int) ⟨"10.0.2.1", 57000, false⟩) newConnection
      [hello]
  · intro w hw
    rw [hnone] at hw
    cases hw
    decide

end Ironhide.Proofs.ReturnTcp
