import Ironhide.Model.Egress
import Ironhide.Proofs.Classify
import Ironhide.Proofs.Forwarded
import Ironhide.Proofs.FromChain

namespace Ironhide.Proofs.Protocols
open Model Lib.Bytes Lib.Program PacketUtils SfcUtilities Framing Observed Classify FromChain

variable {φ : Type}

def protocolByte (pkt : List Byte) : Byte := (Iphdr.read pkt).protocol

def number : ProtocolType → Byte
  | .tcp => 6
  | .udp => 17

/-- What the mapper finds a chain for: long enough to look at, without options,
and of a protocol it knows. -/
structure Inspected (c : List Byte) : Prop where
  long : ipHdrLen < c.length
  plain : ipPktLen c ≤ ipHdrLen
  known : KnownProtocol c

section Inspected
variable {c : List Byte} (rest : List Byte)

theorem retrieveIpHeader_append (hlong : ipHdrLen < c.length) (hplain : ipPktLen c ≤ ipHdrLen) :
    (retrieveIpHeader (c ++ rest)).value = (retrieveIpHeader c).value := by
  have hne : c ≠ [] := by
    rintro rfl
    cases hlong
  simp only [retrieveIpHeader, ipPktLen_append hne rest]
  rw [List.take_append_of_le_length (by omega)]

/-- The protocol of such a packet is the one in its protocol byte. -/
theorem Inspected.protocol (h : Inspected c) :
    (retrieveIpHeader c).value.protocol = protocolByte c := by
  have hknown := h.known
  change read8 (c.take (ipPktLen c)) 9 = read8 c 9
  change read8 (c.take (ipPktLen c)) 9 = 6 ∨ read8 (c.take (ipPktLen c)) 9 = 17 at hknown
  by_cases hlen : 9 < ipPktLen c
  · exact read8_take hlen
  · -- a shorter copy would have left the byte zero
    have hnone : (c.take (ipPktLen c))[9]? = none :=
      List.getElem?_eq_none (by rw [List.length_take]; omega)
    have hzero : read8 (c.take (ipPktLen c)) 9 = 0 := by
      rw [read8, List.getD_eq_getElem?_getD, hnone]
      rfl
    rw [hzero] at hknown
    exact absurd hknown (by decide)

/-- The source's mapper finds a chain for nothing else. -/
theorem inspected_of_runs {myIp sfcid : String} {extPort : BitVec 16}
    {es : List (Event (Op φ) (Reply φ))}
    (h : (classifyPkt (Self.source myIp extPort) (c ++ rest) c.length).Runs es (.ok sfcid)) :
    Inspected c := by
  rw [classifyPkt_source] at h
  split at h
  · rename_i hlong
    have hne : c ≠ [] := by
      rintro rfl
      cases hlong
    rw [ipPktLen_append hne] at h
    split at h
    · rename_i hplain
      rw [retrieveIpHeader_append rest hlong hplain] at h
      split at h
      · rename_i hknown
        exact ⟨hlong, hplain, hknown⟩
      · cases h
    · cases h
  · cases h

end Inspected

/-- What an external handler registers and sends: keys of its server's protocol,
and inspected packets. -/
def Accepting (prt : ProtocolType) : Op φ → Prop
  | .addEntry ce .. => ce.prt = prt
  | .sendAndWaitResponse m _ _ => ∃ h c, m = SfcHeader.bytes h ++ c ∧ Inspected c
  | _ => True

section Accepting
variable {myIp : String} {extPort : BitVec 16}

theorem forward_accepting {prt : ProtocolType} {c pkt : List Byte} {size : Nat}
    (hpkt : pkt.take size = c) (hc : Inspected c) (sfcid : String) (path : List Address)
    (hop : Address) (saddr : BitVec 32) (source : BitVec 16) (daddr : BitVec 32)
    (dest : BitVec 16) (direction : Byte) :
    (forward sfcid path hop saddr source daddr dest direction pkt size : Handler φ Unit).All
      (Accepting prt) := by
  subst hpkt
  refine (servicePathId_all sfcid).bind fun pId => ⟨⟨_, _, rfl, hc⟩, fun resolved => ?_⟩
  cases resolved <;> trivial

theorem enteringRound_accepting (args : TcpArgs φ) (st : Ingress.Entering) (received : List Byte) :
    (Ingress.enteringRound (Self.source myIp extPort) args st received).All (Accepting .tcp) := by
  refine (classifyPkt_all _ _ _).bind_runs fun sfcid es hrun => ?_
  have hc : Inspected received := inspected_of_runs _ hrun
  dsimp only
  split
  · refine (checked_all _).bind fun headers => ?_
    refine Prog.All.bind (Prog.All.rescue ?_ Ingress.catchFailure_all) fun turn => ?_
    · refine Prog.All.bind (addEntry_all ?_) fun _ => ?_
      · rfl
      refine (getRouteList_all (P := Accepting .tcp) (fun _ => trivial) _).bind fun path => ?_
      cases path with
      | nil => trivial
      | cons hop hops =>
        exact (forward_accepting List.take_left hc ..).bind fun _ => trivial
    · cases turn <;> trivial
  · trivial

theorem manageEnteringTcpPackets_accepting (args : TcpArgs φ) (pkt : List Byte) (fuel : Nat) :
    (Ingress.manageEnteringTcpPackets (Self.source myIp extPort) args pkt fuel).All
      (Accepting .tcp) := by
  have hloop (n : Nat) (st : Ingress.Entering) :
      (Ingress.enteringLoop (Self.source myIp extPort) args n st).All (Accepting .tcp) := by
    induction n generalizing st with
    | zero => trivial
    | succ n ih =>
      refine ⟨trivial, fun reply => ?_⟩
      match reply with
      | none => trivial
      | some [] => trivial
      | some (b :: bs) =>
        refine (enteringRound_accepting args st (b :: bs)).bind fun next => ?_
        obtain ⟨st', again⟩ := next
        cases again with
        | false => trivial
        | true => exact ih st'
  refine (hloop fuel _).bind fun last => ?_
  exact Ingress.afterLoop_all (P := Accepting .tcp) (fun _ => trivial) trivial _ _

theorem manageEnteringUdpPackets_accepting {args : UdpArgs φ} (hlen : args.pktLen ≤ args.pkt.length) :
    (Ingress.manageEnteringUdpPackets (Self.source myIp extPort) args).All (Accepting .udp) := by
  have hc : (args.pkt.take args.pktLen).length = args.pktLen := List.length_take_of_le hlen
  refine (classifyPkt_all _ _ _).bind_runs fun sfcid es hrun => ?_
  have hinspected : Inspected (args.pkt.take args.pktLen) := by
    apply inspected_of_runs (args.pkt.drop args.pktLen)
    rwa [hc, List.take_append_drop]
  refine (checked_all _).bind fun headers => ?_
  refine Prog.All.bind (addEntry_all ?_) fun _ => ?_
  · rfl
  refine (getRouteList_all (P := Accepting .udp) (fun _ => trivial) _).bind fun path => ?_
  cases path with
  | nil => trivial
  | cons hop hops => exact forward_accepting rfl hinspected ..

end Accepting

inductive External (myIp : String) (extPort : BitVec 16) :
    ProtocolType → Handler φ Unit → Prop where
  | tcp (args : TcpArgs φ) (pkt : List Byte) (fuel : Nat) : External myIp extPort .tcp
    (Ingress.manageEnteringTcpPackets (Self.source myIp extPort) args pkt fuel)
  | udp (args : UdpArgs φ) (h : args.pktLen ≤ args.pkt.length) : External myIp extPort .udp
    (Ingress.manageEnteringUdpPackets (Self.source myIp extPort) args)

theorem External.accepting {myIp : String} {extPort : BitVec 16} {prt : ProtocolType}
    {p : Handler φ Unit} (h : External myIp extPort prt p) : p.All (Accepting prt) := by
  cases h with
  | tcp args pkt fuel => exact manageEnteringTcpPackets_accepting args pkt fuel
  | udp args hlen => exact manageEnteringUdpPackets_accepting hlen

def taskPrt : Model.Task φ → ProtocolType
  | .exitingTcp .. => .tcp
  | .exitingUdp .. => .udp

def HandledAs (prt : ProtocolType) : Op φ → Prop
  | .retrieveConnection2 k => k.prt = prt
  | .goAsync task => taskPrt task = prt
  | _ => True

theorem egress_handledAs (args : UdpArgs φ) :
    (Egress.managePktFromChain args).All (HandledAs (chainPrt args)) := by
  refine ⟨trivial, fun _ => ?_⟩
  by_cases hin : (retrieveIpUdpHeader (args.pkt.drop headerSize)).inBounds = true
  · rw [checked_ok hin]
    refine ⟨rfl, fun sock => ?_⟩
    dsimp only
    split
    · rename_i hprt
      exact ⟨Eq.symm hprt, fun _ => trivial⟩
    · rename_i hprt
      exact ⟨Eq.symm hprt, fun _ => trivial⟩
  · rw [checked_overrun hin]
    trivial

theorem ingress_handledAs (args : UdpArgs φ) :
    (Ingress.managePktFromChain args).All (HandledAs (chainPrt args)) := by
  by_cases hfits : Fits args
  · rw [managePktFromChain_eq args hfits]
    refine ⟨trivial, fun _ => ⟨rfl, fun sock => ?_⟩⟩
    change (deliver args sock).All _
    by_cases hlen : payloadOffset args ≤ args.pktLen
    · cases hprt : chainPrt args with
      | tcp =>
        rw [deliver_tcp args sock hprt hlen]
        refine ⟨trivial, fun respC => ?_⟩
        dsimp only
        split
        · trivial
        · exact ⟨trivial, fun _ => ⟨trivial, fun _ => trivial⟩⟩
      | udp =>
        rw [deliver_udp args sock hprt hlen]
        refine ⟨trivial, fun respC => ?_⟩
        dsimp only
        split
        · trivial
        · exact deleteEntry_all (P := HandledAs .udp) trivial
    · rw [deliver_short args sock hlen]
      trivial
  · rw [managePktFromChain_overrun args hfits]
    exact ⟨trivial, fun _ => trivial⟩

/-- The chain hands the packet on; its protocol is read off its protocol byte. -/
theorem chainPrt_sent {args : UdpArgs φ} {h : SfcHeader} {c : List Byte} (hc : Inspected c)
    (hpkt : h.bytes ++ c <+: args.pkt) : chainPrt args = connType (protocolByte c) := by
  obtain ⟨stale, hpkt⟩ := hpkt
  rw [chainPrt, ← hpkt, List.append_assoc, drop_bytes_append,
    retrieveIpHeader_append stale hc.long hc.plain, hc.protocol]

theorem connType_iff {b : Byte} (h : b = 6 ∨ b = 17) (prt : ProtocolType) :
    connType b = prt ↔ b = number prt := by
  rcases h with rfl | rfl
  · cases prt <;> decide
  · cases prt <;> decide

/-- An accepted packet is handled under the protocol of the server that took it
exactly when its own protocol byte says so too. -/
theorem protocols_agree_iff {myIp : String} {extPort : BitVec 16} {prt prt' : ProtocolType}
    {p : Handler φ Unit} {es es' : List (Event (Op φ) (Reply φ))} {out out' : Except Stop Unit}
    {ce k : ConnectionEntry} {fd : φ} {sockin : SockaddrIn} {endpoint : EndpointType}
    {r : Except Exn Unit} {m : List Byte} {args : UdpArgs φ} {sock : φ × SockaddrIn}
    (hin : External myIp extPort prt p) (hrun : p.Runs es out)
    (hadd : ⟨.addEntry ce fd sockin endpoint prt', r⟩ ∈ es) (hm : m ∈ messages es)
    (hpkt : m <+: args.pkt)
    (hchain : (Egress.managePktFromChain args).Runs es' out' ∨
      (Ingress.managePktFromChain args).Runs es' out')
    (hlook : ⟨.retrieveConnection2 k, sock⟩ ∈ es') :
    (k.prt = ce.prt ∧ ∀ task, ⟨.goAsync task, ()⟩ ∈ es' → taskPrt task = ce.prt) ↔
      protocolByte (m.drop headerSize) = number prt := by
  have hall := hrun.all hin.accepting
  have hce : ce.prt = prt := hall _ hadd
  obtain ⟨dst, port, h, c, rfl, hc⟩ := mem_messages hm hall
  have hhandled : ∀ e ∈ es', HandledAs (chainPrt args) e.op := by
    rcases hchain with hchain | hchain
    · exact hchain.all (egress_handledAs args)
    · exact hchain.all (ingress_handledAs args)
  have hk : k.prt = chainPrt args := hhandled _ hlook
  have hknown := hc.known
  rw [KnownProtocol, hc.protocol] at hknown
  rw [drop_bytes_append, hce, hk, ← connType_iff hknown, ← chainPrt_sent hc hpkt]
  refine ⟨fun hparts => hparts.1, fun hprt => ⟨hprt, fun task htask => ?_⟩⟩
  have htask : taskPrt task = chainPrt args := hhandled _ htask
  exact htask.trans hprt

section Sample
open Keys Forwarded

def mislabelled : Packet UdpHeader where
  ip := plainIp 6
  transport := plainUdp
  payload := udpPacket.payload
  ipHeader := plainIp_header 6
  transportHeader := udpPacket.transportHeader

def mislabelledFrame : List Byte := (sampleConnection.header 1 0).bytes ++ mislabelled.bytes

/-- The UDP server registers it under UDP, the egress looks it up under TCP. -/
theorem mislabelled_lost :
    (Ingress.manageEnteringUdpPackets proxy (udpArgs mislabelled.bytes)).Runs
      [⟨.addEntry (sampleConnection.entry .udp) 3 SockaddrIn.zero .ingressT .udp, .ok ()⟩,
        ⟨.getRouteList 0, .ok [hop]⟩,
        ⟨.sendAndWaitResponse mislabelledFrame hop.address hop.port, true⟩] (.ok ()) ∧
    (Egress.managePktFromChain (udpArgs mislabelledFrame)).Runs
      [⟨.sendto 3 ack SockaddrIn.zero, 3⟩,
        ⟨.retrieveConnection2 (sampleConnection.entry .tcp), (-1, SockaddrIn.zero)⟩,
        ⟨.goAsync (.exitingTcp mislabelledFrame mislabelledFrame.length
          (sampleConnection.entry .tcp) (-1)), ()⟩] (.ok ()) ∧
    sampleConnection.entry .tcp ≠ sampleConnection.entry .udp := by
  have hof : mislabelled.Of sampleConnection := ⟨rfl, rfl, rfl, rfl⟩
  have henters : sampleConnection.Enters proxy (udpArgs mislabelled.bytes) :=
    hof.enters (List.append_nil _).symm ⟨by decide, by decide⟩
  have hce : headerEntry (retrieveHeader mislabelledFrame) .tcp = sampleConnection.entry .tcp := by
    rw [mislabelledFrame, retrieveHeader_append, sampleConnection.headerEntry_header]
  refine ⟨enters_runs henters (by decide) hop [], ?_, by simp [Connection.entry, connectionEntry]⟩
  rw [← hce]
  exact .op (.op (.op (.ret ())))

/-- The sample datagram as the egress takes it from the chain. -/
theorem udpPacket_protocols_agree :
    ((sampleConnection.entry .udp).prt = (sampleConnection.entry .udp).prt ∧
      ∀ task, ⟨.goAsync task, ()⟩ ∈ udpArrived → taskPrt task = (sampleConnection.entry .udp).prt) ↔
      protocolByte (udpFrame.drop headerSize) = number .udp := by
  obtain ⟨_, hrun⟩ := udpPacket_runs
  obtain ⟨_, hadd⟩ := udpPacket_added
  obtain ⟨_, hlook⟩ := Prog.exists_reply (show ∃ e ∈ udpArrived,
    e.op = .retrieveConnection2 (sampleConnection.entry .udp) by decide +kernel)
  exact protocols_agree_iff (.udp (udpArgs udpPacket.bytes) le_rfl) hrun hadd udpPacket_sent
    (List.prefix_rfl : udpFrame <+: (udpArgs udpFrame).pkt) (.inl (Prog.runs_exec _ _ _)) hlook

end Sample

end Ironhide.Proofs.Protocols
