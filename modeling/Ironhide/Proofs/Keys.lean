import Ironhide.Model.Ingress
import Ironhide.Proofs.Connection
import Ironhide.Proofs.Observed

namespace Ironhide.Proofs.Keys
open Model Lib.Bytes Lib.Text Lib.Program PacketUtils SfcUtilities Framing Observed

variable {φ : Type}

/-- What an operation of an accepting handler may say of the connection: the key
it registers, the header it sends. -/
def OfConnection (c : Connection) (prt : ProtocolType) : Op φ → Prop
  | .addEntry ce .. => ce = c.entry prt
  | .sendAndWaitResponse m _ _ => ∃ hops rest, m = (c.header hops 0).bytes ++ rest
  | _ => True

theorem sent_ofConnection (c : Connection) (prt : ProtocolType) (hops : Nat) (pkt : List Byte)
    (hop : Address) :
    (Prog.op (.sendAndWaitResponse ((c.header hops 0).bytes ++ pkt) hop.address hop.port)
      fun resolved => if resolved then .ret () else .throw .exit : Handler φ Unit).All
        (OfConnection c prt) := by
  refine ⟨⟨_, _, rfl⟩, fun resolved => ?_⟩
  cases resolved <;> trivial

/-- The UDP handler, for the connection it takes the datagram to belong to. -/
theorem manageEnteringUdpPackets_ofConnection {s : Self} {args : UdpArgs φ} {c : Connection}
    (h : c.Enters s args) : (Ingress.manageEnteringUdpPackets s args).All (OfConnection c .udp) := by
  rw [Ingress.manageEnteringUdpPackets, h.chain.classifyPkt, Prog.ret_bind]
  by_cases hin : (retrieveIpUdpHeader args.pkt).inBounds = true
  · rw [checked_ok hin, Prog.ret_bind, h.saddr, h.daddr, h.source, h.dest]
    refine (addEntry_all (P := OfConnection c .udp) rfl).bind fun _ => ?_
    rw [c.getRouteList_id]
    refine Prog.All.bind ⟨trivial, raise_all⟩ fun path => ?_
    cases path with
    | nil => trivial
    | cons hop hops =>
      dsimp only
      rw [c.forward_id]
      exact sent_ofConnection c .udp ..
  · rw [checked_overrun hin]
    trivial

/-- A round of the TCP receive loop that brings a packet of the connection. -/
theorem enteringRound_ofConnection {s : Self} (args : TcpArgs φ) (st : Ingress.Entering)
    (p : Packet TcpHeader) {c : Connection} (hof : p.Of c)
    (hclass : c.Classifies s (overwrite st.pkt p.bytes) p.bytes.length) :
    (Ingress.enteringRound s args st p.bytes).All (OfConnection c .tcp) := by
  simp only [Ingress.enteringRound, hclass.classifyPkt, Prog.ret_bind]
  split
  · by_cases hin : (retrieveIpTcpHeader (overwrite st.pkt p.bytes)).inBounds = true
    · have hheaders : (retrieveIpTcpHeader (overwrite st.pkt p.bytes)).value =
          (Iphdr.read p.ip, Tcphdr.read p.transport) := p.retrieveIpTcpHeader_value _
      have hsaddr : (Iphdr.read p.ip).saddr = c.saddr := hof.saddr
      have hdaddr : (Iphdr.read p.ip).daddr = c.daddr := hof.daddr
      have hsource : (Tcphdr.read p.transport).source = c.source := hof.source
      have hdest : (Tcphdr.read p.transport).dest = c.dest := hof.dest
      rw [checked_ok hin, Prog.ret_bind, hheaders]
      refine Prog.All.bind (Prog.All.rescue ?_ Ingress.catchFailure_all) fun turn => ?_
      · simp only [Ingress.tryForward, Ingress.Entering.entry, hsaddr, hdaddr, hsource, hdest]
        refine (addEntry_all (P := OfConnection c .tcp) rfl).bind fun _ => ?_
        rw [c.getRouteList_id]
        refine Prog.All.bind ⟨trivial, raise_all⟩ fun path => ?_
        cases path with
        | nil => trivial
        | cons hop hops =>
          dsimp only
          rw [c.forward_id]
          exact Prog.All.bind (sent_ofConnection c .tcp ..) fun _ => trivial
      · cases turn <;> trivial
    · rw [checked_overrun hin]
      trivial
  · trivial

/-- The ingress accepts a packet of the connection, which its classifier puts on
the connection's chain: a datagram, or what a round of a receive loop brings. -/
inductive Accepted (s : Self) (c : Connection) : List (Event (Op φ) (Reply φ)) → Prop where
  | udp {p : Packet UdpHeader} {args : UdpArgs φ} {stale : List Byte}
      {es : List (Event (Op φ) (Reply φ))} {out : Except Stop Unit} :
      p.Of c → args.pkt = p.bytes ++ stale → c.Classifies s args.pkt args.pktLen →
      (Ingress.manageEnteringUdpPackets s args).Runs es out → Accepted s c es
  | tcp {p : Packet TcpHeader} {args : TcpArgs φ} {st : Ingress.Entering}
      {es : List (Event (Op φ) (Reply φ))} {out : Except Stop (Ingress.Entering × Bool)} :
      p.Of c → c.Classifies s (overwrite st.pkt p.bytes) p.bytes.length →
      (Ingress.enteringRound s args st p.bytes).Runs es out → Accepted s c es

theorem Accepted.ofConnection {s : Self} {c : Connection} {es : List (Event (Op φ) (Reply φ))}
    (h : Accepted s c es) : ∃ prt, ∀ e ∈ es, OfConnection c prt e.op := by
  cases h with
  | @udp p args stale es out hof hpkt hclass hrun =>
    exact ⟨.udp, hrun.all (manageEnteringUdpPackets_ofConnection (hof.enters hpkt hclass))⟩
  | @tcp p args st es out hof hclass hrun =>
    exact ⟨.tcp, hrun.all (enteringRound_ofConnection args st p hof hclass)⟩

def LooksUp (header : SfcHeader) : Op φ → Prop
  | .retrieveConnection2 ce => ∃ prt, ce = headerEntry header prt
  | _ => True

theorem egress_looksUp (args : UdpArgs φ) :
    (Egress.managePktFromChain args).All (LooksUp (retrieveHeader args.pkt)) := by
  refine ⟨trivial, fun _ => ?_⟩
  refine (checked_all _).bind fun headers => ⟨⟨_, rfl⟩, fun sock => ?_⟩
  dsimp only
  split
  · exact ⟨trivial, fun _ => trivial⟩
  · exact ⟨trivial, fun _ => trivial⟩

theorem ingress_looksUp (args : UdpArgs φ) :
    (Ingress.managePktFromChain args).All (LooksUp (retrieveHeader args.pkt)) := by
  have hpay (pktCalc : Nat) :
      (Ingress.payloadFrom args pktCalc).All (LooksUp (retrieveHeader args.pkt)) := by
    unfold Ingress.payloadFrom
    split <;> trivial
  refine ⟨trivial, fun _ => ?_⟩
  refine (checked_all _).bind fun ipHdr => ⟨⟨_, rfl⟩, fun sock => ?_⟩
  dsimp only
  split
  · refine (hpay _).bind fun payload => ⟨trivial, fun respC => ?_⟩
    change Prog.All _ (if respC < 0 then _ else _)
    split
    · trivial
    · exact ⟨trivial, fun _ => ⟨trivial, fun _ => trivial⟩⟩
  · refine (hpay _).bind fun payload => ⟨trivial, fun respC => ?_⟩
    change Prog.All _ (if respC < 0 then _ else _)
    split
    · trivial
    · exact deleteEntry_all (P := LooksUp (retrieveHeader args.pkt)) trivial

def Answers (c : Connection) : Op φ → Prop
  | .sendAndWaitResponse m _ _ => ∃ hops rest, m = (c.header hops 1).bytes ++ rest
  | _ => True

theorem sendBack_answers {s : Self} {c : Connection} (hops : Nat) (received : List Byte)
    (receivedLen : Nat) (noRoute again : Bool) (hclass : c.Classifies s received receivedLen) :
    (Egress.sendBack s (c.header hops 0) received receivedLen noRoute again :
      Handler φ Bool).All (Answers c) := by
  rw [Egress.sendBack, hclass.classifyPkt, Prog.ret_bind, c.getRouteList_id]
  refine Prog.All.bind ⟨trivial, raise_all⟩ fun path => ?_
  cases path with
  | nil => trivial
  | cons hop rest =>
    simp only [Connection.header_sourceAddress, Connection.header_sourcePort,
      Connection.header_destinationAddress, Connection.header_destinationPort,
      Connection.forward_id]
    refine Prog.All.bind ⟨⟨_, _, rfl⟩, fun resolved => ?_⟩ fun _ => trivial
    cases resolved <;> trivial

/-- The keys a connection gets on the way of its packets: the one the ingress
stores, the one the egress rebuilds, and the one the ingress rebuilds for an
answer the egress has put back on the same chain. -/
inductive KeyOf (φ : Type) (ingress egress : Self) (c : Connection) : ConnectionEntry → Prop where
  | stored {es : List (Event (Op φ) (Reply φ))} {ce : ConnectionEntry} {fd : φ}
      {addr : SockaddrIn} {endpoint : EndpointType} {prt : ProtocolType} {r : Except Exn Unit} :
      Accepted ingress c es → ⟨.addEntry ce fd addr endpoint prt, r⟩ ∈ es → KeyOf φ ingress egress c ce
  | atEgress {es es' : List (Event (Op φ) (Reply φ))} {m : List Byte} {args : UdpArgs φ}
      {out : Except Stop Unit} {ce : ConnectionEntry} {sock : φ × SockaddrIn} :
      Accepted ingress c es → m ∈ messages es → m <+: args.pkt →
      (Egress.managePktFromChain args).Runs es' out → ⟨.retrieveConnection2 ce, sock⟩ ∈ es' →
      KeyOf φ ingress egress c ce
  | atIngress {es es₁ es₂ : List (Event (Op φ) (Reply φ))} {m m' received : List Byte}
      {receivedLen : Nat} {noRoute again : Bool} {request answer : UdpArgs φ}
      {out₁ : Except Stop Bool} {out₂ : Except Stop Unit} {ce : ConnectionEntry}
      {sock : φ × SockaddrIn} :
      Accepted ingress c es → m ∈ messages es → m <+: request.pkt →
      c.Classifies egress received receivedLen →
      (Egress.sendBack egress (retrieveHeader request.pkt) received receivedLen noRoute again).Runs
        es₁ out₁ → m' ∈ messages es₁ → m' <+: answer.pkt →
      (Ingress.managePktFromChain answer).Runs es₂ out₂ → ⟨.retrieveConnection2 ce, sock⟩ ∈ es₂ →
      KeyOf φ ingress egress c ce

theorem header_of_prefix {hdr : SfcHeader} {m pkt : List Byte} (hm : ∃ rest, m = hdr.bytes ++ rest)
    (hpkt : m <+: pkt) : retrieveHeader pkt = hdr := by
  obtain ⟨rest, rfl⟩ := hm
  obtain ⟨stale, rfl⟩ := hpkt
  rw [List.append_assoc, retrieveHeader_append]

/-- What an accepted packet is sent off with arrives with the connection's header. -/
theorem Accepted.header {s : Self} {c : Connection} {es : List (Event (Op φ) (Reply φ))}
    (h : Accepted s c es) {m pkt : List Byte} (hm : m ∈ messages es) (hpkt : m <+: pkt) :
    ∃ hops, retrieveHeader pkt = c.header hops 0 := by
  obtain ⟨prt, hall⟩ := h.ofConnection
  obtain ⟨_, _, hops, hrest⟩ := mem_messages hm hall
  exact ⟨hops, header_of_prefix hrest hpkt⟩

theorem KeyOf.entry {ingress egress : Self} {c : Connection} {ce : ConnectionEntry}
    (h : KeyOf φ ingress egress c ce) : ∃ prt, ce = c.entry prt := by
  cases h with
  | stored hacc hmem =>
    obtain ⟨prt, hall⟩ := hacc.ofConnection
    exact ⟨prt, hall _ hmem⟩
  | @atEgress es es' m args out _ sock hacc hm hpkt hrun hmem =>
    obtain ⟨hops, hheader⟩ := hacc.header hm hpkt
    obtain ⟨prt, hce⟩ := hrun.all (egress_looksUp args) _ hmem
    exact ⟨prt, by rw [hce, hheader, c.headerEntry_header]⟩
  | @atIngress es es₁ es₂ m m' received receivedLen noRoute again request answer out₁ out₂ _ sock
      hacc hm hpkt hclass hback hm' hpkt' hrun hmem =>
    obtain ⟨hops, hheader⟩ := hacc.header hm hpkt
    rw [hheader] at hback
    obtain ⟨_, _, hops', hrest⟩ := mem_messages hm'
      (hback.all (sendBack_answers hops received receivedLen noRoute again hclass))
    obtain ⟨prt, hce⟩ := hrun.all (ingress_looksUp answer) _ hmem
    exact ⟨prt, by rw [hce, header_of_prefix hrest hpkt', c.headerEntry_header]⟩

def udpPacket : Packet UdpHeader where
  ip := plainIp 17
  transport := plainUdp
  payload := [0x61, 0x62, 0x63]
  ipHeader := plainIp_header 17
  transportHeader := rfl

def sampleConnection : Connection where
  saddr := read32 (plainIp 17) 12
  daddr := read32 (plainIp 17) 16
  source := read16 plainUdp 0
  dest := read16 plainUdp 2
  id := 0
  id_lt := by decide

def udpArgs (m : List Byte) : UdpArgs Int := ⟨3, SockaddrIn.zero, m, m.length⟩

def proxy : Self := Self.source "10.0.0.9" 57000

def udpAccepted : List (Event (Op Int) (Reply Int)) :=
  ((Ingress.manageEnteringUdpPackets proxy (udpArgs udpPacket.bytes)).exec
    (grant 3 ⟨"10.0.2.1", 57000, false⟩) []).1

def udpFrame : List Byte := (sampleConnection.header 1 0).bytes ++ udpPacket.bytes

theorem udpPacket_of : udpPacket.Of sampleConnection := ⟨rfl, rfl, rfl, rfl⟩

theorem udpPacket_enters : sampleConnection.Enters proxy (udpArgs udpPacket.bytes) :=
  udpPacket_of.enters (List.append_nil _).symm ⟨by decide, by decide⟩

theorem udpPacket_runs : ∃ out,
    (Ingress.manageEnteringUdpPackets proxy (udpArgs udpPacket.bytes)).Runs udpAccepted out :=
  ⟨_, Prog.runs_exec _ _ _⟩

theorem udpPacket_added : ∃ r,
    ⟨.addEntry (sampleConnection.entry .udp) 3 SockaddrIn.zero .ingressT .udp, r⟩ ∈ udpAccepted :=
  Prog.exists_reply (by decide +kernel)

theorem udpPacket_sent : udpFrame ∈ messages udpAccepted := by
  have hframe : messages udpAccepted = [udpFrame] := by decide +kernel
  rw [hframe]
  exact List.mem_singleton_self _

def udpArrived : List (Event (Op Int) (Reply Int)) :=
  ((Egress.managePktFromChain (udpArgs udpFrame)).exec
    (grant (3 : Int) ⟨"10.0.2.1", 57000, false⟩) []).1

end Ironhide.Proofs.Keys
