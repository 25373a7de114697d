import Ironhide.Model.Client
import Ironhide.Model.Egress
import Ironhide.Model.Ingress
import Ironhide.Proofs.Framing
import Ironhide.Proofs.Keys
import Ironhide.Proofs.Observed

namespace Ironhide.Proofs.Forwarded
open Model Lib.Bytes Lib.Program PacketUtils SfcUtilities Framing Observed

variable {φ : Type}

/-- The packet a handler is at: the last one it received, and `start` before any. -/
def atHand (start : List Byte) (past : List (Event (Op φ) (Reply φ))) : List Byte :=
  (chunks past).getLastD start

/-- What is sent to the chain is the packet at hand, behind a header for the
route that was asked for just before. -/
def Framed (start : List Byte) (past : List (Event (Op φ) (Reply φ))) : Op φ → Prop
  | .sendAndWaitResponse m _ _ => ∃ earlier pId path h,
    past = earlier ++ [⟨.getRouteList pId, .ok path⟩] ∧ m = SfcHeader.bytes h ++ atHand start past ∧
      h.ttl = (BitVec.ofNat 16 (path.length + 2)).setWidth 6 ∧ h.pId = pId.setWidth 24
  | _ => True

section Rules
variable {α β : Type} {start : List Byte} {past : List (Event (Op φ) (Reply φ))}

def Aside (o : Op φ) : Prop := message o = none ∧ ¬ Receives o

theorem atHand_aside {es : List (Event (Op φ) (Reply φ))} (h : ∀ e ∈ es, Aside e.op) :
    atHand start (past ++ es) = atHand start past := by
  rw [atHand, chunks_append, chunks_quiet (fun e he => (h e he).2), List.append_nil]
  rfl

theorem framed_of_quiet (past : List (Event (Op φ) (Reply φ))) (o : Op φ) (h : message o = none) :
    Framed start past o := by
  cases o with
  | sendAndWaitResponse m dst port => cases h
  | _ => trivial

theorem aside_bind {p : Handler φ α} {f : α → Handler φ β} (hp : p.All Aside)
    (hf : ∀ a past', atHand start past' = atHand start past → (f a).AllPast (Framed start) past') :
    (p >>= f).AllPast (Framed start) past :=
  (hp.allPast fun past o h => framed_of_quiet past o h.1).bind fun a _ hrun =>
    hf a _ (atHand_aside (hrun.all hp))

/-- Asking for a route, and going on with it. -/
theorem getRouteList_framed {sfcid : String} {f : List Address → Handler φ β}
    (hf : ∀ n path, stoi sfcid = .ok n →
      (f path).AllPast (Framed start) (past ++ [⟨.getRouteList (BitVec.ofInt 32 n), .ok path⟩])) :
    (getRouteList sfcid >>= f).AllPast (Framed start) past := by
  refine ((getRouteList_all (P := fun o => message o = none) (fun _ => rfl) sfcid).allPast
    framed_of_quiet).bind fun path es hrun => ?_
  rcases runs_getRouteList hrun with ⟨_, x, hx⟩ | ⟨n, answer, hn, rfl, ⟨_, rfl, hok⟩ | ⟨x, _, hx⟩⟩
  · cases hx
  · cases hok
    exact hf n path hn
  · cases hx

/-- Forwarding the packet at hand along the route just asked for. -/
theorem forward_framed {sfcid : String} {n : Int} {path : List Address} {hop : Address}
    {saddr daddr : BitVec 32} {source dest : BitVec 16} {direction : Byte} {pkt : List Byte}
    {size : Nat} (hn : stoi sfcid = .ok n) (hpkt : pkt.take size = atHand start past) :
    (forward sfcid path hop saddr source daddr dest direction pkt size).AllPast (Framed start)
      (past ++ [⟨.getRouteList (BitVec.ofInt 32 n), .ok path⟩]) := by
  simp only [forward, servicePathId, hn, raise_ok, Prog.ret_bind, Prog.perform_bind]
  refine ⟨⟨past, _, path, createHeader (BitVec.ofInt 32 n) 0 (intToIp saddr) source (intToIp daddr)
    dest (BitVec.ofNat 16 (path.length + 2)) direction, rfl, ?_, rfl, rfl⟩, fun resolved => ?_⟩
  · rw [prependHeader, hpkt, atHand_aside]
    simp [Aside, message, Receives]
  · cases resolved <;> trivial

theorem sendBack_framed (self : Self) (header : SfcHeader) {received : List Byte}
    {receivedLen : Nat} (noRoute again : Bool)
    (h : received.take receivedLen = atHand start past) :
    (Egress.sendBack self header received receivedLen noRoute again).AllPast (Framed start) past := by
  refine aside_bind (classifyPkt_all _ _ _) fun sfcid past' hpast => ?_
  refine getRouteList_framed fun n path hn => ?_
  cases path with
  | nil => trivial
  | cons hop hops => exact (forward_framed hn (h.trans hpast.symm)).bind fun _ _ _ => trivial

theorem tryForward_framed (args : TcpArgs φ) (st : Ingress.Entering) {readSize : Nat}
    (h : st.pkt.take readSize = atHand start past) :
    (Ingress.tryForward args st readSize).AllPast (Framed start) past := by
  refine aside_bind (addEntry_all ⟨rfl, id⟩) fun _ past' hpast => ?_
  refine getRouteList_framed fun n path hn => ?_
  cases path with
  | nil => trivial
  | cons hop hops => exact (forward_framed hn (h.trans hpast.symm)).bind fun _ _ _ => trivial

/-- A receive brings a new packet to hand. -/
theorem atHand_received (past : List (Event (Op φ) (Reply φ))) {e : Event (Op φ) (Reply φ)}
    {c : List Byte} (h : chunk e = some c) : atHand start (past ++ [e]) = c := by
  simp [atHand, chunks, h]

end Rules

section Handlers
variable {start : List Byte}

theorem enteringRound_framed (self : Self) (args : TcpArgs φ) (st : Ingress.Entering)
    {received : List Byte} {past : List (Event (Op φ) (Reply φ))} (h : atHand start past = received) :
    (Ingress.enteringRound self args st received).AllPast (Framed start) past := by
  refine aside_bind (classifyPkt_all _ _ _) fun sfcid past₁ h₁ => ?_
  dsimp only
  split
  · refine aside_bind (checked_all _) fun headers past₂ h₂ => ?_
    have hpkt : (overwrite st.pkt received).take received.length = atHand start past₂ := by
      rw [h₂, h₁, h]
      exact List.take_left
    refine Prog.AllPast.bind (Prog.AllPast.rescue (tryForward_framed args _ hpkt) fun e _ _ => ?_)
      fun turn _ _ => ?_
    · exact (Ingress.catchFailure_all (P := fun o => message o = none) e).allPast framed_of_quiet
    · cases turn <;> trivial
  · trivial

theorem enteringLoop_framed (self : Self) (args : TcpArgs φ) (n : Nat) (st : Ingress.Entering)
    (past : List (Event (Op φ) (Reply φ))) :
    (Ingress.enteringLoop self args n st).AllPast (Framed start) past := by
  induction n generalizing st past with
  | zero => trivial
  | succ n ih =>
    refine ⟨trivial, fun reply => ?_⟩
    match reply with
    | none => trivial
    | some [] => trivial
    | some (b :: bs) =>
      refine (enteringRound_framed self args st (atHand_received past rfl)).bind fun next _ _ => ?_
      obtain ⟨st', again⟩ := next
      cases again with
      | false => trivial
      | true => exact ih st' _

theorem manageEnteringTcpPackets_framed (self : Self) (args : TcpArgs φ) (pkt : List Byte)
    (fuel : Nat) (past : List (Event (Op φ) (Reply φ))) :
    (Ingress.manageEnteringTcpPackets self args pkt fuel).AllPast (Framed start) past := by
  refine (enteringLoop_framed self args fuel _ past).bind fun last es _ => ?_
  refine (Ingress.afterLoop_all (P := fun o => message o = none) ?_ ?_ _ _).allPast framed_of_quiet
  all_goals intros; rfl

theorem manageEnteringUdpPackets_framed (self : Self) (args : UdpArgs φ) :
    (Ingress.manageEnteringUdpPackets self args).AllPast (Framed (args.pkt.take args.pktLen)) [] := by
  refine aside_bind (classifyPkt_all _ _ _) fun sfcid past₁ h₁ => ?_
  refine aside_bind (checked_all _) fun headers past₂ h₂ => ?_
  refine aside_bind (addEntry_all ⟨rfl, id⟩) fun _ past₃ h₃ => ?_
  refine getRouteList_framed fun n path hn => ?_
  cases path with
  | nil => trivial
  | cons hop hops => exact forward_framed hn (by rw [h₃, h₂, h₁]; rfl)

theorem exitingUdpLoop_framed (self : Self) (header : SfcHeader) (rawSocket : φ) (n : Nat)
    (buffer : List Byte) (past : List (Event (Op φ) (Reply φ))) :
    (Egress.exitingUdpLoop self header rawSocket n buffer).AllPast (Framed start) past := by
  induction n generalizing buffer past with
  | zero => trivial
  | succ n ih =>
    refine ⟨trivial, fun reply => ?_⟩
    match reply with
    | none => trivial
    | some [] => trivial
    | some (b :: bs) =>
      have hpkt : (overwrite buffer (b :: bs)).take (b :: bs).length =
          atHand start (past ++ [⟨.recvfrom rawSocket bufferSize, some (b :: bs)⟩]) := by
        rw [atHand_received past rfl]
        exact List.take_left
      refine (sendBack_framed self header _ _ hpkt).bind fun again _ _ => ?_
      cases again with
      | false => trivial
      | true => exact ih _ _

theorem exitingTcpLoop_framed (self : Self) (header : SfcHeader) (socket : φ) (n : Nat)
    (received : List Byte) (past : List (Event (Op φ) (Reply φ))) :
    (Egress.exitingTcpLoop self header socket n received).AllPast (Framed start) past := by
  induction n generalizing received past with
  | zero => trivial
  | succ n ih =>
    refine ⟨trivial, fun reply => ?_⟩
    match reply with
    | none => trivial
    | some [] => trivial
    | some (b :: bs) =>
      have hpkt : (overwrite received (b :: bs)).take (b :: bs).length =
          atHand start (past ++ [⟨.read socket bufferSize, some (b :: bs)⟩]) := by
        rw [atHand_received past rfl]
        exact List.take_left
      refine (sendBack_framed self header _ _ hpkt).bind fun again _ _ => ?_
      cases again with
      | false => trivial
      | true => exact ih _ _

/-- What `manage_pkt_from_chain` does on either side stays off the chain. -/
theorem managePktFromChain_quiet (args : UdpArgs φ) :
    (Ingress.managePktFromChain args).All (fun o => message o = none) ∧
    (Egress.managePktFromChain args).All (fun o => message o = none) := by
  have hpay (pktCalc : Nat) : (Ingress.payloadFrom args pktCalc).All fun o => message o = none := by
    unfold Ingress.payloadFrom
    split <;> trivial
  constructor
  · refine ⟨rfl, fun _ => (checked_all _).bind fun ipHdr => ⟨rfl, fun sock => ?_⟩⟩
    dsimp only
    split
    · refine (hpay _).bind fun payload => ⟨rfl, fun respC => ?_⟩
      change Prog.All _ (if respC < 0 then _ else _)
      split
      · trivial
      · exact ⟨rfl, fun _ => ⟨rfl, fun _ => trivial⟩⟩
    · refine (hpay _).bind fun payload => ⟨rfl, fun respC => ?_⟩
      change Prog.All _ (if respC < 0 then _ else _)
      split
      · trivial
      · exact deleteEntry_all (P := fun o => message o = none) rfl
  · refine ⟨rfl, fun _ => (checked_all _).bind fun headers => ⟨rfl, fun sock => ?_⟩⟩
    dsimp only
    split
    · exact ⟨rfl, fun _ => trivial⟩
    · exact ⟨rfl, fun _ => trivial⟩

theorem manageExitingUdpPackets_framed (self : Self) (pkt : List Byte) (pktLen : Nat)
    (ce : ConnectionEntry) (sock : φ) (datagram buffer : List Byte) (fuel : Nat)
    (past : List (Event (Op φ) (Reply φ))) :
    (Egress.manageExitingUdpPackets self pkt pktLen ce sock datagram buffer fuel).AllPast
      (Framed start) past := by
  refine ((Egress.openSender_all (P := fun o => message o = none) rfl).allPast
    framed_of_quiet).bind fun s _ _ => ?_
  dsimp only
  split
  · trivial
  · refine ((Egress.openListener_all (P := fun o => message o = none) self rfl (fun _ _ => rfl)
      fun _ => rfl).allPast framed_of_quiet).bind fun r _ _ => ⟨trivial, fun sent => ?_⟩
    change Prog.AllPast _ (if sent < 0 then _ else _) _
    split
    · trivial
    · exact ((updateEntry_all (P := fun o => message o = none) rfl).allPast
        framed_of_quiet).bind fun _ _ _ => exitingUdpLoop_framed self _ r fuel buffer _

theorem manageExitingTcpPackets_framed [Descriptor φ] (self : Self) (pkt : List Byte)
    (pktLen : Nat) (ce : ConnectionEntry) (socket : φ) (received : List Byte) (fuel : Nat)
    (past : List (Event (Op φ) (Reply φ))) :
    (Egress.manageExitingTcpPackets self pkt pktLen ce socket received fuel).AllPast
      (Framed start) past := by
  rw [Egress.manageExitingTcpPackets]
  split
  · trivial
  · refine ((Egress.destination_all (P := fun o => message o = none) (fun _ _ => rfl)
      fun _ _ => rfl).allPast framed_of_quiet).bind fun s _ _ => ⟨trivial, fun _ => ?_⟩
    exact exitingTcpLoop_framed self _ s fuel received _

end Handlers

def given : Ingress.Callback φ → List Byte
  | .udp args => args.pkt.take args.pktLen
  | _ => []

inductive Handles [Descriptor φ] (self : Self) : List Byte → Handler φ Unit → Prop where
  | ingress (cb : Ingress.Callback φ) : Handles self (given cb) (Ingress.start self cb)
  | egress (cb : Egress.Callback φ) : Handles self [] (Egress.start self cb)

section Messages
variable [Descriptor φ] {self : Self} {start : List Byte} {p : Handler φ Unit}

theorem Handles.framed (h : Handles self start p) : p.AllPast (Framed start) [] := by
  cases h with
  | ingress cb =>
    cases cb with
    | tcp args pkt fuel => exact manageEnteringTcpPackets_framed self args pkt fuel []
    | udp args => exact manageEnteringUdpPackets_framed self args
    | vnf args => exact (managePktFromChain_quiet args).1.allPast framed_of_quiet
  | egress cb =>
    cases cb with
    | vnf args => exact (managePktFromChain_quiet args).2.allPast framed_of_quiet
    | task task datagram buffer fuel =>
      cases task with
      | exitingTcp pkt pktLen ce socket =>
        exact manageExitingTcpPackets_framed self pkt pktLen ce socket buffer fuel []
      | exitingUdp pkt pktLen ce sock =>
        exact manageExitingUdpPackets_framed self pkt pktLen ce sock datagram buffer fuel []

variable {before after : List (Event (Op φ) (Reply φ))} {out : Except Stop Unit} {m : List Byte}
  {dst : String} {port : BitVec 16} {resolved : Bool}

/-- Whatever a handler has sent to the chain, it has framed. -/
theorem Handles.message (h : Handles self start p)
    (hrun : p.Runs (before ++ ⟨.sendAndWaitResponse m dst port, resolved⟩ :: after) out) :
    Framed start before (.sendAndWaitResponse m dst port) :=
  hrun.allPast h.framed rfl

/-- The header decodes to the route's length and the chain's id exactly when they
fit its fields of 6 and 24 bits. -/
theorem header_decodes_iff (h : Handles self start p)
    (hrun : p.Runs (before ++ ⟨.sendAndWaitResponse m dst port, resolved⟩ :: after) out) :
    ∃ earlier pId path, before = earlier ++ [⟨.getRouteList pId, .ok path⟩] ∧
      ((retrieveHeader m).ttl.toNat = path.length + 2 ∧ (retrieveHeader m).pId.toNat = pId.toNat ↔
        path.length + 2 < 64 ∧ pId.toNat < 2^24) := by
  obtain ⟨earlier, pId, path, hdr, hbefore, rfl, httl, hpId⟩ := h.message hrun
  refine ⟨earlier, pId, path, hbefore, ?_⟩
  rw [retrieveHeader_append, httl, hpId, BitVec.toNat_setWidth, BitVec.toNat_setWidth,
    BitVec.toNat_ofNat]
  omega

end Messages

/-- A datagram of a connection is registered and sent off along any route there is. -/
theorem enters_runs {s : Self} {args : UdpArgs φ} {c : Connection} (h : c.Enters s args)
    (hin : (retrieveIpUdpHeader args.pkt).inBounds = true) (hop : Address) (hops : List Address) :
    (Ingress.manageEnteringUdpPackets s args).Runs
      ([⟨.addEntry (c.entry .udp) args.socketFd args.clientAddress .ingressT .udp, .ok ()⟩,
        ⟨.getRouteList (BitVec.ofNat 32 c.id), .ok (hop :: hops)⟩] ++
        [⟨.sendAndWaitResponse ((c.header (hops.length + 1) 0).bytes ++ args.pkt.take args.pktLen)
          hop.address hop.port, true⟩]) (.ok ()) := by
  rw [Ingress.manageEnteringUdpPackets, h.chain.classifyPkt, Prog.ret_bind, checked_ok hin,
    Prog.ret_bind, h.saddr, h.daddr, h.source, h.dest, c.getRouteList_id]
  refine .op (.op ?_)
  change Prog.Runs (forward _ (hop :: hops) hop _ _ _ _ _ _ _) _ _
  rw [c.forward_id]
  exact .op (.ret ())

section Sample
open Keys

def hop : Address := ⟨"10.0.2.1", 57000, false⟩

def sampleFrame (hops : Nat) : List Byte := (sampleConnection.header hops 0).bytes ++ udpPacket.bytes

theorem sample_runs (hops : List Address) :
    (Ingress.manageEnteringUdpPackets proxy (udpArgs udpPacket.bytes)).Runs
      ([⟨.addEntry (sampleConnection.entry .udp) 3 SockaddrIn.zero .ingressT .udp, .ok ()⟩,
        ⟨.getRouteList 0, .ok (hop :: hops)⟩] ++
        [⟨.sendAndWaitResponse (sampleFrame (hops.length + 1)) hop.address hop.port, true⟩])
      (.ok ()) :=
  enters_runs udpPacket_enters (by decide) hop hops

/-- Over 62 hops the header of the datagram says that none is left. -/
theorem long_route_wraps :
    (Ingress.manageEnteringUdpPackets proxy (udpArgs udpPacket.bytes)).Runs
      ([⟨.addEntry (sampleConnection.entry .udp) 3 SockaddrIn.zero .ingressT .udp, .ok ()⟩,
        ⟨.getRouteList 0, .ok (List.replicate 62 hop)⟩] ++
        [⟨.sendAndWaitResponse (sampleFrame 62) hop.address hop.port, true⟩]) (.ok ()) ∧
    ¬ (retrieveHeader (sampleFrame 62)).ttl.toNat = (List.replicate 62 hop).length + 2 := by
  refine ⟨sample_runs (List.replicate 61 hop), ?_⟩
  rw [sampleFrame, retrieveHeader_append]
  decide

theorem header_decodes_one_hop :
    ∃ earlier pId path,
      [⟨.addEntry (sampleConnection.entry .udp) 3 SockaddrIn.zero .ingressT .udp, .ok ()⟩,
        ⟨.getRouteList 0, .ok [hop]⟩] = earlier ++ [(⟨.getRouteList pId, .ok path⟩ :
          Event (Op Int) (Reply Int))] ∧
      ((retrieveHeader (sampleFrame 1)).ttl.toNat = path.length + 2 ∧
          (retrieveHeader (sampleFrame 1)).pId.toNat = pId.toNat ↔
        path.length + 2 < 64 ∧ pId.toNat < 2^24) :=
  header_decodes_iff (.ingress (.udp (udpArgs udpPacket.bytes))) (sample_runs [])

end Sample

end Ironhide.Proofs.Forwarded
