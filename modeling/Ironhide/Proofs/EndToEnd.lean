import Ironhide.Proofs.EgressConnections
import Ironhide.Proofs.EgressProcess
import Ironhide.Proofs.IngressProcess

namespace Ironhide.Proofs.EndToEnd
open Model Lib.Bytes Lib.Program Lib.StdMap Lib.SearchTree Lib.Threads Lib.Threads.System
open Lib.Schedule Lib.Relaying Lib.Hosting Lib.Passing PacketUtils SfcUtilities
open Observed Servers Process Table Keys Translation

section Ingress
variable {sh : Shaping ConnectionEntry} {self : Self} {intPort : BitVec 16}
  {guard : Bool × IngressRuns.State (stdMap sh) → List (ProcessThread (Ingress.Callback Int)) →
    Server.Thread ⊕ Ingress.Callback Int → ProcessOp → Prop}
  {P : IngressProcess.IngressPool (stdMap sh)}

def clientDatagram : Message Int → Option (ProtocolType × List Byte)
  | .datagram .externalUdp _ _ bytes => some (.udp, bytes)
  | _ => none

/-- What clients have sent to an ingress: datagrams, and what it has received on
their connections. -/
def requests (P : IngressProcess.IngressPool (stdMap sh)) : List (ProtocolType × List Byte) :=
  (P.threads.flatMap (taken received)).filterMap clientDatagram ++
    P.threads.flatMap (seen (takes (Prod.mk .tcp)))

def frames (P : IngressProcess.IngressPool (stdMap sh)) : List (List Byte) :=
  P.threads.flatMap (seen fun e => Observed.message e.op)

theorem given_eq (g : Ingress.Callback Int) :
    given g = (IngressProcess.message g).bind clientDatagram := by
  cases g <;> rfl

/-- Every frame is made of something a client has sent, no two of the same. -/
theorem frames_framed (h : Reachable (IngressProcess.process (stdMap sh) self intPort) guard
    (IngressProcess.start (stdMap sh) self intPort) P) :
    AtMostOnce Framed (requests P) (frames P) := by
  obtain ⟨Q, hreach, hshow⟩ := refines h
  have hthreads : AtMostOnce Framed
      (Q.threads.flatMap fun u => (given u.tag).toList ++ u.past.filterMap (takes (Prod.mk .tcp)))
      (Q.threads.flatMap fun u => u.past.filterMap fun e => Observed.message e.op) :=
    .flatMap fun u hu => (ingress_passes self u.tag).reaches (hreach.thread u hu)
  have hframes : frames P = Q.threads.flatMap fun u => u.past.filterMap fun e =>
      Observed.message e.op := by
    rw [frames, hshow.flatMap (seen_left h _)]
    simp only [seen_rightThread]
  have hreceived : P.threads.flatMap (seen (takes (Prod.mk ProtocolType.tcp))) =
      Q.threads.flatMap fun u => u.past.filterMap (takes (Prod.mk .tcp)) := by
    rw [hshow.flatMap (seen_left h _)]
    simp only [seen_rightThread]
  -- what the handlers were started with is among what the servers have received
  have hgiven : (Q.threads.flatMap fun u => (given u.tag).toList) =
      (P.threads.filterMap (handling (messageOf IngressProcess.message))).filterMap clientDatagram := by
    rw [List.filterMap_filterMap, List.filterMap_eq_flatMap_toList, hshow.flatMap]
    · refine List.flatMap_congr fun u _ => ?_
      rw [given_eq]
      rfl
    · rintro ⟨tag, past, p⟩ _ hleft
      cases tag with
      | inl tag => rfl
      | inr g => cases hleft
  rw [hframes, requests, hreceived]
  refine hthreads.mono_in ?_
  refine ((List.flatMap_append_perm ..).symm.subperm).trans ?_
  rw [hgiven]
  exact (messages_subperm IngressProcess.manages_message IngressProcess.born_nil h _).append
    (List.Subperm.refl _)

end Ingress

section Egress
variable {sh : Shaping ConnectionEntry} {self : Self} {intPort : BitVec 16}
  {guard : Bool × DeadConnections.State sh → List (ProcessThread (Egress.Callback Int)) →
    Server.Thread ⊕ Egress.Callback Int → ProcessOp → Prop}
  {P : EgressProcess.EgressPool sh}

def arrivals (P : EgressProcess.EgressPool sh) : List (List Byte) :=
  (P.threads.flatMap (taken received)).filterMap EgressProcess.bytesOf

def seenOfTask {μ : Type} (f : HandlerEvent → Option μ) (t : ProcessThread (Egress.Callback Int)) :
    List μ :=
  match t.tag with
  | .inr (.task ..) => seen f t
  | _ => []

/-- What the tasks of an egress have sent to servers, and through which socket. -/
def outputs (P : EgressProcess.EgressPool sh) : List (Int × Output) :=
  P.threads.flatMap (seenOfTask fun e => writesOn e.op)

def connections (P : EgressProcess.EgressPool sh) : List (String × BitVec 16) :=
  P.threads.flatMap (seenOfTask fun e => connects e.op)

def connected (P : EgressProcess.EgressPool sh) : List ((String × BitVec 16) × Int) :=
  P.threads.flatMap (seen EgressConnections.connected)

theorem seenOfTask_right {μ : Type} (f : HandlerEvent → Option μ) (task : Model.Task Int)
    (datagram buffer : List Byte) (fuel : Nat) (es : List HandlerEvent)
    (p : Prog ProcessOp ProcessReply (Server.Stop ⊕ Stop) Unit) :
    seenOfTask f ⟨.inr (.task task datagram buffer fuel), es.map rightEvent, p⟩ = es.filterMap f :=
  seen_right f (Egress.Callback.task task datagram buffer fuel) es p

/-- What every task makes once of its frame, the egress makes once of what has
come from the chain. -/
theorem tasks_pass {ν : Type} {hands : Op Int → Option ν} {R R' : List Byte → ν → Prop}
    (hpass : ∀ (task : Model.Task Int), Genuine task → ∀ datagram buffer fuel,
      Passes takesNothing hands R (Egress.start self (.task task datagram buffer fuel))
        (some (taskFrame task)))
    (hR : ∀ t ∈ P.threads, ∀ task datagram buffer fuel,
      t.tag = .inr (.task task datagram buffer fuel) →
      ∀ w ∈ seenOfTask (fun e => hands e.op) t, R (taskFrame task) w → R' (taskFrame task) w)
    (h : Reachable (EgressProcess.process sh self intPort) guard
      (EgressProcess.start sh self intPort) P) :
    AtMostOnce R' (arrivals P) (P.threads.flatMap (seenOfTask fun e => hands e.op)) := by
  have hthreads : AtMostOnce R' (P.threads.flatMap fun t => (handling EgressProcess.taskOf t).toList)
      (P.threads.flatMap (seenOfTask fun e => hands e.op)) := by
    refine .flatMap fun t ht => ?_
    have hsound := EgressProcess.givenSoundly h t ht
    have hmore := hR t ht
    obtain ⟨tag, past, p⟩ := t
    match tag with
    | .inl tag => exact .nil
    | .inr (.vnf args) => exact .nil
    | .inr (.task task datagram buffer fuel) =>
      obtain ⟨es, q, rfl, hthread⟩ := guest_reaches h ht
      have hmade := (hpass task hsound datagram buffer fuel).reaches hthread
      rw [filterMap_takesNothing, List.append_nil] at hmade
      rw [seenOfTask_right] at hmore ⊢
      refine hmade.imp_mem fun frame hframe w hw hr => ?_
      cases List.mem_singleton.mp hframe
      exact hmore _ _ _ _ rfl w hw hr
  refine hthreads.mono_in ?_
  rw [← List.filterMap_eq_flatMap_toList]
  exact EgressProcess.tasks_subperm h

/-- What is written on a connection is written on one that leads to where the frame says. -/
theorem stream_connected
    (h : Reachable (EgressProcess.process sh self intPort) guard
      (EgressProcess.start sh self intPort) P)
    {t : ProcessThread (Egress.Callback Int)} (ht : t ∈ P.threads) {task : Model.Task Int}
    {datagram buffer : List Byte} {fuel : Nat}
    (htag : t.tag = .inr (.task task datagram buffer fuel)) {w : Int × Output}
    (hw : w ∈ seenOfTask (fun e => writesOn e.op) t) (hlong : headerSize ≤ (taskFrame task).length)
    (hprt : w.2.prt = .tcp) :
    (destination (headerEnds (retrieveHeader (taskFrame task))), w.1) ∈ connected P := by
  have hsound := EgressProcess.givenSoundly h
  obtain ⟨Q, hreach, hshow⟩ := refines h
  have hgenuine : EgressConnections.TasksGenuine Q := by
    intro u hu task datagram buffer fuel hutag
    have hguest : rightThread u ∈ guests P.threads := by
      rw [hshow.threads]
      exact List.mem_map_of_mem hu
    have hgiven := hsound _ (List.mem_of_mem_filter hguest)
    change EgressProcess.GivenSoundly (.inr u.tag) at hgiven
    rw [hutag] at hgiven
    exact hgiven
  obtain ⟨tag, past, p⟩ := t
  cases htag
  obtain ⟨u, hu, hutag, rfl, _⟩ := hshow.guest ht
  rw [seenOfTask_right] at hw
  obtain ⟨⟨o, r⟩, he, hwrites⟩ := List.mem_filterMap.mp hw
  cases o with
  | sendto fd bytes addr =>
    cases hwrites
    cases hprt
  | send fd bytes =>
    cases hwrites
    cases task with
    | exitingUdp pkt pktLen ce sock => exact (EgressConnections.udp_no_send hreach hu hutag he).elim
    | exitingTcp pkt pktLen ce socket =>
      obtain ⟨u', hu', hmem⟩ := EgressConnections.send_connected hreach hgenuine hu hutag he
      obtain ⟨hlen, _, _⟩ := hgenuine u hu _ _ _ _ hutag
      obtain ⟨_, _, hheader⟩ := frame_split hlen (hlong.trans (List.length_take_le _ _))
      rw [taskFrame, ← hheader, connected, hshow.flatMap (seen_left h _)]
      refine List.mem_flatMap.mpr ⟨u', hu', ?_⟩
      rw [seen_rightThread]
      exact hmem
  | _ => cases hwrites

theorem connected_nodup
    (h : Reachable (EgressProcess.process sh self intPort) guard
      (EgressProcess.start sh self intPort) P) : ((connected P).map Prod.snd).Nodup := by
  obtain ⟨Q, hreach, hshow⟩ := refines h
  rw [connected, hshow.flatMap (seen_left h _)]
  simp only [seen_rightThread]
  exact EgressConnections.connected_nodup hreach

end Egress

/-- How a frame that has been sent off arrives: with the packet and the ends as
they were, small enough for the receive buffer. -/
structure Carried (m frame : List Byte) : Prop where
  packet : frame.drop headerSize = m.drop headerSize
  ends : headerEnds (retrieveHeader frame) = headerEnds (retrieveHeader m)
  fits : frame.length ≤ bufferSize

theorem Carried.of_framed {input : ProtocolType × List Byte} {m frame : List Byte}
    (hcarried : Carried m frame) (hframed : Framed input m) :
    frame.drop headerSize = input.2 ∧ ReadAs input (headerEnds (retrieveHeader frame)) := by
  obtain ⟨hdr, rfl, hread⟩ := hframed
  refine ⟨?_, ?_⟩
  · rw [hcarried.packet, Framing.drop_bytes_append]
  · rw [hcarried.ends, Framing.retrieveHeader_append]
    exact hread

section Requests
variable {sh sh' : Shaping ConnectionEntry} {self self' : Self} {intPort intPort' : BitVec 16}
  {guard : Bool × IngressRuns.State (stdMap sh) → List (ProcessThread (Ingress.Callback Int)) →
    Server.Thread ⊕ Ingress.Callback Int → ProcessOp → Prop}
  {guard' : Bool × DeadConnections.State sh' → List (ProcessThread (Egress.Callback Int)) →
    Server.Thread ⊕ Egress.Callback Int → ProcessOp → Prop}
  {I : IngressProcess.IngressPool (stdMap sh)} {E : EgressProcess.EgressPool sh'}

/-- The output is for what a client has sent: it takes what `strncpy` copies of its
payload to the destination that was read of it, as a stream on a connection that
was opened to there. -/
def TakenOn (E : EgressProcess.EgressPool sh') (self' : Self) (input : ProtocolType × List Byte)
    (w : Int × Output) : Prop :=
  ∃ ends payload, ReadAs input ends ∧ Carries w.2.prt input.2 payload ∧
    Delivers self' ends payload w.2 ∧ (w.2.prt = .tcp → (destination ends, w.1) ∈ connected E)

/-- An ingress and an egress in whatever states they can reach, joined by a chain
that may lose frames and change their order: everything the egress sends to a
server is made of something that a client has sent, every connection it tries to
open is for the destination of such a thing, and none of them is used for two of
either. No two connections have the same descriptor. -/
theorem requests_translated
    (hI : Reachable (IngressProcess.process (stdMap sh) self intPort) guard
      (IngressProcess.start (stdMap sh) self intPort) I)
    (hE : Reachable (EgressProcess.process sh' self' intPort') guard'
      (EgressProcess.start sh' self' intPort') E)
    (hchain : AtMostOnce Carried (frames I) (arrivals E)) :
    AtMostOnce (TakenOn E self') (requests I) (outputs E) ∧
    AtMostOnce (fun input server => (∃ payload, Carries .tcp input.2 payload) ∧
      ∃ ends, ReadAs input ends ∧ server = destination ends) (requests I) (connections E) ∧
    ((connected E).map Prod.snd).Nodup := by
  have harrived := (frames_framed hI).trans hchain
  refine ⟨?_, ?_, connected_nodup hE⟩
  · have hmade : AtMostOnce (fun frame w => Exits self' frame w.2 ∧
        (headerSize ≤ frame.length → w.2.prt = .tcp →
          (destination (headerEnds (retrieveHeader frame)), w.1) ∈ connected E))
        (arrivals E) (outputs E) :=
      tasks_pass (fun _ => task_passes self') (fun t ht _ _ _ _ htag w hw hexits =>
        ⟨hexits, stream_connected hE ht htag hw⟩) hE
    refine (harrived.trans hmade).imp ?_
    rintro input w ⟨frame, ⟨m, hframed, hcarried⟩, hexits, hsocket⟩
    obtain ⟨hpacket, hread⟩ := hcarried.of_framed hframed
    obtain ⟨hlong, payload, hcarries, hdelivers⟩ := hexits hcarried.fits
    rw [hpacket] at hcarries
    exact ⟨_, payload, hread, hcarries, hdelivers, hsocket hlong⟩
  · refine (harrived.trans (tasks_pass (fun _ => task_connects self')
      (fun _ _ _ _ _ _ _ _ _ => id) hE)).imp ?_
    rintro input server ⟨frame, ⟨m, hframed, hcarried⟩, hreaches⟩
    obtain ⟨hpacket, hread⟩ := hcarried.of_framed hframed
    obtain ⟨⟨payload, hcarries⟩, hserver⟩ := hreaches hcarried.fits
    rw [hpacket] at hcarries
    exact ⟨⟨payload, hcarries⟩, _, hread, hserver⟩

def exitingWorld (response : List Byte) : World (DeadConnections.system plain proxy) where
  resolve s _ o :=
    let next := s.endpoint.serve (7 + s.opened.length : Int) ⟨"10.0.2.1", 57000, false⟩ response o
    if ∀ fd ∈ DeadConnections.opens ⟨o, next.1⟩, fd ≠ -1 ∧ fd ∉ s.opened then
      some (next.1, ⟨next.2, (DeadConnections.opens ⟨o, next.1⟩).toList ++ s.opened,
        DeadConnections.comesLate s o ++ s.late⟩, Egress.started id 4 o)
    else none
  performs s g o r s' born h := by
    dsimp only at h
    split at h
    · rename_i hfresh
      cases h
      exact ⟨s.endpoint.serve_performs .., hfresh, rfl, rfl, Egress.started_starts id 4 o⟩
    · cases h
  accept s g := match g with
    | .vnf _ => some s
    | .task .. => none
  arrives s g s' h := by
    cases g with
    | vnf args => exact ⟨(Option.some.inj h).symm, args, rfl⟩
    | task => cases h

def egressWorld (response : List Byte) : World (EgressProcess.process plain proxy 57001) :=
  workingWorld Server.egressStart 57000 57001 (exitingWorld response) 4 EgressProcess.managed
    EgressProcess.managed_manages fun _ => udpFrame

theorem udpFrame_carried : Carried udpFrame udpFrame := ⟨rfl, rfl, by decide⟩

/-- A client's datagram goes through both processes, and one datagram goes out,
with its payload and to its destination. -/
theorem requests_translated_datagram :
    ∃ (I : IngressProcess.IngressPool (stdMap plain)) (E : EgressProcess.EgressPool plain),
      (outputs E).length = 1 ∧ AtMostOnce (TakenOn E proxy) (requests I) (outputs E) ∧
      ∀ w ∈ outputs E, Delivers proxy (packetEnds udpPacket) udpPacket.payload w.2 := by
  obtain ⟨I, hI, hsent⟩ := IngressProcess.ingressWorld.exists_reachable Joined
    (IngressProcess.start (stdMap plain) proxy 57001) IngressProcess.exchange
    (fun P => decide (frames P = [udpFrame] ∧
      ∀ input ∈ requests P, input = (.udp, udpPacket.bytes))) (by decide +kernel)
  obtain ⟨hframes, hrequests⟩ := of_decide_eq_true hsent
  obtain ⟨E, hE, hdone⟩ := (egressWorld []).exists_reachable Joined
    (EgressProcess.start plain proxy 57001)
    (.arrive (.inl .main) :: steps 1 0 ++ steps 12 1 ++ steps 3 2 ++ steps 4 3)
    (fun P => decide (arrivals P = [udpFrame] ∧ (outputs P).length = 1 ∧
      ∀ w ∈ outputs P, w.2.prt = .udp)) (by decide +kernel)
  obtain ⟨harrivals, hone, hprt⟩ := of_decide_eq_true hdone
  have hmade := (requests_translated hI hE (by
    rw [hframes, harrivals]
    exact .of_forall₂ (.cons udpFrame_carried .nil))).1
  refine ⟨I, E, hone, hmade, fun w hw => ?_⟩
  obtain ⟨input, hinput, ends, payload, hread, hcarries, hdelivers, _⟩ := hmade.exists_input hw
  cases hrequests input hinput
  rw [hprt w hw] at hcarries
  rwa [(readAs_udp udpPacket).mp hread, (carries_udp udpPacket (by decide)).mp hcarries] at hdelivers

end Requests

end Ironhide.Proofs.EndToEnd
