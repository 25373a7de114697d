import Ironhide.Lib.Resources
import Ironhide.Proofs.DeadConnections

namespace Ironhide.Proofs.EgressSockets
open Model Lib.Bytes Lib.Program Lib.StdMap Lib.SearchTree Lib.Threads Lib.Threads.System
open Lib.Resources Lib.Schedule PacketUtils SfcUtilities Keys Table
open DeadConnections (opens registers registration Updates Responds EgressThread udpLoop_responds
  tcpLoop_responds)

/-- The egress's endpoint and the descriptors that are open in its process. -/
structure State (sh : Shaping ConnectionEntry) where
  endpoint : Endpoint (stdMap sh) Int
  descriptors : List Int
  distinct : descriptors.Nodup

def start (sh : Shaping ConnectionEntry) (myIp : String) (extPort intPort : BitVec 16)
    (initial : List Int) (h : initial.Nodup) : State sh :=
  ⟨.new (stdMap sh) Int myIp extPort intPort, initial, h⟩

def sockets : Ledger (Op Int) (Reply Int) Int where
  opens := opens
  closes
    | .close fd => some fd
    | _ => none

/-- What a handler has to answer for: a descriptor that it has given to the
table it need not close. -/
def duties : Ledger (Op Int) (Reply Int) Int where
  opens := opens
  closes
    | .close fd | .updateEntry _ fd .. => some fd
    | _ => none

def stored {sh : Shaping ConnectionEntry} (e : Endpoint (stdMap sh) Int) : List Int :=
  e.connectionMap.1.entries.map fun entry => entry.2.1

/-- The egress at work on any packets. The clients that an operation goes
through may leave descriptors of their own open. -/
def system (sh : Shaping ConnectionEntry) (self : Self) :
    System (State sh) (Egress.Callback Int) (Op Int) (Reply Int) Stop Unit where
  start := Egress.start self
  perform s _ o r s' born := s.endpoint.Performs o r s'.endpoint ∧
    (∃ left, s'.descriptors = left ++ sockets.update s.descriptors ⟨o, r⟩) ∧
    Egress.Starts id born o
  arrive s s' g := s' = s ∧ ∃ args, g = .vnf args
  fatal := Stop.Fatal

abbrev EgressPool (sh : Shaping ConnectionEntry) :=
  Pool (State sh) (Egress.Callback Int) (Op Int) (Reply Int) Stop Unit

/-- The thread is a call of `manage_exiting_udp_packets` that has returned. -/
def returned (t : EgressThread) : Bool :=
  match t.tag, t.prog with
  | .task (.exitingUdp ..) .., .ret _ => true
  | _, _ => false

/-- What a call that has returned had opened is closed or in the table. -/
def Settled {sh : Shaping ConnectionEntry} (P : EgressPool sh) : Prop :=
  ∀ t ∈ P.threads, returned t = true → ∀ fd ∈ owns opens t,
    fd ∉ P.shared.descriptors ∨ fd ∈ stored P.shared.endpoint

/-- There are no more open descriptors than at first and table entries together. -/
def Bounded {sh : Shaping ConnectionEntry} (initial : List Int) (P : EgressPool sh) : Prop :=
  P.shared.descriptors.length ≤
    initial.length + P.shared.endpoint.connectionMap.1.entries.length

section Programs
variable (self : Self)

def Leaves : Egress.Callback Int → Unit → List Int → Prop
  | .task (.exitingUdp ..) .., _, held => held ≠ []
  | _, _, _ => True

theorem responds_silent {fd : Int} {o : Op Int} (h : Responds fd o) : duties.Silent o := by
  cases o with
  | updateEntry | close | rawSocket | connectToServer => exact h.elim
  | _ => exact ⟨rfl, fun _ => rfl⟩

theorem udpLoop_silent (header : SfcHeader) (rawSocket : Int) (n : Nat) (buffer : List Byte) :
    (Egress.exitingUdpLoop self header rawSocket n buffer).All duties.Silent :=
  (udpLoop_responds self header rawSocket n buffer).mono fun _ => responds_silent

theorem tcpLoop_silent (header : SfcHeader) (socket : Int) (n : Nat) (received : List Byte) :
    (Egress.exitingTcpLoop self header socket n received).All duties.Silent :=
  (tcpLoop_responds self header socket n received).mono fun _ => responds_silent

theorem openSender_safe :
    duties.Safe (fun sender held => held = [sender]) (Egress.openSender : Handler Int Int) [] := by
  refine ⟨by simp [duties], fun reply => ?_⟩
  cases reply with
  | none => trivial
  | some fd => rfl

theorem openListener_safe (sender : Int) :
    duties.Safe (fun rawSocket held => held = [rawSocket, sender]) (Egress.openListener self)
      [sender] := by
  refine ⟨by simp [duties], fun reply => ?_⟩
  cases reply with
  | none => trivial
  | some rawSocket =>
    refine ⟨by simp [duties], fun bound => ?_⟩
    cases bound with
    | false => exact ⟨by simp [duties, Ledger.update, opens], fun _ => trivial⟩
    | true => rfl

/-- Of the two sockets the table is offered one. -/
theorem exchange_safe (header : SfcHeader) (ce : ConnectionEntry) (sender rawSocket : Int)
    (datagram buffer : List Byte) (fuel : Nat) :
    duties.Safe (fun _ held => held ≠ [])
      (Egress.exchange self header ce sender rawSocket datagram buffer fuel) [rawSocket, sender] := by
  refine ⟨by simp [duties], fun (sent : Int) => ?_⟩
  change duties.Safe _ (if sent < 0 then _ else _) [rawSocket, sender]
  split
  · trivial
  refine ⟨by simp [duties], fun answer => ?_⟩
  have hlen : ([rawSocket, sender].erase sender).length = 1 := List.length_erase_of_mem (by simp)
  refine Ledger.Safe.silent ((raise_all answer).bind fun _ => udpLoop_silent self _ _ _ _) fun _ => ?_
  change [rawSocket, sender].erase sender ≠ []
  exact List.ne_nil_of_length_eq_add_one hlen

theorem exitingUdp_safe (pkt : List Byte) (pktLen : Nat) (ce : ConnectionEntry) (sock : Int)
    (datagram buffer : List Byte) (fuel : Nat) :
    duties.Safe (fun _ held => held ≠ [])
      (Egress.manageExitingUdpPackets self pkt pktLen ce sock datagram buffer fuel) [] := by
  unfold Egress.manageExitingUdpPackets
  dsimp only
  refine openSender_safe.bind fun sender held hheld => ?_
  rw [hheld]
  split
  · trivial
  refine (openListener_safe self sender).bind fun rawSocket held' hheld' => ?_
  rw [hheld']
  exact exchange_safe self _ ce sender rawSocket _ buffer fuel

theorem exitingTcp_safe (pkt : List Byte) (pktLen : Nat) (ce : ConnectionEntry) (socket : Int)
    (received : List Byte) (fuel : Nat) :
    duties.Safe (fun _ _ => True)
      (Egress.manageExitingTcpPackets self pkt pktLen ce socket received fuel) [] := by
  have hrest (fd : Int) (s : List Byte) : (Prog.op (Op.send fd s) fun _ =>
      Egress.exitingTcpLoop self (retrieveHeader pkt) fd fuel received :
      Handler Int Unit).All duties.Silent :=
    ⟨⟨rfl, fun _ => rfl⟩, fun _ => tcpLoop_silent self _ fd fuel received⟩
  unfold Egress.manageExitingTcpPackets
  dsimp only
  split
  · trivial
  by_cases hs : Descriptor.num socket = -1
  · rw [Egress.destination_new _ _ _ hs]
    refine ⟨by simp [duties], fun reply => ?_⟩
    match reply with
    | none => trivial
    | some (fd, addr) =>
      refine ⟨by simp [duties, Ledger.update, opens], fun answer => ?_⟩
      refine Ledger.Safe.silent ?_ fun _ => trivial
      exact Prog.All.bind (Prog.All.bind (raise_all answer) fun _ => trivial) fun fd' => hrest fd' _
  · rw [Egress.destination_known _ _ _ hs]
    exact .silent (hrest socket _) fun _ => trivial

theorem start_safe (g : Egress.Callback Int) : duties.Safe (Leaves g) (Egress.start self g) [] := by
  match g with
  | .vnf args =>
    refine Ledger.Safe.silent ⟨⟨rfl, fun _ => rfl⟩, fun _ => ?_⟩ fun _ => trivial
    refine (checked_all _).bind fun headers => ⟨⟨rfl, fun _ => rfl⟩, fun sock => ?_⟩
    cases connType headers.1.protocol
    · exact ⟨⟨rfl, fun _ => rfl⟩, fun _ => trivial⟩
    · exact ⟨⟨rfl, fun _ => rfl⟩, fun _ => trivial⟩
  | .task (.exitingTcp pkt pktLen ce socket) _ buffer fuel =>
    exact exitingTcp_safe self pkt pktLen ce socket buffer fuel
  | .task (.exitingUdp pkt pktLen ce sock) datagram buffer fuel =>
    exact exitingUdp_safe self pkt pktLen ce sock datagram buffer fuel

end Programs

section Steps
variable {sh : Shaping ConnectionEntry} {s s' : State sh} {o : Op Int} {r : Reply Int o}

/-- The descriptors of before, those in the table and those that the handlers
answer for are all open, and apart. -/
def Covered (initial : List Int) (s : State sh) (held : List Int) : Prop :=
  (initial ++ (stored s.endpoint ++ held)).Subperm s.descriptors

/-- An operation puts what it registers in the table or leaves the table as it was. -/
theorem stored_performed (h : s.endpoint.Performs o r s'.endpoint) (hu : Updates o) :
    (stored s'.endpoint).Subperm ((registers o).toList ++ stored s.endpoint) := by
  have htab := DeadConnections.table_performed (s := ⟨s.endpoint, [], []⟩) h hu
  cases hreg : registration ⟨o, r⟩ with
  | none =>
    rw [hreg] at htab
    unfold stored
    rw [htab]
    exact (List.sublist_append_right _ _).subperm
  | some p =>
    obtain ⟨ce, v⟩ := p
    have hinsert : (s.endpoint.connectionMap.1.insert ConnectionEntry.lt ce v).entries.Subperm
        ((ce, v) :: s.endpoint.connectionMap.1.entries) := Tree.subperm_insert ..
    obtain ⟨nodes, hperm, hsub⟩ := hinsert
    rw [hreg] at htab
    rw [DeadConnections.registers_registration hreg]
    unfold stored
    rw [htab]
    change ((sh.run _ _).entries.map _).Subperm _
    rw [sh.entries_run]
    exact ⟨_, hperm.map _, hsub.map _⟩

theorem covered_performed {initial left held : List Int}
    (h : s.endpoint.Performs o r s'.endpoint) (hu : Updates o)
    (hleft : s'.descriptors = left ++ sockets.update s.descriptors ⟨o, r⟩)
    (hheld : ∀ x ∈ duties.closes o, x ∈ held) (hcovered : Covered initial s held) :
    Covered initial s' (duties.update held ⟨o, r⟩) := by
  have hstored := stored_performed h hu
  unfold Covered at hcovered ⊢
  rw [hleft]
  rw [List.subperm_iff_count] at hcovered hstored ⊢
  intro fd
  specialize hcovered fd
  specialize hstored fd
  simp only [List.count_append] at hcovered hstored ⊢
  cases o with
  | close fd' =>
    have hbefore := (List.perm_cons_erase (hheld fd' rfl)).count_eq fd
    have hopen := (List.subperm_cons_erase fd' s.descriptors).count_le fd
    change _ ≤ 0 + _ at hstored
    rw [Ledger.update_close rfl, Ledger.update_close rfl]
    rw [List.count_cons] at hbefore hopen
    omega
  | updateEntry ce fd' addr endpoint =>
    -- what leaves the handler's account is what the table may have got
    have hbefore := (List.perm_cons_erase (hheld fd' rfl)).count_eq fd
    change _ ≤ [fd'].count fd + _ at hstored
    change _ + (_ + (held.erase fd').count fd) ≤ _ + s.descriptors.count fd
    rw [List.count_cons] at hbefore hstored
    rw [List.count_nil] at hstored
    omega
  | _ =>
    have hsame : duties.opens = sockets.opens := rfl
    change _ ≤ 0 + _ at hstored
    rw [Ledger.update_open rfl, Ledger.update_open rfl, hsame, List.count_append, List.count_append]
    omega

end Steps

section Runs
variable {sh : Shaping ConnectionEntry} {self : Self} {myIp : String} {extPort intPort : BitVec 16}
  {initial : List Int} {hinitial : initial.Nodup} {P : EgressPool sh}

theorem covered_reachable (h : Reachable (system sh self) (fun _ _ _ _ => True)
    (start sh myIp extPort intPort initial hinitial) P) :
    Covered initial P.shared (duties.holdings P.threads) := by
  refine Ledger.holdings_reachable (J := Covered initial) h (DeadConnections.start_updates self)
    (start_safe self) ?_ ?_ ?_ ?_
  · intro s held held' hperm hcovered
    exact ((hperm.append_left _).append_left _).symm.subperm.trans hcovered
  · change (initial ++ ([] ++ [])).Subperm initial
    rw [List.append_nil, List.append_nil]
  · intro s g o r s' born held hperf hu hheld hcovered
    obtain ⟨hp, ⟨left, hleft⟩, _⟩ := hperf
    exact covered_performed hp hu hleft hheld hcovered
  · intro s s' g held harr hcovered
    rw [harr.1]
    exact hcovered

theorem kept_returned (h : Reachable (system sh self) (fun _ _ _ _ => True)
    (start sh myIp extPort intPort initial hinitial) P) {t : EgressThread} (ht : t ∈ P.threads)
    (hret : returned t = true) : duties.kept t.past ≠ [] := by
  have hsafe := (start_safe self t.tag).reaches (h.thread t ht)
  unfold returned at hret
  split at hret
  · rename_i htag hprog
    rw [htag, hprog] at hsafe
    exact hsafe
  · cases hret

/-- A call that has returned has left a descriptor open that the table does not
have, and each adds to them: the descriptors outnumber those of before and the
entries by one for each call at least. -/
theorem never_settled (sh : Shaping ConnectionEntry) (self : Self) (myIp : String)
    (extPort intPort : BitVec 16) (initial : List Int) (hinitial : initial.Nodup) (P : EgressPool sh)
    (h : Reachable (system sh self) (fun _ _ _ _ => True)
      (start sh myIp extPort intPort initial hinitial) P) :
    (Settled P ↔ ∀ t ∈ P.threads, returned t = false) ∧
    (Bounded initial P → ∀ t ∈ P.threads, returned t = false) ∧
    initial.length + P.shared.endpoint.connectionMap.1.entries.length +
      P.threads.countP returned ≤ P.shared.descriptors.length := by
  have hcovered := covered_reachable h
  have hcount : initial.length + P.shared.endpoint.connectionMap.1.entries.length +
      P.threads.countP returned ≤ P.shared.descriptors.length := by
    have hreturned := Ledger.countP_le_holdings (L := duties) (p := returned)
      fun t ht hret => kept_returned h ht hret
    have hlen := hcovered.length_le
    simp only [List.length_append, stored, List.length_map] at hlen
    omega
  have hdistinct := List.nodup_iff_count.mpr fun fd =>
    (hcovered.count_le fd).trans (List.nodup_iff_count.mp P.shared.distinct fd)
  refine ⟨⟨fun hsettled t ht => ?_, fun hnone t ht hret => ?_⟩, fun hbounded t ht => ?_, hcount⟩
  · by_contra hret
    rw [Bool.not_eq_false] at hret
    obtain ⟨fd, hfd⟩ := List.exists_mem_of_ne_nil _ (kept_returned h ht hret)
    have hheld : fd ∈ duties.holdings P.threads := List.mem_flatMap.mpr ⟨t, ht, hfd⟩
    rcases hsettled t ht hret fd (Ledger.mem_kept hfd) with hclosed | hstored
    · exact hclosed (hcovered.subset (by simp [hheld]))
    · -- what a thread has to answer for is not in the table
      have hapart := (List.nodup_append.mp (List.nodup_append.mp hdistinct).2.1).2.2
      exact hapart fd hstored fd hheld rfl
  · rw [hnone t ht] at hret
    cases hret
  · by_contra hret
    rw [Bool.not_eq_false] at hret
    have hpos : 0 < P.threads.countP returned := List.countP_pos_iff.mpr ⟨t, ht, hret⟩
    unfold Bounded at hbounded
    omega

end Runs

instance (self : Self) : DecidablePred (system plain self).fatal :=
  inferInstanceAs (DecidablePred Stop.Fatal)

def answeringWorld : World (system plain proxy) where
  resolve s _ o :=
    let next := s.endpoint.serve (s.descriptors.length : Int) ⟨"10.0.2.1", 57000, false⟩
      udpPacket.bytes o
    if h : (sockets.update s.descriptors ⟨o, next.1⟩).Nodup then
      some (next.1, ⟨next.2, sockets.update s.descriptors ⟨o, next.1⟩, h⟩, Egress.started id 4 o)
    else none
  performs s g o r s' born h := by
    dsimp only at h
    split at h
    · cases h
      exact ⟨s.endpoint.serve_performs .., ⟨[], rfl⟩, Egress.started_starts id 4 o⟩
    · cases h
  accept s g := if g = .vnf (udpArgs udpFrame) then some s else none
  arrives s g s' h := by
    split at h
    · cases h
      exact ⟨rfl, _, ‹_›⟩
    · cases h

def atStart : List Int := [0, 1, 2, 3]

theorem atStart_nodup : atStart.Nodup := by decide

def twoPackets : List (Move (Egress.Callback Int)) :=
  .arrive (.vnf (udpArgs udpFrame)) :: steps 3 0 ++ steps 8 1 ++
    .arrive (.vnf (udpArgs udpFrame)) :: steps 3 2 ++ steps 8 3

theorem twoPackets_never_settled : ∃ P : EgressPool plain,
    P.threads.countP returned = 2 ∧ ¬ Settled P ∧ ¬ Bounded atStart P ∧
    6 + P.shared.endpoint.connectionMap.1.entries.length ≤ P.shared.descriptors.length := by
  obtain ⟨P, hP, hdone⟩ := answeringWorld.exists_reachable (fun _ _ _ _ => True)
    (start plain "10.0.0.9" 57000 57001 atStart atStart_nodup) twoPackets
    (fun P => decide (P.threads.countP returned = 2)) (by decide +kernel)
  have hcount : P.threads.countP returned = 2 := of_decide_eq_true hdone
  obtain ⟨hsettled, hbounded, hgrown⟩ :=
    never_settled plain proxy "10.0.0.9" 57000 57001 atStart atStart_nodup P hP
  have hsome : ¬ ∀ t ∈ P.threads, returned t = false := by
    intro hnone
    have hzero : P.threads.countP returned = 0 :=
      List.countP_eq_zero.mpr fun t ht => by simp [hnone t ht]
    omega
  refine ⟨P, hcount, fun h => hsome (hsettled.mp h), fun h => hsome (hbounded h), ?_⟩
  rw [hcount] at hgrown
  change 4 + _ + 2 ≤ _ at hgrown
  omega

/-- Two packets of one flow, both answered: both calls have returned, their four
sockets are open, and the table has one entry, for descriptor 4. -/
theorem four_sockets_left : ∃ P : EgressPool plain,
    Reachable (system plain proxy) (fun _ _ _ _ => True)
      (start plain "10.0.0.9" 57000 57001 atStart atStart_nodup) P ∧
    (∀ t ∈ P.threads, pending t.prog = none) ∧
    P.shared.descriptors = [7, 6, 5, 4, 0, 1, 2, 3] ∧ stored P.shared.endpoint = [4] ∧
    ¬ Settled P ∧ ¬ Bounded atStart P := by
  obtain ⟨P, hP, hdone⟩ := answeringWorld.exists_reachable (fun _ _ _ _ => True)
    (start plain "10.0.0.9" 57000 57001 atStart atStart_nodup) twoPackets
    (fun P => decide ((∀ t ∈ P.threads, pending t.prog = none) ∧
      P.shared.descriptors = [7, 6, 5, 4, 0, 1, 2, 3] ∧ stored P.shared.endpoint = [4] ∧
      ∃ t ∈ P.threads, returned t = true ∧ 5 ∈ owns opens t)) (by decide +kernel)
  obtain ⟨hended, hopen, hstored, t, ht, hret, howns⟩ := of_decide_eq_true hdone
  refine ⟨P, hP, hended, hopen, hstored, fun hsettled => ?_, fun hbounded => ?_⟩
  · rcases hsettled t ht hret 5 howns with hclosed | hin
    · rw [hopen] at hclosed
      exact hclosed (by decide)
    · rw [hstored] at hin
      exact absurd hin (by decide)
  · have hone : P.shared.endpoint.connectionMap.1.entries.length = 1 := by
      rw [← List.length_map (f := fun entry => entry.2.1)]
      exact congrArg List.length hstored
    unfold Bounded at hbounded
    rw [hopen, hone] at hbounded
    exact absurd hbounded (by decide)

end Ironhide.Proofs.EgressSockets
