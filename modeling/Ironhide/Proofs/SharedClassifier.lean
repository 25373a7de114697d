import Ironhide.Lib.SearchTree
import Ironhide.Lib.Schedule
import Ironhide.Model.SfcMap
import Ironhide.Proofs.Framing

namespace Ironhide.Proofs.SharedClassifier
open Model Model.Classifier Lib.Bytes Lib.Program Lib.StdMap Lib.SearchTree Lib.Threads
open Lib.Threads.System Lib.Schedule

theorem mapperLt_strictOn : StrictOn mapperLt Set.univ where
  irrefl a _ := by simp [mapperLt]
  trans a _ b _ c _ hab hbc := by
    simp only [mapperLt, decide_eq_true_eq] at hab hbc ⊢
    exact hab.trans hbc
  total a _ b _ hne := by
    cases a <;> cases b <;> first | exact absurd rfl hne | simp [mapperLt, PktType.value]

/-- The `std::map` of the classifier, with trees of any shape. -/
abbrev mapperMap (sh : Shaping PktType) : MapOps PktType := treeOps mapperLt sh

theorem mapperMap_finiteOn (sh : Shaping PktType) :
    FiniteOn (mapperMap sh) Set.univ fun m => m.1.Sorted mapperLt Set.univ :=
  treeOps_finiteOn mapperLt_strictOn

/-- The operations of `classify_pkt`, which all set the same. -/
def Sets : MapOp → Prop
  | .index m => m ≠ .default
  | .store m sfcid => m ≠ .default ∧ sfcid = "0"
  | .atKey _ => True

theorem classify_sets (m : PktType) : (classify m).All Sets := by
  refine ⟨by simp [Sets, defaultUdpMapper], fun _ => ⟨by simp [Sets, defaultUdpMapper], fun _ =>
    ⟨by simp [Sets, defaultTcpMapper], fun _ => ⟨by simp [Sets, defaultTcpMapper], fun _ =>
      ⟨trivial, fun reply => ?_⟩⟩⟩⟩⟩
  cases reply <;> trivial

def AfterStores (past : List (Event MapOp MapReply)) : MapOp → Prop
  | .atKey _ => ∀ m ≠ PktType.default, ⟨.store m "0", ()⟩ ∈ past
  | _ => True

theorem classify_afterStores (m : PktType) : (classify m).AllPast AfterStores [] := by
  refine ⟨trivial, fun _ => ⟨trivial, fun _ => ⟨trivial, fun _ => ⟨trivial, fun _ =>
    ⟨fun k hk => ?_, fun reply => ?_⟩⟩⟩⟩⟩
  · cases k with
    | default => exact absurd rfl hk
    | tcp => simp [defaultTcpMapper]
    | udp => simp [defaultUdpMapper]
  · cases reply <;> trivial

variable {sh : Shaping PktType} {g : List Byte × Nat}
  {guard : (mapperMap sh).M (Option String) → List (Lib.Threads.Thread (List Byte × Nat) MapOp
    MapReply Exn (Option String)) → List Byte × Nat → MapOp → Prop}
  {P : Pool ((mapperMap sh).M (Option String)) (List Byte × Nat) MapOp MapReply Exn (Option String)}

/-- The map is one that lookups work in, and nobody files the default type. -/
structure Filed (s : (mapperMap sh).M (Option String)) : Prop where
  sorted : s.1.Sorted mapperLt Set.univ
  absent : (mapperMap sh).find s .default = none

theorem Filed.performs {s s' : (mapperMap sh).M (Option String)} {o : MapOp} {r : MapReply o}
    (h : Filed s) (ho : Sets o) (hperf : Performs (mapperMap sh) s o r s') : Filed s' := by
  have hT := mapperMap_finiteOn sh
  cases o with
  | index m =>
    cases hperf
    refine ⟨hT.good_insert _ _ _ h.sorted trivial, ?_⟩
    rw [hT.insert_other _ _ _ _ h.sorted trivial trivial (Ne.symm ho)]
    exact h.absent
  | store m sfcid =>
    cases hperf
    refine ⟨hT.good_assign _ _ _ h.sorted trivial, ?_⟩
    rw [hT.assign_other _ _ _ _ h.sorted trivial trivial (Ne.symm ho.1)]
    exact h.absent
  | atKey m =>
    cases hperf.1
    exact h

theorem filed (h : Reachable (system (mapperMap sh)) guard (mapperMap sh).empty P) :
    Filed P.shared := by
  have hT := mapperMap_finiteOn sh
  refine h.invariant (fun P => Filed P.shared) ⟨hT.good_empty, hT.find_empty _⟩ ?_
  intro P Q hr ih hst
  cases hst with
  | run _ _ hperf => exact ih.performs (hr.next (classify_sets _)) hperf.1
  | arrive _ harr =>
    cases harr
    exact ih

def Stored (s : (mapperMap sh).M (Option String)) : Event MapOp MapReply → Prop
  | ⟨.store m _, _⟩ => (mapperMap sh).find s m = some (some "0")
  | _ => True

theorem find_performs {s s' : (mapperMap sh).M (Option String)} {o : MapOp} {r : MapReply o}
    (h : Filed s) (ho : Sets o) (hperf : Performs (mapperMap sh) s o r s') {m : PktType}
    (hm : (mapperMap sh).find s m = some (some "0")) :
    (mapperMap sh).find s' m = some (some "0") := by
  have hT := mapperMap_finiteOn sh
  cases o with
  | index k =>
    cases hperf
    by_cases hmk : m = k
    · rw [hmk, hT.insert_self _ _ _ h.sorted trivial, ← hmk, hm]
      rfl
    · rw [hT.insert_other _ _ _ _ h.sorted trivial trivial hmk, hm]
  | store k sfcid =>
    cases hperf
    by_cases hmk : m = k
    · rw [hmk, hT.assign_self _ _ _ h.sorted trivial, ho.2]
    · rw [hT.assign_other _ _ _ _ h.sorted trivial trivial hmk, hm]
  | atKey k =>
    cases hperf.1
    exact hm

theorem Stored.performs {s s' : (mapperMap sh).M (Option String)} {o : MapOp} {r : MapReply o}
    (h : Filed s) (ho : Sets o) (hperf : Performs (mapperMap sh) s o r s')
    {e : Event MapOp MapReply} (he : Stored s e) : Stored s' e := by
  obtain ⟨o', r'⟩ := e
  cases o' with
  | store m sfcid => exact find_performs h ho hperf he
  | _ => trivial

theorem stored (h : Reachable (system (mapperMap sh)) guard (mapperMap sh).empty P) :
    ∀ t ∈ P.threads, ∀ e ∈ t.past, Stored P.shared e := by
  refine h.since (E := fun s _ e => Stored s e) ?_ ?_
  · intro s before after g past o k r s' born hr hperf
    have hfiled := filed hr
    have ho : Sets o := hr.next (classify_sets _)
    refine ⟨?_, fun _ e => Stored.performs hfiled ho hperf.1⟩
    cases o with
    | store m sfcid =>
      have hself := (mapperMap_finiteOn sh).assign_self s m (some sfcid) hfiled.sorted trivial
      cases hperf.1
      change (mapperMap sh).find _ m = _
      rw [hself, ho.2]
    | _ => trivial
  · intro s s' g harr _ e he
    cases harr
    exact he

/-- A lookup gives what the finished map has. -/
def Answered : Event MapOp MapReply → Prop
  | ⟨.atKey m, r⟩ => r = (sfcMap m).map some
  | _ => True

theorem answered (h : Reachable (system (mapperMap sh)) guard (mapperMap sh).empty P) :
    ∀ t ∈ P.threads, ∀ e ∈ t.past, Answered e := by
  refine h.since (E := fun _ _ e => Answered e) ?_ fun _ _ _ _ _ _ he => he
  intro s before after g past o k r s' born hr hperf
  refine ⟨?_, fun _ _ he => he⟩
  cases o with
  | atKey m =>
    have hmem : (⟨g, past, .op (.atKey m) k⟩ : Lib.Threads.Thread (List Byte × Nat) MapOp MapReply Exn
        (Option String)) ∈ before ++ ⟨g, past, .op (.atKey m) k⟩ :: after :=
      mem_split.mpr (Or.inr rfl)
    have hreply : r = (mapperMap sh).find s m := hperf.1.2
    have hafter := ((hr.thread _ hmem).snoc r).allPast (classify_afterStores _) rfl
    change r = _
    rw [hreply]
    cases m with
    | default => exact (filed hr).absent
    | tcp => exact stored hr _ hmem _ (hafter .tcp (by simp))
    | udp => exact stored hr _ hmem _ (hafter .udp (by simp))
  | _ => trivial

/-- `classify_pkt` ends with what its lookup gives. -/
theorem runs_classify {m : PktType} {es : List (Event MapOp MapReply)}
    {out : Except Exn (Option String)} (h : (classify m).Runs es out) :
    (∃ sfcid, ⟨.atKey m, some sfcid⟩ ∈ es ∧ out = .ok sfcid) ∨
      (⟨.atKey m, none⟩ ∈ es ∧ out = .error .outOfRange) := by
  obtain ⟨_, _, rfl, h₁⟩ := Prog.runs_op.mp h
  obtain ⟨_, _, rfl, h₂⟩ := Prog.runs_op.mp h₁
  obtain ⟨_, _, rfl, h₃⟩ := Prog.runs_op.mp h₂
  obtain ⟨_, _, rfl, h₄⟩ := Prog.runs_op.mp h₃
  obtain ⟨reply, _, rfl, h₅⟩ := Prog.runs_op.mp h₄
  cases reply with
  | none =>
    obtain ⟨rfl, rfl⟩ := Prog.runs_throw.mp h₅
    exact Or.inr ⟨by simp, rfl⟩
  | some sfcid =>
    obtain ⟨rfl, rfl⟩ := Prog.runs_ret.mp h₅
    exact Or.inl ⟨sfcid, by simp, rfl⟩

/-- A call ends as one that has the map for itself. -/
def Alike (g : List Byte × Nat) (out : Except Exn (Option String)) : Prop :=
  out = (Classifier.classifyPkt g.1 g.2).value.map some

/-- However many threads classify packets, in whatever order their operations on
the map come and whatever the shape of its tree, every one that is over has got
what the map with its two entries gives. -/
theorem classified_alike (h : Reachable (system (mapperMap sh)) guard (mapperMap sh).empty P) :
    ∀ t ∈ P.threads, ∀ out, t.prog.Runs [] out → Alike t.tag out := by
  intro t ht out hover
  have hruns := (h.thread t ht).runs hover
  rw [List.append_nil] at hruns
  have hanswered := answered h t ht
  unfold Alike Classifier.classifyPkt
  dsimp only
  obtain ⟨sfcid, hmem, rfl⟩ | ⟨hmem, rfl⟩ := runs_classify hruns
  · have hsome : some sfcid = (sfcMap _).map some := hanswered _ hmem
    cases hm : sfcMap (setPkt t.tag.1 t.tag.2).value with
    | none =>
      rw [hm] at hsome
      cases hsome
    | some id =>
      rw [hm] at hsome
      cases hsome
      rfl
  · have hnone : none = (sfcMap _).map some := hanswered _ hmem
    cases hm : sfcMap (setPkt t.tag.1 t.tag.2).value with
    | none => rfl
    | some id =>
      rw [hm] at hnone
      cases hnone

def resolved (s : (mapperMap (.keep PktType)).M (Option String)) :
    (o : MapOp) → MapReply o × (mapperMap (.keep PktType)).M (Option String)
  | .index m => ((), (mapperMap (.keep PktType)).insert s m none)
  | .store m sfcid => ((), (mapperMap (.keep PktType)).assign s m (some sfcid))
  | .atKey m => ((mapperMap (.keep PktType)).find s m, s)

def mapWorld : World (system (mapperMap (.keep PktType))) where
  resolve s _ o := some ((resolved s o).1, (resolved s o).2, [])
  performs s g o r s' born h := by
    cases o <;>
    · cases h
      exact ⟨by simp [Performs, resolved], rfl⟩
  accept s _ := some s
  arrives s g s' h := (Option.some.inj h).symm

instance : DecidablePred (system (mapperMap (.keep PktType))).fatal := fun _ => isTrue trivial

/-- A TCP packet is classified while another call is halfway through. -/
theorem classified_alike_two :
    ∃ P, Reachable (system (mapperMap (.keep PktType))) (fun _ _ _ _ => True)
      (mapperMap (.keep PktType)).empty P ∧
      ∃ t ∈ P.threads, t.prog.Runs [] (.ok (some "0")) ∧ Alike t.tag (.ok (some "0")) := by
  obtain ⟨P, hP, hdone⟩ := mapWorld.exists_reachable (fun _ _ _ _ => True)
    (mapperMap (.keep PktType)).empty
    (.arrive (Framing.tcpPacket, 43) :: .arrive ([], 0) :: steps 3 0 ++ steps 2 1 ++ steps 2 0)
    (fun P => decide (∃ t ∈ P.threads, returned t.prog = some (some "0"))) (by decide +kernel)
  obtain ⟨t, ht, hreturned⟩ := of_decide_eq_true hdone
  have hover := runs_of_returned hreturned
  exact ⟨P, hP, t, ht, hover, classified_alike hP t ht _ hover⟩

end Ironhide.Proofs.SharedClassifier
