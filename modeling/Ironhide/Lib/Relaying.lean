import Ironhide.Lib.Threads
import Mathlib.Data.List.Perm.Basic

namespace Ironhide.Lib.Relaying
open Program Threads Threads.System

variable {Op : Type} {Reply : Op → Type} {ε α β μ : Type}

theorem filterMap_cons_toList {ι : Type} (f : ι → Option μ) (a : ι) (as : List ι) :
    (a :: as).filterMap f = (f a).toList ++ as.filterMap f := by
  rw [List.filterMap_cons]
  cases f a <;> rfl

section Programs
variable (takes : Event Op Reply → Option μ) (hands : Op → Option μ)

/-- What an event brings, the program hands on with its next operation, and it
hands on nothing else. The last argument is what it has in hand. -/
def Relays : Prog Op Reply ε α → Option μ → Prop
  | .ret _, held => held = none
  | .throw _, held => held = none
  | .op o k, held => hands o = held ∧ ∀ r, Relays (k r) (takes ⟨o, r⟩)

def inHand : Prog Op Reply ε α → Option μ
  | .op o _ => hands o
  | _ => none

variable {takes hands} {held : Option μ} {p q : Prog Op Reply ε α} {es : List (Event Op Reply)}

theorem Relays.inHand_eq (h : Relays takes hands p held) : inHand hands p = held := by
  cases p with
  | ret a => exact h.symm
  | throw e => exact h.symm
  | op o k => exact h.1

/-- A program that neither takes nor hands on. -/
theorem relays_of_all (h : p.All fun o => hands o = none ∧ ∀ r, takes ⟨o, r⟩ = none) :
    Relays takes hands p none := by
  induction p with
  | ret a => rfl
  | throw e => rfl
  | op o k ih =>
    refine ⟨h.1.1, fun r => ?_⟩
    rw [h.1.2 r]
    exact ih r (h.2 r)

theorem relays_none (ht : ∀ e, takes e = none) (hh : ∀ o, hands o = none)
    (p : Prog Op Reply ε α) : Relays takes hands p none := by
  induction p with
  | ret a => rfl
  | throw e => rfl
  | op o k ih =>
    refine ⟨hh o, fun r => ?_⟩
    rw [ht]
    exact ih r

theorem Relays.bind {f : α → Prog Op Reply ε β} (h : Relays takes hands p held)
    (hf : ∀ a, Relays takes hands (f a) none) : Relays takes hands (p >>= f) held := by
  induction p generalizing held with
  | ret a =>
    cases h
    exact hf a
  | throw e => exact h
  | op o k ih => exact ⟨h.1, fun r => ih r (h.2 r)⟩

theorem Relays.reaches (h : Relays takes hands p held) (hr : Prog.Reaches p es q) :
    held.toList ++ es.filterMap takes =
      es.filterMap (fun e => hands e.op) ++ (inHand hands q).toList := by
  induction hr generalizing held with
  | refl p => simp [h.inHand_eq]
  | @op o k r es q _ ih =>
    obtain ⟨ho, hk⟩ := h
    have hrest := ih (hk r)
    rw [filterMap_cons_toList, filterMap_cons_toList, hrest, ho, List.append_assoc]

/-- The program hands on what is listed, in that order, as far as it gets. -/
def HandsOn (hands : Op → Option μ) : Prog Op Reply ε α → List μ → Prop
  | .op o k, l => ∃ rest, l = (hands o).toList ++ rest ∧ ∀ r, HandsOn hands (k r) rest
  | _, _ => True

theorem handsOn_of_all (h : p.All fun o => hands o = none) : HandsOn hands p [] := by
  induction p with
  | ret a => trivial
  | throw e => trivial
  | op o k ih =>
    refine ⟨[], ?_, fun r => ih r (h.2 r)⟩
    rw [h.1]
    rfl

theorem HandsOn.reaches {l : List μ} (h : HandsOn hands p l) (hr : Prog.Reaches p es q) :
    (es.filterMap fun e => hands e.op) <+: l := by
  induction hr generalizing l with
  | refl p => exact List.nil_prefix
  | @op o k r es q _ ih =>
    obtain ⟨rest, rfl, hk⟩ := h
    rw [filterMap_cons_toList]
    exact List.prefix_append_right_inj _ |>.mpr (ih (hk r))

/-- What the elements hand on, when only one of them does. -/
theorem flatMap_prefix {ι : Type} {f : ι → List μ} {c : ι → Bool} {ts : List ι} {l : List μ}
    (hone : ts.countP c ≤ 1) (hf : ∀ t ∈ ts, f t <+: if c t then l else []) :
    ts.flatMap f <+: l := by
  induction ts with
  | nil => exact List.nil_prefix
  | cons t ts ih =>
    have ht := hf t List.mem_cons_self
    have hts := fun u hu => hf u (List.mem_cons_of_mem _ hu)
    rw [List.flatMap_cons]
    rw [List.countP_cons] at hone
    cases hc : c t with
    | false =>
      rw [hc, if_neg Bool.false_ne_true, List.prefix_nil] at ht
      rw [ht, List.nil_append]
      exact ih (by omega) hts
    | true =>
      rw [hc, if_pos rfl] at ht hone
      have hnone : ts.flatMap f = [] := by
        refine List.flatMap_eq_nil_iff.mpr fun u hu => ?_
        have hu' := List.countP_eq_zero.mp (by omega : ts.countP c = 0) u hu
        have hempty := hts u hu
        rwa [if_neg hu', List.prefix_nil] at hempty
      rw [hnone, List.append_nil]
      exact ht

end Programs

section Pools
variable {σ Γ : Type} {S : System σ Γ Op Reply ε α}
  {guard : σ → List (Thread Γ Op Reply ε α) → Γ → Op → Prop} {P : Pool σ Γ Op Reply ε α}
  (takes : Γ → Event Op Reply → Option μ) (hands : Γ → Op → Option μ) (message : Γ → Option μ)

def taken (t : Thread Γ Op Reply ε α) : List μ := t.past.filterMap (takes t.tag)

def handed (t : Thread Γ Op Reply ε α) : List μ := t.past.filterMap fun e => hands t.tag e.op

def waiting (t : Thread Γ Op Reply ε α) : Option μ := inHand (hands t.tag) t.prog

def handling (t : Thread Γ Op Reply ε α) : Option μ := message t.tag

variable {takes hands message}

theorem handed_snoc (g : Γ) (past : List (Event Op Reply)) (p q : Prog Op Reply ε α)
    (e : Event Op Reply) : handed hands ⟨g, past ++ [e], q⟩ =
      handed hands ⟨g, past, p⟩ ++ (hands g e.op).toList := by
  rw [handed, handed, List.filterMap_append, filterMap_cons_toList, List.filterMap_nil,
    List.append_nil]

theorem filterMap_handling_spawn (born : List Γ) :
    (born.map S.spawn).filterMap (handling message) = born.filterMap message :=
  List.filterMap_map

theorem flatMap_handed_spawn (born : List Γ) :
    (born.map S.spawn).flatMap (handed hands) = [] := by
  refine List.flatMap_eq_nil_iff.mpr fun t ht => ?_
  obtain ⟨g, _, rfl⟩ := List.mem_map.mp ht
  rfl

/-- When handing something on starts the thread for it, and nothing else starts
one, the threads there are are for what has been handed on, each of it once. -/
theorem handed_perm {s : σ} (h : Reachable S guard s P)
    (hp : ∀ s g o r s' born, S.perform s g o r s' born → born.filterMap message = (hands g o).toList)
    (ha : ∀ s s' g, S.arrive s s' g → message g = none) :
    (P.threads.flatMap (handed hands)).Perm (P.threads.filterMap (handling message)) := by
  refine h.invariant (fun P => (P.threads.flatMap (handed hands)).Perm
    (P.threads.filterMap (handling message))) (List.Perm.refl []) ?_
  intro P Q _ ih hst
  cases hst with
  | @run s s' before after g past o k r born _ _ hperf =>
    have hmoved : (before ++ ⟨g, past ++ [⟨o, r⟩], k r⟩ :: after : List _).flatMap (handed hands)
        |>.Perm ((before ++ ⟨g, past, .op o k⟩ :: after : List _).flatMap (handed hands) ++
          (hands g o).toList) := by
      simp only [List.flatMap_append, List.flatMap_cons, handed_snoc g past (.op o k) (k r) ⟨o, r⟩,
        List.append_assoc]
      exact ((List.perm_append_comm).append_left _).append_left _
    have hsame : (before ++ ⟨g, past ++ [⟨o, r⟩], k r⟩ :: after : List _).filterMap
        (handling message) =
        (before ++ ⟨g, past, .op o k⟩ :: after : List _).filterMap (handling message) := by
      rw [List.filterMap_append, List.filterMap_append]
      rfl
    rw [List.flatMap_append, flatMap_handed_spawn, List.append_nil, List.filterMap_append,
      filterMap_handling_spawn, hp _ _ _ _ _ _ hperf, hsame]
    exact hmoved.trans (ih.append_right _)
  | @arrive s s' ts g _ harr =>
    have hnone : handling message (S.spawn g) = none := ha _ _ _ harr
    have hnew : [S.spawn g].flatMap (handed hands) = [] := rfl
    rw [List.flatMap_append, hnew, List.append_nil, List.filterMap_append,
      List.filterMap_cons_none hnone, List.filterMap_nil, List.append_nil]
    exact ih

/-- What has been taken is worked on by one thread each, but for what is still in hand. -/
theorem taken_perm {s : σ} (h : Reachable S guard s P)
    (hrel : ∀ g, Relays (takes g) (hands g) (S.start g) none)
    (hp : ∀ s g o r s' born, S.perform s g o r s' born → born.filterMap message = (hands g o).toList)
    (ha : ∀ s s' g, S.arrive s s' g → message g = none) :
    (P.threads.flatMap (taken takes)).Perm
      (P.threads.filterMap (handling message) ++ P.threads.filterMap (waiting hands)) := by
  have htaken : ∀ t ∈ P.threads, taken takes t = handed hands t ++ (waiting hands t).toList :=
    fun t ht => (hrel t.tag).reaches (h.thread t ht)
  have hsplit (ts : List (Thread Γ Op Reply ε α))
      (hts : ∀ t ∈ ts, taken takes t = handed hands t ++ (waiting hands t).toList) :
      (ts.flatMap (taken takes)).Perm (ts.flatMap (handed hands) ++ ts.filterMap (waiting hands)) := by
    induction ts with
    | nil => exact .refl []
    | cons t ts ih =>
      have hrest := ih fun u hu => hts u (List.mem_cons_of_mem _ hu)
      rw [List.flatMap_cons, List.flatMap_cons, hts t List.mem_cons_self,
        filterMap_cons_toList]
      simp only [List.append_assoc]
      refine List.Perm.append_left _ ?_
      exact (hrest.append_left _).trans (List.perm_append_comm_assoc ..)
  exact (hsplit _ htaken).trans ((handed_perm h hp ha).append_right _)

end Pools

end Ironhide.Lib.Relaying
