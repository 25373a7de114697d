import Mathlib.Algebra.GroupWithZero.Nat
import Mathlib.Data.List.Perm.Basic

namespace Ironhide.Lib.Machines

/-- A machine that takes one action at a time, or refuses it. -/
structure Machine (σ α : Type) where
  start : σ
  step : σ → α → Option σ

namespace Machine

variable {σ α : Type} (M : Machine σ α)

def run (s : σ) (as : List α) : Option σ := as.foldlM M.step s

def Reachable (s : σ) : Prop := ∃ as, M.run M.start as = some s

def Rest (own : α → Bool) (s : σ) : Prop := ∀ a, own a = true → M.step s a = none

variable {M} {s t : σ} {as : List α}

@[simp] theorem run_nil (s : σ) : M.run s [] = some s := rfl

theorem run_cons {a : α} : M.run s (a :: as) = some t ↔ ∃ u, M.step s a = some u ∧ M.run u as = some t :=
  Option.bind_eq_some_iff

theorem run_append {bs : List α} :
    M.run s (as ++ bs) = some t ↔ ∃ u, M.run s as = some u ∧ M.run u bs = some t := by
  induction as generalizing s with
  | nil => simp
  | cons a as ih =>
    simp only [List.cons_append, run_cons, ih]
    constructor
    · intro h
      obtain ⟨u, hu, v, hv, ht⟩ := h
      exact ⟨v, ⟨u, hu, hv⟩, ht⟩
    · intro h
      obtain ⟨v, ⟨u, hu, hv⟩, ht⟩ := h
      exact ⟨u, hu, v, hv, ht⟩

theorem reachable_start : M.Reachable M.start := ⟨[], rfl⟩

theorem Reachable.run (h : M.Reachable s) (hr : M.run s as = some t) : M.Reachable t := by
  obtain ⟨bs, hb⟩ := h
  exact ⟨bs ++ as, run_append.mpr ⟨s, hb, hr⟩⟩

/-- What one step keeps, a run keeps. -/
theorem run_invariant {I : σ → Prop} (hs : ∀ s a t, I s → M.step s a = some t → I t) (h : I s)
    (hr : M.run s as = some t) : I t := by
  induction as generalizing s with
  | nil =>
    cases hr
    exact h
  | cons a as ih =>
    obtain ⟨u, hu, hr⟩ := run_cons.mp hr
    exact ih (hs s a u h hu) hr

theorem Reachable.invariant {I : σ → Prop} (h : M.Reachable s) (h₀ : I M.start)
    (hs : ∀ s a t, I s → M.step s a = some t → I t) : I s := by
  obtain ⟨as, hr⟩ := h
  exact run_invariant hs h₀ hr

/-- The potential of a state pays for what is gained, and every action for what
it adds to the potential. -/
theorem run_potential {I : σ → Prop} {μ : σ → Nat} {gain cost : α → Nat}
    (hs : ∀ s a t, I s → M.step s a = some t → I t)
    (hμ : ∀ s a t, I s → M.step s a = some t → gain a + μ t ≤ cost a + μ s) (h : I s)
    (hr : M.run s as = some t) : (as.map gain).sum + μ t ≤ (as.map cost).sum + μ s := by
  induction as generalizing s with
  | nil =>
    cases hr
    exact Nat.le_refl _
  | cons a as ih =>
    obtain ⟨u, hu, hr⟩ := run_cons.mp hr
    have hhead := hμ s a u h hu
    have htail := ih (hs s a u h hu) hr
    simp only [List.map_cons, List.sum_cons]
    omega

/-- When every action of a kind lowers the potential, such actions lead to a
state where there is none left. -/
theorem exists_rest {I : σ → Prop} {μ : σ → Nat} {own : α → Bool}
    (hs : ∀ s a t, I s → M.step s a = some t → I t)
    (hμ : ∀ s a t, I s → own a = true → M.step s a = some t → μ t < μ s) (h : I s) :
    ∃ as t, (∀ a ∈ as, own a = true) ∧ M.run s as = some t ∧ M.Rest own t := by
  induction hn : μ s using Nat.strongRecOn generalizing s with
  | ind n ih =>
    by_cases hrest : M.Rest own s
    · exact ⟨[], s, by simp, rfl, hrest⟩
    · simp only [Rest, not_forall, exists_prop] at hrest
      obtain ⟨a, ha, hstep⟩ := hrest
      obtain ⟨u, hu⟩ := Option.ne_none_iff_exists'.mp hstep
      obtain ⟨as, t, has, hr, ht⟩ := ih (μ u) (hn ▸ hμ s a u h ha hu) (hs s a u h hu) rfl
      refine ⟨a :: as, t, fun b hb => ?_, run_cons.mpr ⟨u, hu, hr⟩, ht⟩
      rcases List.mem_cons.mp hb with rfl | hb
      · exact ha
      · exact has b hb

end Machine

section Slots
variable {α β : Type} {l : List α} {i : Nat} {a : α}

/-- A list of slots, and the same with one slot filled anew. -/
theorem set_slot (h : l[i]? = some a) (b : α) :
    ∃ rest, l.Perm (a :: rest) ∧ (l.set i b).Perm (b :: rest) := by
  obtain ⟨hlt, rfl⟩ := List.getElem?_eq_some_iff.mp h
  exact ⟨l.eraseIdx i, (List.getElem_cons_eraseIdx_perm hlt).symm, List.set_perm_cons_eraseIdx hlt b⟩

theorem sum_set (h : l[i]? = some a) (f : α → Nat) (b : α) :
    ((l.set i b).map f).sum + f a = (l.map f).sum + f b := by
  obtain ⟨rest, hl, hs⟩ := set_slot h b
  rw [(hs.map f).sum_nat, (hl.map f).sum_nat, List.map_cons, List.map_cons, List.sum_cons, List.sum_cons]
  omega

theorem countP_set (h : l[i]? = some a) (p : α → Bool) (b : α) :
    (l.set i b).countP p + (if p a then 1 else 0) = l.countP p + (if p b then 1 else 0) := by
  obtain ⟨rest, hl, hs⟩ := set_slot h b
  rw [hs.countP_eq, hl.countP_eq, List.countP_cons, List.countP_cons]
  omega

theorem filterMap_set (h : l[i]? = some a) (f : α → Option β) (b : α) :
    ∃ rest, (l.filterMap f).Perm ((f a).toList ++ rest) ∧
      ((l.set i b).filterMap f).Perm ((f b).toList ++ rest) := by
  obtain ⟨rest, hl, hs⟩ := set_slot h b
  refine ⟨rest.filterMap f, ?_, ?_⟩
  · have hcons := hl.filterMap f
    cases ha : f a <;> simpa [List.filterMap_cons, ha] using hcons
  · have hcons := hs.filterMap f
    cases hb : f b <;> simpa [List.filterMap_cons, hb] using hcons

/-- Filling a slot with what has the same value under a map changes nothing of it. -/
theorem filterMap_set_same (h : l[i]? = some a) (f : α → Option β) (b : α) (hf : f b = f a) :
    ((l.set i b).filterMap f).Perm (l.filterMap f) := by
  obtain ⟨rest, hl, hs⟩ := filterMap_set h f b
  rw [hf] at hs
  exact hs.trans hl.symm

theorem filterMap_snoc_none {f : α → Option β} (h : f a = none) :
    (l ++ [a]).filterMap f = l.filterMap f := by
  simp [List.filterMap_append, h]

end Slots

end Ironhide.Lib.Machines
