import Ironhide.Lib.Program
import Mathlib.Data.List.Perm.Basic
import Mathlib.Data.List.Perm.Subperm

namespace Ironhide.Lib.Passing
open Program

section Lists
variable {α β γ ι : Type} {R : α → β → Prop} {S : β → γ → Prop} {ins ins' : List α}
  {outs outs' : List β}

/-- Every output is made of an input, no two of the same one. -/
def AtMostOnce (R : α → β → Prop) (ins : List α) (outs : List β) : Prop :=
  ∃ used, List.Forall₂ R used outs ∧ used.Subperm ins

namespace AtMostOnce

theorem nil : AtMostOnce R ins [] := ⟨[], .nil, List.nil_subperm⟩

theorem of_forall₂ (h : List.Forall₂ R ins outs) : AtMostOnce R ins outs :=
  ⟨ins, h, List.Subperm.refl _⟩

/-- More inputs do no harm. -/
theorem mono_in (h : AtMostOnce R ins outs) (hins : ins.Subperm ins') : AtMostOnce R ins' outs := by
  obtain ⟨used, hmade, hsub⟩ := h
  exact ⟨used, hmade, hsub.trans hins⟩

theorem imp {R' : α → β → Prop} (hR : ∀ a b, R a b → R' a b) (h : AtMostOnce R ins outs) :
    AtMostOnce R' ins outs := by
  obtain ⟨used, hmade, hsub⟩ := h
  exact ⟨used, hmade.imp hR, hsub⟩

/-- The same for what there is to make and to make it of. -/
theorem imp_mem {R' : α → β → Prop} (h : AtMostOnce R ins outs)
    (hR : ∀ a ∈ ins, ∀ b ∈ outs, R a b → R' a b) : AtMostOnce R' ins outs := by
  obtain ⟨used, hmade, hsub⟩ := h
  obtain ⟨hlength, hzip⟩ := List.forall₂_iff_zip.mp hmade
  refine ⟨used, List.forall₂_iff_zip.mpr ⟨hlength, fun hab => ?_⟩, hsub⟩
  obtain ⟨ha, hb⟩ := List.of_mem_zip hab
  exact hR _ (hsub.subset ha) _ hb (hzip hab)

theorem append {ins₂ : List α} {outs₂ : List β} (h : AtMostOnce R ins outs)
    (h₂ : AtMostOnce R ins₂ outs₂) : AtMostOnce R (ins ++ ins₂) (outs ++ outs₂) := by
  obtain ⟨used, hmade, hsub⟩ := h
  obtain ⟨used₂, hmade₂, hsub₂⟩ := h₂
  exact ⟨used ++ used₂, List.rel_append hmade hmade₂, hsub.append hsub₂⟩

theorem flatMap {f : ι → List α} {g : ι → List β} {is : List ι}
    (h : ∀ i ∈ is, AtMostOnce R (f i) (g i)) : AtMostOnce R (is.flatMap f) (is.flatMap g) := by
  induction is with
  | nil => exact nil
  | cons i is ih =>
    rw [List.flatMap_cons, List.flatMap_cons]
    exact (h i List.mem_cons_self).append (ih fun j hj => h j (List.mem_cons_of_mem _ hj))

theorem sublist_right {used : List α} (h : List.Forall₂ R used outs) (hs : outs'.Sublist outs) :
    ∃ used', List.Forall₂ R used' outs' ∧ used'.Sublist used := by
  induction hs generalizing used with
  | slnil =>
    cases h
    exact ⟨[], .nil, .slnil⟩
  | cons b _ ih =>
    cases h with
    | cons hab hrest =>
      obtain ⟨used', hmade, hsub⟩ := ih hrest
      exact ⟨used', hmade, hsub.cons _⟩
  | cons_cons b _ ih =>
    cases h with
    | cons hab hrest =>
      obtain ⟨used', hmade, hsub⟩ := ih hrest
      exact ⟨_ :: used', .cons hab hmade, hsub.cons_cons _⟩

/-- Fewer outputs, in any order. -/
theorem mono_out (h : AtMostOnce R ins outs) (hs : outs'.Subperm outs) :
    AtMostOnce R ins outs' := by
  obtain ⟨used, hmade, hsub⟩ := h
  obtain ⟨outs₁, hperm, hsublist⟩ := hs
  obtain ⟨used₁, hmade₁, hsub₁⟩ := sublist_right hmade hsublist
  obtain ⟨used₂, hperm₂, hmade₂⟩ : Relation.Comp List.Perm (List.Forall₂ R) used₁ outs' := by
    rw [← List.forall₂_comp_perm_eq_perm_comp_forall₂]
    exact ⟨outs₁, hmade₁, hperm⟩
  exact ⟨used₂, hmade₂, hperm₂.symm.subperm.trans (hsub₁.subperm.trans hsub)⟩

theorem forall₂_comp {cs : List γ} (h : List.Forall₂ R ins outs) (h' : List.Forall₂ S outs cs) :
    List.Forall₂ (Relation.Comp R S) ins cs := by
  induction h generalizing cs with
  | nil =>
    cases h'
    exact .nil
  | cons hab _ ih =>
    cases h' with
    | cons hbc hrest => exact .cons ⟨_, hab, hbc⟩ (ih hrest)

/-- What one stage makes, the next one uses at most once. -/
theorem trans {cs : List γ} (h : AtMostOnce R ins outs) (h' : AtMostOnce S outs cs) :
    AtMostOnce (Relation.Comp R S) ins cs := by
  obtain ⟨mid, hmade', hsub'⟩ := h'
  obtain ⟨used, hmade, hsub⟩ := h.mono_out hsub'
  exact ⟨used, forall₂_comp hmade hmade', hsub⟩

theorem exists_input {b : β} (h : AtMostOnce R ins outs) (hb : b ∈ outs) : ∃ a ∈ ins, R a b := by
  obtain ⟨used, hmade, hsub⟩ := h
  obtain ⟨a, ha, hab⟩ : ∃ a ∈ used, R a b := by
    clear hsub
    induction hmade with
    | nil => cases hb
    | cons hab _ ih =>
      rcases List.mem_cons.mp hb with rfl | hb
      · exact ⟨_, List.mem_cons_self, hab⟩
      · obtain ⟨a, ha, hab⟩ := ih hb
        exact ⟨a, List.mem_cons_of_mem _ ha, hab⟩
  exact ⟨a, hsub.subset ha, hab⟩

end AtMostOnce

end Lists

section Programs
variable {Op : Type} {Reply : Op → Type} {ε α β μ ν : Type}
  (takes : Event Op Reply → Option μ) (hands : Op → Option ν) (R : μ → ν → Prop)

/-- The program hands on only what it makes of the last thing it has taken, and
that once. The last argument is what it has in hand. -/
def Passes : Prog Op Reply ε α → Option μ → Prop
  | .ret _, _ => True
  | .throw _, _ => True
  | .op o k, held => (∀ b, hands o = some b → ∃ a, held = some a ∧ R a b) ∧
    ∀ r, Passes (k r) ((takes ⟨o, r⟩).or (if (hands o).isSome then none else held))

variable {takes hands R} {held : Option μ} {p q : Prog Op Reply ε α} {es : List (Event Op Reply)}

def Quiet (takes : Event Op Reply → Option μ) (hands : Op → Option ν) (o : Op) : Prop :=
  hands o = none ∧ ∀ r, takes ⟨o, r⟩ = none

/-- For programs that only make something of what they are started with. -/
def takesNothing (_ : Event Op Reply) : Option μ := none

theorem all_quiet (h : p.All fun o => hands o = none) :
    p.All (Quiet (takesNothing : Event Op Reply → Option μ) hands) :=
  h.mono fun _ ho => ⟨ho, fun _ => rfl⟩

theorem passes_quiet {o : Op} {k : Reply o → Prog Op Reply ε α} (ho : Quiet takes hands o)
    (hk : ∀ r, Passes takes hands R (k r) held) : Passes takes hands R (.op o k) held := by
  refine ⟨fun b hb => ?_, fun r => ?_⟩
  · rw [ho.1] at hb
    cases hb
  · rw [ho.1, ho.2 r]
    exact hk r

/-- A program that needs nothing in hand does not mind having something. -/
theorem Passes.of_none (h : Passes takes hands R p none) : Passes takes hands R p held := by
  induction p generalizing held with
  | ret a => trivial
  | throw e => trivial
  | op o k ih =>
    have hnone : hands o = none := by
      cases hb : hands o with
      | none => rfl
      | some b =>
        obtain ⟨a, ha, _⟩ := h.1 b hb
        cases ha
    refine ⟨fun b hb => ?_, fun r => ?_⟩
    · rw [hnone] at hb
      cases hb
    · have hr := h.2 r
      rw [hnone] at hr ⊢
      cases ht : takes ⟨o, r⟩ with
      | none =>
        rw [ht] at hr
        exact ih r hr
      | some a =>
        rw [ht] at hr
        exact hr

theorem passes_of_all (h : p.All (Quiet takes hands)) : Passes takes hands R p held := by
  induction p with
  | ret a => trivial
  | throw e => trivial
  | op o k ih => exact passes_quiet h.1 fun r => ih r (h.2 r)

theorem Passes.bind {f : α → Prog Op Reply ε β} (h : Passes takes hands R p held)
    (hf : ∀ a, Passes takes hands R (f a) none) : Passes takes hands R (p >>= f) held := by
  induction p generalizing held with
  | ret a => exact (hf a).of_none
  | throw e => trivial
  | op o k ih => exact ⟨h.1, fun r => ih r (h.2 r)⟩

/-- The first part keeps what is in hand for the second. -/
theorem Passes.after {f : α → Prog Op Reply ε β} (h : p.All (Quiet takes hands))
    (hf : ∀ a es, p.Runs es (.ok a) → Passes takes hands R (f a) held) :
    Passes takes hands R (p >>= f) held := by
  induction p with
  | ret a => exact hf a [] (.ret a)
  | throw e => trivial
  | op o k ih =>
    exact passes_quiet h.1 fun r => ih r (h.2 r) fun a es hr => hf a (⟨o, r⟩ :: es) (.op hr)

theorem Passes.rescue {f : ε → Prog Op Reply ε α} (h : Passes takes hands R p held)
    (hf : ∀ e, Passes takes hands R (f e) none) : Passes takes hands R (p.rescue f) held := by
  induction p generalizing held with
  | ret a => trivial
  | throw e => exact (hf e).of_none
  | op o k ih => exact ⟨h.1, fun r => ih r (h.2 r)⟩

theorem filterMap_takesNothing : es.filterMap (takesNothing : Event Op Reply → Option μ) = [] :=
  List.filterMap_eq_nil_iff.mpr fun _ _ => rfl

/-- What the program has handed on by now. -/
theorem Passes.reaches (h : Passes takes hands R p held) (hr : Prog.Reaches p es q) :
    AtMostOnce R (held.toList ++ es.filterMap takes) (es.filterMap fun e => hands e.op) := by
  induction hr generalizing held with
  | refl p => exact .nil
  | @op o k r es q _ ih =>
    have hrest := ih (h.2 r)
    rw [List.filterMap_cons, List.filterMap_cons]
    dsimp only
    cases hb : hands o with
    | none =>
      rw [hb] at hrest
      refine hrest.mono_in ?_
      cases ht : takes ⟨o, r⟩ with
      | none => exact List.Subperm.refl _
      | some a => exact (List.sublist_append_right held.toList _).subperm
    | some b =>
      obtain ⟨a, rfl, hab⟩ := h.1 b hb
      rw [hb] at hrest
      have hone : AtMostOnce R [a] [b] := .of_forall₂ (.cons hab .nil)
      refine (hone.append hrest).mono_in ?_
      cases ht : takes ⟨o, r⟩ with
      | none => exact List.Subperm.refl _
      | some c => exact List.Subperm.refl _

end Programs

end Ironhide.Lib.Passing
