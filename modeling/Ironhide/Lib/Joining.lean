import Mathlib.Data.List.Induction

namespace Ironhide.Lib.Joining

/-- A text, and what was put in front of it when it was added. -/
structure Piece (α : Type) where
  gap : List α
  text : List α

variable {α : Type}

namespace Piece

def stored (p : Piece α) : List α := p.gap ++ p.text

/-- What a piece is made of is told by the whole and the text. -/
theorem ext_stored {p q : Piece α} (hs : p.stored = q.stored) (ht : p.text = q.text) : p = q := by
  obtain ⟨gap, text⟩ := p
  obtain ⟨gap', text'⟩ := q
  obtain rfl : text = text' := ht
  exact congrArg (Piece.mk · text) (List.append_cancel_right hs)

theorem eq_of_map {ps qs : List (Piece α)} (hs : ps.map stored = qs.map stored)
    (ht : ps.map text = qs.map text) : ps = qs := by
  induction ps generalizing qs with
  | nil => exact (List.map_eq_nil_iff.mp ht.symm).symm
  | cons p ps ih =>
    cases qs with
    | nil => cases ht
    | cons q qs =>
      rw [List.map_cons, List.map_cons, List.cons.injEq] at hs ht
      rw [ext_stored hs.1 ht.1, ih hs.2 ht.2]

end Piece

/-- There is one last text that is not empty. -/
theorem last_text_unique {before before' mid mid' : List (Piece α)} {p p' : Piece α}
    (heq : before ++ p :: mid = before' ++ p' :: mid') (hp : p.text ≠ []) (hp' : p'.text ≠ [])
    (hmid : ∀ r ∈ mid, r.text = []) (hmid' : ∀ r ∈ mid', r.text = []) : p = p' ∧ mid = mid' := by
  rcases List.append_eq_append_iff.mp heq with ⟨as, -, h⟩ | ⟨as, -, h⟩
  · cases as with
    | nil => exact List.cons.inj h
    | cons a as =>
      obtain ⟨-, rfl⟩ := List.cons.inj h
      exact absurd (hmid p' (by simp)) hp'
  · cases as with
    | nil =>
      obtain ⟨rfl, rfl⟩ := List.cons.inj h
      exact ⟨rfl, rfl⟩
    | cons a as =>
      obtain ⟨-, rfl⟩ := List.cons.inj h
      exact absurd (hmid' p (by simp)) hp

section Texts
variable (sep : α) {texts : List (List α)}

def Open (w : List α) : Prop := ∃ c, w.getLast? = some c ∧ c ≠ sep

/-- `y` may follow `x`, which follows `before`. Behind an empty text a separator has
been put down only if the text before that was open. -/
def Fits (before : List (List α)) (x y : List α) : Prop :=
  if x = [] then (∃ w, before.getLast? = some w ∧ Open sep w) ∧ y.head? ≠ some sep
  else ¬ (x.getLast? = some sep ∧ y.head? = some sep)

def Joinable (texts : List (List α)) : Prop :=
  ∀ before x y after, texts = before ++ x :: y :: after → Fits sep before x y

theorem joinable_concat (y : List α) : Joinable sep (texts ++ [y]) ↔
    Joinable sep texts ∧ ∀ before x, texts = before ++ [x] → Fits sep before x y := by
  constructor
  · intro h
    refine ⟨fun before x y' after heq => ?_, fun before x heq => ?_⟩
    · exact h before x y' (after ++ [y]) (by rw [heq]; simp)
    · exact h before x y [] (by rw [heq]; simp)
  · rintro ⟨h, hlast⟩ before x y' after heq
    rcases List.eq_nil_or_concat after with rfl | ⟨after, z, rfl⟩
    · have hsplit : texts ++ [y] = (before ++ [x]) ++ [y'] := by rw [heq]; simp
      obtain ⟨ht, rfl⟩ := List.append_singleton_inj.mp hsplit
      exact hlast before x ht
    · have hsplit : texts ++ [y] = (before ++ x :: y' :: after) ++ [z] := by rw [heq]; simp
      exact h before x y' after (List.append_singleton_inj.mp hsplit).1

end Texts

variable [DecidableEq α] (sep : α) {ps : List (Piece α)} {texts : List (List α)}

def gapFor (c : α) (y : List α) : List α :=
  if c ≠ sep ∧ y.head? ≠ some sep then [sep] else []

/-- A text is put behind the pieces. Where the last of them is empty there is no
character to look at, and no result. -/
def add (ps : List (Piece α)) (y : List α) : Option (List (Piece α)) :=
  match ps.getLast? with
  | none => some (ps ++ [⟨[], y⟩])
  | some p => p.stored.getLast?.map fun c => ps ++ [⟨gapFor sep c y, y⟩]

def join (texts : List (List α)) : Option (List (Piece α)) := texts.foldlM (add sep) []

/-- What one finds between the texts of two pieces, their own ends included. -/
def between (p : Piece α) (mid : List (Piece α)) (q : Piece α) : List α :=
  p.text.getLast?.toList ++ (mid.flatMap Piece.gap ++ q.gap) ++ q.text.head?.toList

/-- Two texts with nothing but empty ones between them are one separator apart. -/
def Separated (ps : List (Piece α)) : Prop :=
  ∀ before p mid q after, ps = before ++ p :: (mid ++ q :: after) → p.text ≠ [] → q.text ≠ [] →
    (∀ r ∈ mid, r.text = []) → (between p mid q).count sep = 1

theorem separated_concat (q : Piece α) : Separated sep (ps ++ [q]) ↔
    Separated sep ps ∧ ∀ before p mid, ps = before ++ p :: mid → p.text ≠ [] → q.text ≠ [] →
      (∀ r ∈ mid, r.text = []) → (between p mid q).count sep = 1 := by
  constructor
  · intro h
    refine ⟨fun before p mid q' after heq => ?_, fun before p mid heq => ?_⟩
    · exact h before p mid q' (after ++ [q]) (by rw [heq]; simp)
    · exact h before p mid q [] (by rw [heq]; simp)
  · rintro ⟨h, hlast⟩ before p mid q' after heq
    rcases List.eq_nil_or_concat after with rfl | ⟨after, z, rfl⟩
    · have hsplit : ps ++ [q] = (before ++ p :: mid) ++ [q'] := by rw [heq]; simp
      obtain ⟨hp, rfl⟩ := List.append_singleton_inj.mp hsplit
      exact hlast before p mid hp
    · have hsplit : ps ++ [q] = (before ++ p :: (mid ++ q' :: after)) ++ [z] := by rw [heq]; simp
      exact h before p mid q' after (List.append_singleton_inj.mp hsplit).1

/-- So only the way from there to the new piece is to be looked at. -/
theorem separated_concat_last {before mid : List (Piece α)} {p : Piece α}
    (hps : ps = before ++ p :: mid) (hp : p.text ≠ []) (hmid : ∀ r ∈ mid, r.text = [])
    (q : Piece α) : Separated sep (ps ++ [q]) ↔
      Separated sep ps ∧ (q.text ≠ [] → (between p mid q).count sep = 1) := by
  rw [separated_concat]
  constructor
  · rintro ⟨h, hlast⟩
    exact ⟨h, fun hq => hlast before p mid hps hp hq hmid⟩
  · rintro ⟨h, hlast⟩
    refine ⟨h, fun before' p' mid' hps' hp' hq hmid' => ?_⟩
    obtain ⟨rfl, rfl⟩ := last_text_unique (hps.symm.trans hps') hp hp' hmid hmid'
    exact hlast hq

theorem gapFor_cases (c : α) (y : List α) : gapFor sep c y = [] ∨ gapFor sep c y = [sep] := by
  unfold gapFor
  split
  · exact .inr rfl
  · exact .inl rfl

/-- With the gap the code leaves, too much is there only when both texts bring a separator. -/
theorem count_gapFor (c : α) {y : List α} (hy : y ≠ []) :
    ([c] ++ gapFor sep c y ++ y.head?.toList).count sep = 1 ↔ ¬ (c = sep ∧ y.head? = some sep) := by
  obtain ⟨d, y, rfl⟩ := List.exists_cons_of_ne_nil hy
  by_cases hc : c = sep <;> by_cases hd : d = sep <;> simp [gapFor, hc, hd]

theorem add_concat (p : Piece α) (y : List α) :
    add sep (ps ++ [p]) y =
      p.stored.getLast?.map fun c => ps ++ [p] ++ [⟨gapFor sep c y, y⟩] := by
  rw [add, List.getLast?_concat]

/-- Behind a text that is not empty there is always a result. -/
theorem add_behind_text {p : Piece α} {c : α} (hc : p.text.getLast? = some c)
    (hs : Separated sep (ps ++ [p])) (y : List α) :
    (∃ ps', add sep (ps ++ [p]) y = some ps' ∧ Separated sep ps') ↔
      ¬ (c = sep ∧ y.head? = some sep) := by
  have hne : p.text ≠ [] := by
    intro hnil
    rw [hnil] at hc
    cases hc
  have hstored : p.stored.getLast? = some c := by
    rw [Piece.stored, List.getLast?_append, hc, Option.some_or]
  have hadd : add sep (ps ++ [p]) y = some (ps ++ [p] ++ [⟨gapFor sep c y, y⟩]) := by
    rw [add_concat, hstored, Option.map_some]
  have hway : between p [] ⟨gapFor sep c y, y⟩ = [c] ++ gapFor sep c y ++ y.head?.toList := by
    rw [between, hc]
    rfl
  have hsep : Separated sep (ps ++ [p] ++ [⟨gapFor sep c y, y⟩]) ↔
      ¬ (c = sep ∧ y.head? = some sep) := by
    rw [separated_concat_last sep (show ps ++ [p] = ps ++ p :: [] from rfl) hne (by simp), hway, and_iff_right hs]
    by_cases hy : y = []
    · simp [hy]
    · rw [count_gapFor sep c hy]
      exact ⟨fun h => h hy, fun h _ => h⟩
  simp only [hadd, Option.some.injEq, exists_eq_left', hsep]

/-- Behind an empty text there is a result only when its separator has been put down. -/
theorem add_behind_empty {p r : Piece α} {c : α} (hp : p.gap = [] ∨ p.gap = [sep])
    (hc : p.stored.getLast? = some c) (hr : r = ⟨gapFor sep c [], []⟩)
    (hs : Separated sep (ps ++ [p] ++ [r])) (y : List α) :
    (∃ ps', add sep (ps ++ [p] ++ [r]) y = some ps' ∧ Separated sep ps') ↔
      Open sep p.text ∧ y.head? ≠ some sep := by
  by_cases hcs : c = sep
  · have hstored : r.stored.getLast? = none := by simp [hr, Piece.stored, gapFor, hcs]
    have hclosed : ¬ Open sep p.text := by
      rintro ⟨d, hd, hne⟩
      rw [Piece.stored, List.getLast?_append, hd, Option.some_or] at hc
      exact hne ((Option.some.inj hc).trans hcs)
    rw [add_concat, hstored]
    simp [hclosed]
  · have htext : p.text.getLast? = some c := by
      rw [Piece.stored, List.getLast?_append] at hc
      cases ht : p.text.getLast? with
      | some d => rwa [ht, Option.some_or] at hc
      | none =>
        rcases hp with hp | hp
        · simp [ht, hp] at hc
        · simp [ht, hp, Ne.symm hcs] at hc
    have hgap : r = ⟨[sep], []⟩ := by simp [hr, gapFor, hcs]
    have hstored : r.stored.getLast? = some sep := by simp [hgap, Piece.stored]
    have hne : p.text ≠ [] := by
      intro hnil
      rw [hnil] at htext
      cases htext
    have hadd : add sep (ps ++ [p] ++ [r]) y = some (ps ++ [p] ++ [r] ++ [⟨[], y⟩]) := by
      rw [add_concat, hstored, Option.map_some]
      simp [gapFor]
    have hsplit : ps ++ [p] ++ [r] = ps ++ p :: [r] := List.append_assoc ..
    have hway : between p [r] ⟨[], y⟩ = [c] ++ [sep] ++ y.head?.toList := by
      simp [between, htext, hgap]
    have hsep : Separated sep (ps ++ [p] ++ [r] ++ [⟨[], y⟩]) ↔ y.head? ≠ some sep := by
      rw [separated_concat_last sep hsplit hne (by simp [hgap]), hway, and_iff_right hs]
      cases y with
      | nil => simp
      | cons d y => simp [hcs, List.count_cons]
    have hopen : Open sep p.text := ⟨c, htext, hcs⟩
    simp only [hadd, Option.some.injEq, exists_eq_left', hsep, and_iff_right hopen]

theorem join_concat (y : List α) :
    join sep (texts ++ [y]) = (join sep texts).bind fun ps => add sep ps y := by
  rw [join, List.foldlM_append]
  simp [join]

theorem add_eq_some {ps' : List (Piece α)} {y : List α} (h : add sep ps y = some ps') :
    ∃ gap, ps' = ps ++ [⟨gap, y⟩] ∧ (gap = [] ∨ gap = [sep]) := by
  unfold add at h
  split at h
  · exact ⟨[], (Option.some.inj h).symm, .inl rfl⟩
  · obtain ⟨c, -, rfl⟩ := Option.map_eq_some_iff.mp h
    exact ⟨_, rfl, gapFor_cases sep c y⟩

/-- The pieces are the texts, and what is in front of one is a separator or nothing. -/
theorem join_eq_some (h : join sep texts = some ps) :
    ps.map Piece.text = texts ∧ ∀ p ∈ ps, p.gap = [] ∨ p.gap = [sep] := by
  induction texts using List.reverseRecOn generalizing ps with
  | nil =>
    cases h
    exact ⟨rfl, by simp⟩
  | append_singleton texts y ih =>
    rw [join_concat] at h
    obtain ⟨ps₀, hps₀, hadd⟩ := Option.bind_eq_some_iff.mp h
    obtain ⟨gap, rfl, hgap⟩ := add_eq_some sep hadd
    obtain ⟨htexts, hgaps⟩ := ih hps₀
    constructor
    · rw [List.map_append, htexts, List.map_singleton]
    · intro p hp
      rcases List.mem_append.mp hp with hp | hp
      · exact hgaps p hp
      · rw [List.mem_singleton.mp hp]
        exact hgap

/-- Behind texts that have been joined, what the next one asks for is that it fits the
last two. -/
theorem add_iff_fits (hps : join sep texts = some ps) (hs : Separated sep ps) (y : List α) :
    (∃ ps', add sep ps y = some ps' ∧ Separated sep ps') ↔
      ∀ before x, texts = before ++ [x] → Fits sep before x y := by
  rcases List.eq_nil_or_concat texts with rfl | ⟨before, x, rfl⟩
  · cases hps
    have hfirst : Separated sep ([] ++ [(⟨[], y⟩ : Piece α)]) :=
      (separated_concat sep _).mpr ⟨hs, by simp⟩
    exact iff_of_true ⟨_, rfl, hfirst⟩ (by simp)
  have hone : (∀ before' x', before ++ [x] = before' ++ [x'] → Fits sep before' x' y) ↔
      Fits sep before x y := by
    constructor
    · exact fun h => h before x rfl
    · rintro h before' x' heq
      obtain ⟨rfl, rfl⟩ := List.append_singleton_inj.mp heq
      exact h
  rw [List.concat_eq_append] at hps ⊢
  rw [hone]
  rw [join_concat] at hps
  obtain ⟨ps₀, hps₀, hadd⟩ := Option.bind_eq_some_iff.mp hps
  obtain ⟨gap, rfl, -⟩ := add_eq_some sep hadd
  by_cases hx : x = []
  · subst hx
    rw [Fits, if_pos rfl]
    rcases List.eq_nil_or_concat before with rfl | ⟨before, w, rfl⟩
    · cases hps₀
      cases hadd
      simp [add, Piece.stored]
    · rw [List.concat_eq_append, join_concat] at hps₀
      obtain ⟨ps₁, -, hadd₁⟩ := Option.bind_eq_some_iff.mp hps₀
      obtain ⟨gap₁, rfl, hgap₁⟩ := add_eq_some sep hadd₁
      rw [add_concat] at hadd
      obtain ⟨c, hc, hnew⟩ := Option.map_eq_some_iff.mp hadd
      have hr := (List.append_singleton_inj.mp hnew).2.symm
      rw [add_behind_empty sep hgap₁ hc hr hs]
      simp
  · obtain ⟨c, hc⟩ : ∃ c, x.getLast? = some c := ⟨x.getLast hx, List.getLast?_eq_some_getLast hx⟩
    rw [Fits, if_neg hx, add_behind_text sep hc hs, hc, Option.some.injEq]

/-- The texts can be joined, one separator apart, exactly when each fits behind those
before it. -/
theorem join_iff : (∃ ps, join sep texts = some ps ∧ Separated sep ps) ↔ Joinable sep texts := by
  induction texts using List.reverseRecOn with
  | nil =>
    refine iff_of_true ⟨[], rfl, ?_⟩ ?_
    · intro before p mid q after h
      simp at h
    · intro before x y after h
      simp at h
  | append_singleton texts y ih =>
    rw [joinable_concat, ← ih, join_concat]
    constructor
    · rintro ⟨ps', h, hs'⟩
      obtain ⟨ps, hps, hadd⟩ := Option.bind_eq_some_iff.mp h
      obtain ⟨gap, rfl, -⟩ := add_eq_some sep hadd
      have hs := ((separated_concat sep _).mp hs').1
      exact ⟨⟨ps, hps, hs⟩, (add_iff_fits sep hps hs y).mp ⟨_, hadd, hs'⟩⟩
    · rintro ⟨⟨ps, hps, hs⟩, hfits⟩
      rw [hps]
      exact (add_iff_fits sep hps hs y).mpr hfits

end Ironhide.Lib.Joining
