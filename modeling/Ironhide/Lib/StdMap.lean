import Mathlib.Data.Set.Basic

namespace Ironhide.Lib.StdMap

/-- The operations of a C++ map, whatever it is made of. `insert` keeps the
value of a key that is there, `assign` (`m[k] = a`) replaces it, and `Has` says
that some node holds the pair, found or not. -/
structure MapOps (κ : Type) where
  M : Type → Type
  empty : {α : Type} → M α
  find : {α : Type} → M α → κ → Option α
  insert : {α : Type} → M α → κ → α → M α
  assign : {α : Type} → M α → κ → α → M α
  erase : {α : Type} → M α → κ → M α
  Has : {α : Type} → M α → κ → α → Prop

variable {κ α : Type}

/-- Nothing is found that was not put in under the same key. A map with a
broken comparator may still lose nodes. -/
structure Sound (T : MapOps κ) : Prop where
  has_empty : ∀ {α : Type} (k : κ) (v : α), ¬ T.Has T.empty k v
  has_of_find : ∀ {α : Type} (m : T.M α) (k : κ) (v : α), T.find m k = some v → T.Has m k v
  has_insert : ∀ {α : Type} (m : T.M α) (k q : κ) (a v : α), T.Has (T.insert m k a) q v →
    T.Has m q v ∨ (q = k ∧ v = a)
  has_assign : ∀ {α : Type} (m : T.M α) (k q : κ) (a v : α), T.Has (T.assign m k a) q v →
    T.Has m q v ∨ (q = k ∧ v = a)
  has_erase : ∀ {α : Type} (m : T.M α) (k q : κ) (v : α), T.Has (T.erase m k) q v → T.Has m q v

/-- As long as only keys of `K` are used, the map is a finite map: a node is
found exactly under its own key, and one operation changes one key. -/
structure FiniteOn (T : MapOps κ) (K : Set κ) (Good : {α : Type} → T.M α → Prop) : Prop where
  good_empty : ∀ {α : Type}, Good (T.empty : T.M α)
  good_insert : ∀ {α : Type} (m : T.M α) (k : κ) (a : α), Good m → k ∈ K → Good (T.insert m k a)
  good_assign : ∀ {α : Type} (m : T.M α) (k : κ) (a : α), Good m → k ∈ K → Good (T.assign m k a)
  good_erase : ∀ {α : Type} (m : T.M α) (k : κ), Good m → k ∈ K → Good (T.erase m k)
  find_empty : ∀ {α : Type} (k : κ), T.find (T.empty : T.M α) k = none
  find_iff : ∀ {α : Type} (m : T.M α) (k : κ) (v : α), Good m → k ∈ K →
    (T.find m k = some v ↔ T.Has m k v)
  insert_self : ∀ {α : Type} (m : T.M α) (k : κ) (a : α), Good m → k ∈ K →
    T.find (T.insert m k a) k = some ((T.find m k).getD a)
  insert_other : ∀ {α : Type} (m : T.M α) (k q : κ) (a : α), Good m → k ∈ K → q ∈ K → q ≠ k →
    T.find (T.insert m k a) q = T.find m q
  assign_self : ∀ {α : Type} (m : T.M α) (k : κ) (a : α), Good m → k ∈ K →
    T.find (T.assign m k a) k = some a
  assign_other : ∀ {α : Type} (m : T.M α) (k q : κ) (a : α), Good m → k ∈ K → q ∈ K → q ≠ k →
    T.find (T.assign m k a) q = T.find m q
  erase_self : ∀ {α : Type} (m : T.M α) (k : κ), Good m → k ∈ K → T.find (T.erase m k) k = none
  erase_other : ∀ {α : Type} (m : T.M α) (k q : κ), Good m → k ∈ K → q ∈ K → q ≠ k →
    T.find (T.erase m k) q = T.find m q

theorem FiniteOn.erase_insert_self {T : MapOps κ} {K : Set κ} {Good : {α : Type} → T.M α → Prop}
    (hT : FiniteOn T K Good) {m : T.M α} {k : κ} (hm : Good m) (hk : k ∈ K) (a : α) :
    T.find (T.erase (T.insert m k a) k) k = none :=
  hT.erase_self _ _ (hT.good_insert _ _ _ hm hk) hk

/-- A map tracks a partial function: on the keys in use it finds what the
function gives. -/
def Tracks {α : Type} (T : MapOps κ) (K : Set κ) (Good : {α : Type} → T.M α → Prop) (m : T.M α)
    (f : κ → Option α) : Prop :=
  Good m ∧ ∀ k ∈ K, T.find m k = f k

section Tracks
variable {T : MapOps κ} {K : Set κ} {Good : {α : Type} → T.M α → Prop} {m : T.M α}
  {f : κ → Option α} {k : κ} [DecidableEq κ]

omit [DecidableEq κ] in
theorem FiniteOn.tracks_empty (hT : FiniteOn T K Good) :
    Tracks T K Good (T.empty : T.M α) fun _ => none :=
  ⟨hT.good_empty, fun k _ => hT.find_empty k⟩

theorem Tracks.insert (h : Tracks T K Good m f) (hT : FiniteOn T K Good) (hk : k ∈ K) (a : α) :
    Tracks T K Good (T.insert m k a) fun q => if q = k then some ((f k).getD a) else f q := by
  refine ⟨hT.good_insert _ _ _ h.1 hk, fun q hq => ?_⟩
  by_cases hqk : q = k
  · simp only [if_pos hqk]
    rw [hqk, hT.insert_self _ _ _ h.1 hk, h.2 k hk]
  · simp only [if_neg hqk]
    rw [hT.insert_other _ _ _ _ h.1 hk hq hqk, h.2 q hq]

theorem Tracks.assign (h : Tracks T K Good m f) (hT : FiniteOn T K Good) (hk : k ∈ K) (a : α) :
    Tracks T K Good (T.assign m k a) fun q => if q = k then some a else f q := by
  refine ⟨hT.good_assign _ _ _ h.1 hk, fun q hq => ?_⟩
  by_cases hqk : q = k
  · simp only [if_pos hqk]
    rw [hqk, hT.assign_self _ _ _ h.1 hk]
  · simp only [if_neg hqk]
    rw [hT.assign_other _ _ _ _ h.1 hk hq hqk, h.2 q hq]

theorem Tracks.erase (h : Tracks T K Good m f) (hT : FiniteOn T K Good) (hk : k ∈ K) :
    Tracks T K Good (T.erase m k) fun q => if q = k then none else f q := by
  refine ⟨hT.good_erase _ _ h.1 hk, fun q hq => ?_⟩
  by_cases hqk : q = k
  · simp only [if_pos hqk]
    rw [hqk, hT.erase_self _ _ h.1 hk]
  · simp only [if_neg hqk]
    rw [hT.erase_other _ _ _ h.1 hk hq hqk, h.2 q hq]

end Tracks

/-- The finite map a C++ map is meant to be: one value per key, keys compared
for equality. -/
def finite (κ : Type) [DecidableEq κ] : MapOps κ where
  M α := κ → Option α
  empty := fun _ => none
  find m k := m k
  insert m k a := fun q => if q = k then some ((m k).getD a) else m q
  assign m k a := fun q => if q = k then some a else m q
  erase m k := fun q => if q = k then none else m q
  Has m k v := m k = some v

section Finite
variable [DecidableEq κ]

@[simp] theorem finite_find (m : (finite κ).M α) (k : κ) : (finite κ).find m k = m k := rfl

@[simp] theorem finite_empty (k : κ) : ((finite κ).empty : (finite κ).M α) k = none := rfl

@[simp] theorem finite_insert (m : (finite κ).M α) (k q : κ) (a : α) :
    (finite κ).insert m k a q = if q = k then some ((m k).getD a) else m q := rfl

@[simp] theorem finite_assign (m : (finite κ).M α) (k q : κ) (a : α) :
    (finite κ).assign m k a q = if q = k then some a else m q := rfl

@[simp] theorem finite_erase (m : (finite κ).M α) (k q : κ) :
    (finite κ).erase m k q = if q = k then none else m q := rfl

@[simp] theorem finite_has (m : (finite κ).M α) (k : κ) (v : α) :
    (finite κ).Has m k v ↔ m k = some v := Iff.rfl

theorem finite_finiteOn (κ : Type) [DecidableEq κ] :
    FiniteOn (finite κ) Set.univ fun _ => True where
  good_empty := trivial
  good_insert _ _ _ _ _ := trivial
  good_assign _ _ _ _ _ := trivial
  good_erase _ _ _ _ := trivial
  find_empty _ := rfl
  find_iff _ _ _ _ _ := Iff.rfl
  insert_self _ _ _ _ _ := if_pos rfl
  insert_other _ _ _ _ _ _ _ hne := if_neg hne
  assign_self _ _ _ _ _ := if_pos rfl
  assign_other _ _ _ _ _ _ _ hne := if_neg hne
  erase_self _ _ _ _ := if_pos rfl
  erase_other _ _ _ _ _ _ hne := if_neg hne

end Finite

end Ironhide.Lib.StdMap
