import Ironhide.Lib.StdMap
import Mathlib.Data.List.Pairwise
import Mathlib.Data.List.Perm.Subperm

namespace Ironhide.Lib.SearchTree
open StdMap

inductive Tree (κ α : Type) where
  | nil
  | node (l : Tree κ α) (k : κ) (v : α) (r : Tree κ α)

variable {κ α : Type}

namespace Tree

def entries : Tree κ α → List (κ × α)
  | nil => []
  | node l k v r => l.entries ++ (k, v) :: r.entries

def ofEntries : List (κ × α) → Tree κ α
  | [] => nil
  | (k, v) :: es => node nil k v (ofEntries es)

@[simp] theorem entries_ofEntries (es : List (κ × α)) : (ofEntries es).entries = es := by
  induction es with
  | nil => rfl
  | cons e es ih => simp [ofEntries, entries, ih]

variable (lt : κ → κ → Bool) (q : κ)

/-- The last node from which the descent turned left: the first one not below
the key, as far as the comparator can tell. -/
def lowerBound : Tree κ α → Option (κ × α) → Option (κ × α)
  | nil, best => best
  | node l k v r, best => if lt k q then r.lowerBound best else l.lowerBound (some (k, v))

def find (t : Tree κ α) : Option α :=
  match t.lowerBound lt q none with
  | none => none
  | some (k, v) => if lt q k then none else some v

/-- The last node from which the descent to an insertion point turned right,
which is the point's predecessor. -/
def lastRight : Tree κ α → Option (κ × α) → Option (κ × α)
  | nil, best => best
  | node l k v r, best => if lt q k then l.lastRight best else r.lastRight (some (k, v))

def leafInsert (a : α) : Tree κ α → Tree κ α
  | nil => node nil q a nil
  | node l k v r => if lt q k then node (l.leafInsert a) k v r else node l k v (r.leafInsert a)

/-- `std::map::insert`: refused when the predecessor is not below the key. -/
def insert (a : α) (t : Tree κ α) : Tree κ α :=
  match t.lastRight lt q none with
  | none => t.leafInsert lt q a
  | some (k, _) => if lt k q then t.leafInsert lt q a else t

def refuses (t : Tree κ α) : Bool :=
  match t.lastRight lt q none with
  | none => false
  | some (k, _) => !lt k q

def lowerSplit : Tree κ α → List (κ × α) × List (κ × α)
  | nil => ([], [])
  | node l k v r =>
    if lt k q then (l.entries ++ (k, v) :: r.lowerSplit.1, r.lowerSplit.2)
    else (l.lowerSplit.1, l.lowerSplit.2 ++ (k, v) :: r.entries)

def upperSplit : Tree κ α → List (κ × α) × List (κ × α)
  | nil => ([], [])
  | node l k v r =>
    if lt q k then (l.upperSplit.1, l.upperSplit.2 ++ (k, v) :: r.entries)
    else (l.entries ++ (k, v) :: r.upperSplit.1, r.upperSplit.2)

/-- What `equal_range` leaves outside its range, before and after. -/
def outsideRange : Tree κ α → List (κ × α) × List (κ × α)
  | nil => ([], [])
  | node l k v r =>
    if lt k q then (l.entries ++ (k, v) :: r.outsideRange.1, r.outsideRange.2)
    else if lt q k then (l.outsideRange.1, l.outsideRange.2 ++ (k, v) :: r.entries)
    else ((l.lowerSplit lt q).1, (r.upperSplit lt q).2)

/-- `std::map::erase` by key drops everything in the key's `equal_range`. -/
def erase (t : Tree κ α) : Tree κ α :=
  ofEntries ((t.outsideRange lt q).1 ++ (t.outsideRange lt q).2)

def overwrite (a : α) : Tree κ α → Tree κ α
  | nil => nil
  | node l k v r =>
    if lt k q then node l k v (r.overwrite a)
    else if (l.lowerBound lt q none).isSome then node (l.overwrite a) k v r
    else node l k a r

def assign (a : α) (t : Tree κ α) : Tree κ α :=
  if (t.find lt q).isSome then t.overwrite lt q a else t.insert lt q a

variable {lt q}

theorem lowerBound_best (t : Tree κ α) (best : Option (κ × α)) :
    t.lowerBound lt q best = (t.lowerBound lt q none).or best := by
  induction t generalizing best with
  | nil => rfl
  | node l k v r ihl ihr =>
    simp only [lowerBound]
    split
    · exact ihr best
    · rw [ihl (some (k, v))]
      cases l.lowerBound lt q none <;> rfl

/-- The descent stops at a node of the tree that is not below the key. -/
theorem lowerBound_mem {t : Tree κ α} {e : κ × α} (h : t.lowerBound lt q none = some e) :
    e ∈ t.entries ∧ lt e.1 q = false := by
  induction t with
  | nil => simp [lowerBound] at h
  | node l k v r ihl ihr =>
    simp only [lowerBound] at h
    split at h
    · obtain ⟨hm, hlt⟩ := ihr h
      exact ⟨by simp [entries, hm], hlt⟩
    · rename_i hk
      rw [lowerBound_best] at h
      cases hl : l.lowerBound lt q none with
      | none =>
        simp only [hl, Option.none_or, Option.some.injEq] at h
        subst h
        exact ⟨by simp [entries], by simpa using hk⟩
      | some d =>
        simp only [hl, Option.some_or, Option.some.injEq] at h
        subst h
        obtain ⟨hm, hlt⟩ := ihl hl
        exact ⟨by simp [entries, hm], hlt⟩

/-- A found value sits at a node that compares neither below nor above the key. -/
theorem find_mem {t : Tree κ α} {v : α} (h : t.find lt q = some v) :
    ∃ k, (k, v) ∈ t.entries ∧ lt k q = false ∧ lt q k = false := by
  unfold find at h
  split at h
  · cases h
  · rename_i k w hb
    split at h
    · cases h
    · rename_i hq
      cases h
      obtain ⟨hm, hlt⟩ := lowerBound_mem hb
      exact ⟨k, hm, hlt, by simpa using hq⟩

theorem perm_leafInsert (a : α) (t : Tree κ α) :
    (t.leafInsert lt q a).entries.Perm ((q, a) :: t.entries) := by
  induction t with
  | nil => exact .refl _
  | node l k v r ihl ihr =>
    simp only [leafInsert]
    split
    · simp only [entries]
      exact ihl.append_right _
    · simp only [entries]
      have hright := (ihr.cons (k, v)).append_left l.entries
      exact hright.trans (((List.Perm.swap _ _ _).append_left _).trans List.perm_middle)

theorem mem_leafInsert (a : α) (t : Tree κ α) (e : κ × α) :
    e ∈ (t.leafInsert lt q a).entries ↔ e ∈ t.entries ∨ e = (q, a) := by
  rw [(perm_leafInsert a t).mem_iff, List.mem_cons, or_comm]

theorem mem_insert {a : α} {t : Tree κ α} {e : κ × α} (h : e ∈ (t.insert lt q a).entries) :
    e ∈ t.entries ∨ e = (q, a) := by
  unfold insert at h
  split at h
  · exact (mem_leafInsert a t e).mp h
  · split at h
    · exact (mem_leafInsert a t e).mp h
    · exact Or.inl h

theorem insert_eq (a : α) (t : Tree κ α) :
    t.insert lt q a = if t.refuses lt q then t else t.leafInsert lt q a := by
  unfold insert refuses
  split
  · rfl
  · rename_i k v _
    by_cases hk : lt k q = true
    · simp [hk]
    · simp [hk]

theorem length_leafInsert (a : α) (t : Tree κ α) :
    (t.leafInsert lt q a).entries.length = t.entries.length + 1 :=
  (perm_leafInsert a t).length_eq

/-- An insertion leaves the nodes as they were exactly when it is refused. -/
theorem entries_insert_iff (a : α) (t : Tree κ α) :
    (t.insert lt q a).entries = t.entries ↔ t.refuses lt q = true := by
  rw [insert_eq]
  cases hr : t.refuses lt q with
  | true => simp
  | false =>
    simp only [Bool.false_eq_true, ↓reduceIte, iff_false]
    intro h
    have hlen := congrArg List.length h
    rw [length_leafInsert] at hlen
    omega

/-- An insertion adds one node at most. -/
theorem subperm_insert (a : α) (t : Tree κ α) :
    (t.insert lt q a).entries.Subperm ((q, a) :: t.entries) := by
  rw [insert_eq]
  split
  · exact .cons_self
  · exact (perm_leafInsert a t).subperm

theorem mem_insert_accepted (a : α) {t : Tree κ α} (h : t.refuses lt q = false) (e : κ × α) :
    e ∈ (t.insert lt q a).entries ↔ e ∈ t.entries ∨ e = (q, a) := by
  rw [insert_eq, h]
  exact mem_leafInsert a t e

theorem lowerSplit_append (t : Tree κ α) :
    (t.lowerSplit lt q).1 ++ (t.lowerSplit lt q).2 = t.entries := by
  induction t with
  | nil => rfl
  | node l k v r ihl ihr =>
    simp only [lowerSplit]
    split
    · simp [entries, ihr]
    · simp [entries, ← ihl]

theorem upperSplit_append (t : Tree κ α) :
    (t.upperSplit lt q).1 ++ (t.upperSplit lt q).2 = t.entries := by
  induction t with
  | nil => rfl
  | node l k v r ihl ihr =>
    simp only [upperSplit]
    split
    · simp [entries, ← ihl]
    · simp [entries, ihr]

/-- What is outside the range keeps its order. -/
theorem outsideRange_sublist (t : Tree κ α) :
    ((t.outsideRange lt q).1 ++ (t.outsideRange lt q).2).Sublist t.entries := by
  induction t with
  | nil => exact .slnil
  | node l k v r ihl ihr =>
    simp only [outsideRange]
    split
    · simp only [entries, List.append_assoc, List.cons_append]
      exact List.Sublist.append (.refl _) (ihr.cons_cons _)
    · split
      · simp only [entries, ← List.append_assoc]
        exact List.Sublist.append ihl (.refl _)
      · simp only [entries]
        apply List.Sublist.append
        · rw [← @lowerSplit_append _ _ lt q l]
          exact List.sublist_append_left _ _
        · apply List.Sublist.cons
          rw [← @upperSplit_append _ _ lt q r]
          exact List.sublist_append_right _ _

/-- The descent of `equal_range` meets the node that `find` stops at, or one
above it that ties with the key as well. -/
theorem outsideRange_length {t : Tree κ α} {k : κ} {v : α}
    (h : t.lowerBound lt q none = some (k, v)) (hq : lt q k = false) :
    (t.outsideRange lt q).1.length + (t.outsideRange lt q).2.length < t.entries.length := by
  induction t with
  | nil => simp [lowerBound] at h
  | node l k' v' r ihl ihr =>
    simp only [lowerBound] at h
    simp only [outsideRange, entries, List.length_append, List.length_cons]
    split at h
    · rename_i hk
      have hlen := ihr h
      simp only [hk, ↓reduceIte, List.length_append, List.length_cons]
      omega
    · rename_i hk
      simp only [hk, Bool.false_eq_true, ↓reduceIte]
      split
      · rename_i hqk
        rw [lowerBound_best] at h
        cases hl : l.lowerBound lt q none with
        | none =>
          simp only [hl, Option.none_or, Option.some.injEq, Prod.mk.injEq] at h
          rw [h.1, hq] at hqk
          cases hqk
        | some d =>
          simp only [hl, Option.some_or] at h
          have hlen := ihl (hl.trans h)
          simp only [List.length_append, List.length_cons]
          omega
      · have hll := congrArg List.length (@lowerSplit_append _ _ lt q l)
        have hrl := congrArg List.length (@upperSplit_append _ _ lt q r)
        rw [List.length_append] at hll hrl
        dsimp only
        omega

/-- Erasing a key that is found takes some node out. -/
theorem length_erase {t : Tree κ α} {v : α} (h : t.find lt q = some v) :
    (t.erase lt q).entries.length < t.entries.length := by
  unfold find at h
  split at h
  · cases h
  · rename_i k w hb
    split at h
    · cases h
    · rename_i hq
      rw [erase, entries_ofEntries, List.length_append]
      exact outsideRange_length hb (by simpa using hq)

theorem mem_erase {t : Tree κ α} {e : κ × α} (h : e ∈ (t.erase lt q).entries) :
    e ∈ t.entries := by
  rw [erase, entries_ofEntries] at h
  exact (outsideRange_sublist t).subset h

theorem mem_overwrite {a : α} {t : Tree κ α} {e : κ × α}
    (h : e ∈ (t.overwrite lt q a).entries) :
    e ∈ t.entries ∨ (e.2 = a ∧ ∃ v, t.lowerBound lt q none = some (e.1, v)) := by
  induction t with
  | nil => exact Or.inl h
  | node l k v r ihl ihr =>
    simp only [overwrite] at h
    split at h
    · rename_i hk
      simp only [entries, List.mem_append, List.mem_cons] at h ⊢
      rcases h with h | h | h
      · exact Or.inl (Or.inl h)
      · exact Or.inl (Or.inr (Or.inl h))
      · rcases ihr h with hm | ⟨ha, w, hw⟩
        · exact Or.inl (Or.inr (Or.inr hm))
        · exact Or.inr ⟨ha, w, by simpa [lowerBound, hk] using hw⟩
    · rename_i hk
      split at h
      · simp only [entries, List.mem_append, List.mem_cons] at h ⊢
        rcases h with h | h | h
        · rcases ihl h with hm | ⟨ha, w, hw⟩
          · exact Or.inl (Or.inl hm)
          · refine Or.inr ⟨ha, w, ?_⟩
            simp only [lowerBound, hk, Bool.false_eq_true, ↓reduceIte]
            rw [lowerBound_best, hw]
            rfl
        · exact Or.inl (Or.inr (Or.inl h))
        · exact Or.inl (Or.inr (Or.inr h))
      · rename_i hl
        simp only [entries, List.mem_append, List.mem_cons] at h ⊢
        rcases h with h | h | h
        · exact Or.inl (Or.inl h)
        · refine Or.inr ⟨by rw [h], v, ?_⟩
          simp only [Bool.not_eq_true, Option.isSome_eq_false_iff, Option.isNone_iff_eq_none] at hl
          simp only [lowerBound, hk, Bool.false_eq_true, ↓reduceIte]
          rw [lowerBound_best, hl, h]
          rfl
        · exact Or.inl (Or.inr (Or.inr h))

theorem overwrite_keys (a : α) (t : Tree κ α) :
    (t.overwrite lt q a).entries.map Prod.fst = t.entries.map Prod.fst := by
  induction t with
  | nil => rfl
  | node l k v r ihl ihr =>
    simp only [overwrite]
    split
    · simp [entries, ihr]
    · split <;> simp [entries, ihl]

theorem overwrite_self {a : α} {t : Tree κ α} {k : κ} {v : α}
    (h : t.lowerBound lt q none = some (k, v)) : (k, a) ∈ (t.overwrite lt q a).entries := by
  induction t with
  | nil => simp [lowerBound] at h
  | node l k' v' r ihl ihr =>
    simp only [lowerBound] at h
    simp only [overwrite]
    split at h
    · rename_i hk
      simp [hk, entries, ihr h]
    · rename_i hk
      rw [lowerBound_best] at h
      cases hl : l.lowerBound lt q none with
      | none =>
        simp only [hl, Option.none_or, Option.some.injEq, Prod.mk.injEq] at h
        simp only [hk, Bool.false_eq_true, ↓reduceIte, Option.isSome_none]
        obtain ⟨rfl, rfl⟩ := h
        simp [entries]
      | some d =>
        simp only [hl, Option.some_or, Option.some.injEq] at h
        simp [hk, entries, ihl (hl.trans (congrArg some h))]

end Tree

structure StrictOn (lt : κ → κ → Bool) (K : Set κ) : Prop where
  irrefl : ∀ a ∈ K, lt a a = false
  trans : ∀ a ∈ K, ∀ b ∈ K, ∀ c ∈ K, lt a b = true → lt b c = true → lt a c = true
  total : ∀ a ∈ K, ∀ b ∈ K, a ≠ b → lt a b = true ∨ lt b a = true

theorem StrictOn.asymm {lt : κ → κ → Bool} {K : Set κ} (h : StrictOn lt K) {a b : κ}
    (ha : a ∈ K) (hb : b ∈ K) (hab : lt a b = true) : lt b a = false := by
  cases hba : lt b a with
  | false => rfl
  | true =>
    have haa := h.trans a ha b hb a ha hab hba
    rw [h.irrefl a ha] at haa
    cases haa

def Tie (lt : κ → κ → Bool) (a b : κ) : Prop := lt a b = false ∧ lt b a = false

/-- What a map asks of its comparator, said of three keys: a strict weak order, in
which only equal keys tie. -/
structure Laws (lt : κ → κ → Bool) (a b c : κ) : Prop where
  irrefl : lt a a = false
  asymm : lt a b = true → lt b a = false
  trans : lt a b = true → lt b c = true → lt a c = true
  tie_trans : Tie lt a b → Tie lt b c → Tie lt a c
  tie_iff : Tie lt a b ↔ a = b

theorem StrictOn.laws {lt : κ → κ → Bool} {K : Set κ} (h : StrictOn lt K) {a b c : κ}
    (ha : a ∈ K) (hb : b ∈ K) (hc : c ∈ K) : Laws lt a b c := by
  have eq_of_tie {x y : κ} (hx : x ∈ K) (hy : y ∈ K) (ht : Tie lt x y) : x = y := by
    by_contra hne
    rcases h.total x hx y hy hne with hlt | hlt
    · rw [ht.1] at hlt
      cases hlt
    · rw [ht.2] at hlt
      cases hlt
  refine ⟨h.irrefl a ha, h.asymm ha hb, h.trans a ha b hb c hc, ?_, eq_of_tie ha hb, ?_⟩
  · intro hab hbc
    rwa [eq_of_tie ha hb hab]
  · rintro rfl
    exact ⟨h.irrefl a ha, h.irrefl a ha⟩

/-- The laws, of all keys of a set, are a strict total order of the set. -/
theorem strictOn_iff_laws {lt : κ → κ → Bool} {K : Set κ} :
    StrictOn lt K ↔ ∀ a ∈ K, ∀ b ∈ K, ∀ c ∈ K, Laws lt a b c := by
  constructor
  · exact fun h a ha b hb c hc => h.laws ha hb hc
  · intro h
    refine ⟨fun a ha => (h a ha a ha a ha).irrefl,
      fun a ha b hb c hc => (h a ha b hb c hc).trans, fun a ha b hb hne => ?_⟩
    by_contra hnot
    rw [not_or, Bool.not_eq_true, Bool.not_eq_true] at hnot
    exact hne ((h a ha b hb b hb).tie_iff.mp hnot)

namespace Tree

structure Sorted (lt : κ → κ → Bool) (K : Set κ) (t : Tree κ α) : Prop where
  keys : ∀ k ∈ t.entries.map Prod.fst, k ∈ K
  ordered : (t.entries.map Prod.fst).Pairwise (fun a b => lt a b = true)

variable {lt : κ → κ → Bool} {K : Set κ} {q : κ}

theorem Sorted.key {t : Tree κ α} (h : t.Sorted lt K) {e : κ × α} (he : e ∈ t.entries) :
    e.1 ∈ K := h.keys e.1 (List.mem_map_of_mem he)

theorem sorted_node {l r : Tree κ α} {k : κ} {v : α} (ho : StrictOn lt K) :
    (node l k v r).Sorted lt K ↔ l.Sorted lt K ∧ r.Sorted lt K ∧ k ∈ K ∧
      (∀ e ∈ l.entries, lt e.1 k = true) ∧ (∀ e ∈ r.entries, lt k e.1 = true) := by
  constructor
  · intro hparts
    obtain ⟨hk, hp⟩ := hparts
    simp only [entries, List.map_append, List.map_cons, List.mem_append, List.mem_cons] at hk
    simp only [entries, List.map_append, List.map_cons, List.pairwise_append,
      List.pairwise_cons] at hp
    refine ⟨⟨fun x hx => hk x (.inl hx), hp.1⟩, ⟨fun x hx => hk x (.inr (.inr hx)), hp.2.1.2⟩,
      hk k (.inr (.inl rfl)), ?_, ?_⟩
    · exact fun e he => hp.2.2 e.1 (List.mem_map_of_mem he) k (by simp)
    · exact fun e he => hp.2.1.1 e.1 (List.mem_map_of_mem he)
  · intro hparts
    obtain ⟨hl, hr, hk, hlk, hkr⟩ := hparts
    refine ⟨?_, ?_⟩
    · simp only [entries, List.map_append, List.map_cons, List.mem_append, List.mem_cons]
      rintro x (hx | rfl | hx)
      · exact hl.keys x hx
      · exact hk
      · exact hr.keys x hx
    · simp only [entries, List.map_append, List.map_cons, List.pairwise_append,
        List.pairwise_cons]
      refine ⟨hl.ordered, ⟨?_, hr.ordered⟩, ?_⟩
      · intro x hx
        obtain ⟨e, he, rfl⟩ := List.mem_map.mp hx
        exact hkr e he
      · intro x hx y hy
        obtain ⟨e, he, rfl⟩ := List.mem_map.mp hx
        rcases List.mem_cons.mp hy with rfl | hy
        · exact hlk e he
        · obtain ⟨d, hd, rfl⟩ := List.mem_map.mp hy
          exact ho.trans _ (hl.key he) _ hk _ (hr.key hd) (hlk e he) (hkr d hd)

theorem lowerBound_below {t : Tree κ α} (h : ∀ e ∈ t.entries, lt e.1 q = true)
    (best : Option (κ × α)) : t.lowerBound lt q best = best := by
  induction t with
  | nil => rfl
  | node l k v r _ ihr =>
    have hk : lt k q = true := h (k, v) (by simp [entries])
    simp only [lowerBound, hk, ↓reduceIte]
    exact ihr (fun e he => h e (by simp [entries, he]))

theorem lastRight_above {t : Tree κ α} (h : ∀ e ∈ t.entries, lt q e.1 = true)
    (best : Option (κ × α)) : t.lastRight lt q best = best := by
  induction t with
  | nil => rfl
  | node l k v r ihl _ =>
    have hk : lt q k = true := h (k, v) (by simp [entries])
    simp only [lastRight, hk, ↓reduceIte]
    exact ihl (fun e he => h e (by simp [entries, he]))

/-- In a sorted tree the descent ends at the key's own node when there is one. -/
theorem lowerBound_self {t : Tree κ α} {v : α} (ho : StrictOn lt K) (ht : t.Sorted lt K)
    (hq : q ∈ K) (hm : (q, v) ∈ t.entries) (best : Option (κ × α)) :
    t.lowerBound lt q best = some (q, v) := by
  induction t generalizing best with
  | nil => simp [entries] at hm
  | node l k w r ihl ihr =>
    obtain ⟨hl, hr, hk, hlk, hkr⟩ := (sorted_node ho).mp ht
    simp only [entries, List.mem_append, List.mem_cons, Prod.mk.injEq] at hm
    rcases hm with hm | ⟨rfl, rfl⟩ | hm
    · have hkq : lt k q = false := ho.asymm hq hk (hlk _ hm)
      simp only [lowerBound, hkq, Bool.false_eq_true, ↓reduceIte]
      exact ihl hl hm _
    · simp only [lowerBound, ho.irrefl q hq, Bool.false_eq_true, ↓reduceIte]
      exact lowerBound_below hlk _
    · have hkq : lt k q = true := hkr _ hm
      simp only [lowerBound, hkq, ↓reduceIte]
      exact ihr hr hm best

theorem find_iff {t : Tree κ α} {v : α} (ho : StrictOn lt K) (ht : t.Sorted lt K) (hq : q ∈ K) :
    t.find lt q = some v ↔ (q, v) ∈ t.entries := by
  constructor
  · intro h
    obtain ⟨k, hm, hkq, hqk⟩ := find_mem h
    have hk : k = q := by
      by_contra hne
      rcases ho.total k (ht.key hm) q hq hne with hc | hc
      · rw [hkq] at hc; cases hc
      · rw [hqk] at hc; cases hc
    exact hk ▸ hm
  · intro hm
    simp [find, lowerBound_self ho ht hq hm, ho.irrefl q hq]

theorem find_none {t : Tree κ α} (ho : StrictOn lt K) (ht : t.Sorted lt K) (hq : q ∈ K)
    (h : t.find lt q = none) : ∀ e ∈ t.entries, e.1 ≠ q := by
  rintro ⟨k, v⟩ he rfl
  rw [(find_iff ho ht hq).mpr he] at h
  cases h

/-- Two sorted trees agree on a key once they hold the same nodes for it. -/
theorem find_congr {t u : Tree κ α} (ho : StrictOn lt K) (ht : t.Sorted lt K)
    (hu : u.Sorted lt K) (hq : q ∈ K) (h : ∀ v, (q, v) ∈ t.entries ↔ (q, v) ∈ u.entries) :
    t.find lt q = u.find lt q := by
  apply Option.ext
  intro v
  rw [find_iff ho ht hq, find_iff ho hu hq, h]

theorem lastRight_mem {t : Tree κ α} {e : κ × α} {best : Option (κ × α)}
    (h : t.lastRight lt q best = some e) :
    best = some e ∨ (e ∈ t.entries ∧ lt q e.1 = false) := by
  induction t generalizing best with
  | nil => exact Or.inl h
  | node l k v r ihl ihr =>
    simp only [lastRight] at h
    split at h
    · rcases ihl h with hb | ⟨hm, hlt⟩
      · exact Or.inl hb
      · exact Or.inr ⟨by simp [entries, hm], hlt⟩
    · rename_i hk
      rcases ihr h with hb | ⟨hm, hlt⟩
      · cases hb
        exact Or.inr ⟨by simp [entries], by simpa using hk⟩
      · exact Or.inr ⟨by simp [entries, hm], hlt⟩

theorem lastRight_self {t : Tree κ α} {v : α} (ho : StrictOn lt K) (ht : t.Sorted lt K)
    (hq : q ∈ K) (hm : (q, v) ∈ t.entries) (best : Option (κ × α)) :
    t.lastRight lt q best = some (q, v) := by
  induction t generalizing best with
  | nil => simp [entries] at hm
  | node l k w r ihl ihr =>
    obtain ⟨hl, hr, hk, hlk, hkr⟩ := (sorted_node ho).mp ht
    simp only [entries, List.mem_append, List.mem_cons, Prod.mk.injEq] at hm
    rcases hm with hm | ⟨rfl, rfl⟩ | hm
    · have hqk : lt q k = true := hlk _ hm
      simp only [lastRight, hqk, ↓reduceIte]
      exact ihl hl hm best
    · simp only [lastRight, ho.irrefl q hq, Bool.false_eq_true, ↓reduceIte]
      exact lastRight_above hkr _
    · have hqk : lt q k = false := ho.asymm hk hq (hkr _ hm)
      simp only [lastRight, hqk, Bool.false_eq_true, ↓reduceIte]
      exact ihr hr hm _

/-- Inserting a key that is there changes nothing. -/
theorem insert_present {t : Tree κ α} {a v : α} (ho : StrictOn lt K) (ht : t.Sorted lt K)
    (hq : q ∈ K) (hm : (q, v) ∈ t.entries) : t.insert lt q a = t := by
  simp [insert, lastRight_self ho ht hq hm, ho.irrefl q hq]

theorem insert_absent {t : Tree κ α} {a : α} (ho : StrictOn lt K) (ht : t.Sorted lt K)
    (hq : q ∈ K) (hm : ∀ e ∈ t.entries, e.1 ≠ q) : t.insert lt q a = t.leafInsert lt q a := by
  unfold insert
  split
  · rfl
  · rename_i k v hr
    rcases lastRight_mem hr with hb | ⟨hk, hqk⟩
    · cases hb
    · have hlt : lt k q = true := by
        rcases ho.total k (ht.key hk) q hq (hm _ hk) with hc | hc
        · exact hc
        · rw [hqk] at hc; cases hc
      simp [hlt]

theorem Sorted.leafInsert {t : Tree κ α} (ht : t.Sorted lt K) (ho : StrictOn lt K) (hq : q ∈ K)
    (hm : ∀ e ∈ t.entries, e.1 ≠ q) (a : α) : (t.leafInsert lt q a).Sorted lt K := by
  induction t with
  | nil => exact ⟨by simpa [Tree.leafInsert, entries] using hq, by simp [Tree.leafInsert, entries]⟩
  | node l k v r ihl ihr =>
    obtain ⟨hl, hr, hk, hlk, hkr⟩ := (sorted_node ho).mp ht
    have hml : ∀ e ∈ l.entries, e.1 ≠ q := fun e he => hm e (by simp [entries, he])
    have hmr : ∀ e ∈ r.entries, e.1 ≠ q := fun e he => hm e (by simp [entries, he])
    have hmk : k ≠ q := hm (k, v) (by simp [entries])
    simp only [Tree.leafInsert]
    split
    · rename_i hqk
      refine (sorted_node ho).mpr ⟨ihl hl hml, hr, hk, ?_, hkr⟩
      intro e he
      rcases (mem_leafInsert a l e).mp he with he | rfl
      · exact hlk e he
      · exact hqk
    · rename_i hqk
      refine (sorted_node ho).mpr ⟨hl, ihr hr hmr, hk, hlk, ?_⟩
      intro e he
      rcases (mem_leafInsert a r e).mp he with he | rfl
      · exact hkr e he
      · exact (ho.total k hk q hq hmk).resolve_right hqk

theorem mem_lowerSplit {t : Tree κ α} (ho : StrictOn lt K) (ht : t.Sorted lt K) (hq : q ∈ K)
    (e : κ × α) : e ∈ (t.lowerSplit lt q).1 ↔ e ∈ t.entries ∧ lt e.1 q = true := by
  induction t with
  | nil => simp [lowerSplit, entries]
  | node l k v r ihl ihr =>
    obtain ⟨hl, hr, hk, hlk, hkr⟩ := (sorted_node ho).mp ht
    simp only [lowerSplit]
    split
    · rename_i hkq
      have hlq : e ∈ l.entries → lt e.1 q = true :=
        fun he => ho.trans _ (hl.key he) _ hk _ hq (hlk e he) hkq
      have hek : e = (k, v) → lt e.1 q = true := by intro heq; rw [heq]; exact hkq
      simp only [List.mem_append, List.mem_cons, ihr hr, entries]
      grind
    · rename_i hkq
      have hrq : e ∈ r.entries → lt e.1 q ≠ true :=
        fun he hc => hkq (ho.trans _ hk _ (hr.key he) _ hq (hkr e he) hc)
      have hek : e = (k, v) → lt e.1 q ≠ true := by intro heq; rw [heq]; exact hkq
      simp only [ihl hl, entries, List.mem_append, List.mem_cons]
      grind

theorem mem_upperSplit {t : Tree κ α} (ho : StrictOn lt K) (ht : t.Sorted lt K) (hq : q ∈ K)
    (e : κ × α) : e ∈ (t.upperSplit lt q).2 ↔ e ∈ t.entries ∧ lt q e.1 = true := by
  induction t with
  | nil => simp [upperSplit, entries]
  | node l k v r ihl ihr =>
    obtain ⟨hl, hr, hk, hlk, hkr⟩ := (sorted_node ho).mp ht
    simp only [upperSplit]
    split
    · rename_i hqk
      have hrq : e ∈ r.entries → lt q e.1 = true :=
        fun he => ho.trans _ hq _ hk _ (hr.key he) hqk (hkr e he)
      have hek : e = (k, v) → lt q e.1 = true := by intro heq; rw [heq]; exact hqk
      simp only [List.mem_append, List.mem_cons, ihl hl, entries]
      grind
    · rename_i hqk
      have hlq : e ∈ l.entries → lt q e.1 ≠ true :=
        fun he hc => hqk (ho.trans _ hq _ (hl.key he) _ hk hc (hlk e he))
      have hek : e = (k, v) → lt q e.1 ≠ true := by intro heq; rw [heq]; exact hqk
      simp only [ihr hr, entries, List.mem_append, List.mem_cons]
      grind

/-- In a sorted tree `equal_range` spans the key's own node and nothing else. -/
theorem mem_outsideRange {t : Tree κ α} (ho : StrictOn lt K) (ht : t.Sorted lt K) (hq : q ∈ K)
    (e : κ × α) : (e ∈ (t.outsideRange lt q).1 ↔ e ∈ t.entries ∧ lt e.1 q = true) ∧
      (e ∈ (t.outsideRange lt q).2 ↔ e ∈ t.entries ∧ lt q e.1 = true) := by
  induction t with
  | nil => simp [outsideRange, entries]
  | node l k v r ihl ihr =>
    obtain ⟨hl, hr, hk, hlk, hkr⟩ := (sorted_node ho).mp ht
    have hbelow : lt k q = true → e ∈ l.entries → lt e.1 q = true :=
      fun hkq he => ho.trans _ (hl.key he) _ hk _ hq (hlk e he) hkq
    have habove : lt q k = true → e ∈ r.entries → lt q e.1 = true :=
      fun hqk he => ho.trans _ hq _ hk _ (hr.key he) hqk (hkr e he)
    have hasymm : ∀ x ∈ K, lt x q = true → lt q x ≠ true := by
      intro x hx hc
      simp [ho.asymm hx hq hc]
    have hel : e ∈ l.entries → e.1 ∈ K := hl.key
    have her : e ∈ r.entries → e.1 ∈ K := hr.key
    have hek : e = (k, v) → e.1 = k := by intro heq; rw [heq]
    simp only [outsideRange]
    split
    · simp only [List.mem_append, List.mem_cons, (ihr hr).1, (ihr hr).2, entries]
      grind
    · split
      · simp only [List.mem_append, List.mem_cons, (ihl hl).1, (ihl hl).2, entries]
        grind
      · rename_i hkq hqk
        have hkeq : k = q := by
          by_contra hne
          exact (ho.total k hk q hq hne).elim hkq hqk
        subst hkeq
        have hle : e ∈ l.entries → lt e.1 k = true := hlk e
        have hre : e ∈ r.entries → lt k e.1 = true := hkr e
        simp only [mem_lowerSplit ho hl hq, mem_upperSplit ho hr hq, entries, List.mem_append,
          List.mem_cons]
        grind

theorem mem_erase_iff {t : Tree κ α} (ho : StrictOn lt K) (ht : t.Sorted lt K) (hq : q ∈ K)
    (e : κ × α) : e ∈ (t.erase lt q).entries ↔ e ∈ t.entries ∧ e.1 ≠ q := by
  rw [erase, entries_ofEntries, List.mem_append, (mem_outsideRange ho ht hq e).1,
    (mem_outsideRange ho ht hq e).2]
  constructor
  · intro hparts
    obtain ⟨hm, hlt⟩ | ⟨hm, hlt⟩ := hparts
    all_goals
      refine ⟨hm, fun he => ?_⟩
      rw [he, ho.irrefl q hq] at hlt
      cases hlt
  · intro hparts
    obtain ⟨hm, hne⟩ := hparts
    rcases ho.total e.1 (ht.key hm) q hq hne with hlt | hlt
    · exact Or.inl ⟨hm, hlt⟩
    · exact Or.inr ⟨hm, hlt⟩

theorem Sorted.erase {t : Tree κ α} (ht : t.Sorted lt K) : (t.erase lt q).Sorted lt K := by
  have hs := (@outsideRange_sublist _ _ lt q t).map Prod.fst
  rw [← entries_ofEntries ((t.outsideRange lt q).1 ++ (t.outsideRange lt q).2)] at hs
  exact ⟨fun k hk => ht.keys k (hs.subset hk), ht.ordered.sublist hs⟩

theorem Sorted.insert {t : Tree κ α} (ht : t.Sorted lt K) (ho : StrictOn lt K) (hq : q ∈ K)
    (a : α) : (t.insert lt q a).Sorted lt K := by
  cases hf : t.find lt q with
  | some v => rwa [insert_present ho ht hq ((find_iff ho ht hq).mp hf)]
  | none =>
    have hm := find_none ho ht hq hf
    rw [insert_absent ho ht hq hm]
    exact ht.leafInsert ho hq hm a

theorem Sorted.assign {t : Tree κ α} (ht : t.Sorted lt K) (ho : StrictOn lt K) (hq : q ∈ K)
    (a : α) : (t.assign lt q a).Sorted lt K := by
  unfold Tree.assign
  split
  · exact ⟨by rw [overwrite_keys]; exact ht.keys, by rw [overwrite_keys]; exact ht.ordered⟩
  · exact ht.insert ho hq a

/-- Inserting touches the key's own nodes only. -/
theorem mem_insert_iff {t : Tree κ α} {k : κ} {a v : α} (ho : StrictOn lt K)
    (ht : t.Sorted lt K) (hq : q ∈ K) :
    (k, v) ∈ (t.insert lt q a).entries ↔
      (k, v) ∈ t.entries ∨ (t.find lt q = none ∧ k = q ∧ v = a) := by
  cases hf : t.find lt q with
  | some w => simp [insert_present ho ht hq ((find_iff ho ht hq).mp hf)]
  | none =>
    rw [insert_absent ho ht hq (find_none ho ht hq hf), mem_leafInsert]
    simp

theorem mem_assign_iff {t : Tree κ α} {k : κ} {a v : α} (ho : StrictOn lt K)
    (ht : t.Sorted lt K) (hq : q ∈ K) :
    (k, v) ∈ (t.assign lt q a).entries ↔ ((k, v) ∈ t.entries ∧ k ≠ q) ∨ (k = q ∧ v = a) := by
  have hs := ht.assign ho hq a
  unfold Tree.assign at hs ⊢
  cases hf : t.find lt q with
  | none =>
    have hm := find_none ho ht hq hf
    have hk : (k, v) ∈ t.entries → k ≠ q := hm (k, v)
    simp only [Option.isSome_none, Bool.false_eq_true, ↓reduceIte, mem_insert_iff ho ht hq, hf]
    grind
  | some w =>
    have hw := (find_iff ho ht hq).mp hf
    have hb := lowerBound_self ho ht hq hw none
    have hself : (q, a) ∈ (t.overwrite lt q a).entries := overwrite_self hb
    simp only [hf, Option.isSome_some, ↓reduceIte] at hs ⊢
    constructor
    · intro h
      by_cases hkq : k = q
      · subst hkq
        have hva := (find_iff ho hs hq).mpr h
        rw [(find_iff ho hs hq).mpr hself] at hva
        cases hva
        exact Or.inr ⟨rfl, rfl⟩
      · rcases mem_overwrite h with hm | ⟨_, x, hx⟩
        · exact Or.inl ⟨hm, hkq⟩
        · rw [hb] at hx
          cases hx
          exact absurd rfl hkq
    · intro hparts
      obtain ⟨hm, hne⟩ | ⟨rfl, rfl⟩ := hparts
      · -- the key is still there, and its value can only be the old one
        have hkey : k ∈ (t.overwrite lt q a).entries.map Prod.fst := by
          rw [overwrite_keys]
          exact List.mem_map_of_mem (f := Prod.fst) hm
        obtain ⟨⟨k', x⟩, hx, rfl⟩ := List.mem_map.mp hkey
        rcases mem_overwrite hx with hx' | ⟨_, y, hy⟩
        · have hk := ht.key hm
          have hvx := (find_iff ho ht hk).mpr hm
          rw [(find_iff ho ht hk).mpr hx'] at hvx
          cases hvx
          exact hx
        · rw [hb] at hy
          cases hy
          exact absurd rfl hne
      · exact hself

end Tree

/-- What a balanced tree does to its shape after each change: any rebalancing
at all, as long as the nodes stay the same and in the same order. -/
structure Shaping (κ : Type) where
  run : {α : Type} → Nat → Tree κ α → Tree κ α
  entries_run : ∀ {α : Type} (n : Nat) (t : Tree κ α), (run n t).entries = t.entries

def Shaping.keep (κ : Type) : Shaping κ where
  run _ t := t
  entries_run _ _ := rfl

/-- The search tree as a map. The counter numbers the changes, so that the
shaping may depend on the whole history. -/
def treeOps (lt : κ → κ → Bool) (sh : Shaping κ) : MapOps κ where
  M α := Tree κ α × Nat
  empty := (.nil, 0)
  find m k := m.1.find lt k
  insert m k a := (sh.run m.2 (m.1.insert lt k a), m.2 + 1)
  assign m k a := (sh.run m.2 (m.1.assign lt k a), m.2 + 1)
  erase m k := (sh.run m.2 (m.1.erase lt k), m.2 + 1)
  Has m k v := (k, v) ∈ m.1.entries

section TreeOps
variable {lt : κ → κ → Bool} {sh : Shaping κ}

/-- A comparator that only ties equal keys never finds one key's node for another. -/
theorem treeOps_sound (htie : ∀ a b, lt a b = false → lt b a = false → a = b) :
    Sound (treeOps lt sh) where
  has_empty _ _ := by simp [treeOps, Tree.entries]
  has_of_find m k v h := by
    obtain ⟨k', hm, h₁, h₂⟩ := Tree.find_mem h
    exact htie k' k h₁ h₂ ▸ hm
  has_insert m k q a v h := by
    simp only [treeOps, sh.entries_run] at h ⊢
    simpa using Tree.mem_insert h
  has_assign m k q a v h := by
    simp only [treeOps, sh.entries_run, Tree.assign] at h ⊢
    split at h
    · rename_i hf
      obtain ⟨w, hw⟩ := Option.isSome_iff_exists.mp hf
      rcases Tree.mem_overwrite h with hm | ⟨hv, x, hx⟩
      · exact Or.inl hm
      · -- the overwritten node is the one that was found, and its key ties
        have hkq : lt k q = false := by
          by_contra hlt
          simp [Tree.find, hx, hlt] at hw
        exact Or.inr ⟨htie q k (Tree.lowerBound_mem hx).2 hkq, hv⟩
    · simpa using Tree.mem_insert h
  has_erase m k q v h := by
    simp only [treeOps, sh.entries_run] at h ⊢
    exact Tree.mem_erase h

/-- An insertion adds its node when it is not refused, and nothing else. -/
theorem treeOps_has_insert (m : (treeOps lt sh).M α) (k q : κ) (a v : α) :
    (treeOps lt sh).Has ((treeOps lt sh).insert m k a) q v ↔
      (treeOps lt sh).Has m q v ∨ (m.1.refuses lt k = false ∧ q = k ∧ v = a) := by
  change (q, v) ∈ (sh.run m.2 (m.1.insert lt k a)).entries ↔ (q, v) ∈ m.1.entries ∨ _
  rw [sh.entries_run]
  cases hr : m.1.refuses lt k with
  | true => simp [(Tree.entries_insert_iff a m.1).mpr hr]
  | false => simp [Tree.mem_insert_accepted a hr]

theorem sorted_run {K : Set κ} {t : Tree κ α} (n : Nat) :
    (sh.run n t).Sorted lt K ↔ t.Sorted lt K := by
  constructor
  · intro h
    exact ⟨by simpa [sh.entries_run] using h.keys, by simpa [sh.entries_run] using h.ordered⟩
  · intro h
    exact ⟨by simpa [sh.entries_run] using h.keys, by simpa [sh.entries_run] using h.ordered⟩

/-- Over keys that the comparator orders strictly, every shaping of the tree is a finite map. -/
theorem treeOps_finiteOn {K : Set κ} (ho : StrictOn lt K) :
    FiniteOn (treeOps lt sh) K (fun m => m.1.Sorted lt K) where
  good_empty := ⟨by simp [treeOps, Tree.entries], by simp [treeOps, Tree.entries]⟩
  good_insert m k a hm hk := (sorted_run _).mpr (hm.insert ho hk a)
  good_assign m k a hm hk := (sorted_run _).mpr (hm.assign ho hk a)
  good_erase m k hm _ := (sorted_run _).mpr hm.erase
  find_empty k := rfl
  find_iff m k v hm hk := Tree.find_iff ho hm hk
  insert_self m k a hm hk := by
    have hs := hm.insert ho hk a
    simp only [treeOps]
    rw [Tree.find_iff ho ((sorted_run _).mpr hs) hk, sh.entries_run, Tree.mem_insert_iff ho hm hk]
    cases hf : m.1.find lt k with
    | none => simp
    | some v => simpa using (Tree.find_iff ho hm hk).mp hf
  insert_other m k q a hm hk hq hne := by
    refine Tree.find_congr ho ((sorted_run _).mpr (hm.insert ho hk a)) hm hq (fun v => ?_)
    change (q, v) ∈ (sh.run m.2 (m.1.insert lt k a)).entries ↔ (q, v) ∈ m.1.entries
    rw [sh.entries_run, Tree.mem_insert_iff ho hm hk]
    simp [hne]
  assign_self m k a hm hk := by
    simp only [treeOps]
    rw [Tree.find_iff ho ((sorted_run _).mpr (hm.assign ho hk a)) hk, sh.entries_run,
      Tree.mem_assign_iff ho hm hk]
    simp
  assign_other m k q a hm hk hq hne := by
    refine Tree.find_congr ho ((sorted_run _).mpr (hm.assign ho hk a)) hm hq (fun v => ?_)
    change (q, v) ∈ (sh.run m.2 (m.1.assign lt k a)).entries ↔ (q, v) ∈ m.1.entries
    rw [sh.entries_run, Tree.mem_assign_iff ho hm hk]
    simp [hne]
  erase_self m k hm hk := by
    simp only [treeOps]
    cases hf : (sh.run m.2 (m.1.erase lt k)).find lt k with
    | none => rfl
    | some v =>
      rw [Tree.find_iff ho ((sorted_run _).mpr hm.erase) hk, sh.entries_run,
        Tree.mem_erase_iff ho hm hk] at hf
      exact absurd rfl hf.2
  erase_other m k q hm hk hq hne := by
    refine Tree.find_congr ho ((sorted_run _).mpr hm.erase) hm hq (fun v => ?_)
    change (q, v) ∈ (sh.run m.2 (m.1.erase lt k)).entries ↔ (q, v) ∈ m.1.entries
    rw [sh.entries_run, Tree.mem_erase_iff ho hm hk]
    simp [hne]

theorem find_insert_below {a b : κ} (hab : lt a b = true) (v : α) :
    let T := treeOps lt (Shaping.keep κ)
    T.find (T.insert T.empty a v) b = none := by
  simp [treeOps, Shaping.keep, Tree.insert, Tree.lastRight, Tree.leafInsert, Tree.find,
    Tree.lowerBound, hab]

/-- With two keys each below the other, putting in the second hides it: the
node goes left of the first one and the search turns right there. -/
theorem lost_of_both_below {a b : κ} (hab : lt a b = true) (hba : lt b a = true) (v w : α) :
    let T := treeOps lt (Shaping.keep κ)
    T.find (T.insert (T.insert T.empty a v) b w) b = none := by
  simp [treeOps, Shaping.keep, Tree.insert, Tree.lastRight, Tree.leafInsert, Tree.find,
    Tree.lowerBound, hab, hba]

end TreeOps

end Ironhide.Lib.SearchTree
