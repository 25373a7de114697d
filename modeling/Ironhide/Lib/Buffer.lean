import Mathlib.Data.List.Basic

namespace Ironhide.Lib.Buffer

structure Extent where
  off : Nat
  len : Nat
  deriving DecidableEq, Repr

namespace Extent

def Within (x : Extent) (n : Nat) : Prop := x.off + x.len ≤ n

instance (x : Extent) (n : Nat) : Decidable (x.Within n) :=
  inferInstanceAs (Decidable (x.off + x.len ≤ n))

@[simp] theorem within_mk {off len n : Nat} : (⟨off, len⟩ : Extent).Within n ↔ off + len ≤ n :=
  Iff.rfl

/-- The cells of a run as they are counted from `k` cells before. -/
def shift (k : Nat) (x : Extent) : Extent := ⟨k + x.off, x.len⟩

@[simp] theorem shift_within {k n : Nat} {x : Extent} :
    (x.shift k).Within n ↔ k + x.off + x.len ≤ n := Iff.rfl

variable {α : Type}

def read (x : Extent) (m : List α) : List α := (m.drop x.off).take x.len

theorem read_take {x : Extent} {n : Nat} (h : x.Within n) (m : List α) :
    x.read (m.take n) = x.read m := by
  rw [Within] at h
  rw [read, read, List.drop_take, List.take_take, Nat.min_eq_left (by omega)]

@[simp] theorem read_shift (k : Nat) (x : Extent) (m : List α) :
    (x.shift k).read m = x.read (m.drop k) := by
  rw [read, read, shift, List.drop_drop]

end Extent

variable {α : Type} {xs ys : List Extent} {m m' : List α}

def AgreeOn (xs : List Extent) (m m' : List α) : Prop := ∀ x ∈ xs, x.read m = x.read m'

/-- Buffers with the same first cells agree on what lies within these. -/
theorem AgreeOn.of_take {n : Nat} (hxs : ∀ x ∈ xs, x.Within n) (h : m.take n = m'.take n) :
    AgreeOn xs m m' := by
  intro x hx
  rw [← Extent.read_take (hxs x hx) m, ← Extent.read_take (hxs x hx) m', h]

@[simp] theorem agreeOn_append :
    AgreeOn (xs ++ ys) m m' ↔ AgreeOn xs m m' ∧ AgreeOn ys m m' := by
  simp only [AgreeOn, List.mem_append, or_imp, forall_and]

@[simp] theorem agreeOn_cons {x : Extent} :
    AgreeOn (x :: xs) m m' ↔ x.read m = x.read m' ∧ AgreeOn xs m m' := by
  simp only [AgreeOn, List.forall_mem_cons]

@[simp] theorem agreeOn_shift {k : Nat} :
    AgreeOn (xs.map (Extent.shift k)) m m' ↔ AgreeOn xs (m.drop k) (m'.drop k) := by
  simp only [AgreeOn, List.forall_mem_map, Extent.read_shift]

end Ironhide.Lib.Buffer
