import Mathlib.Algebra.Group.Int.Defs
import Mathlib.Algebra.Group.Nat.Defs
import Mathlib.Data.Nat.ModEq

namespace Ironhide.Lib.OnesComplement

variable {w : Nat}

/-- Bring what is above the low `w` bits of a number round to the low end. -/
def fold (w s : Nat) : Nat := s / 2^w + s % 2^w

def add (a b : BitVec w) : BitVec w := BitVec.ofNat w (fold w (a.toNat + b.toNat))

def sum (ws : List (BitVec w)) : BitVec w := ws.foldr add 0

def total (ws : List (BitVec w)) : Nat := (ws.map BitVec.toNat).sum

@[simp] theorem total_nil : total ([] : List (BitVec w)) = 0 := rfl

@[simp] theorem total_cons (a : BitVec w) (ws : List (BitVec w)) :
    total (a :: ws) = a.toNat + total ws := rfl

@[simp] theorem total_append (ws ws' : List (BitVec w)) :
    total (ws ++ ws') = total ws + total ws' := by
  simp [total]

/-- A number as a ones'-complement word: modulo `2^w - 1`, where only zero itself
is the word zero. -/
def reduce (w s : Nat) : Nat := if s = 0 then 0 else (s - 1) % (2^w - 1) + 1

@[simp] theorem reduce_zero : reduce w 0 = 0 := rfl

theorem reduce_modEq (w s : Nat) : reduce w s ≡ s [MOD 2^w - 1] := by
  unfold reduce
  split
  · rename_i h
    rw [h]
  · have hs : s - 1 + 1 = s := by omega
    have h := (Nat.mod_modEq (s - 1) (2^w - 1)).add_right 1
    rwa [hs] at h

theorem reduce_eq_zero_iff {s : Nat} : reduce w s = 0 ↔ s = 0 := by
  unfold reduce
  split <;> omega

/-- Two numbers up to `2^w - 1` that agree modulo `2^w - 1` are equal, but for
the two ways to write zero. -/
theorem eq_of_modEq {s t : Nat} (hs : s < 2^w) (ht : t < 2^w) (h : s ≡ t [MOD 2^w - 1])
    (h0 : s = 0 ↔ t = 0) : s = t := by
  by_cases hz : s = 0
  · rw [hz, h0.mp hz]
  have hz' : t ≠ 0 := fun ht0 => hz (h0.mpr ht0)
  have h' : s - 1 + 1 ≡ t - 1 + 1 [MOD 2^w - 1] := by
    rwa [Nat.sub_add_cancel (by omega), Nat.sub_add_cancel (by omega)]
  have heq : s - 1 = t - 1 := h'.add_right_cancel'.eq_of_lt_of_lt (by omega) (by omega)
  omega

theorem reduce_lt (hw : 0 < w) (s : Nat) : reduce w s < 2^w := by
  have h2 : 2 ≤ 2^w := Nat.le_self_pow (by omega) 2
  have hlt : (s - 1) % (2^w - 1) < 2^w - 1 := Nat.mod_lt _ (by omega)
  unfold reduce
  split <;> omega

/-- There is one word for a number. -/
theorem eq_reduce (hw : 0 < w) {s t : Nat} (ht : t < 2^w) (h : t ≡ s [MOD 2^w - 1])
    (h0 : t = 0 ↔ s = 0) : t = reduce w s :=
  eq_of_modEq ht (reduce_lt hw s) (h.trans (reduce_modEq w s).symm) (h0.trans reduce_eq_zero_iff.symm)

theorem reduce_eq_ones_iff (hw : 0 < w) {s : Nat} :
    reduce w s = 2^w - 1 ↔ s ≠ 0 ∧ 2^w - 1 ∣ s := by
  have h2 : 2 ≤ 2^w := Nat.le_self_pow (by omega) 2
  have hones : 2^w - 1 ≡ 0 [MOD 2^w - 1] := Nat.modulus_modEq_zero
  rw [← Nat.modEq_zero_iff_dvd]
  constructor
  · intro h
    refine ⟨fun hs => ?_, ?_⟩
    · rw [hs, reduce_zero] at h
      omega
    · exact (reduce_modEq w s).symm.trans (h ▸ hones)
  · intro hparts
    obtain ⟨hs, h⟩ := hparts
    exact (eq_reduce hw (by omega) (hones.trans h.symm) (by omega)).symm

theorem two_pow_modEq_one (w : Nat) : 2^w ≡ 1 [MOD 2^w - 1] := by
  have hpos : 0 < 2^w := Nat.two_pow_pos w
  have h := Nat.ModEq.add_right 1 (Nat.modulus_modEq_zero (n := 2^w - 1))
  rwa [Nat.sub_add_cancel hpos, Nat.zero_add] at h

theorem fold_modEq (w s : Nat) : fold w s ≡ s [MOD 2^w - 1] := by
  have h := ((two_pow_modEq_one w).mul_right (s / 2^w)).add_right (s % 2^w)
  rw [Nat.one_mul, Nat.div_add_mod] at h
  exact h.symm

theorem fold_eq_zero_iff {s : Nat} : fold w s = 0 ↔ s = 0 := by
  have hdiv := Nat.div_add_mod s (2^w)
  rw [fold, Nat.add_eq_zero_iff]
  constructor
  · intro hparts
    rw [hparts.1, hparts.2] at hdiv
    exact hdiv.symm
  · rintro rfl
    exact ⟨Nat.zero_div _, Nat.zero_mod _⟩

/-- The sum of two words carries once at most, and then has room for the carry. -/
theorem fold_lt (hw : 0 < w) {s : Nat} (hs : s ≤ 2 * (2^w - 1)) : fold w s < 2^w := by
  have h2 : 2 ≤ 2^w := Nat.le_self_pow (by omega) 2
  have hdiv := Nat.div_add_mod s (2^w)
  have hmod := Nat.mod_lt s (show 0 < 2^w by omega)
  have hcarry : s / 2^w < 2 := (Nat.div_lt_iff_lt_mul (by omega)).mpr (by omega)
  unfold fold
  rcases Nat.lt_succ_iff_lt_or_eq.mp hcarry with h | h
  · rw [Nat.lt_one_iff.mp h]
    omega
  · rw [h] at hdiv ⊢
    omega

theorem fold_eq_reduce (hw : 0 < w) {s : Nat} (hs : s ≤ 2 * (2^w - 1)) : fold w s = reduce w s :=
  eq_reduce hw (fold_lt hw hs) (fold_modEq w s) fold_eq_zero_iff

theorem fold_lt_self (hw : 0 < w) {s : Nat} (hs : 2^w ≤ s) : fold w s < s := by
  have h2 : 2 ≤ 2^w := Nat.le_self_pow (by omega) 2
  have hdiv := Nat.div_add_mod s (2^w)
  have hcarry : 0 < s / 2^w := Nat.div_pos hs (by omega)
  have hdouble : 2 * (s / 2^w) ≤ 2^w * (s / 2^w) := Nat.mul_le_mul_right _ h2
  unfold fold
  omega

/-- Carries are brought round until the number fits a word. -/
def endAround (w s : Nat) : Nat :=
  if 0 < w ∧ 2^w ≤ s then endAround w (fold w s) else s
termination_by s
decreasing_by
  rename_i h
  exact fold_lt_self h.1 h.2

theorem endAround_eq_reduce (hw : 0 < w) (s : Nat) : endAround w s = reduce w s := by
  induction s using Nat.strongRecOn with
  | ind s ih =>
    rw [endAround]
    split
    · rename_i h
      rw [ih _ (fold_lt_self hw h.2)]
      exact eq_reduce hw (reduce_lt hw _) ((reduce_modEq w _).trans (fold_modEq w s))
        (reduce_eq_zero_iff.trans fold_eq_zero_iff)
    · rename_i h
      have hlt : s < 2^w := by omega
      exact eq_reduce hw hlt rfl Iff.rfl

/-- Two words' width of carries is gone after folding twice. -/
theorem fold_fold (hw : 0 < w) {s : Nat} (hs : s < 2^w * 2^w) :
    fold w (fold w s) = reduce w s := by
  have hmod := Nat.mod_lt s (Nat.two_pow_pos w)
  have hdiv : s / 2^w < 2^w := (Nat.div_lt_iff_lt_mul (Nat.two_pow_pos w)).mpr hs
  have hle : fold w s ≤ 2 * (2^w - 1) := by
    unfold fold
    omega
  exact eq_reduce hw (fold_lt hw hle) ((fold_modEq w _).trans (fold_modEq w s))
    (fold_eq_zero_iff.trans fold_eq_zero_iff)

theorem add_toNat (hw : 0 < w) (a b : BitVec w) :
    (add a b).toNat = reduce w (a.toNat + b.toNat) := by
  have ha := a.isLt
  have hb := b.isLt
  have hle : a.toNat + b.toNat ≤ 2 * (2^w - 1) := by omega
  rw [add, BitVec.toNat_ofNat, Nat.mod_eq_of_lt (fold_lt hw hle), fold_eq_reduce hw hle]

/-- The ones'-complement sum depends on the words' total only. -/
theorem sum_toNat (hw : 0 < w) (ws : List (BitVec w)) : (sum ws).toNat = reduce w (total ws) := by
  induction ws with
  | nil => exact BitVec.toNat_ofNat 0 w
  | cons a ws ih =>
    have hstep : (sum (a :: ws)).toNat = reduce w (a.toNat + reduce w (total ws)) := by
      rw [← ih]
      exact add_toNat hw a (sum ws)
    rw [hstep, total_cons]
    apply eq_reduce hw (reduce_lt hw _)
    · exact (reduce_modEq w _).trans ((reduce_modEq w _).add_left _)
    · rw [reduce_eq_zero_iff, Nat.add_eq_zero_iff, Nat.add_eq_zero_iff, reduce_eq_zero_iff]

theorem sum_congr (hw : 0 < w) {vs ws : List (BitVec w)} (h : total vs = total ws) :
    sum vs = sum ws := by
  apply BitVec.eq_of_toNat_eq
  rw [sum_toNat hw, sum_toNat hw, h]

theorem total_le (ws : List (BitVec w)) : total ws ≤ ws.length * (2^w - 1) := by
  induction ws with
  | nil => exact Nat.zero_le _
  | cons a ws ih =>
    have ha := a.isLt
    rw [total_cons, List.length_cons, Nat.add_mul]
    omega

theorem sum_eq_allOnes_iff (hw : 0 < w) {ws : List (BitVec w)} :
    sum ws = BitVec.allOnes w ↔ total ws ≠ 0 ∧ 2^w - 1 ∣ total ws := by
  rw [← BitVec.toNat_inj, sum_toNat hw, BitVec.toNat_allOnes, reduce_eq_ones_iff hw]

/-- The complement of a sum is what it lacks to all ones. -/
theorem check_add_reduce (hw : 0 < w) (vs : List (BitVec w)) :
    (~~~ sum vs).toNat + reduce w (total vs) = 2^w - 1 := by
  have hlt := reduce_lt hw (total vs)
  rw [BitVec.toNat_not, sum_toNat hw]
  omega

/-- With the complement of the sum of `vs` beside them, the words `ws` sum to all
ones exactly when the two totals agree. -/
theorem sum_check_iff (hw : 0 < w) {vs ws : List (BitVec w)} (hne : total ws ≠ 0) :
    sum (~~~ sum vs :: ws) = BitVec.allOnes w ↔ total vs ≡ total ws [MOD 2^w - 1] := by
  have hzero : (~~~ sum vs).toNat + reduce w (total vs) ≡ 0 [MOD 2^w - 1] := by
    rw [check_add_reduce hw]
    exact Nat.modulus_modEq_zero
  rw [sum_eq_allOnes_iff hw, total_cons, ← Nat.modEq_zero_iff_dvd]
  have hne' : (~~~ sum vs).toNat + total ws ≠ 0 := by omega
  constructor
  · intro hparts
    obtain ⟨_, h⟩ := hparts
    exact (reduce_modEq w _).symm.trans (hzero.trans h.symm).add_left_cancel'
  · intro h
    refine ⟨hne', (Nat.ModEq.add_left _ ?_).trans hzero⟩
    exact h.symm.trans (reduce_modEq w _).symm

/-- Words pass the check against their own sum, also where it is zero. -/
theorem sum_check (hw : 0 < w) (ws : List (BitVec w)) :
    sum (~~~ sum ws :: ws) = BitVec.allOnes w := by
  by_cases h0 : total ws = 0
  · have h2 : 2 ≤ 2^w := Nat.le_self_pow (by omega) 2
    have hones : (~~~ sum ws).toNat = 2^w - 1 := by
      have hadd := check_add_reduce hw ws
      rwa [h0, reduce_zero, Nat.add_zero] at hadd
    rw [sum_eq_allOnes_iff hw, total_cons, h0, hones, Nat.add_zero]
    exact ⟨by omega, Nat.dvd_refl _⟩
  · exact (sum_check_iff hw h0).mpr rfl

section Halves
variable {h : Nat}

/-- The words of a buffer of half-words, high half first; an odd last half-word
is filled up with zeros. -/
def beWords : List (BitVec h) → List (BitVec (h + h))
  | b₀ :: b₁ :: m => (b₀ ++ b₁) :: beWords m
  | [b] => [b ++ 0#h]
  | [] => []

def leWords : List (BitVec h) → List (BitVec (h + h))
  | b₀ :: b₁ :: m => (b₁ ++ b₀) :: leWords m
  | [b] => [0#h ++ b]
  | [] => []

theorem leWords_append {m : List (BitVec h)} (heven : 2 ∣ m.length) (m' : List (BitVec h)) :
    leWords (m ++ m') = leWords m ++ leWords m' := by
  induction m using leWords.induct with
  | case1 b₀ b₁ m ih =>
    have hm : 2 ∣ m.length := (Nat.dvd_add_left (Nat.dvd_refl 2)).mp heven
    simp only [List.cons_append, leWords, ih hm]
  | case2 b =>
    rw [List.length_singleton] at heven
    omega
  | case3 => rfl

theorem leWords_length_le (m : List (BitVec h)) : (leWords m).length ≤ (m.length + 1) / 2 := by
  induction m using leWords.induct with
  | case1 b₀ b₁ m ih =>
    simp only [leWords, List.length_cons] at ih ⊢
    omega
  | case2 b => simp [leWords]
  | case3 => exact Nat.zero_le _

theorem toNat_append (x y : BitVec h) : (x ++ y).toNat = x.toNat * 2^h + y.toNat := by
  rw [BitVec.toNat_append, ← Nat.shiftLeft_add_eq_or_of_lt y.isLt, Nat.shiftLeft_eq]

theorem shift_twice (h : Nat) : 2^h * 2^h ≡ 1 [MOD 2^(h + h) - 1] := by
  rw [← Nat.pow_add]
  exact two_pow_modEq_one (h + h)

/-- To swap the halves of a word is to shift it by one half, end around. -/
theorem swap_modEq (x y : BitVec h) :
    (x ++ y).toNat ≡ 2^h * (y ++ x).toNat [MOD 2^(h + h) - 1] := by
  have hy : y.toNat * (2^h * 2^h) ≡ y.toNat * 1 [MOD 2^(h + h) - 1] := (shift_twice h).mul_left _
  have hval : 2^h * (y ++ x).toNat = x.toNat * 2^h + y.toNat * (2^h * 2^h) := by
    rw [toNat_append, Nat.mul_add, Nat.mul_comm (2^h) x.toNat, Nat.mul_comm (2^h) (_ * _),
      Nat.mul_assoc, Nat.add_comm]
  rw [toNat_append, hval]
  rw [Nat.mul_one] at hy
  exact hy.symm.add_left _

theorem total_beWords_modEq (m : List (BitVec h)) :
    total (beWords m) ≡ 2^h * total (leWords m) [MOD 2^(h + h) - 1] := by
  induction m using beWords.induct with
  | case1 b₀ b₁ m ih =>
    simp only [beWords, leWords, total_cons, Nat.mul_add]
    exact (swap_modEq b₀ b₁).add ih
  | case2 b =>
    simp only [beWords, leWords, total_cons, total_nil, Nat.add_zero]
    exact swap_modEq b 0#h
  | case3 => rfl

theorem total_beWords_eq_zero_iff (m : List (BitVec h)) :
    total (beWords m) = 0 ↔ total (leWords m) = 0 := by
  have hpos : 0 < 2^h := Nat.two_pow_pos _
  have hne : 2^h ≠ 0 := by omega
  induction m using beWords.induct with
  | case1 b₀ b₁ m ih =>
    simp only [beWords, leWords, total_cons, toNat_append, Nat.add_eq_zero_iff, ih,
      Nat.mul_eq_zero, hne, or_false]
    tauto
  | case2 b => simp [beWords, leWords]
  | case3 => rfl

theorem dvd_total_beWords_iff (m : List (BitVec h)) :
    2^(h + h) - 1 ∣ total (beWords m) ↔ 2^(h + h) - 1 ∣ total (leWords m) := by
  rw [(total_beWords_modEq m).dvd_iff (Nat.dvd_refl _)]
  constructor
  · intro hd
    -- shifting once more brings every half back to its place
    have hback := (shift_twice h).mul_right (total (leWords m))
    rw [Nat.one_mul, Nat.mul_assoc] at hback
    exact (hback.dvd_iff (Nat.dvd_refl _)).mp (Nat.dvd_mul_left_of_dvd hd _)
  · exact fun hd => Nat.dvd_mul_left_of_dvd hd _

/-- Whether a buffer sums to all ones does not depend on the order of the halves. -/
theorem sum_beWords_iff (hh : 0 < h) (m : List (BitVec h)) :
    sum (beWords m) = BitVec.allOnes (h + h) ↔ sum (leWords m) = BitVec.allOnes (h + h) := by
  rw [sum_eq_allOnes_iff (by omega), sum_eq_allOnes_iff (by omega), dvd_total_beWords_iff,
    ne_eq, total_beWords_eq_zero_iff]

end Halves

end Ironhide.Lib.OnesComplement
