import Ironhide.Lib.Bytes
import Mathlib.Algebra.Group.Int.Defs
import Mathlib.Algebra.Group.Nat.Defs
import Mathlib.Data.List.TakeWhile

namespace Ironhide.Lib.Text
open Bytes

def decimal (n : Nat) : List Char := Nat.toDigits 10 n

theorem decimal_injective {m n : Nat} (h : decimal m = decimal n) : m = n := by
  have hd := congrArg (fun cs => Nat.ofDigitChars 10 cs 0) h
  simpa [decimal] using hd

theorem dot_not_mem_decimal (n : Nat) : '.' ∉ decimal n := by
  intro h
  have hd := Nat.isDigit_of_mem_toDigits (b := 10) (by decide) (by decide) h
  exact absurd hd (by decide)

/-- `inet_ntoa`: the address bytes in memory order, in dotted decimal. -/
def inetNtoa (w : BitVec 32) : String :=
  String.ofList (['.'].intercalate [decimal (w.extractLsb' 0 8).toNat,
    decimal (w.extractLsb' 8 8).toNat, decimal (w.extractLsb' 16 8).toNat,
    decimal (w.extractLsb' 24 8).toNat])

/-- One field of a dotted quad, accepted in canonical decimal only. -/
def octet (cs : List Char) : Option Byte :=
  let n := Nat.ofDigitChars 10 cs 0
  if n < 256 ∧ decimal n = cs then some (BitVec.ofNat 8 n) else none

/-- What `inet_addr` returns for text it cannot read; also the broadcast address. -/
def inaddrNone : BitVec 32 := 0xffffffff

/-- `inet_addr` on dotted quads, the only text that is handed to it. -/
def inetAddr (s : String) : BitVec 32 :=
  match (s.toList.splitOn '.').map octet with
  | [some b0, some b1, some b2, some b3] => b3 ++ b2 ++ b1 ++ b0
  | _ => inaddrNone

theorem octet_decimal (b : Byte) : octet (decimal b.toNat) = some b := by
  have hb : b.toNat < 256 := b.isLt
  simp [octet, decimal, hb]

theorem splitOn_inetNtoa (w : BitVec 32) :
    (inetNtoa w).toList.splitOn '.' = [decimal (w.extractLsb' 0 8).toNat,
      decimal (w.extractLsb' 8 8).toNat, decimal (w.extractLsb' 16 8).toNat,
      decimal (w.extractLsb' 24 8).toNat] := by
  rw [inetNtoa, String.toList_ofList]
  apply List.splitOn_intercalate
  · simp [dot_not_mem_decimal]
  · simp

/-- Every address survives the trip through its text, broadcast included. -/
@[simp] theorem inetAddr_inetNtoa (w : BitVec 32) : inetAddr (inetNtoa w) = w := by
  simp only [inetAddr, splitOn_inetNtoa, List.map_cons, List.map_nil, octet_decimal, join32]

theorem inetNtoa_injective {v w : BitVec 32} (h : inetNtoa v = inetNtoa w) : v = w := by
  have hw := congrArg inetAddr h
  simpa using hw

inductive ConversionError where
  | invalidArgument
  | outOfRange
  deriving DecidableEq, Repr

def isSpace (c : Char) : Bool := c == ' ' || (9 ≤ c.toNat && c.toNat ≤ 13)

/-- `std::stoi`: leading blanks, a sign, digits up to the first other character. -/
def stoi (s : String) : Except ConversionError Int :=
  let cs := s.toList.dropWhile isSpace
  let (negative, rest) := match cs with
    | '-' :: cs => (true, cs)
    | '+' :: cs => (false, cs)
    | cs => (false, cs)
  let digits := rest.takeWhile Char.isDigit
  if digits = [] then .error .invalidArgument
  else
    let n : Int := Nat.ofDigitChars 10 digits 0
    let v := if negative then -n else n
    if -2^31 ≤ v ∧ v < 2^31 then .ok v else .error .outOfRange

/-- The sign and the digits that a conversion reads behind the leading blanks. -/
def numeral (cs : List Char) : Bool × List Char :=
  match cs.dropWhile isSpace with
  | '-' :: cs => (true, cs.takeWhile Char.isDigit)
  | '+' :: cs => (false, cs.takeWhile Char.isDigit)
  | cs => (false, cs.takeWhile Char.isDigit)

/-- `std::stoul`: the sign negates in `unsigned long`, so it is never out of range by itself. -/
def stoul (cs : List Char) : Except ConversionError (BitVec 64) :=
  let (negative, digits) := numeral cs
  if digits = [] then .error .invalidArgument
  else
    let n := Nat.ofDigitChars 10 digits 0
    if n < 2^64 then .ok (if negative then -BitVec.ofNat 64 n else BitVec.ofNat 64 n)
    else .error .outOfRange

theorem decimal_isDigit {n : Nat} {c : Char} (h : c ∈ decimal n) : c.isDigit = true :=
  Nat.isDigit_of_mem_toDigits (b := 10) (by decide) (by decide) h

theorem digit_not_space {c : Char} (h : c.isDigit = true) : isSpace c = false := by
  simp only [Char.isDigit, Bool.and_eq_true, decide_eq_true_eq, isSpace, Bool.or_eq_false_iff,
    beq_eq_false_iff_ne, Bool.and_eq_false_iff, decide_eq_false_iff_not] at h ⊢
  have h48 : 48 ≤ c.toNat := h.1
  refine ⟨?_, Or.inr (by omega)⟩
  intro hc
  subst hc
  exact absurd h48 (by decide)

theorem digit_not_sign {c : Char} (h : c.isDigit = true) : c ≠ '-' ∧ c ≠ '+' := by
  constructor <;> (intro hc; subst hc; exact absurd h (by decide))

/-- `std::stoi` reads back what `std::to_string` wrote. -/
theorem stoi_decimal (n : Nat) (h : n < 2^31) : stoi (String.ofList (decimal n)) = .ok n := by
  obtain ⟨c, cs, hcs⟩ := List.exists_cons_of_ne_nil
    (show decimal n ≠ [] from Nat.toDigits_ne_nil)
  have hall : ∀ d ∈ c :: cs, d.isDigit = true := fun d hd => decimal_isDigit (hcs ▸ hd)
  have hc : c.isDigit = true := hall c (by simp)
  have hsign := digit_not_sign hc
  have hval : Nat.ofDigitChars 10 (c :: cs) 0 = n := by
    rw [← hcs]
    exact Nat.ofDigitChars_ten_toDigits
  have htake : (c :: cs).takeWhile Char.isDigit = c :: cs := List.takeWhile_eq_self_iff.mpr hall
  have hdrop : (c :: cs).dropWhile isSpace = c :: cs := by
    simp [digit_not_space hc]
  have hrange : -2^31 ≤ (n : Int) ∧ (n : Int) < 2^31 := by omega
  simp only [stoi, String.toList_ofList, hcs, hdrop]
  split
  · rename_i heq
    exact absurd (List.cons.inj heq).1 hsign.1
  · rename_i heq
    exact absurd (List.cons.inj heq).1 hsign.2
  · simp only [htake, reduceCtorEq, ↓reduceIte, hval, Bool.false_eq_true, if_pos hrange]

theorem numeral_digits {digits : List Char} (hne : digits ≠ [])
    (hdigits : ∀ c ∈ digits, c.isDigit = true) : numeral digits = (false, digits) := by
  obtain ⟨c, cs, rfl⟩ := List.exists_cons_of_ne_nil hne
  have hc : c.isDigit = true := hdigits c (by simp)
  have hsign := digit_not_sign hc
  have hdrop : (c :: cs).dropWhile isSpace = c :: cs := by
    simp [digit_not_space hc]
  simp only [numeral, hdrop]
  split
  · rename_i heq
    exact absurd (List.cons.inj heq).1 hsign.1
  · rename_i heq
    exact absurd (List.cons.inj heq).1 hsign.2
  · rw [List.takeWhile_eq_self_iff.mpr hdigits]

def BeginsWithNumber (cs : List Char) : Prop :=
  (numeral cs).2 ≠ [] ∧ Nat.ofDigitChars 10 (numeral cs).2 0 < 2^64

theorem stoul_ok_iff {cs : List Char} : (∃ v, stoul cs = .ok v) ↔ BeginsWithNumber cs := by
  by_cases hne : (numeral cs).2 = []
  · simp [stoul, BeginsWithNumber, hne]
  · by_cases hrange : Nat.ofDigitChars 10 (numeral cs).2 0 < 2^64
    · simp only [stoul, if_neg hne, if_pos hrange]
      exact ⟨fun _ => ⟨hne, hrange⟩, fun _ => ⟨_, rfl⟩⟩
    · simp only [stoul, if_neg hne, if_neg hrange, reduceCtorEq, exists_false, false_iff]
      exact fun h => hrange h.2

theorem stoul_digits {digits : List Char} (hne : digits ≠ [])
    (hdigits : ∀ c ∈ digits, c.isDigit = true) (hrange : Nat.ofDigitChars 10 digits 0 < 2^64) :
    stoul digits = .ok (BitVec.ofNat 64 (Nat.ofDigitChars 10 digits 0)) := by
  simp only [stoul, numeral_digits hne hdigits, if_neg hne, if_pos hrange, Bool.false_eq_true, ↓reduceIte]

end Ironhide.Lib.Text
