import Ironhide.Model.DbQuery
import Ironhide.Lib.SearchTree

namespace Ironhide.Model
open Lib.SearchTree

/-- `endpoint::ConnectionEntry`; the derived equality is `operator==`, which
compares all six fields. -/
structure ConnectionEntry where
  ipSrc : String
  ipDst : String
  portSrc : BitVec 16
  portDst : BitVec 16
  sfcid : String
  prt : ProtocolType
  deriving DecidableEq, Repr

namespace ConnectionEntry

def lt (a b : ConnectionEntry) : Bool :=
  a.prt.value < b.prt.value ||
    a.ipSrc < b.ipSrc ||
    a.ipDst < b.ipDst ||
    a.portSrc < b.portSrc ||
    a.portDst < b.portDst ||
    a.sfcid < b.sfcid

structure Below (a b : ConnectionEntry) : Prop where
  prt : a.prt.value ≤ b.prt.value
  ipSrc : a.ipSrc ≤ b.ipSrc
  ipDst : a.ipDst ≤ b.ipDst
  portSrc : a.portSrc ≤ b.portSrc
  portDst : a.portDst ≤ b.portDst
  sfcid : a.sfcid ≤ b.sfcid

/-- The comparator says no exactly when the order is the other way in every field. -/
theorem lt_eq_false_iff (a b : ConnectionEntry) : lt a b = false ↔ Below b a := by
  simp only [lt, Bool.or_eq_false_iff, decide_eq_false_iff_not, Nat.not_lt, String.not_lt,
    BitVec.not_lt]
  constructor
  · intro hparts
    obtain ⟨⟨⟨⟨⟨h₁, h₂⟩, h₃⟩, h₄⟩, h₅⟩, h₆⟩ := hparts
    exact ⟨h₁, h₂, h₃, h₄, h₅, h₆⟩
  · intro hparts
    obtain ⟨h₁, h₂, h₃, h₄, h₅, h₆⟩ := hparts
    exact ⟨⟨⟨⟨⟨h₁, h₂⟩, h₃⟩, h₄⟩, h₅⟩, h₆⟩

theorem Below.not_lt {a b : ConnectionEntry} (h : Below a b) : ¬ lt b a = true := by
  rw [(lt_eq_false_iff b a).mpr h]
  exact Bool.false_ne_true

theorem Below.refl (a : ConnectionEntry) : Below a a :=
  ⟨le_refl _, String.le_refl _, String.le_refl _, BitVec.le_refl _, BitVec.le_refl _, String.le_refl _⟩

theorem Below.trans {a b c : ConnectionEntry} (h : Below a b) (h' : Below b c) : Below a c :=
  ⟨h.prt.trans h'.prt, String.le_trans h.ipSrc h'.ipSrc, String.le_trans h.ipDst h'.ipDst,
    BitVec.le_trans h.portSrc h'.portSrc, BitVec.le_trans h.portDst h'.portDst,
    String.le_trans h.sfcid h'.sfcid⟩

theorem Below.antisymm {a b : ConnectionEntry} (h : Below a b) (h' : Below b a) : a = b := by
  have hprt := ProtocolType.value_injective (Nat.le_antisymm h.prt h'.prt)
  have hsrc := String.le_antisymm h.ipSrc h'.ipSrc
  have hdst := String.le_antisymm h.ipDst h'.ipDst
  have hport := BitVec.le_antisymm h.portSrc h'.portSrc
  have hport' := BitVec.le_antisymm h.portDst h'.portDst
  have hsfc := String.le_antisymm h.sfcid h'.sfcid
  cases a
  cases b
  simp_all

@[simp] theorem lt_irrefl (a : ConnectionEntry) : lt a a = false :=
  (lt_eq_false_iff a a).mpr (.refl a)

/-- The comparator ties a key with itself only. -/
theorem eq_of_tie (a b : ConnectionEntry) (hab : lt a b = false) (hba : lt b a = false) : a = b :=
  ((lt_eq_false_iff b a).mp hba).antisymm ((lt_eq_false_iff a b).mp hab)

/-- No two of the keys are each below the other in some field. -/
def Chain (K : Set ConnectionEntry) : Prop :=
  ∀ a ∈ K, ∀ b ∈ K, lt a b = true → lt b a = false

/-- On a chain of keys the comparator is a strict total order. -/
theorem Chain.strictOn {K : Set ConnectionEntry} (h : Chain K) : StrictOn lt K where
  irrefl a _ := lt_irrefl a
  total a _ b _ hne := by
    by_contra hc
    simp only [not_or, Bool.not_eq_true] at hc
    exact hne (eq_of_tie a b hc.1 hc.2)
  trans a ha b hb c hc hab hbc := by
    by_contra hac
    -- `c` is below `a` below `b` below `c`, so all three are one key
    have hca := (lt_eq_false_iff a c).mp (by simpa using hac)
    have hab' := (lt_eq_false_iff b a).mp (h a ha b hb hab)
    have hba : Below b a := ((lt_eq_false_iff c b).mp (h b hb c hc hbc)).trans hca
    exact hba.not_lt hab

theorem chain_singleton (ce : ConnectionEntry) : Chain {ce} := by
  rintro a rfl b rfl _
  exact lt_irrefl _

end ConnectionEntry

end Ironhide.Model
