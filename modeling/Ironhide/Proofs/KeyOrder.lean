import Ironhide.Model.ConnectionEntry

namespace Ironhide.Proofs.KeyOrder
open Model ConnectionEntry Lib.SearchTree

theorem tie_iff (a b : ConnectionEntry) : Tie lt a b ↔ a = b := by
  constructor
  · exact fun h => eq_of_tie a b h.1 h.2
  · rintro rfl
    exact ⟨lt_irrefl a, lt_irrefl a⟩

/-- A key below another in some field, and above it in none, is at most it in all. -/
theorem below_of_asymm {a b : ConnectionEntry} (h : lt a b = true → lt b a = false) :
    Below a b ∨ Below b a := by
  cases hab : lt a b with
  | true => exact .inl ((lt_eq_false_iff b a).mp (h hab))
  | false => exact .inr ((lt_eq_false_iff a b).mp hab)

/-- Behind a key that is at most the next one in every field, what is below the
next one is below it. -/
theorem lt_of_below {a b c : ConnectionEntry} (hab : Below a b) (hbc : lt b c = true) :
    lt a c = true := by
  by_contra hac
  have hca : Below c a := (lt_eq_false_iff a c).mp (by simpa using hac)
  exact (hca.trans hab).not_lt hbc

/-- The comparator keeps a map's laws on three keys exactly when no two fields of
the first two differ in opposite directions. -/
theorem lt_laws_iff (a b c : ConnectionEntry) : Laws lt a b c ↔ Below a b ∨ Below b a := by
  constructor
  · exact fun h => below_of_asymm h.asymm
  · intro hbelow
    refine ⟨lt_irrefl a, ?_, ?_, ?_, tie_iff a b⟩
    · intro hlt
      rcases hbelow with hab | hba
      · exact (lt_eq_false_iff b a).mpr hab
      · exact absurd hlt hba.not_lt
    · intro hlt hbc
      rcases hbelow with hab | hba
      · exact lt_of_below hab hbc
      · exact absurd hlt hba.not_lt
    · intro hab hbc
      rw [tie_iff] at hab hbc ⊢
      exact hab.trans hbc

/-- The two directions of one connection are each below the other. -/
theorem directions_not_ordered : ¬ ∀ a b c : ConnectionEntry, Laws lt a b c :=
  fun h => absurd
    ((h ⟨"10.0.0.1", "10.0.1.1", 5000, 80, "0", .tcp⟩ ⟨"10.0.1.1", "10.0.0.1", 80, 5000, "0", .tcp⟩
      ⟨"10.0.0.1", "10.0.1.1", 5000, 80, "0", .tcp⟩).asymm (by decide)) (by decide)

/-- The laws hold of all keys of a set exactly when the set is a chain. -/
theorem laws_on_iff_chain {K : Set ConnectionEntry} :
    (∀ a ∈ K, ∀ b ∈ K, ∀ c ∈ K, Laws lt a b c) ↔ Chain K := by
  rw [← strictOn_iff_laws]
  constructor
  · exact fun h a ha b hb => h.asymm ha hb
  · exact fun h => h.strictOn

end Ironhide.Proofs.KeyOrder
