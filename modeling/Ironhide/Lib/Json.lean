import Mathlib.Algebra.Ring.Int.Defs
import Mathlib.Data.List.Basic
import Mathlib.Data.Rat.Defs

namespace Ironhide.Lib.Json

inductive Value where
  | null
  | bool (b : Bool)
  | int (n : Int)
  | real (r : Rat)
  | string (s : String)
  | array (elements : List Value)
  | object (members : List (String × Value))

namespace Value

/-- Members can be read from an object, and from null as from an empty one. -/
def keyed : Value → Bool
  | null => true
  | object _ => true
  | _ => false

/-- The member under a key; null when there is none. -/
def member : Value → String → Value
  | object members, k => (members.lookup k).getD null
  | _, _ => null

def items : Value → List Value
  | array elements => elements
  | object members => members.map Prod.snd
  | _ => []

def isText : Value → String → Bool
  | string s, t => s == t
  | _, _ => false

def convertibleToString : Value → Bool
  | array _ => false
  | object _ => false
  | _ => true

/-- A number in the range of 32 bits, and what stands for 0 or 1. -/
def convertibleToUInt : Value → Bool
  | null => true
  | bool _ => true
  | int n => 0 ≤ n && n < 2^32
  | real r => 0 ≤ r && r ≤ 2^32 - 1
  | _ => false

/-- Members in the order of their keys, where a key has one member. -/
def insert (k : String) (v : Value) : List (String × Value) → List (String × Value)
  | [] => [(k, v)]
  | (k', v') :: members =>
    if k = k' then (k, v) :: members
    else if k < k' then (k, v) :: (k', v') :: members
    else (k', v') :: insert k v members

section Insert
variable {k a : String} (v w : Value) (members : List (String × Value))

theorem insert_cons_self : insert k v ((k, w) :: members) = (k, v) :: members := if_pos rfl

theorem insert_cons_lt (h : k < a) :
    insert k v ((a, w) :: members) = (k, v) :: (a, w) :: members := by
  have hne : k ≠ a := fun heq => String.lt_irrefl a (heq ▸ h)
  rw [insert, if_neg hne, if_pos h]

theorem insert_cons_gt (h : a < k) :
    insert k v ((a, w) :: members) = (a, w) :: insert k v members := by
  have hne : k ≠ a := fun heq => String.lt_irrefl a (heq ▸ h)
  rw [insert, if_neg hne, if_neg (String.lt_asymm h)]

theorem key_trichotomy (k a : String) : k < a ∨ k = a ∨ a < k := by
  by_cases h : k < a
  · exact .inl h
  by_cases h' : a < k
  · exact .inr (.inr h')
  · exact .inr (.inl (String.le_antisymm (String.not_lt.mp h') (String.not_lt.mp h)))

theorem insert_comm_of_lt (h : k < a) :
    insert k v (insert a w members) = insert a w (insert k v members) := by
  induction members with
  | nil => exact (insert_cons_lt v w [] h).trans (insert_cons_gt w v [] h).symm
  | cons m members ih =>
    obtain ⟨b, u⟩ := m
    rcases key_trichotomy k b with hk | rfl | hk
    · rw [insert_cons_lt _ _ _ hk, insert_cons_gt _ _ _ h]
      -- the greater key's member is behind the lesser one's wherever that goes
      rcases key_trichotomy a b with ha | rfl | ha
      · rw [insert_cons_lt _ _ _ ha, insert_cons_lt _ _ _ h]
      · rw [insert_cons_self, insert_cons_lt _ _ _ h]
      · rw [insert_cons_gt _ _ _ ha, insert_cons_lt _ _ _ hk]
    · rw [insert_cons_self, insert_cons_gt _ _ _ h, insert_cons_gt _ _ _ h, insert_cons_self]
    · have ha : b < a := String.lt_trans hk h
      rw [insert_cons_gt _ _ _ ha, insert_cons_gt _ _ _ hk, insert_cons_gt _ _ _ hk,
        insert_cons_gt _ _ _ ha, ih]

/-- Members under different keys can be set in either order. -/
theorem insert_comm (h : k ≠ a) :
    insert k v (insert a w members) = insert a w (insert k v members) := by
  rcases key_trichotomy k a with hlt | heq | hlt
  · exact insert_comm_of_lt v w members hlt
  · exact absurd heq h
  · exact (insert_comm_of_lt w v members hlt).symm

end Insert

theorem lookup_cons (k a : String) (v : Value) (members : List (String × Value)) :
    ((a, v) :: members).lookup k = if k = a then some v else members.lookup k := by
  rw [List.lookup_cons]
  cases h : k == a with
  | true => rw [if_pos (by simpa using h)]
  | false => rw [if_neg (by simpa using h)]

theorem lookup_insert (k k' : String) (v : Value) (members : List (String × Value)) :
    (insert k v members).lookup k' = if k' = k then some v else members.lookup k' := by
  induction members with
  | nil => exact lookup_cons k' k v []
  | cons m members ih =>
    obtain ⟨km, vm⟩ := m
    unfold insert
    split
    · rename_i hk
      subst hk
      rw [lookup_cons, lookup_cons]
      split <;> rfl
    · rename_i hk
      split
      · rw [lookup_cons]
      · rw [lookup_cons, lookup_cons, ih]
        by_cases h : k' = km
        · have hne : ¬ k' = k := fun heq => hk (heq.symm.trans h)
          rw [if_pos h, if_neg hne, if_pos h]
        · rw [if_neg h, if_neg h]

end Value

/-- A library that reads and writes JSON and gives access to its values; `none` is
the error it throws by itself. -/
structure JsonCpp where
  parse : String → Option Value
  toStyledString : Value → String
  member : Value → String → Option Value
  asString : Value → Option String
  asUInt : Value → Option (BitVec 32)
  member_eq : ∀ v k, member v k = if v.keyed then some (v.member k) else none
  asString_isSome : ∀ v, (asString v).isSome = v.convertibleToString
  asUInt_isSome : ∀ v, (asUInt v).isSome = v.convertibleToUInt
  asString_null : asString .null = some ""
  asString_string : ∀ s, asString (.string s) = some s
  asUInt_int : ∀ n : BitVec 32, asUInt (.int n.toNat) = some n

namespace JsonCpp

/-- The text of a value that has one; of a real number only its whole part. -/
def text : Value → Option String
  | .null => some ""
  | .bool b => some (if b then "true" else "false")
  | .int n => some (toString n)
  | .real r => some (toString r.floor)
  | .string s => some s
  | .array _ => none
  | .object _ => none

def uint (v : Value) : Option (BitVec 32) :=
  if v.convertibleToUInt then
    match v with
    | .int n => some (BitVec.ofInt 32 n)
    | .real r => some (BitVec.ofInt 32 r.floor)
    | .bool b => some (if b then 1 else 0)
    | _ => some 0
  else none

def ofText (parse : String → Option Value) (toStyledString : Value → String) : JsonCpp where
  parse := parse
  toStyledString := toStyledString
  member v k := if v.keyed then some (v.member k) else none
  asString := text
  asUInt := uint
  member_eq _ _ := rfl
  asString_isSome v := by cases v <;> rfl
  asUInt_isSome v := by
    unfold uint
    split
    · rename_i h
      cases v <;> simp [h]
    · rename_i h
      simpa using h
  asString_null := rfl
  asString_string _ := rfl
  asUInt_int n := by
    have hrange : (Value.int n.toNat).convertibleToUInt = true := by
      have := n.isLt
      simp only [Value.convertibleToUInt, Bool.and_eq_true, decide_eq_true_eq]
      omega
    simp [uint, hrange]

end JsonCpp

end Ironhide.Lib.Json
