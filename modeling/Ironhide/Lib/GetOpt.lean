import Mathlib.Data.List.Basic

namespace Ironhide.Lib.GetOpt

/-- What a call of `getopt` gives: an option, with `optarg` when it takes one, or
the `?` for an unknown letter and for a missing argument. -/
inductive Found where
  | option (c : Char) (optarg : Option (List Char))
  | unrecognized
  deriving DecidableEq, Repr

abbrev OptString := Char → Option Bool

/-- The letters behind a dash, and the one among them that waits for an argument.
The rest of the element is the argument of a letter that takes one. -/
def letters (known : OptString) : List Char → List Found × Option Char
  | [] => ([], none)
  | c :: cs =>
    match known c with
    | none => (.unrecognized :: (letters known cs).1, (letters known cs).2)
    | some false => (.option c none :: (letters known cs).1, (letters known cs).2)
    | some true => if cs = [] then ([], some c) else ([.option c (some cs)], none)

/-- What the calls of `getopt` give on the elements of a command line, up to the
one that says there are no more, with the letter that still waits for its argument.
Two dashes end the options. An element that is not an option is stepped over where
`getopt` permutes, and is the end where it does not. -/
def getopt (known : OptString) (permutes : Bool) : Option Char → List (List Char) → List Found
  | some _, [] => [.unrecognized]
  | some c, arg :: args => .option c (some arg) :: getopt known permutes none args
  | none, [] => []
  | none, ['-', '-'] :: _ => []
  | none, ('-' :: c :: cs) :: args =>
    (letters known (c :: cs)).1 ++ getopt known permutes (letters known (c :: cs)).2 args
  | none, _ :: args => if permutes then getopt known permutes none args else []

variable {known : OptString} {permutes : Bool}

/-- Letters without arguments are found one by one. -/
theorem letters_replicate {c : Char} (hc : known c = some false) (n : Nat) (cs : List Char) :
    letters known (List.replicate n c ++ cs) =
      (List.replicate n (.option c none) ++ (letters known cs).1, (letters known cs).2) := by
  induction n with
  | zero => rfl
  | succ n ih =>
    rw [List.replicate_succ, List.cons_append, letters, hc, List.replicate_succ]
    simp only [ih, List.cons_append]

theorem letters_joined {c : Char} (hc : known c = some true) {cs : List Char} (hcs : cs ≠ []) :
    letters known (c :: cs) = ([.option c (some cs)], none) := by
  rw [letters, hc]
  exact if_neg hcs

theorem letters_wanting {c : Char} (hc : known c = some true) :
    letters known [c] = ([], some c) := by
  rw [letters, hc]
  exact if_pos rfl

/-- An element that is no option and does not end the options. -/
def Operand (arg : List Char) : Prop := ∀ c cs, arg ≠ '-' :: c :: cs

theorem getopt_letters {cs : List Char} (hcs : cs ≠ []) (hdashes : cs ≠ ['-'])
    (args : List (List Char)) :
    getopt known permutes none (('-' :: cs) :: args) =
      (letters known cs).1 ++ getopt known permutes (letters known cs).2 args := by
  cases cs with
  | nil => exact absurd rfl hcs
  | cons c cs =>
    rw [getopt]
    rintro rfl rfl
    exact hdashes rfl

theorem getopt_operand {arg : List Char} (harg : Operand arg) (args : List (List Char)) :
    getopt known permutes none (arg :: args) =
      if permutes then getopt known permutes none args else [] := by
  rw [getopt]
  · rintro rfl
    exact harg _ _ rfl
  · rintro c cs rfl
    exact harg _ _ rfl

end Ironhide.Lib.GetOpt
