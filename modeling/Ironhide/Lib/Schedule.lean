import Ironhide.Lib.Threads

namespace Ironhide.Lib.Schedule
open Program Threads Threads.System

variable {σ Γ Op : Type} {Reply : Op → Type} {ε α : Type}

def stopped : Prog Op Reply ε α → Option ε
  | .throw e => some e
  | _ => none

def pending : Prog Op Reply ε α → Option Op
  | .op o _ => some o
  | _ => none

def returned : Prog Op Reply ε α → Option α
  | .ret a => some a
  | _ => none

theorem runs_of_returned {p : Prog Op Reply ε α} {a : α} (h : returned p = some a) :
    p.Runs [] (.ok a) := by
  cases p with
  | ret b =>
    cases h
    exact .ret a
  | _ => cases h

@[simp] theorem stopped_throw (e : ε) : stopped (.throw e : Prog Op Reply ε α) = some e := rfl

@[simp] theorem pending_op (o : Op) (k : Reply o → Prog Op Reply ε α) :
    pending (.op o k) = some o := rfl

theorem alive_iff {S : System σ Γ Op Reply ε α} {ts : List (Thread Γ Op Reply ε α)} :
    S.Alive ts ↔ ∀ t ∈ ts, ∀ e ∈ stopped t.prog, ¬ S.fatal e := by
  constructor
  · intro h t ht e he
    cases hp : t.prog with
    | throw x =>
      rw [hp] at he
      cases he
      exact h t ht _ hp
    | _ =>
      rw [hp] at he
      cases he
  · intro h t ht e he
    exact h t ht e (by rw [he]; rfl)

instance (S : System σ Γ Op Reply ε α) [DecidablePred S.fatal]
    (ts : List (Thread Γ Op Reply ε α)) : Decidable (S.Alive ts) :=
  decidable_of_iff _ alive_iff.symm

/-- A way of resolving what a system leaves open: what comes of an operation,
and whether somebody may arrive. -/
structure World (S : System σ Γ Op Reply ε α) where
  resolve : σ → Γ → (o : Op) → Option (Reply o × σ × List Γ)
  performs : ∀ s g o r s' born, resolve s g o = some (r, s', born) → S.perform s g o r s' born
  accept : σ → Γ → Option σ
  arrives : ∀ s g s', accept s g = some s' → S.arrive s s' g

inductive Move (Γ : Type) where
  | run (thread : Nat)
  | arrive (g : Γ)

def steps (n thread : Nat) : List (Move Γ) := List.replicate n (.run thread)

namespace World

variable {S : System σ Γ Op Reply ε α} [DecidablePred S.fatal] (w : World S)
  (guard : σ → List (Thread Γ Op Reply ε α) → Γ → Op → Prop)
  [∀ s ts g o, Decidable (guard s ts g o)]

def move (P : Pool σ Γ Op Reply ε α) : Move Γ → Option (Pool σ Γ Op Reply ε α)
  | .arrive g =>
    if S.Alive P.threads then
      (w.accept P.shared g).map fun s => ⟨s, P.threads ++ [S.spawn g]⟩
    else none
  | .run i =>
    match P.threads[i]? with
    | some ⟨g, past, .op o k⟩ =>
      if S.Alive P.threads ∧ guard P.shared (P.threads.take i ++ P.threads.drop (i + 1)) g o then
        (w.resolve P.shared g o).map fun (r, s, born) =>
          ⟨s, P.threads.take i ++ ⟨g, past ++ [⟨o, r⟩], k r⟩ :: P.threads.drop (i + 1) ++
            born.map S.spawn⟩
      else none
    | _ => none

/-- The pool after a schedule, if every move of it can be made. -/
def play (P : Pool σ Γ Op Reply ε α) (moves : List (Move Γ)) : Option (Pool σ Γ Op Reply ε α) :=
  moves.foldlM (w.move guard) P

variable {w guard} {P Q : Pool σ Γ Op Reply ε α}

theorem move_step {m : Move Γ} (h : w.move guard P m = some Q) : Step S guard P Q := by
  cases m with
  | arrive g =>
    simp only [move] at h
    split at h
    · rename_i halive
      obtain ⟨s, hs, rfl⟩ := Option.map_eq_some_iff.mp h
      exact .arrive halive (w.arrives _ _ _ hs)
    · cases h
  | run i =>
    simp only [move] at h
    split at h
    · rename_i g past o k hi
      split at h
      · rename_i hc
        obtain ⟨⟨r, s, born⟩, hr, rfl⟩ := Option.map_eq_some_iff.mp h
        obtain ⟨hlt, hget⟩ := List.getElem?_eq_some_iff.mp hi
        have hsplit : P.threads = P.threads.take i ++ ⟨g, past, .op o k⟩ :: P.threads.drop (i + 1) := by
          rw [← hget, List.getElem_cons_drop, List.take_append_drop]
        obtain ⟨shared, threads⟩ := P
        dsimp only at hsplit hc hr ⊢
        have halive := hc.1
        rw [hsplit] at halive
        have hstep := Step.run halive hc.2 (w.performs _ _ _ _ _ _ hr)
        rw [← hsplit] at hstep
        exact hstep
      · cases h
    · cases h

theorem reachable_play {s : σ} {moves : List (Move Γ)} (hr : Reachable S guard s Q)
    (h : w.play guard Q moves = some P) : Reachable S guard s P := by
  induction moves generalizing Q with
  | nil =>
    cases h
    exact hr
  | cons m moves ih =>
    obtain ⟨R, hm, h⟩ := Option.bind_eq_some_iff.mp h
    exact ih (hr.tail (move_step hm)) h

/-- What a schedule leads to can be reached. -/
theorem reachable {s : σ} {moves : List (Move Γ)} (h : w.play guard ⟨s, []⟩ moves = some P) :
    Reachable S guard s P :=
  reachable_play .refl h

variable (w guard) in
theorem exists_reachable (s : σ) (moves : List (Move Γ)) (p : Pool σ Γ Op Reply ε α → Bool)
    (h : (w.play guard ⟨s, []⟩ moves).any p = true) : ∃ P, Reachable S guard s P ∧ p P = true := by
  obtain ⟨P, hplay, hp⟩ := Option.any_eq_true _ _ |>.mp h
  exact ⟨P, reachable hplay, hp⟩

end World

end Ironhide.Lib.Schedule
