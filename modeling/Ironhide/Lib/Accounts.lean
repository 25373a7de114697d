import Ironhide.Lib.Hosting
import Mathlib.Algebra.GroupWithZero.Nat
import Mathlib.Algebra.Order.BigOperators.Group.List
import Mathlib.Algebra.Order.Group.Nat
import Mathlib.Data.List.Perm.Subperm

namespace Ironhide.Lib.Accounts
open Program Threads Threads.System Hosting

/-- What an event brings that has to be accounted for, and what it settles. -/
structure Account (Op : Type) (Reply : Op → Type) (ρ : Type) where
  gains : Event Op Reply → List ρ
  losses : Event Op Reply → List ρ

theorem sum_map_le {ι : Type} (f : ι → Nat) {is js : List ι} (h : is.Subperm js) :
    (is.map f).sum ≤ (js.map f).sum := by
  obtain ⟨ks, hperm, hsub⟩ := h
  rw [← (hperm.map f).sum_eq]
  exact (hsub.map f).sum_le_sum fun _ _ => Nat.zero_le _

namespace Account
variable {Op : Type} {Reply : Op → Type} {ε α β ρ : Type} (A : Account Op Reply ρ)

/-- The program settles only what it holds, which is `bound` at most at a time,
and has settled everything when it returns. -/
def Balances (bound : Nat) : Prog Op Reply ε α → List ρ → Prop
  | .ret _, held => held = []
  | .throw _, held => held.length ≤ bound
  | .op o k, held => held.length ≤ bound ∧ ∀ r, ∃ rest,
    (A.gains ⟨o, r⟩ ++ held).Perm (A.losses ⟨o, r⟩ ++ rest) ∧ Balances bound (k r) rest

def Idle (o : Op) : Prop := ∀ r, A.gains ⟨o, r⟩ = [] ∧ A.losses ⟨o, r⟩ = []

variable {A} {bound : Nat} {held : List ρ} {p q : Prog Op Reply ε α} {es : List (Event Op Reply)}

theorem Balances.length_le (h : A.Balances bound p held) : held.length ≤ bound := by
  cases p with
  | ret a =>
    cases h
    exact Nat.zero_le _
  | throw e => exact h
  | op o k => exact h.1

theorem Balances.idle {o : Op} {k : Reply o → Prog Op Reply ε α} (ho : A.Idle o)
    (hheld : held.length ≤ bound) (h : ∀ r, A.Balances bound (k r) held) :
    A.Balances bound (.op o k) held := by
  refine ⟨hheld, fun r => ⟨held, ?_, h r⟩⟩
  rw [(ho r).1, (ho r).2]

theorem balances_of_all (h : p.All A.Idle) : A.Balances bound p [] := by
  induction p with
  | ret a => rfl
  | throw e => exact Nat.zero_le _
  | op o k ih => exact .idle h.1 (Nat.zero_le _) fun r => ih r (h.2 r)

theorem Balances.bind {f : α → Prog Op Reply ε β} (h : A.Balances bound p held)
    (hf : ∀ a, A.Balances bound (f a) []) : A.Balances bound (p >>= f) held := by
  induction p generalizing held with
  | ret a =>
    cases h
    exact hf a
  | throw e => exact h
  | op o k ih =>
    refine ⟨h.1, fun r => ?_⟩
    obtain ⟨rest, hperm, hrest⟩ := h.2 r
    exact ⟨rest, hperm, ih r hrest⟩

/-- What such a program has been brought so far it has settled, but for what it holds. -/
theorem Balances.reaches (h : A.Balances bound p held) (hr : Prog.Reaches p es q) :
    ∃ rest, rest.length ≤ bound ∧
      (es.flatMap A.gains ++ held).Perm (es.flatMap A.losses ++ rest) := by
  induction hr generalizing held with
  | refl p => exact ⟨held, h.length_le, .refl _⟩
  | @op o k r es q _ ih =>
    obtain ⟨mid, hperm, hmid⟩ := h.2 r
    obtain ⟨rest, hlength, hrest⟩ := ih hmid
    refine ⟨rest, hlength, ?_⟩
    rw [List.flatMap_cons, List.flatMap_cons, List.append_assoc, List.append_assoc]
    calc (A.gains ⟨o, r⟩ ++ (es.flatMap A.gains ++ held)).Perm
          (es.flatMap A.gains ++ (A.gains ⟨o, r⟩ ++ held)) := List.perm_append_comm_assoc ..
      _ |>.Perm (es.flatMap A.gains ++ (A.losses ⟨o, r⟩ ++ mid)) := hperm.append_left _
      _ |>.Perm (A.losses ⟨o, r⟩ ++ (es.flatMap A.gains ++ mid)) := List.perm_append_comm_assoc ..
      _ |>.Perm (A.losses ⟨o, r⟩ ++ (es.flatMap A.losses ++ rest)) := hrest.append_left _

section Threads
variable {σ Γ : Type} {S : System σ Γ Op Reply ε α}
  {guard : σ → List (Thread Γ Op Reply ε α) → Γ → Op → Prop} {P : Pool σ Γ Op Reply ε α}

def noted (f : Event Op Reply → List ρ) (t : Thread Γ Op Reply ε α) : List ρ := t.past.flatMap f

theorem flatMap_noted (f : Event Op Reply → List ρ) (ts : List (Thread Γ Op Reply ε α)) :
    ts.flatMap (noted f) = (ts.flatMap Thread.past).flatMap f :=
  List.flatMap_assoc.symm

theorem flatMap_noted_append (f g : Event Op Reply → List ρ) (ts : List (Thread Γ Op Reply ε α)) :
    (ts.flatMap (noted fun e => f e ++ g e)).Perm
      (ts.flatMap (noted f) ++ ts.flatMap (noted g)) := by
  rw [flatMap_noted, flatMap_noted, flatMap_noted]
  exact (List.flatMap_append_perm ..).symm

/-- The threads taken together hold no more than each of them may. -/
theorem balances_threads {s : σ} {bound : Γ → Nat} (h : Reachable S guard s P)
    (hb : ∀ g, A.Balances (bound g) (S.start g) []) :
    ∃ held, held.length ≤ (P.threads.map fun t => bound t.tag).sum ∧
      (P.threads.flatMap (noted A.gains)).Perm (P.threads.flatMap (noted A.losses) ++ held) := by
  have hthread := h.thread
  generalize P.threads = ts at hthread
  induction ts with
  | nil => exact ⟨[], Nat.zero_le _, .refl []⟩
  | cons t ts ih =>
    obtain ⟨mine, hmine, hperm⟩ := (hb t.tag).reaches (hthread t List.mem_cons_self)
    obtain ⟨others, hothers, hrest⟩ := ih fun u hu => hthread u (List.mem_cons_of_mem _ hu)
    refine ⟨mine ++ others, ?_, ?_⟩
    · rw [List.length_append, List.map_cons, List.sum_cons]
      exact Nat.add_le_add hmine hothers
    · rw [List.append_nil] at hperm
      rw [List.flatMap_cons, List.flatMap_cons, List.append_assoc]
      refine (hperm.append hrest).trans ?_
      rw [List.append_assoc]
      exact (List.perm_append_comm_assoc ..).append_left _

end Threads

end Account

section Hosted
variable {Op₁ Op₂ : Type} {Reply₁ : Op₁ → Type} {Reply₂ : Op₂ → Type} {ε₁ ε₂ α ρ : Type}

/-- What is noted of the events of one kind. -/
def ofLeft (f : Event Op₁ Reply₁ → List ρ) :
    Event (Op₁ ⊕ Op₂) (Replies Reply₁ Reply₂) → List ρ
  | ⟨.inl o, r⟩ => f ⟨o, r⟩
  | ⟨.inr _, _⟩ => []

theorem ofLeft_append (f g : Event Op₁ Reply₁ → List ρ) :
    (ofLeft fun e => f e ++ g e) = fun e : Event (Op₁ ⊕ Op₂) (Replies Reply₁ Reply₂) =>
      ofLeft f e ++ ofLeft g e := by
  funext e
  obtain ⟨o, r⟩ := e
  cases o <;> rfl

def Account.left (A : Account Op₁ Reply₁ ρ) : Account (Op₁ ⊕ Op₂) (Replies Reply₁ Reply₂) ρ where
  gains := ofLeft A.gains
  losses := ofLeft A.losses

variable {A : Account Op₁ Reply₁ ρ} {bound : Nat} {held : List ρ}

theorem left_balances {p : Prog Op₁ Reply₁ ε₁ α} (h : A.Balances bound p held) :
    A.left.Balances bound
      (Hosting.left p : Prog (Op₁ ⊕ Op₂) (Replies Reply₁ Reply₂) (ε₁ ⊕ ε₂) α) held := by
  induction p generalizing held with
  | ret a => exact h
  | throw e => exact h
  | op o k ih =>
    refine ⟨h.1, fun r => ?_⟩
    obtain ⟨rest, hperm, hrest⟩ := h.2 r
    exact ⟨rest, hperm, ih r hrest⟩

theorem right_balances (p : Prog Op₂ Reply₂ ε₂ α) :
    A.left.Balances bound
      (right p : Prog (Op₁ ⊕ Op₂) (Replies Reply₁ Reply₂) (ε₁ ⊕ ε₂) α) [] := by
  induction p with
  | ret a => rfl
  | throw e => exact Nat.zero_le _
  | op o k ih => exact ⟨Nat.zero_le _, fun r => ⟨[], .refl [], ih r⟩⟩

end Hosted

end Ironhide.Lib.Accounts
