import Ironhide.Lib.Threads
import Mathlib.Data.List.Induction

namespace Ironhide.Lib.Resources
open Program Threads Threads.System

variable {Op : Type} {Reply : Op → Type} {ρ : Type}

/-- Which resource an event opens, and which one an operation closes. -/
structure Ledger (Op : Type) (Reply : Op → Type) (ρ : Type) where
  opens : Event Op Reply → Option ρ
  closes : Op → Option ρ

namespace Ledger

variable [DecidableEq ρ] (L : Ledger Op Reply ρ)

def update (held : List ρ) (e : Event Op Reply) : List ρ :=
  match L.closes e.op with
  | some x => held.erase x
  | none => (L.opens e).toList ++ held

/-- What is open after an event, if it closes nothing that is not open. -/
def step (held : List ρ) (e : Event Op Reply) : Option (List ρ) :=
  if ∀ x ∈ L.closes e.op, x ∈ held then some (L.update held e) else none

/-- What is open after some events, if every close was of something open. -/
def after (held : List ρ) (es : List (Event Op Reply)) : Option (List ρ) := es.foldlM L.step held

def Quiet (e : Event Op Reply) : Prop := L.opens e = none ∧ L.closes e.op = none

variable {L} {held : List ρ} {e : Event Op Reply} {es : List (Event Op Reply)}

theorem update_open (h : L.closes e.op = none) : L.update held e = (L.opens e).toList ++ held := by
  rw [update, h]

theorem update_close {x : ρ} (h : L.closes e.op = some x) : L.update held e = held.erase x := by
  rw [update, h]

@[simp] theorem after_nil : L.after held [] = some held := rfl

theorem after_cons : L.after held (e :: es) = (L.step held e).bind fun held' => L.after held' es := by
  rw [after, List.foldlM_cons]
  rfl

theorem after_quiet_cons (h : L.Quiet e) : L.after held (e :: es) = L.after held es := by
  obtain ⟨hopens, hcloses⟩ := h
  rw [after_cons, step, update, hopens, hcloses, if_pos (by simp)]
  rfl

theorem after_opens {x : ρ} (hopens : L.opens e = some x) (hcloses : L.closes e.op = none) :
    L.after held (e :: es) = L.after (x :: held) es := by
  rw [after_cons, step, update, hopens, hcloses, if_pos (by simp)]
  rfl

theorem after_closes_mem {x : ρ} (h : L.closes e.op = some x) (hx : x ∈ held) :
    L.after held (e :: es) = L.after (held.erase x) es := by
  simp [after_cons, step, update, h, hx]

/-- Closing what was opened last. -/
theorem after_closes {x : ρ} (h : L.closes e.op = some x) :
    L.after (x :: held) (e :: es) = L.after held es := by
  rw [after_closes_mem h List.mem_cons_self, List.erase_cons_head]

section Leaves
variable {σ ε α : Type} (L) (answer : σ → (o : Op) → Reply o × σ)

structure Leaves (held : List ρ) (p : Prog Op Reply ε α) (s : σ) (held' : List ρ)
    (out : Except ε α) : Prop where
  held : L.after held (p.exec answer s).1 = some held'
  ends : (p.exec answer s).2 = out

variable {L answer} {s : σ} {held' : List ρ} {out : Except ε α} {o : Op}
  {k : Reply o → Prog Op Reply ε α}

theorem Leaves.ret (a : α) : L.Leaves answer held (.ret a : Prog Op Reply ε α) s held (.ok a) :=
  ⟨rfl, rfl⟩

theorem Leaves.throw (e : ε) :
    L.Leaves answer held (.throw e : Prog Op Reply ε α) s held (.error e) :=
  ⟨rfl, rfl⟩

theorem Leaves.quiet (hq : L.Quiet ⟨o, (answer s o).1⟩)
    (h : L.Leaves answer held (k (answer s o).1) (answer s o).2 held' out) :
    L.Leaves answer held (.op o k) s held' out :=
  ⟨(after_quiet_cons hq).trans h.held, h.ends⟩

theorem Leaves.opens {x : ρ} (hopens : L.opens ⟨o, (answer s o).1⟩ = some x)
    (hcloses : L.closes o = none)
    (h : L.Leaves answer (x :: held) (k (answer s o).1) (answer s o).2 held' out) :
    L.Leaves answer held (.op o k) s held' out :=
  ⟨(after_opens hopens hcloses).trans h.held, h.ends⟩

theorem Leaves.closes {x : ρ} (hcloses : L.closes o = some x) (hx : x ∈ held)
    (h : L.Leaves answer (held.erase x) (k (answer s o).1) (answer s o).2 held' out) :
    L.Leaves answer held (.op o k) s held' out := by
  refine ⟨?_, h.ends⟩
  rw [← h.held]
  exact after_closes_mem hcloses hx

end Leaves

section Safe
variable {ε α β : Type}

def Silent (L : Ledger Op Reply ρ) (o : Op) : Prop := L.closes o = none ∧ ∀ r, L.opens ⟨o, r⟩ = none

/-- The program closes only what it holds, and `Q` holds of what it returns with. -/
def Safe (L : Ledger Op Reply ρ) (Q : α → List ρ → Prop) : Prog Op Reply ε α → List ρ → Prop
  | .ret a, held => Q a held
  | .throw _, _ => True
  | .op o k, held =>
    (∀ x ∈ L.closes o, x ∈ held) ∧ ∀ r, L.Safe Q (k r) (L.update held ⟨o, r⟩)

variable {Q : α → List ρ → Prop} {p : Prog Op Reply ε α}

theorem update_silent {o : Op} (h : L.Silent o) (r : Reply o) : L.update held ⟨o, r⟩ = held := by
  rw [update_open h.1, h.2 r]
  rfl

theorem Safe.silent (h : p.All L.Silent) (hQ : ∀ a, Q a held) : L.Safe Q p held := by
  induction p with
  | ret a => exact hQ a
  | throw e => trivial
  | op o k ih =>
    refine ⟨fun x hx => ?_, fun r => ?_⟩
    · rw [h.1.1] at hx
      cases hx
    · rw [update_silent h.1]
      exact ih r (h.2 r)

theorem Safe.bind {R : β → List ρ → Prop} {f : α → Prog Op Reply ε β} (h : L.Safe Q p held)
    (hf : ∀ a held', Q a held' → L.Safe R (f a) held') : L.Safe R (p >>= f) held := by
  induction p generalizing held with
  | ret a => exact hf a held h
  | throw e => trivial
  | op o k ih => exact ⟨h.1, fun r => ih r (h.2 r)⟩

/-- What is left of such a program is safe with what it holds by then. -/
theorem Safe.reaches {q : Prog Op Reply ε α} (h : L.Safe Q p held) (hr : Prog.Reaches p es q) :
    L.Safe Q q (es.foldl L.update held) := by
  induction hr generalizing held with
  | refl p => exact h
  | op hr ih => exact ih (h.2 _)

end Safe

section Pools
variable {σ Γ ε α : Type} {S : System σ Γ Op Reply ε α}
  {guard : σ → List (Thread Γ Op Reply ε α) → Γ → Op → Prop} {P : Pool σ Γ Op Reply ε α}

def kept (L : Ledger Op Reply ρ) (past : List (Event Op Reply)) : List ρ := past.foldl L.update []

def holdings (L : Ledger Op Reply ρ) (ts : List (Thread Γ Op Reply ε α)) : List ρ :=
  ts.flatMap fun t => L.kept t.past

theorem kept_snoc (past : List (Event Op Reply)) :
    L.kept (past ++ [e]) = L.update (L.kept past) e := by
  rw [kept, List.foldl_append]
  rfl

theorem update_append (h : ∀ x ∈ L.closes e.op, x ∈ held) (rest : List ρ) :
    L.update (held ++ rest) e = L.update held e ++ rest := by
  cases hc : L.closes e.op with
  | none => rw [update_open hc, update_open hc, List.append_assoc]
  | some x => rw [update_close hc, update_close hc, List.erase_append_left rest (h x hc)]

theorem mem_update {x : ρ} (h : x ∈ L.update held e) : x ∈ held ∨ L.opens e = some x := by
  cases hc : L.closes e.op with
  | none =>
    rw [update_open hc] at h
    exact (List.mem_append.mp h).symm.imp_right Option.mem_toList.mp
  | some y =>
    rw [update_close hc] at h
    exact .inl (List.mem_of_mem_erase h)

/-- What a thread holds it has opened. -/
theorem mem_kept {x : ρ} {past : List (Event Op Reply)} (h : x ∈ L.kept past) :
    x ∈ past.filterMap L.opens := by
  induction past using List.reverseRecOn with
  | nil => cases h
  | append_singleton past e ih =>
    rw [kept_snoc] at h
    rw [List.filterMap_append, List.mem_append]
    exact (mem_update h).imp ih fun hopens => by simp [hopens]

theorem countP_le_holdings {p : Thread Γ Op Reply ε α → Bool} {ts : List (Thread Γ Op Reply ε α)}
    (h : ∀ t ∈ ts, p t = true → L.kept t.past ≠ []) : ts.countP p ≤ (L.holdings ts).length := by
  induction ts with
  | nil => exact Nat.zero_le _
  | cons t ts ih =>
    have hrest := ih fun u hu => h u (List.mem_cons_of_mem _ hu)
    change _ ≤ (L.kept t.past ++ L.holdings ts).length
    rw [List.countP_cons, List.length_append]
    cases hp : p t with
    | false =>
      simp only [Bool.false_eq_true, ↓reduceIte]
      omega
    | true =>
      have hpos := List.length_pos_iff.mpr (h t List.mem_cons_self hp)
      simp only [↓reduceIte]
      omega

theorem holdings_split {before after : List (Thread Γ Op Reply ε α)} {t : Thread Γ Op Reply ε α} :
    (L.holdings (before ++ t :: after)).Perm (L.kept t.past ++ L.holdings (before ++ after)) :=
  List.perm_middle.flatMap_right _

theorem holdings_moved {before after : List (Thread Γ Op Reply ε α)} {t : Thread Γ Op Reply ε α}
    {born : List Γ} : (L.holdings (before ++ t :: after ++ born.map S.spawn)).Perm
      (L.kept t.past ++ L.holdings (before ++ after)) := by
  have hborn : L.holdings (born.map S.spawn) = [] := by
    refine List.flatMap_eq_nil_iff.mpr fun t ht => ?_
    obtain ⟨g, _, rfl⟩ := List.mem_map.mp ht
    rfl
  rw [holdings, List.flatMap_append]
  change (L.holdings _ ++ L.holdings _).Perm _
  rw [hborn, List.append_nil]
  exact holdings_split

/-- Threads that each close only what they hold are, taken together, one that does. -/
theorem holdings_reachable {s : σ} {A : Op → Prop} {Q : Γ → α → List ρ → Prop}
    {J : σ → List ρ → Prop} (h : Reachable S guard s P) (hall : ∀ g, (S.start g).All A)
    (hsafe : ∀ g, L.Safe (Q g) (S.start g) [])
    (hperm : ∀ s held held', held.Perm held' → J s held → J s held') (h₀ : J s [])
    (hp : ∀ s g o r s' born held, S.perform s g o r s' born → A o → (∀ x ∈ L.closes o, x ∈ held) →
      J s held → J s' (L.update held ⟨o, r⟩))
    (ha : ∀ s s' g held, S.arrive s s' g → J s held → J s' held) :
    J P.shared (L.holdings P.threads) := by
  refine h.invariant (fun P => J P.shared (L.holdings P.threads)) h₀ ?_
  intro P Q hr ih hst
  cases hst with
  | @run s s' before after g past o k r born _ _ hperf =>
    have hclose : ∀ x ∈ L.closes o, x ∈ L.kept past :=
      ((hsafe g).reaches (hr.thread ⟨g, past, .op o k⟩ (mem_split.mpr (Or.inr rfl)))).1
    refine hperm _ _ _ holdings_moved.symm ?_
    rw [kept_snoc, ← update_append (e := ⟨o, r⟩) hclose]
    exact hp _ _ _ _ _ _ _ hperf (hr.next (hall g))
      (fun x hx => List.mem_append_left _ (hclose x hx)) (hperm _ _ _ holdings_split ih)
  | @arrive s s' ts g _ harr =>
    have hsame : (L.holdings (ts ++ [S.spawn g])).Perm (L.holdings ts) := by
      simp [holdings, spawn, kept]
    exact hperm _ _ _ hsame.symm (ha _ _ _ _ harr ih)

end Pools

end Ledger

end Ironhide.Lib.Resources
