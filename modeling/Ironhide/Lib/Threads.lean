import Ironhide.Lib.Program
import Mathlib.Logic.Relation

namespace Ironhide.Lib.Threads
open Program

variable {σ Γ Op : Type} {Reply : Op → Type} {ε α : Type}

/-- A thread: what it was started for, what it has done so far, what is left. -/
structure Thread (Γ Op : Type) (Reply : Op → Type) (ε α : Type) where
  tag : Γ
  past : List (Event Op Reply)
  prog : Prog Op Reply ε α

structure Pool (σ Γ Op : Type) (Reply : Op → Type) (ε α : Type) where
  shared : σ
  threads : List (Thread Γ Op Reply ε α)

/-- Threads over a shared state. `perform` is one atomic operation and may
start threads, `arrive` is the outside starting one, and a `fatal` way of
stopping takes the whole process down. -/
structure System (σ Γ Op : Type) (Reply : Op → Type) (ε α : Type) where
  start : Γ → Prog Op Reply ε α
  perform : σ → Γ → (o : Op) → Reply o → σ → List Γ → Prop
  arrive : σ → σ → Γ → Prop
  fatal : ε → Prop

namespace System

variable (S : System σ Γ Op Reply ε α)

def spawn (g : Γ) : Thread Γ Op Reply ε α := ⟨g, [], S.start g⟩

def Alive (ts : List (Thread Γ Op Reply ε α)) : Prop :=
  ∀ t ∈ ts, ∀ e, t.prog = .throw e → ¬ S.fatal e

/-- One step of any one thread, or an arrival. `guard` restricts the steps that
are considered: it sees the shared state, the other threads, the stepping
thread's tag and its next operation. -/
inductive Step (guard : σ → List (Thread Γ Op Reply ε α) → Γ → Op → Prop) :
    Pool σ Γ Op Reply ε α → Pool σ Γ Op Reply ε α → Prop where
  | run {s s' : σ} {before after : List (Thread Γ Op Reply ε α)} {g : Γ}
      {past : List (Event Op Reply)} {o : Op} {k : Reply o → Prog Op Reply ε α} {r : Reply o}
      {born : List Γ} :
      S.Alive (before ++ ⟨g, past, .op o k⟩ :: after) →
      guard s (before ++ after) g o →
      S.perform s g o r s' born →
      Step guard ⟨s, before ++ ⟨g, past, .op o k⟩ :: after⟩
        ⟨s', before ++ ⟨g, past ++ [⟨o, r⟩], k r⟩ :: after ++ born.map S.spawn⟩
  | arrive {s s' : σ} {ts : List (Thread Γ Op Reply ε α)} {g : Γ} :
      S.Alive ts → S.arrive s s' g → Step guard ⟨s, ts⟩ ⟨s', ts ++ [S.spawn g]⟩

variable {S} {guard : σ → List (Thread Γ Op Reply ε α) → Γ → Op → Prop}
  {P : Pool σ Γ Op Reply ε α}

def Reachable (S : System σ Γ Op Reply ε α)
    (guard : σ → List (Thread Γ Op Reply ε α) → Γ → Op → Prop) (s : σ) :
    Pool σ Γ Op Reply ε α → Prop :=
  Relation.ReflTransGen (Step S guard) ⟨s, []⟩

/-- An invariant: true at the start, kept by every step. -/
theorem Reachable.invariant {s : σ} (h : Reachable S guard s P)
    (I : Pool σ Γ Op Reply ε α → Prop) (h₀ : I ⟨s, []⟩)
    (hs : ∀ P Q, Reachable S guard s P → I P → Step S guard P Q → I Q) : I P := by
  induction h with
  | refl => exact h₀
  | tail hr hst ih => exact hs _ _ hr ih hst

/-- Fewer steps considered, fewer states reached. -/
theorem Reachable.mono {s : σ} {guard' : σ → List (Thread Γ Op Reply ε α) → Γ → Op → Prop}
    (hg : ∀ s ts g o, guard s ts g o → guard' s ts g o) (h : Reachable S guard s P) :
    Reachable S guard' s P := by
  refine Relation.ReflTransGen.mono (fun P Q hst => ?_) _ _ h
  cases hst with
  | run halive hguard hperf => exact .run halive (hg _ _ _ _ hguard) hperf
  | arrive halive harr => exact .arrive halive harr

/-- After a step the threads are the ones that did not move, the one that did,
and the ones it started. -/
theorem mem_moved {before after : List (Thread Γ Op Reply ε α)} {m t : Thread Γ Op Reply ε α}
    {born : List Γ} : t ∈ before ++ m :: after ++ born.map S.spawn ↔
      t ∈ before ++ after ∨ t = m ∨ ∃ g ∈ born, t = S.spawn g := by
  simp only [List.append_assoc, List.cons_append, List.mem_append, List.mem_cons, List.mem_map]
  grind

theorem mem_split {before after : List (Thread Γ Op Reply ε α)} {m t : Thread Γ Op Reply ε α} :
    t ∈ before ++ m :: after ↔ t ∈ before ++ after ∨ t = m := by
  simp only [List.mem_append, List.mem_cons]
  grind

/-- Threads stay, and do not forget what they have done. -/
theorem Step.persists {Q : Pool σ Γ Op Reply ε α} (h : Step S guard P Q)
    {t : Thread Γ Op Reply ε α} (ht : t ∈ P.threads) :
    ∃ t' ∈ Q.threads, t'.tag = t.tag ∧ t.past <+: t'.past := by
  cases h with
  | @run s₁ s₂ before after g past o k r born _ _ _ =>
    rcases mem_split.mp ht with ht | rfl
    · exact ⟨t, mem_moved.mpr (Or.inl ht), rfl, List.prefix_rfl⟩
    · exact ⟨_, mem_moved.mpr (Or.inr (Or.inl rfl)), rfl, List.prefix_append _ _⟩
  | arrive _ _ => exact ⟨t, List.mem_append_left _ ht, rfl, List.prefix_rfl⟩

/-- What some thread has done stays done. -/
theorem Step.done {Q : Pool σ Γ Op Reply ε α} (h : Step S guard P Q) {E : Event Op Reply → Prop}
    (hdone : ∃ t ∈ P.threads, ∃ e ∈ t.past, E e) : ∃ t ∈ Q.threads, ∃ e ∈ t.past, E e := by
  obtain ⟨t, ht, e, he, hE⟩ := hdone
  obtain ⟨t', ht', _, hpre⟩ := h.persists ht
  exact ⟨t', ht', e, hpre.subset he, hE⟩

/-- Every thread runs the program of its tag. -/
theorem Reachable.thread {s : σ} (h : Reachable S guard s P) :
    ∀ t ∈ P.threads, Prog.Reaches (S.start t.tag) t.past t.prog := by
  refine h.invariant (fun P => ∀ t ∈ P.threads, Prog.Reaches (S.start t.tag) t.past t.prog)
    (by simp) ?_
  intro P Q _ ih hst t ht
  cases hst with
  | @run s₁ s₂ before after g past o k r born ha hg hp =>
    rcases mem_moved.mp ht with ht | rfl | ⟨b, _, rfl⟩
    · exact ih t (mem_split.mpr (Or.inl ht))
    · exact (ih ⟨g, past, .op o k⟩ (mem_split.mpr (Or.inr rfl))).snoc r
    · exact .refl _
  | arrive ha hg =>
    rcases List.mem_append.mp ht with ht | ht
    · exact ih t ht
    · rw [List.mem_singleton.mp ht]
      exact .refl _

/-- What holds of every arrival and of what an operation starts holds of every thread. -/
theorem Reachable.tag {s : σ} {A : Γ → Prop} (h : Reachable S guard s P)
    (hp : ∀ s g o r s' born, S.perform s g o r s' born → A g → ∀ b ∈ born, A b)
    (ha : ∀ s s' g, S.arrive s s' g → A g) : ∀ t ∈ P.threads, A t.tag := by
  refine h.invariant (fun P => ∀ t ∈ P.threads, A t.tag) (by simp) ?_
  intro P Q _ ih hst t ht
  cases hst with
  | @run s₁ s₂ before after g past o k r born _ _ hperf =>
    have hg : A g := ih ⟨g, past, .op o k⟩ (mem_split.mpr (Or.inr rfl))
    obtain ht | rfl | ⟨b, hb, rfl⟩ := mem_moved.mp ht
    · exact ih t (mem_split.mpr (Or.inl ht))
    · exact hg
    · exact hp _ _ _ _ _ _ hperf hg b hb
  | arrive _ hg =>
    rcases List.mem_append.mp ht with ht | ht
    · exact ih t ht
    · rw [List.mem_singleton.mp ht]
      exact ha _ _ _ hg

/-- The same, where what an operation starts is known from the program that issues it. -/
theorem Reachable.tagged {s : σ} {A : Γ → Prop} {B : Γ → Op → Prop} (h : Reachable S guard s P)
    (hall : ∀ g, A g → (S.start g).All (B g))
    (hp : ∀ s g o r s' born, S.perform s g o r s' born → A g → B g o → ∀ b ∈ born, A b)
    (ha : ∀ s s' g, S.arrive s s' g → A g) : ∀ t ∈ P.threads, A t.tag := by
  refine h.invariant (fun P => ∀ t ∈ P.threads, A t.tag) (by simp) ?_
  intro P Q hr ih hst t ht
  cases hst with
  | @run s₁ s₂ before after g past o k r born _ _ hperf =>
    have hmem : (⟨g, past, .op o k⟩ : Thread Γ Op Reply ε α) ∈ before ++ ⟨g, past, .op o k⟩ :: after :=
      mem_split.mpr (Or.inr rfl)
    have hg : A g := ih _ hmem
    obtain ht | rfl | ⟨b, hb, rfl⟩ := mem_moved.mp ht
    · exact ih t (mem_split.mpr (Or.inl ht))
    · exact hg
    · exact hp _ _ _ _ _ _ hperf hg ((hr.thread _ hmem).all (hall g hg)).1.1 b hb
  | arrive _ harr =>
    rcases List.mem_append.mp ht with ht | ht
    · exact ih t ht
    · rw [List.mem_singleton.mp ht]
      exact ha _ _ _ harr

/-- What every performed operation satisfies holds of all that the threads have done. -/
theorem Reachable.past {s : σ} {E : Event Op Reply → Prop} (h : Reachable S guard s P)
    (hp : ∀ s g o r s' born, S.perform s g o r s' born → E ⟨o, r⟩) :
    ∀ t ∈ P.threads, ∀ e ∈ t.past, E e := by
  refine h.invariant (fun P => ∀ t ∈ P.threads, ∀ e ∈ t.past, E e) (by simp) ?_
  intro P Q _ ih hst t ht e he
  cases hst with
  | @run s₁ s₂ before after g past o k r born _ _ hperf =>
    obtain ht | rfl | ⟨b, hb, rfl⟩ := mem_moved.mp ht
    · exact ih t (mem_split.mpr (Or.inl ht)) e he
    · rcases List.mem_append.mp he with he | he
      · exact ih ⟨g, past, .op o k⟩ (mem_split.mpr (Or.inr rfl)) e he
      · rw [List.mem_singleton.mp he]
        exact hp _ _ _ _ _ _ hperf
    · cases he
  | arrive _ hg =>
    rcases List.mem_append.mp ht with ht | ht
    · exact ih t ht e he
    · rw [List.mem_singleton.mp ht] at he
      cases he

/-- What an operation leaves true of the shared state, when no step undoes it,
is true of all that the threads have done. -/
theorem Reachable.since {s₀ : σ} {E : σ → Γ → Event Op Reply → Prop} (h : Reachable S guard s₀ P)
    (hp : ∀ s before after g past o k r s' born,
      Reachable S guard s₀ ⟨s, before ++ ⟨g, past, .op o k⟩ :: after⟩ →
      S.perform s g o r s' born → E s' g ⟨o, r⟩ ∧ ∀ g' e, E s g' e → E s' g' e)
    (ha : ∀ s s' g, S.arrive s s' g → ∀ g' e, E s g' e → E s' g' e) :
    ∀ t ∈ P.threads, ∀ e ∈ t.past, E P.shared t.tag e := by
  refine h.invariant (fun P => ∀ t ∈ P.threads, ∀ e ∈ t.past, E P.shared t.tag e) (by simp) ?_
  intro P Q hr ih hst t ht e he
  cases hst with
  | @run s₁ s₂ before after g past o k r born _ _ hperf =>
    obtain ⟨hnew, hkeep⟩ := hp _ _ _ _ _ _ _ _ _ _ hr hperf
    obtain ht | rfl | ⟨b, hb, rfl⟩ := mem_moved.mp ht
    · exact hkeep _ e (ih t (mem_split.mpr (Or.inl ht)) e he)
    · rcases List.mem_append.mp he with he | he
      · exact hkeep _ e (ih ⟨g, past, .op o k⟩ (mem_split.mpr (Or.inr rfl)) e he)
      · rw [List.mem_singleton.mp he]
        exact hnew
    · cases he
  | arrive _ harr =>
    rcases List.mem_append.mp ht with ht | ht
    · exact ha _ _ _ harr _ e (ih t ht e he)
    · rw [List.mem_singleton.mp ht] at he
      cases he

/-- The operation a thread is about to issue is one of those its program can issue. -/
theorem Reachable.next {s₀ s : σ} {before after : List (Thread Γ Op Reply ε α)} {g : Γ}
    {past : List (Event Op Reply)} {o : Op} {k : Reply o → Prog Op Reply ε α} {A : Op → Prop}
    (h : Reachable S guard s₀ ⟨s, before ++ ⟨g, past, .op o k⟩ :: after⟩)
    (hg : (S.start g).All A) : A o :=
  ((h.thread ⟨g, past, .op o k⟩ (mem_split.mpr (Or.inr rfl))).all hg).1.1

/-- Every thread arrived or was started by something another thread has done. -/
theorem Reachable.born {s : σ} {A : Γ → Prop} {B : Event Op Reply → Γ → Prop}
    (h : Reachable S guard s P)
    (hp : ∀ s g o r s' born, S.perform s g o r s' born → ∀ b ∈ born, B ⟨o, r⟩ b)
    (ha : ∀ s s' g, S.arrive s s' g → A g) :
    ∀ t ∈ P.threads, A t.tag ∨ ∃ u ∈ P.threads, ∃ e ∈ u.past, B e t.tag := by
  refine h.invariant
    (fun P => ∀ t ∈ P.threads, A t.tag ∨ ∃ u ∈ P.threads, ∃ e ∈ u.past, B e t.tag) (by simp) ?_
  intro P Q _ ih hst
  have hold (g : Γ) (hg : A g ∨ ∃ u ∈ P.threads, ∃ e ∈ u.past, B e g) :
      A g ∨ ∃ u ∈ Q.threads, ∃ e ∈ u.past, B e g := by
    exact hg.imp_right hst.done
  intro t ht
  cases hst with
  | @run s₁ s₂ before after g past o k r born _ _ hperf =>
    obtain ht | rfl | ⟨b, hb, rfl⟩ := mem_moved.mp ht
    · exact hold _ (ih t (mem_split.mpr (Or.inl ht)))
    · exact hold _ (ih ⟨g, past, .op o k⟩ (mem_split.mpr (Or.inr rfl)))
    · exact Or.inr ⟨_, mem_moved.mpr (Or.inr (Or.inl rfl)), ⟨o, r⟩, by simp,
        hp _ _ _ _ _ _ hperf b hb⟩
  | arrive _ harr =>
    rcases List.mem_append.mp ht with ht | ht
    · exact hold _ (ih t ht)
    · rw [List.mem_singleton.mp ht]
      exact Or.inl (ha _ _ _ harr)

section Exclusive
variable {ρ : Type} (acquired : Event Op Reply → Option ρ)

def owns (t : Thread Γ Op Reply ε α) : List ρ := t.past.filterMap acquired

/-- Operations that only give out what is not in use give nothing to two threads. -/
theorem Reachable.exclusive {s : σ} {used : σ → ρ → Prop} (h : Reachable S guard s P)
    (hp : ∀ s g o r s' born, S.perform s g o r s' born →
      (∀ x, acquired ⟨o, r⟩ = some x → ¬ used s x ∧ used s' x) ∧ ∀ x, used s x → used s' x)
    (ha : ∀ s s' g, S.arrive s s' g → ∀ x, used s x → used s' x) :
    (P.threads.flatMap (owns acquired)).Nodup ∧
      ∀ t ∈ P.threads, ∀ x ∈ owns acquired t, used P.shared x := by
  refine h.invariant (fun P => (P.threads.flatMap (owns acquired)).Nodup ∧
    ∀ t ∈ P.threads, ∀ x ∈ owns acquired t, used P.shared x) (by simp) ?_
  intro P Q _ ih hst
  obtain ⟨hnodup, hused⟩ := ih
  have hspawn (born : List Γ) : (born.map S.spawn).flatMap (owns acquired) = [] := by
    apply List.flatMap_eq_nil_iff.mpr
    intro t ht
    obtain ⟨g, _, rfl⟩ := List.mem_map.mp ht
    rfl
  cases hst with
  | @run s₁ s₂ before after g past o k r born _ _ hperf =>
    obtain ⟨hnew, hkeep⟩ := hp _ _ _ _ _ _ hperf
    have hmoved : owns acquired (⟨g, past ++ [⟨o, r⟩], k r⟩ : Thread Γ Op Reply ε α) =
        owns acquired (⟨g, past, .op o k⟩ : Thread Γ Op Reply ε α) ++
          (acquired ⟨o, r⟩).toList := by
      rw [owns, List.filterMap_append]
      cases hx : acquired ⟨o, r⟩ with
      | none => simp [owns, hx]
      | some x => simp [owns, hx]
    have hall (t : Thread Γ Op Reply ε α)
        (ht : t ∈ before ++ ⟨g, past ++ [⟨o, r⟩], k r⟩ :: after ++ born.map S.spawn) :
        ∀ x ∈ owns acquired t, used s₂ x := by
      intro x hx
      obtain ht | rfl | ⟨b, _, rfl⟩ := mem_moved.mp ht
      · exact hkeep x (hused t (mem_split.mpr (Or.inl ht)) x hx)
      · rw [hmoved] at hx
        rcases List.mem_append.mp hx with hx | hx
        · exact hkeep x (hused ⟨g, past, .op o k⟩ (mem_split.mpr (Or.inr rfl)) x hx)
        · exact (hnew x (Option.mem_toList.mp hx)).2
      · cases hx
    refine ⟨?_, hall⟩
    rw [List.flatMap_append, hspawn, List.append_nil, List.flatMap_append, List.flatMap_cons, hmoved]
    rw [List.flatMap_append, List.flatMap_cons] at hnodup
    cases hx : acquired ⟨o, r⟩ with
    | none => simpa using hnodup
    | some x =>
      have hfree : x ∉ before.flatMap (owns acquired) ++
          (owns acquired (⟨g, past, .op o k⟩ : Thread Γ Op Reply ε α) ++
            after.flatMap (owns acquired)) := by
        intro hmem
        rw [← List.flatMap_cons, ← List.flatMap_append] at hmem
        obtain ⟨t, ht, hx'⟩ := List.mem_flatMap.mp hmem
        exact (hnew x hx).1 (hused t ht x hx')
      have hperm : (before.flatMap (owns acquired) ++
          (owns acquired (⟨g, past, .op o k⟩ : Thread Γ Op Reply ε α) ++ [x] ++
            after.flatMap (owns acquired))).Perm
          (x :: (before.flatMap (owns acquired) ++
            (owns acquired (⟨g, past, .op o k⟩ : Thread Γ Op Reply ε α) ++
              after.flatMap (owns acquired)))) := by
        rw [List.append_assoc, List.singleton_append, ← List.append_assoc, ← List.append_assoc]
        exact List.perm_middle
      exact hperm.nodup_iff.mpr (List.nodup_cons.mpr ⟨hfree, hnodup⟩)
  | @arrive s₁ s₂ ts g _ harr =>
    refine ⟨?_, ?_⟩
    · have hfresh : [S.spawn g].flatMap (owns acquired) = [] := hspawn [g]
      rw [List.flatMap_append, hfresh, List.append_nil]
      exact hnodup
    · intro t ht x hx
      rcases List.mem_append.mp ht with ht | ht
      · exact ha _ _ _ harr x (hused t ht x hx)
      · rw [List.mem_singleton.mp ht] at hx
        cases hx

/-- What one thread has acquired no other has. -/
theorem apart_of_nodup {before after : List (Thread Γ Op Reply ε α)} {t u : Thread Γ Op Reply ε α}
    (h : ((before ++ t :: after).flatMap (owns acquired)).Nodup) (hu : u ∈ before ++ after) {x : ρ}
    (hx : x ∈ owns acquired t) : x ∉ owns acquired u := by
  have hperm : (before ++ t :: after).Perm (t :: (before ++ after)) := List.perm_middle
  rw [(hperm.flatMap_right (owns acquired)).nodup_iff, List.flatMap_cons, List.nodup_append] at h
  intro hxu
  exact h.2.2 x hx x (List.mem_flatMap.mpr ⟨u, hu, hxu⟩) rfl

/-- When every thread uses only what it has acquired itself, and that once,
nothing that is about to be used has been used before. -/
theorem Reachable.unused {s s₁ : σ} {used : σ → ρ → Prop} {can : Event Op Reply → Prop}
    {uses : Op → Option ρ} {before after : List (Thread Γ Op Reply ε α)} {g : Γ}
    {past : List (Event Op Reply)} {o : Op} {k : Reply o → Prog Op Reply ε α} {x : ρ}
    (h : Reachable S guard s ⟨s₁, before ++ ⟨g, past, .op o k⟩ :: after⟩)
    (hp : ∀ s g o r s' born, S.perform s g o r s' born → can ⟨o, r⟩ ∧
      (∀ x, acquired ⟨o, r⟩ = some x → ¬ used s x ∧ used s' x) ∧ ∀ x, used s x → used s' x)
    (ha : ∀ s s' g, S.arrive s s' g → ∀ x, used s x → used s' x)
    (hown : ∀ g, (S.start g).UsesOwn can acquired uses []) (hx : uses o = some x) :
    x ∈ past.filterMap acquired ∧
      ∀ u ∈ before ++ ⟨g, past, .op o k⟩ :: after, ∀ e ∈ u.past, uses e.op ≠ some x := by
  have hnodup := (h.exclusive acquired (fun s g o r s' born hperf => (hp s g o r s' born hperf).2)
    ha).1
  have hreach := h.thread
  have hcan := h.past (E := can) fun s g o r s' born hperf => (hp s g o r s' born hperf).1
  have hmem : (⟨g, past, .op o k⟩ : Thread Γ Op Reply ε α) ∈ before ++ ⟨g, past, .op o k⟩ :: after :=
    mem_split.mpr (Or.inr rfl)
  rcases (hown g).reaches (hreach _ hmem) (hcan _ hmem) with ⟨hnone, hq⟩ | ⟨hq, _⟩
  · have hheld : x ∈ past.filterMap acquired := (hq.1 x hx).1
    refine ⟨hheld, fun u hu e he hux => ?_⟩
    rcases mem_split.mp hu with hother | rfl
    · -- another thread that has used it has acquired it
      rcases (hown u.tag).reaches (hreach u hu) (hcan u hu) with ⟨hnone', _⟩ | ⟨_, hused⟩
      · cases (hnone' e he).symm.trans hux
      · exact apart_of_nodup acquired hnodup hother hheld (hused e he x hux)
    · cases (hnone e he).symm.trans hux
  · cases hq.1.symm.trans hx

end Exclusive

end System

end Ironhide.Lib.Threads
