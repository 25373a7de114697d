import Mathlib.Data.List.Basic

namespace Ironhide.Lib.Program

/-- A program that issues one operation at a time and goes on with the reply.
`throw` is every way of ending other than returning. -/
inductive Prog (Op : Type) (Reply : Op → Type) (ε α : Type) where
  | ret (a : α)
  | throw (e : ε)
  | op (o : Op) (k : Reply o → Prog Op Reply ε α)

structure Event (Op : Type) (Reply : Op → Type) where
  op : Op
  reply : Reply op

variable {Op : Type} {Reply : Op → Type} {ε α β : Type}

def did (f : Op → Bool) (es : List (Event Op Reply)) : Bool := es.any fun e => f e.op

@[simp] theorem did_nil (f : Op → Bool) : did f ([] : List (Event Op Reply)) = false := rfl

@[simp] theorem did_cons (f : Op → Bool) (e : Event Op Reply) (es : List (Event Op Reply)) :
    did f (e :: es) = (f e.op || did f es) := rfl

@[simp] theorem did_append (f : Op → Bool) (es es' : List (Event Op Reply)) :
    did f (es ++ es') = (did f es || did f es') := List.any_append

namespace Prog

def bind : Prog Op Reply ε α → (α → Prog Op Reply ε β) → Prog Op Reply ε β
  | ret a, f => f a
  | throw e, _ => throw e
  | op o k, f => op o (fun r => (k r).bind f)

instance : Monad (Prog Op Reply ε) where
  pure := ret
  bind := bind

def perform (o : Op) : Prog Op Reply ε (Reply o) := op o ret

/-- Run `h` where the program would have stopped. -/
def rescue : Prog Op Reply ε α → (ε → Prog Op Reply ε α) → Prog Op Reply ε α
  | ret a, _ => ret a
  | throw e, h => h e
  | op o k, h => op o (fun r => (k r).rescue h)

@[simp] theorem pure_eq (a : α) : (pure a : Prog Op Reply ε α) = ret a := rfl

@[simp] theorem ret_bind (a : α) (f : α → Prog Op Reply ε β) : (ret a >>= f) = f a := rfl

@[simp] theorem throw_bind (e : ε) (f : α → Prog Op Reply ε β) :
    ((throw e : Prog Op Reply ε α) >>= f) = throw e := rfl

@[simp] theorem op_bind (o : Op) (k : Reply o → Prog Op Reply ε α) (f : α → Prog Op Reply ε β) :
    (op o k >>= f) = op o (fun r => k r >>= f) := rfl

@[simp] theorem perform_bind (o : Op) (f : Reply o → Prog Op Reply ε β) :
    (perform o >>= f) = op o f := rfl

theorem bind_assoc {γ : Type} (p : Prog Op Reply ε α) (f : α → Prog Op Reply ε β)
    (g : β → Prog Op Reply ε γ) : ((p >>= f) >>= g) = (p >>= fun a => f a >>= g) := by
  induction p with
  | ret a => rfl
  | throw e => rfl
  | op o k ih => exact congrArg (Prog.op o) (funext fun r => ih r)

@[simp] theorem rescue_ret (a : α) (h : ε → Prog Op Reply ε α) : (ret a).rescue h = ret a := rfl

@[simp] theorem rescue_throw (e : ε) (h : ε → Prog Op Reply ε α) :
    (throw e : Prog Op Reply ε α).rescue h = h e := rfl

@[simp] theorem rescue_op (o : Op) (k : Reply o → Prog Op Reply ε α) (h : ε → Prog Op Reply ε α) :
    (op o k).rescue h = op o (fun r => (k r).rescue h) := rfl

def All (P : Op → Prop) : Prog Op Reply ε α → Prop
  | ret _ => True
  | throw _ => True
  | op o k => P o ∧ ∀ r, (k r).All P

@[simp] theorem all_ret (P : Op → Prop) (a : α) : (ret a : Prog Op Reply ε α).All P := trivial

@[simp] theorem all_throw (P : Op → Prop) (e : ε) : (throw e : Prog Op Reply ε α).All P := trivial

@[simp] theorem all_op (P : Op → Prop) (o : Op) (k : Reply o → Prog Op Reply ε α) :
    (op o k).All P ↔ P o ∧ ∀ r, (k r).All P := Iff.rfl

theorem All.mono {P Q : Op → Prop} (hPQ : ∀ o, P o → Q o) {p : Prog Op Reply ε α}
    (h : p.All P) : p.All Q := by
  induction p with
  | ret a => trivial
  | throw e => trivial
  | op o k ih => exact ⟨hPQ o h.1, fun r => ih r (h.2 r)⟩

theorem all_true (p : Prog Op Reply ε α) : p.All fun _ => True := by
  induction p with
  | ret a => trivial
  | throw e => trivial
  | op o k ih => exact ⟨trivial, ih⟩

theorem All.bind {P : Op → Prop} {p : Prog Op Reply ε α} {f : α → Prog Op Reply ε β}
    (h : p.All P) (hf : ∀ a, (f a).All P) : (p >>= f).All P := by
  induction p with
  | ret a => exact hf a
  | throw e => trivial
  | op o k ih => exact ⟨h.1, fun r => ih r (h.2 r)⟩

theorem All.rescue {P : Op → Prop} {p : Prog Op Reply ε α} {f : ε → Prog Op Reply ε α}
    (h : p.All P) (hf : ∀ e, (f e).All P) : (p.rescue f).All P := by
  induction p with
  | ret a => trivial
  | throw e => exact hf e
  | op o k ih => exact ⟨h.1, fun r => ih r (h.2 r)⟩

/-- After an operation that `Q` marks nothing is left to do. -/
def Last (Q : Op → Prop) : Prog Op Reply ε α → Prop
  | ret _ => True
  | throw _ => True
  | op o k => (Q o → ∀ r, ∃ a, k r = ret a) ∧ ∀ r, (k r).Last Q

theorem All.last {Q : Op → Prop} {p : Prog Op Reply ε α} (h : p.All fun o => ¬ Q o) : p.Last Q := by
  induction p with
  | ret a => trivial
  | throw e => trivial
  | op o k ih => exact ⟨fun hq => absurd hq h.1, fun r => ih r (h.2 r)⟩

theorem Last.bind {Q : Op → Prop} {p : Prog Op Reply ε α} {f : α → Prog Op Reply ε β}
    (h : p.All fun o => ¬ Q o) (hf : ∀ a, (f a).Last Q) : (p >>= f).Last Q := by
  induction p with
  | ret a => exact hf a
  | throw e => trivial
  | op o k ih => exact ⟨fun hq => absurd hq h.1, fun r => ih r (h.2 r)⟩

/-- Complete runs: the events in order and how the program ended. -/
inductive Runs : Prog Op Reply ε α → List (Event Op Reply) → Except ε α → Prop where
  | ret (a : α) : Runs (ret a) [] (.ok a)
  | throw (e : ε) : Runs (throw e) [] (.error e)
  | op {o : Op} {k : Reply o → Prog Op Reply ε α} {r : Reply o} {es : List (Event Op Reply)}
      {out : Except ε α} (h : Runs (k r) es out) : Runs (op o k) (⟨o, r⟩ :: es) out

variable {es : List (Event Op Reply)}

@[simp] theorem runs_ret {a : α} {out : Except ε α} :
    Runs (Prog.ret a : Prog Op Reply ε α) es out ↔ es = [] ∧ out = .ok a := by
  constructor
  · intro h
    cases h
    exact ⟨rfl, rfl⟩
  · intro hparts
    obtain ⟨rfl, rfl⟩ := hparts
    exact .ret a

@[simp] theorem runs_throw {e : ε} {out : Except ε α} :
    Runs (Prog.throw e : Prog Op Reply ε α) es out ↔ es = [] ∧ out = .error e := by
  constructor
  · intro h
    cases h
    exact ⟨rfl, rfl⟩
  · intro hparts
    obtain ⟨rfl, rfl⟩ := hparts
    exact .throw e

@[simp] theorem runs_op {o : Op} {k : Reply o → Prog Op Reply ε α} {out : Except ε α} :
    Runs (Prog.op o k) es out ↔ ∃ r es', es = ⟨o, r⟩ :: es' ∧ Runs (k r) es' out := by
  constructor
  · intro h
    cases h with
    | op h => exact ⟨_, _, rfl, h⟩
  · intro hparts
    obtain ⟨r, es', rfl, h⟩ := hparts
    exact .op h

/-- A run of a sequence stops in its first part or runs through both. -/
theorem runs_bind {p : Prog Op Reply ε α} {f : α → Prog Op Reply ε β} {out : Except ε β} :
    Runs (p >>= f) es out ↔
      (∃ e, Runs p es (.error e) ∧ out = .error e) ∨
      ∃ a es₁ es₂, es = es₁ ++ es₂ ∧ Runs p es₁ (.ok a) ∧ Runs (f a) es₂ out := by
  induction p generalizing es with
  | ret a => simp
  | throw e => simp
  | op o k ih =>
    simp only [op_bind, runs_op, ih]
    constructor
    · intro hparts
      obtain ⟨r, es', rfl, ⟨e, h, rfl⟩ | ⟨a, es₁, es₂, rfl, h₁, h₂⟩⟩ := hparts
      · exact .inl ⟨e, ⟨r, es', rfl, h⟩, rfl⟩
      · exact .inr ⟨a, ⟨o, r⟩ :: es₁, es₂, rfl, ⟨r, es₁, rfl, h₁⟩, h₂⟩
    · intro hparts
      obtain ⟨e, ⟨r, es', rfl, h⟩, rfl⟩ | ⟨a, _, es₂, rfl, ⟨r, es₁, rfl, h₁⟩, h₂⟩ := hparts
      · exact ⟨r, es', rfl, .inl ⟨e, h, rfl⟩⟩
      · exact ⟨r, es₁ ++ es₂, rfl, .inr ⟨a, es₁, es₂, rfl, h₁, h₂⟩⟩

theorem runs_rescue {p : Prog Op Reply ε α} {h : ε → Prog Op Reply ε α} {out : Except ε α} :
    Runs (p.rescue h) es out ↔
      (∃ a, Runs p es (.ok a) ∧ out = .ok a) ∨
      ∃ e es₁ es₂, es = es₁ ++ es₂ ∧ Runs p es₁ (.error e) ∧ Runs (h e) es₂ out := by
  induction p generalizing es with
  | ret a => simp
  | throw e => simp
  | op o k ih =>
    simp only [rescue_op, runs_op, ih]
    constructor
    · intro hparts
      obtain ⟨r, es', rfl, ⟨a, h, rfl⟩ | ⟨e, es₁, es₂, rfl, h₁, h₂⟩⟩ := hparts
      · exact .inl ⟨a, ⟨r, es', rfl, h⟩, rfl⟩
      · exact .inr ⟨e, ⟨o, r⟩ :: es₁, es₂, rfl, ⟨r, es₁, rfl, h₁⟩, h₂⟩
    · intro hparts
      obtain ⟨a, ⟨r, es', rfl, h⟩, rfl⟩ | ⟨e, _, es₂, rfl, ⟨r, es₁, rfl, h₁⟩, h₂⟩ := hparts
      · exact ⟨r, es', rfl, .inl ⟨a, h, rfl⟩⟩
      · exact ⟨r, es₁ ++ es₂, rfl, .inr ⟨e, es₁, es₂, rfl, h₁, h₂⟩⟩

/-- A run only issues operations the program can issue. -/
theorem Runs.all {P : Op → Prop} {p : Prog Op Reply ε α} {out : Except ε α}
    (h : Runs p es out) (hp : p.All P) : ∀ e ∈ es, P e.op := by
  induction h with
  | ret a => simp
  | throw e => simp
  | op _ ih =>
    intro e he
    rcases List.mem_cons.mp he with rfl | he
    · exact hp.1
    · exact ih (hp.2 _) e he

/-- The second part only has to be looked at for what the first can give. -/
theorem All.bind_runs {P : Op → Prop} {p : Prog Op Reply ε α} {f : α → Prog Op Reply ε β}
    (h : p.All P) (hf : ∀ a es, Runs p es (.ok a) → (f a).All P) : (p >>= f).All P := by
  induction p with
  | ret a => exact hf a [] (.ret a)
  | throw e => trivial
  | op o k ih => exact ⟨h.1, fun r => ih r (h.2 r) fun a es hr => hf a (⟨o, r⟩ :: es) (.op hr)⟩

/-- An operation of a run got some reply. -/
theorem exists_reply {o : Op} {es : List (Event Op Reply)} (h : ∃ e ∈ es, e.op = o) :
    ∃ r, ⟨o, r⟩ ∈ es := by
  obtain ⟨e, he, rfl⟩ := h
  exact ⟨e.reply, he⟩

inductive Reaches : Prog Op Reply ε α → List (Event Op Reply) → Prog Op Reply ε α → Prop where
  | refl (p : Prog Op Reply ε α) : Reaches p [] p
  | op {o : Op} {k : Reply o → Prog Op Reply ε α} {r : Reply o} {es : List (Event Op Reply)}
      {q : Prog Op Reply ε α} (h : Reaches (k r) es q) : Reaches (op o k) (⟨o, r⟩ :: es) q

@[simp] theorem reaches_ret {a : α} {q : Prog Op Reply ε α} :
    Reaches (Prog.ret a) es q ↔ es = [] ∧ q = Prog.ret a := by
  constructor
  · intro h
    cases h
    exact ⟨rfl, rfl⟩
  · intro hparts
    obtain ⟨rfl, rfl⟩ := hparts
    exact .refl _

@[simp] theorem reaches_throw {e : ε} {q : Prog Op Reply ε α} :
    Reaches (Prog.throw e) es q ↔ es = [] ∧ q = Prog.throw e := by
  constructor
  · intro h
    cases h
    exact ⟨rfl, rfl⟩
  · intro hparts
    obtain ⟨rfl, rfl⟩ := hparts
    exact .refl _

@[simp] theorem reaches_op {o : Op} {k : Reply o → Prog Op Reply ε α} {q : Prog Op Reply ε α} :
    Reaches (Prog.op o k) es q ↔
      (es = [] ∧ q = Prog.op o k) ∨ ∃ r es', es = ⟨o, r⟩ :: es' ∧ Reaches (k r) es' q := by
  constructor
  · intro h
    cases h with
    | refl => exact Or.inl ⟨rfl, rfl⟩
    | op h => exact Or.inr ⟨_, _, rfl, h⟩
  · intro hparts
    obtain ⟨rfl, rfl⟩ | ⟨r, es', rfl, h⟩ := hparts
    · exact .refl _
    · exact .op h

theorem Reaches.snoc {p : Prog Op Reply ε α} {o : Op} {k : Reply o → Prog Op Reply ε α}
    (h : Reaches p es (Prog.op o k)) (r : Reply o) : Reaches p (es ++ [⟨o, r⟩]) (k r) := by
  generalize hq : Prog.op o k = q at h
  induction h with
  | refl p =>
    subst hq
    exact .op (.refl _)
  | op _ ih => exact .op (ih hq)

theorem Reaches.all {P : Op → Prop} {p q : Prog Op Reply ε α} (h : Reaches p es q)
    (hp : p.All P) : q.All P ∧ ∀ e ∈ es, P e.op := by
  induction h with
  | refl p => exact ⟨hp, by simp⟩
  | op _ ih =>
    obtain ⟨hq, hes⟩ := ih (hp.2 _)
    refine ⟨hq, fun e he => ?_⟩
    rcases List.mem_cons.mp he with rfl | he
    · exact hp.1
    · exact hes e he

theorem Reaches.last {Q : Op → Prop} {p q : Prog Op Reply ε α} (h : Reaches p es q)
    (hp : p.Last Q) : q.Last Q := by
  induction h with
  | refl p => exact hp
  | op _ ih => exact ih (hp.2 _)

/-- A run of what is left completes a run. -/
theorem Reaches.runs {p q : Prog Op Reply ε α} {es' : List (Event Op Reply)} {out : Except ε α}
    (h : Reaches p es q) (hq : Runs q es' out) : Runs p (es ++ es') out := by
  induction h with
  | refl p => exact hq
  | op _ ih => exact .op (ih hq)

/-- What is left of a sequence is left of its first part, or the first part is over. -/
theorem reaches_bind {p : Prog Op Reply ε α} {f : α → Prog Op Reply ε β} {q : Prog Op Reply ε β} :
    Reaches (p >>= f) es q ↔
      (∃ p', Reaches p es p' ∧ q = (p' >>= f)) ∨
      ∃ a es₁ es₂, es = es₁ ++ es₂ ∧ Runs p es₁ (.ok a) ∧ Reaches (f a) es₂ q := by
  induction p generalizing es with
  | ret a =>
    simp only [ret_bind, reaches_ret, runs_ret]
    constructor
    · intro h
      exact .inr ⟨a, [], es, rfl, ⟨rfl, rfl⟩, h⟩
    · intro hparts
      obtain ⟨_, ⟨rfl, rfl⟩, rfl⟩ | ⟨_, _, es₂, rfl, ⟨rfl, hout⟩, h⟩ := hparts
      · exact .refl _
      · cases hout
        exact h
  | throw e => simp
  | op o k ih =>
    simp only [op_bind, reaches_op, runs_op, ih]
    constructor
    · intro hparts
      obtain ⟨rfl, rfl⟩ | ⟨r, es', rfl, ⟨p', h, rfl⟩ | ⟨a, es₁, es₂, rfl, h₁, h₂⟩⟩ := hparts
      · exact .inl ⟨op o k, .inl ⟨rfl, rfl⟩, rfl⟩
      · exact .inl ⟨p', .inr ⟨r, es', rfl, h⟩, rfl⟩
      · exact .inr ⟨a, ⟨o, r⟩ :: es₁, es₂, rfl, ⟨r, es₁, rfl, h₁⟩, h₂⟩
    · intro hparts
      obtain ⟨p', ⟨rfl, rfl⟩ | ⟨r, es', rfl, h⟩, rfl⟩ | ⟨a, _, es₂, rfl, ⟨r, es₁, rfl, h₁⟩, h₂⟩ :=
        hparts
      · exact .inl ⟨rfl, rfl⟩
      · exact .inr ⟨r, es', rfl, .inl ⟨p', h, rfl⟩⟩
      · exact .inr ⟨r, es₁ ++ es₂, rfl, .inr ⟨a, es₁, es₂, rfl, h₁, h₂⟩⟩

/-- A reply of the kind `F` makes the program stop at once in a way `E`, and
nothing else makes it stop that way. -/
def Raises (F : Event Op Reply → Prop) (E : ε → Prop) : Prog Op Reply ε α → Prop
  | ret _ => True
  | throw e => ¬ E e
  | op o k => ∀ r, (F ⟨o, r⟩ ∧ ∃ e, k r = throw e ∧ E e) ∨ (¬ F ⟨o, r⟩ ∧ (k r).Raises F E)

section Raises
variable {F : Event Op Reply → Prop} {E : ε → Prop}

theorem Raises.bind {p : Prog Op Reply ε α} {f : α → Prog Op Reply ε β} (h : p.Raises F E)
    (hf : ∀ a, (f a).Raises F E) : (p >>= f).Raises F E := by
  induction p with
  | ret a => exact hf a
  | throw e => exact h
  | op o k ih =>
    intro r
    rcases h r with ⟨hF, e, hk, he⟩ | ⟨hF, hk⟩
    · refine .inl ⟨hF, e, ?_, he⟩
      change (k r >>= f) = throw e
      rw [hk]
      rfl
    · exact .inr ⟨hF, ih r hk⟩

/-- What is rescued may stop in any way, when it does not get such a reply itself. -/
theorem Raises.rescue {p : Prog Op Reply ε α} {f : ε → Prog Op Reply ε α}
    (h : p.All fun o => ∀ r, ¬ F ⟨o, r⟩) (hf : ∀ e, (f e).Raises F E) :
    (p.rescue f).Raises F E := by
  induction p with
  | ret a => trivial
  | throw e => exact hf e
  | op o k ih => exact fun r => .inr ⟨h.1 r, ih r (h.2 r)⟩

/-- A run stops in a way `E` exactly when it gets a reply of the kind `F`. -/
theorem Runs.raises {p : Prog Op Reply ε α} {out : Except ε α} (h : Runs p es out)
    (hp : p.Raises F E) : (∃ e, out = .error e ∧ E e) ↔ ∃ ev ∈ es, F ev := by
  induction h with
  | ret a => simp
  | throw e =>
    constructor
    · intro hout
      obtain ⟨_, heq, he⟩ := hout
      cases heq
      exact absurd he hp
    · intro hev
      obtain ⟨_, hmem, _⟩ := hev
      cases hmem
  | @op o k r es out h ih =>
    rcases hp r with ⟨hF, e, hk, he⟩ | ⟨hF, hk⟩
    · rw [hk] at h
      obtain ⟨rfl, rfl⟩ := runs_throw.mp h
      exact ⟨fun _ => ⟨_, List.mem_cons_self, hF⟩, fun _ => ⟨e, rfl, he⟩⟩
    · rw [ih hk]
      constructor
      · intro hev
        obtain ⟨ev, hmem, hev⟩ := hev
        exact ⟨ev, List.mem_cons_of_mem _ hmem, hev⟩
      · intro hev
        obtain ⟨ev, hmem, hev⟩ := hev
        rcases List.mem_cons.mp hmem with rfl | hmem
        · exact absurd hev hF
        · exact ⟨ev, hmem, hev⟩

end Raises

section UsesOwn
variable {ρ : Type} (can : Event Op Reply → Prop) (acquired : Event Op Reply → Option ρ)
  (uses : Op → Option ρ)

/-- The program uses one resource at most, once, and one that it has acquired
itself, as long as the replies are such that `can` holds. -/
def UsesOwn : Prog Op Reply ε α → List ρ → Prop
  | ret _, _ => True
  | throw _, _ => True
  | op o k, held =>
    (∀ x, uses o = some x → x ∈ held ∧ ∀ r, can ⟨o, r⟩ → (k r).All fun o => uses o = none) ∧
    (uses o = none → ∀ r, can ⟨o, r⟩ → (k r).UsesOwn (held ++ (acquired ⟨o, r⟩).toList))

variable {can acquired uses} {held : List ρ}

theorem All.usesOwn {p : Prog Op Reply ε α} (h : p.All fun o => uses o = none) :
    p.UsesOwn can acquired uses held := by
  induction p generalizing held with
  | ret a => trivial
  | throw e => trivial
  | op o k ih =>
    refine ⟨fun x hx => ?_, fun _ r _ => ih r (h.2 r)⟩
    rw [h.1] at hx
    cases hx

/-- A first part that only acquires, then one that uses. -/
theorem UsesOwn.bind {p : Prog Op Reply ε α} {f : α → Prog Op Reply ε β}
    (h : p.All fun o => uses o = none)
    (hf : ∀ a es, Runs p es (.ok a) → (∀ e ∈ es, can e) →
      (f a).UsesOwn can acquired uses (held ++ es.filterMap acquired)) :
    (p >>= f).UsesOwn can acquired uses held := by
  induction p generalizing held with
  | ret a => simpa using hf a [] (.ret a) (by simp)
  | throw e => trivial
  | op o k ih =>
    refine ⟨fun x hx => ?_, fun _ r hr => ih r (h.2 r) fun a es hrun hcan => ?_⟩
    · rw [h.1] at hx
      cases hx
    · have hrest := hf a (⟨o, r⟩ :: es) (.op hrun) (by simpa using ⟨hr, hcan⟩)
      rw [List.append_assoc]
      cases hacq : acquired ⟨o, r⟩ with
      | none => simpa [hacq] using hrest
      | some x => simpa [hacq] using hrest

/-- What is left of such a program has not used anything yet, or will not any
more; what it has used it had acquired. -/
theorem UsesOwn.reaches {p q : Prog Op Reply ε α} (h : p.UsesOwn can acquired uses held)
    (hr : Reaches p es q) (hcan : ∀ e ∈ es, can e) :
    ((∀ e ∈ es, uses e.op = none) ∧ q.UsesOwn can acquired uses (held ++ es.filterMap acquired)) ∨
    ((q.All fun o => uses o = none) ∧
      ∀ e ∈ es, ∀ x, uses e.op = some x → x ∈ held ++ es.filterMap acquired) := by
  induction hr generalizing held with
  | refl p => exact .inl ⟨by simp, by simpa using h⟩
  | @op o k r es q hr ih =>
    have hr₀ : can ⟨o, r⟩ := hcan _ List.mem_cons_self
    have hes : ∀ e ∈ es, can e := fun e he => hcan e (List.mem_cons_of_mem _ he)
    have hheld : held ++ (⟨o, r⟩ :: es : List (Event Op Reply)).filterMap acquired =
        held ++ (acquired ⟨o, r⟩).toList ++ es.filterMap acquired := by
      rw [List.append_assoc]
      cases hacq : acquired ⟨o, r⟩ with
      | none => simp [hacq]
      | some x => simp [hacq]
    rw [hheld]
    cases hu : uses o with
    | none =>
      rcases ih (h.2 hu r hr₀) hes with ⟨hnone, hq⟩ | ⟨hq, hused⟩
      · refine .inl ⟨fun e he => ?_, hq⟩
        rcases List.mem_cons.mp he with rfl | he
        · exact hu
        · exact hnone e he
      · refine .inr ⟨hq, fun e he x hx => ?_⟩
        rcases List.mem_cons.mp he with rfl | he
        · cases hu.symm.trans hx
        · exact hused e he x hx
    | some x =>
      obtain ⟨hx, hk⟩ := h.1 x hu
      obtain ⟨hq, hnone⟩ := hr.all (hk r hr₀)
      refine .inr ⟨hq, fun e he y hy => ?_⟩
      rcases List.mem_cons.mp he with rfl | he
      · cases hu.symm.trans hy
        exact List.mem_append_left _ (List.mem_append_left _ hx)
      · cases (hnone e he).symm.trans hy

end UsesOwn

section AllPast
variable {R : List (Event Op Reply) → Op → Prop} {past : List (Event Op Reply)}

/-- Every operation the program can issue, under any replies, satisfies `R`
together with the events up to it. -/
def AllPast (R : List (Event Op Reply) → Op → Prop) :
    Prog Op Reply ε α → List (Event Op Reply) → Prop
  | ret _, _ => True
  | throw _, _ => True
  | op o k, past => R past o ∧ ∀ r, (k r).AllPast R (past ++ [⟨o, r⟩])

theorem All.allPast {P : Op → Prop} (hPR : ∀ past o, P o → R past o) {p : Prog Op Reply ε α}
    (h : p.All P) : p.AllPast R past := by
  induction p generalizing past with
  | ret a => trivial
  | throw e => trivial
  | op o k ih => exact ⟨hPR past o h.1, fun r => ih r (h.2 r)⟩

theorem AllPast.bind {p : Prog Op Reply ε α} {f : α → Prog Op Reply ε β} (h : p.AllPast R past)
    (hf : ∀ a es, Runs p es (.ok a) → (f a).AllPast R (past ++ es)) :
    (p >>= f).AllPast R past := by
  induction p generalizing past with
  | ret a => simpa using hf a [] (.ret a)
  | throw e => trivial
  | op o k ih =>
    refine ⟨h.1, fun r => ih r (h.2 r) fun a es hrun => ?_⟩
    have hrest := hf a (⟨o, r⟩ :: es) (.op hrun)
    rwa [← List.append_cons]

theorem AllPast.rescue {p : Prog Op Reply ε α} {f : ε → Prog Op Reply ε α} (h : p.AllPast R past)
    (hf : ∀ e es, Runs p es (.error e) → (f e).AllPast R (past ++ es)) :
    (p.rescue f).AllPast R past := by
  induction p generalizing past with
  | ret a => trivial
  | throw e => simpa using hf e [] (.throw e)
  | op o k ih =>
    refine ⟨h.1, fun r => ih r (h.2 r) fun e es hrun => ?_⟩
    have hrest := hf e (⟨o, r⟩ :: es) (.op hrun)
    rwa [← List.append_cons]

/-- An operation of a run satisfies the rule with what came before it. -/
theorem Runs.allPast {p : Prog Op Reply ε α} {out : Except ε α} (h : Runs p es out)
    (hp : p.AllPast R past) {before after : List (Event Op Reply)} {e : Event Op Reply}
    (hes : es = before ++ e :: after) : R (past ++ before) e.op := by
  induction h generalizing past before with
  | ret a => simp at hes
  | throw e => simp at hes
  | @op o k r es out _ ih =>
    cases before with
    | nil =>
      obtain ⟨rfl, _⟩ := List.cons.inj hes
      rw [List.append_nil]
      exact hp.1
    | cons e' before =>
      obtain ⟨rfl, htail⟩ := List.cons.inj hes
      have hrest := ih (hp.2 r) htail
      rwa [← List.append_cons] at hrest

/-- The same of what has been done so far. -/
theorem Reaches.allPast {p q : Prog Op Reply ε α} (h : Reaches p es q) (hp : p.AllPast R past)
    {before after : List (Event Op Reply)} {e : Event Op Reply} (hes : es = before ++ e :: after) :
    R (past ++ before) e.op := by
  induction h generalizing past before with
  | refl p => simp at hes
  | @op o k r es q _ ih =>
    cases before with
    | nil =>
      obtain ⟨rfl, _⟩ := List.cons.inj hes
      rw [List.append_nil]
      exact hp.1
    | cons e' before =>
      obtain ⟨rfl, htail⟩ := List.cons.inj hes
      have hrest := ih (hp.2 r) htail
      rwa [← List.append_cons] at hrest

end AllPast

/-- The run of a program alone against a world that answers every operation. -/
def exec {σ : Type} (answer : σ → (o : Op) → Reply o × σ) :
    Prog Op Reply ε α → σ → List (Event Op Reply) × Except ε α
  | .ret a, _ => ([], .ok a)
  | .throw e, _ => ([], .error e)
  | .op o k, s =>
    let rest := (k (answer s o).1).exec answer (answer s o).2
    (⟨o, (answer s o).1⟩ :: rest.1, rest.2)

section Exec
variable {σ : Type} (answer : σ → (o : Op) → Reply o × σ)

theorem runs_exec (p : Prog Op Reply ε α) (s : σ) :
    Runs p (p.exec answer s).1 (p.exec answer s).2 := by
  induction p generalizing s with
  | ret a => exact .ret a
  | throw e => exact .throw e
  | op o k ih => exact .op (ih _ _)

/-- What the world's answers always satisfy, the events of the run satisfy. -/
theorem exec_all {P : Event Op Reply → Prop} (h : ∀ s o, P ⟨o, (answer s o).1⟩)
    (p : Prog Op Reply ε α) (s : σ) : ∀ e ∈ (p.exec answer s).1, P e := by
  induction p generalizing s with
  | ret a => simp [exec]
  | throw e => simp [exec]
  | op o k ih =>
    intro e he
    rcases List.mem_cons.mp he with rfl | he
    · exact h s o
    · exact ih _ _ e he

end Exec

def play {σ : Type} (answer : σ → (o : Op) → Reply o × σ) :
    Prog Op Reply ε α → σ → Except ε α × σ
  | .ret a, s => (.ok a, s)
  | .throw e, s => (.error e, s)
  | .op o k, s => (k (answer s o).1).play answer (answer s o).2

section Play
variable {σ : Type} {answer : σ → (o : Op) → Reply o × σ} {s : σ}

@[simp] theorem play_ret (a : α) :
    (Prog.ret a : Prog Op Reply ε α).play answer s = (.ok a, s) := rfl

@[simp] theorem play_throw (e : ε) :
    (Prog.throw e : Prog Op Reply ε α).play answer s = (.error e, s) := rfl

@[simp] theorem play_op (o : Op) (k : Reply o → Prog Op Reply ε α) :
    (Prog.op o k).play answer s = (k (answer s o).1).play answer (answer s o).2 := rfl

/-- A sequence returns through both of its parts. -/
theorem play_bind_ok {p : Prog Op Reply ε α} {f : α → Prog Op Reply ε β} {b : β} {s' : σ} :
    (p >>= f).play answer s = (.ok b, s') ↔
      ∃ a s₁, p.play answer s = (.ok a, s₁) ∧ (f a).play answer s₁ = (.ok b, s') := by
  induction p generalizing s with
  | ret a => simp
  | throw e => simp
  | op o k ih => exact ih _

theorem play_rescue_ok {p : Prog Op Reply ε α} {h : ε → Prog Op Reply ε α} {a : α} {s' : σ} :
    (p.rescue h).play answer s = (.ok a, s') ↔
      p.play answer s = (.ok a, s') ∨
      ∃ e s₁, p.play answer s = (.error e, s₁) ∧ (h e).play answer s₁ = (.ok a, s') := by
  induction p generalizing s with
  | ret b => simp
  | throw e => simp
  | op o k ih => exact ih _

end Play

end Prog

end Ironhide.Lib.Program
