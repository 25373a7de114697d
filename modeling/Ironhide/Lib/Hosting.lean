import Ironhide.Lib.Relaying

namespace Ironhide.Lib.Hosting
open Program Threads Threads.System Relaying

abbrev Replies {Op₁ Op₂ : Type} (Reply₁ : Op₁ → Type) (Reply₂ : Op₂ → Type) : Op₁ ⊕ Op₂ → Type
  | .inl o => Reply₁ o
  | .inr o => Reply₂ o

variable {Op₁ Op₂ : Type} {Reply₁ : Op₁ → Type} {Reply₂ : Op₂ → Type} {ε₁ ε₂ α : Type}

def left : Prog Op₁ Reply₁ ε₁ α → Prog (Op₁ ⊕ Op₂) (Replies Reply₁ Reply₂) (ε₁ ⊕ ε₂) α
  | .ret a => .ret a
  | .throw e => .throw (.inl e)
  | .op o k => .op (.inl o) fun r => left (k r)

def right : Prog Op₂ Reply₂ ε₂ α → Prog (Op₁ ⊕ Op₂) (Replies Reply₁ Reply₂) (ε₁ ⊕ ε₂) α
  | .ret a => .ret a
  | .throw e => .throw (.inr e)
  | .op o k => .op (.inr o) fun r => right (k r)

def leftEvent (e : Event Op₁ Reply₁) : Event (Op₁ ⊕ Op₂) (Replies Reply₁ Reply₂) :=
  ⟨.inl e.op, e.reply⟩

def rightEvent (e : Event Op₂ Reply₂) : Event (Op₁ ⊕ Op₂) (Replies Reply₁ Reply₂) :=
  ⟨.inr e.op, e.reply⟩

theorem left_all {P : Op₁ → Prop} {Q : Op₁ ⊕ Op₂ → Prop} (hPQ : ∀ o, P o → Q (.inl o))
    {p : Prog Op₁ Reply₁ ε₁ α} (h : p.All P) :
    (left p : Prog (Op₁ ⊕ Op₂) (Replies Reply₁ Reply₂) (ε₁ ⊕ ε₂) α).All Q := by
  induction p with
  | ret a => trivial
  | throw e => trivial
  | op o k ih => exact ⟨hPQ o h.1, fun r => ih r (h.2 r)⟩

theorem right_all {P : Op₂ → Prop} {Q : Op₁ ⊕ Op₂ → Prop} (hPQ : ∀ o, P o → Q (.inr o))
    {p : Prog Op₂ Reply₂ ε₂ α} (h : p.All P) :
    (right p : Prog (Op₁ ⊕ Op₂) (Replies Reply₁ Reply₂) (ε₁ ⊕ ε₂) α).All Q := by
  induction p with
  | ret a => trivial
  | throw e => trivial
  | op o k ih => exact ⟨hPQ o h.1, fun r => ih r (h.2 r)⟩

theorem right_eq_op {p : Prog Op₂ Reply₂ ε₂ α} {o : Op₂}
    {k : Reply₂ o → Prog (Op₁ ⊕ Op₂) (Replies Reply₁ Reply₂) (ε₁ ⊕ ε₂) α}
    (h : right p = .op (.inr o) k) : ∃ k', p = .op o k' ∧ k = fun r => right (k' r) := by
  cases p with
  | ret a => cases h
  | throw e => cases h
  | op o' k' =>
    cases h
    exact ⟨k', rfl, rfl⟩

/-- What is left of such a program is left of the program itself. -/
theorem reaches_left {p : Prog Op₁ Reply₁ ε₁ α}
    {es : List (Event (Op₁ ⊕ Op₂) (Replies Reply₁ Reply₂))}
    {q : Prog (Op₁ ⊕ Op₂) (Replies Reply₁ Reply₂) (ε₁ ⊕ ε₂) α}
    (h : (left p).Reaches es q) :
    ∃ es' q', es = es'.map leftEvent ∧ q = left q' ∧ p.Reaches es' q' := by
  induction p generalizing es with
  | ret a =>
    obtain ⟨rfl, rfl⟩ := Prog.reaches_ret.mp h
    exact ⟨[], .ret a, rfl, rfl, .refl _⟩
  | throw e =>
    obtain ⟨rfl, rfl⟩ := Prog.reaches_throw.mp h
    exact ⟨[], .throw e, rfl, rfl, .refl _⟩
  | op o k ih =>
    rcases Prog.reaches_op.mp h with ⟨rfl, rfl⟩ | ⟨r, es, rfl, hk⟩
    · exact ⟨[], .op o k, rfl, rfl, .refl _⟩
    · obtain ⟨es', q', rfl, rfl, hreach⟩ := ih r hk
      exact ⟨⟨o, r⟩ :: es', q', rfl, rfl, .op hreach⟩

/-- A program passes on the same among such threads. -/
theorem left_relays {μ : Type} {takes₁ : Event Op₁ Reply₁ → Option μ} {hands₁ : Op₁ → Option μ}
    {takes : Event (Op₁ ⊕ Op₂) (Replies Reply₁ Reply₂) → Option μ}
    {hands : Op₁ ⊕ Op₂ → Option μ} (ht : ∀ e, takes (leftEvent e) = takes₁ e)
    (hh : ∀ o, hands (.inl o) = hands₁ o) {p : Prog Op₁ Reply₁ ε₁ α} {held : Option μ}
    (h : Relays takes₁ hands₁ p held) :
    Relays takes hands
      (left p : Prog (Op₁ ⊕ Op₂) (Replies Reply₁ Reply₂) (ε₁ ⊕ ε₂) α) held := by
  induction p generalizing held with
  | ret a => exact h
  | throw e => exact h
  | op o k ih =>
    refine ⟨(hh o).trans h.1, fun r => ?_⟩
    rw [show takes ⟨.inl o, r⟩ = takes₁ ⟨o, r⟩ from ht ⟨o, r⟩]
    exact ih r (h.2 r)

theorem left_handsOn {μ : Type} {hands₁ : Op₁ → Option μ} {hands : Op₁ ⊕ Op₂ → Option μ}
    (hh : ∀ o, hands (.inl o) = hands₁ o) {p : Prog Op₁ Reply₁ ε₁ α} {l : List μ}
    (h : HandsOn hands₁ p l) :
    HandsOn hands (left p : Prog (Op₁ ⊕ Op₂) (Replies Reply₁ Reply₂) (ε₁ ⊕ ε₂) α) l := by
  induction p generalizing l with
  | ret a => trivial
  | throw e => trivial
  | op o k ih =>
    obtain ⟨rest, hl, hk⟩ := h
    rw [← hh] at hl
    exact ⟨rest, hl, fun r => ih r (hk r)⟩

variable {σ τ Γ Tag : Type}

/-- Threads that start threads of a system, where these would only arrive. An
operation may start some of the first kind and one of the second. -/
structure Host (τ Tag : Type) (Γ Op : Type) (Reply : Op → Type) (ε α : Type) where
  start : Tag → Prog Op Reply ε α
  perform : τ → Tag → (o : Op) → Reply o → τ → List Tag → Option Γ → Prop
  arrive : τ → τ → Tag → Prop
  fatal : ε → Prop

def hosted (H : Host τ Tag Γ Op₁ Reply₁ ε₁ α) (S : System σ Γ Op₂ Reply₂ ε₂ α) :
    System (τ × σ) (Tag ⊕ Γ) (Op₁ ⊕ Op₂) (Replies Reply₁ Reply₂) (ε₁ ⊕ ε₂) α where
  start
    | .inl tag => left (H.start tag)
    | .inr g => right (S.start g)
  perform
    | s, .inl tag, .inl o, r, s', born => ∃ tags arriving,
      born = tags.map .inl ++ arriving.toList.map .inr ∧ H.perform s.1 tag o r s'.1 tags arriving ∧
        match arriving with
        | none => s'.2 = s.2
        | some g => S.arrive s.2 s'.2 g
    | s, .inr g, .inr o, r, s', born => ∃ own,
      born = own.map .inr ∧ S.perform s.2 g o r s'.2 own ∧ s'.1 = s.1
    | _, _, _, _, _, _ => False
  arrive s s' g := ∃ tag, g = .inl tag ∧ H.arrive s.1 s'.1 tag ∧ s'.2 = s.2
  fatal
    | .inl e => H.fatal e
    | .inr e => S.fatal e

variable {H : Host τ Tag Γ Op₁ Reply₁ ε₁ α} {S : System σ Γ Op₂ Reply₂ ε₂ α}
  {guard : τ × σ → List (Thread (Tag ⊕ Γ) (Op₁ ⊕ Op₂) (Replies Reply₁ Reply₂) (ε₁ ⊕ ε₂) α) →
    Tag ⊕ Γ → Op₁ ⊕ Op₂ → Prop}
  {P : Pool (τ × σ) (Tag ⊕ Γ) (Op₁ ⊕ Op₂) (Replies Reply₁ Reply₂) (ε₁ ⊕ ε₂) α}

def rightThread (t : Thread Γ Op₂ Reply₂ ε₂ α) :
    Thread (Tag ⊕ Γ) (Op₁ ⊕ Op₂) (Replies Reply₁ Reply₂) (ε₁ ⊕ ε₂) α :=
  ⟨.inr t.tag, t.past.map rightEvent, right t.prog⟩

def guests (ts : List (Thread (Tag ⊕ Γ) (Op₁ ⊕ Op₂) (Replies Reply₁ Reply₂) (ε₁ ⊕ ε₂) α)) :
    List (Thread (Tag ⊕ Γ) (Op₁ ⊕ Op₂) (Replies Reply₁ Reply₂) (ε₁ ⊕ ε₂) α) :=
  ts.filter fun t => t.tag.isRight

/-- What the process shows of the system. -/
structure Shows (P : Pool (τ × σ) (Tag ⊕ Γ) (Op₁ ⊕ Op₂) (Replies Reply₁ Reply₂) (ε₁ ⊕ ε₂) α)
    (Q : Pool σ Γ Op₂ Reply₂ ε₂ α) : Prop where
  shared : P.shared.2 = Q.shared
  threads : guests P.threads = Q.threads.map rightThread

theorem guests_append
    (ts us : List (Thread (Tag ⊕ Γ) (Op₁ ⊕ Op₂) (Replies Reply₁ Reply₂) (ε₁ ⊕ ε₂) α)) :
    guests (ts ++ us) = guests ts ++ guests us := List.filter_append ..

theorem guests_cons_inl (tag : Tag)
    (past : List (Event (Op₁ ⊕ Op₂) (Replies Reply₁ Reply₂)))
    (p : Prog (Op₁ ⊕ Op₂) (Replies Reply₁ Reply₂) (ε₁ ⊕ ε₂) α)
    (ts : List (Thread (Tag ⊕ Γ) (Op₁ ⊕ Op₂) (Replies Reply₁ Reply₂) (ε₁ ⊕ ε₂) α)) :
    guests (⟨.inl tag, past, p⟩ :: ts) = guests ts := rfl

theorem guests_cons_inr (g : Γ)
    (past : List (Event (Op₁ ⊕ Op₂) (Replies Reply₁ Reply₂)))
    (p : Prog (Op₁ ⊕ Op₂) (Replies Reply₁ Reply₂) (ε₁ ⊕ ε₂) α)
    (ts : List (Thread (Tag ⊕ Γ) (Op₁ ⊕ Op₂) (Replies Reply₁ Reply₂) (ε₁ ⊕ ε₂) α)) :
    guests (⟨.inr g, past, p⟩ :: ts) = ⟨.inr g, past, p⟩ :: guests ts := rfl

theorem guests_spawn_left (tags : List Tag) :
    guests ((tags.map Sum.inl).map (hosted H S).spawn) = [] := by
  refine List.filter_eq_nil_iff.mpr fun t ht => ?_
  simp only [List.map_map, List.mem_map] at ht
  obtain ⟨tag, _, rfl⟩ := ht
  exact Bool.false_ne_true

theorem guests_spawn_right (gs : List Γ) :
    guests ((gs.map Sum.inr).map (hosted H S).spawn) = (gs.map S.spawn).map rightThread := by
  rw [guests, List.filter_eq_self.mpr]
  · simp only [List.map_map]
    rfl
  · intro t ht
    simp only [List.map_map, List.mem_map] at ht
    obtain ⟨g, _, rfl⟩ := ht
    rfl

theorem Shows.alive {Q : Pool σ Γ Op₂ Reply₂ ε₂ α} (h : Shows P Q)
    (ha : (hosted H S).Alive P.threads) : S.Alive Q.threads := by
  intro t ht e he
  have hmem : rightThread t ∈ guests P.threads := by
    rw [h.threads]
    exact List.mem_map_of_mem ht
  exact ha _ (List.mem_of_mem_filter hmem) (.inr e) (congrArg right he)

/-- A thread that belongs to the system is one of its threads. -/
theorem Shows.guest {Q : Pool σ Γ Op₂ Reply₂ ε₂ α} (h : Shows P Q) {g : Γ}
    {past : List (Event (Op₁ ⊕ Op₂) (Replies Reply₁ Reply₂))}
    {p : Prog (Op₁ ⊕ Op₂) (Replies Reply₁ Reply₂) (ε₁ ⊕ ε₂) α}
    (ht : ⟨.inr g, past, p⟩ ∈ P.threads) :
    ∃ u ∈ Q.threads, u.tag = g ∧ past = u.past.map rightEvent ∧ p = right u.prog := by
  have hguest : ⟨.inr g, past, p⟩ ∈ guests P.threads := List.mem_filter.mpr ⟨ht, rfl⟩
  rw [h.threads] at hguest
  obtain ⟨u, hu, heq⟩ := List.mem_map.mp hguest
  cases heq
  exact ⟨u, hu, rfl, rfl, rfl⟩

/-- What only the threads of the system have, the process has from these. -/
theorem Shows.flatMap {μ : Type} {Q : Pool σ Γ Op₂ Reply₂ ε₂ α} (h : Shows P Q)
    {f : Thread (Tag ⊕ Γ) (Op₁ ⊕ Op₂) (Replies Reply₁ Reply₂) (ε₁ ⊕ ε₂) α → List μ}
    (hleft : ∀ t ∈ P.threads, t.tag.isRight = false → f t = []) :
    P.threads.flatMap f = Q.threads.flatMap fun u => f (rightThread u) := by
  have hguests (ts : List (Thread (Tag ⊕ Γ) (Op₁ ⊕ Op₂) (Replies Reply₁ Reply₂) (ε₁ ⊕ ε₂) α))
      (hts : ∀ t ∈ ts, t.tag.isRight = false → f t = []) :
      ts.flatMap f = (guests ts).flatMap f := by
    induction ts with
    | nil => rfl
    | cons t ts ih =>
      obtain ⟨tag, past, p⟩ := t
      have hrest := ih fun u hu => hts u (List.mem_cons_of_mem _ hu)
      cases tag with
      | inl tag =>
        rw [List.flatMap_cons, hts _ List.mem_cons_self rfl, hrest, guests_cons_inl]
        rfl
      | inr g => rw [List.flatMap_cons, hrest, guests_cons_inr, List.flatMap_cons]
  rw [hguests P.threads hleft, h.threads, List.flatMap_map]

/-- The process refines the system: whatever its threads have come to, those of
the system could have come to by themselves. -/
theorem refines {t₀ : τ} {s₀ : σ} (h : Reachable (hosted H S) guard (t₀, s₀) P) :
    ∃ Q, Reachable S (fun _ _ _ _ => True) s₀ Q ∧ Shows P Q := by
  refine h.invariant (fun P => ∃ Q, Reachable S (fun _ _ _ _ => True) s₀ Q ∧ Shows P Q)
    ⟨⟨s₀, []⟩, .refl, rfl, rfl⟩ ?_
  intro P P' _ ih hst
  obtain ⟨⟨s, ts⟩, hreach, hshow⟩ := ih
  cases hst with
  | @run s₁ s₂ before after g past o k r born halive _ hperf =>
    obtain ⟨hshared, hthreads⟩ := hshow
    have hts := Shows.alive ⟨hshared, hthreads⟩ halive
    change s₁.2 = s at hshared
    subst hshared
    match g, o with
    | .inl tag, .inl o =>
      obtain ⟨tags, arriving, rfl, _, harr⟩ := hperf
      have hsame : guests (before ++ ⟨.inl tag, past ++ [⟨.inl o, r⟩], k r⟩ :: after) =
          ts.map rightThread := by
        rw [← hthreads, guests_append, guests_append, guests_cons_inl, guests_cons_inl]
      cases arriving with
      | none =>
        refine ⟨⟨s₁.2, ts⟩, hreach, harr, ?_⟩
        change guests (_ ++ List.map _ (tags.map Sum.inl ++ [])) = _
        rw [guests_append, hsame, List.append_nil, guests_spawn_left, List.append_nil]
      | some g =>
        refine ⟨⟨s₂.2, ts ++ [S.spawn g]⟩, hreach.tail (.arrive hts harr), rfl, ?_⟩
        change guests (_ ++ List.map _ (tags.map Sum.inl ++ [g].map Sum.inr)) = _
        rw [guests_append, hsame, List.map_append, guests_append, guests_spawn_left,
          List.nil_append, guests_spawn_right, List.map_append]
        rfl
    | .inr g, .inr o =>
      obtain ⟨own, rfl, hown, _⟩ := hperf
      have hsplit : guests before ++ ⟨.inr g, past, .op (.inr o) k⟩ :: guests after =
          ts.map rightThread := by
        rw [← hthreads, guests_append, guests_cons_inr]
      obtain ⟨before', rest, rfl, hbefore, hrest⟩ := List.map_eq_append_iff.mp hsplit.symm
      obtain ⟨⟨g', past', p⟩, after', rfl, hmoved, hafter⟩ := List.map_eq_cons_iff.mp hrest
      obtain ⟨hg, hpast, hprog⟩ := Thread.mk.inj hmoved
      cases hg
      obtain ⟨k', rfl, rfl⟩ := right_eq_op hprog
      refine ⟨_, hreach.tail (.run hts trivial hown), rfl, ?_⟩
      change guests (_ ++ List.map _ (own.map Sum.inr)) = _
      rw [guests_append, guests_append, guests_cons_inr, guests_spawn_right, ← hbefore, ← hafter,
        ← hpast]
      simp [rightThread, rightEvent]
    | .inl _, .inr _ => exact hperf.elim
    | .inr _, .inl _ => exact hperf.elim
  | @arrive s₁ s₂ us g halive harr =>
    obtain ⟨tag, rfl, _, hsame⟩ := harr
    refine ⟨⟨s, ts⟩, hreach, hsame.trans hshow.shared, ?_⟩
    change guests (us ++ ([tag].map Sum.inl).map (hosted H S).spawn) = _
    rw [guests_append, guests_spawn_left, List.append_nil]
    exact hshow.threads

/-- What a thread of the process has done as one of the system, it does there. -/
theorem guest_reaches {t₀ : τ} {s₀ : σ} (h : Reachable (hosted H S) guard (t₀, s₀) P) {g : Γ}
    {past : List (Event (Op₁ ⊕ Op₂) (Replies Reply₁ Reply₂))}
    {p : Prog (Op₁ ⊕ Op₂) (Replies Reply₁ Reply₂) (ε₁ ⊕ ε₂) α}
    (ht : ⟨.inr g, past, p⟩ ∈ P.threads) :
    ∃ es q, past = es.map rightEvent ∧ (S.start g).Reaches es q := by
  obtain ⟨Q, hreach, hshow⟩ := refines h
  obtain ⟨u, hu, rfl, rfl, _⟩ := hshow.guest ht
  exact ⟨u.past, u.prog, rfl, hreach.thread u hu⟩

end Ironhide.Lib.Hosting
