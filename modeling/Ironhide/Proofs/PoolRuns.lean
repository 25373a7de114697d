import Ironhide.Model.ThreadPool

namespace Ironhide.Proofs.PoolRuns
open Model Model.ThreadPool Lib.Machines

variable {τ : Type}

inductive Steps (p : ThreadPool τ) : Action τ → ThreadPool τ → Prop where
  | launch {n : Nat} (hn : p.toLaunch = n + 1) :
    Steps p .launch { p with toLaunch := n, workers := p.workers ++ [.locking] }
  | enqueue {task : τ} (hn : p.toLaunch = 0) :
    Steps p (.enqueue task) { p with callers := p.callers ++ [.locking task] }
  | lockCaller {j : Nat} {task : τ} (hc : p.callers[j]? = some (.locking task))
      (hl : p.locked = false) :
    Steps p (.lockCaller j) { p with locked := true, callers := p.callers.set j (.holding task) }
  | refuse {j : Nat} {task : τ} (hc : p.callers[j]? = some (.holding task)) (hs : p.stop = true) :
    Steps p (.push j) { p with locked := false, callers := p.callers.set j (.refused task) }
  | push {j : Nat} {task : τ} (hc : p.callers[j]? = some (.holding task)) (hs : p.stop = false) :
    Steps p (.push j)
      { p with
        locked := false
        callers := p.callers.set j (.notifying task)
        tasks := p.tasks ++ [task]
        accepted := p.accepted ++ [task] }
  | notifyOne {j i : Nat} {task : τ} (hc : p.callers[j]? = some (.notifying task))
      (hw : p.workers[i]? = some .waiting) :
    Steps p (.notifyOne j (some i))
      { p with
        callers := p.callers.set j (.enqueued task)
        workers := p.workers.set i .locking }
  | notifyNobody {j : Nat} {task : τ} (hc : p.callers[j]? = some (.notifying task))
      (hw : ∀ w ∈ p.workers, w.isWaiting = false) :
    Steps p (.notifyOne j none) { p with callers := p.callers.set j (.enqueued task) }
  | lock {i : Nat} (hw : p.workers[i]? = some .locking) (hl : p.locked = false) :
    Steps p (.lock i) { p with locked := true, workers := p.workers.set i .testing }
  | sleep {i : Nat} (hw : p.workers[i]? = some .testing) (hs : p.stop = false) (ht : p.tasks = []) :
    Steps p (.test i) { p with locked := false, workers := p.workers.set i .waiting }
  | leave {i : Nat} (hw : p.workers[i]? = some .testing) (hs : p.stop = true) (ht : p.tasks = []) :
    Steps p (.test i) { p with locked := false, workers := p.workers.set i .returned }
  | take {i : Nat} {task : τ} {tasks : List τ} (hw : p.workers[i]? = some .testing)
      (ht : p.tasks = task :: tasks) :
    Steps p (.test i)
      { p with
        locked := false
        workers := p.workers.set i (.running task)
        tasks
        started := p.started ++ [task] }
  | wake {i : Nat} (hw : p.workers[i]? = some .waiting) :
    Steps p (.wake i) { p with workers := p.workers.set i .locking }
  | finish {i : Nat} {task : τ} (hw : p.workers[i]? = some (.running task)) :
    Steps p (.finish i)
      { p with workers := p.workers.set i .locking, finished := p.finished ++ [task] }
  | destroy (hn : p.toLaunch = 0) (hd : p.destructor = .absent) :
    Steps p .destroy { p with destructor := .locking }
  | lockDestructor (hd : p.destructor = .locking) (hl : p.locked = false) :
    Steps p .lockDestructor { p with locked := true, destructor := .holding }
  | setStop (hd : p.destructor = .holding) :
    Steps p .setStop { p with locked := false, stop := true, destructor := .notifying }
  | notifyAll (hd : p.destructor = .notifying) :
    Steps p .notifyAll
      { p with workers := p.workers.map Worker.notified, destructor := .joining 0 }
  | joined {i : Nat} (hd : p.destructor = .joining i) (hw : p.workers[i]? = some .returned) :
    Steps p .join { p with destructor := .joining (i + 1) }
  | joinedAll {i : Nat} (hd : p.destructor = .joining i) (hw : p.workers[i]? = none) :
    Steps p .join { p with destructor := .returned }

theorem isWaiting_iff {w : Worker τ} : w.isWaiting = true ↔ w = .waiting := by
  cases w <;> simp [Worker.isWaiting]

theorem steps_of_step {p q : ThreadPool τ} {a : Action τ} (h : step p a = some q) : Steps p a q := by
  cases a with
  | launch =>
    simp only [step] at h
    split at h
    · cases h
    · cases h
      exact .launch ‹_›
  | enqueue task =>
    simp only [step, Option.ite_none_right_eq_some, Option.some.injEq] at h
    obtain ⟨hn, rfl⟩ := h
    exact .enqueue hn
  | lockCaller j =>
    simp only [step] at h
    split at h
    · simp only [Option.ite_none_left_eq_some, Bool.not_eq_true, Option.some.injEq] at h
      obtain ⟨hl, rfl⟩ := h
      exact .lockCaller ‹_› hl
    · cases h
  | push j =>
    simp only [step] at h
    split at h
    · cases h
      unfold ThreadPool.push
      split
      · exact .refuse ‹_› ‹_›
      · exact .push ‹_› (Bool.eq_false_iff.mpr ‹_›)
    · cases h
  | notifyOne j woken =>
    simp only [step] at h
    split at h
    · cases woken with
      | some i =>
        simp only [Option.any_eq_true, isWaiting_iff, Option.ite_none_right_eq_some,
          Option.some.injEq] at h
        obtain ⟨⟨w, hw, rfl⟩, rfl⟩ := h
        exact .notifyOne ‹_› hw
      | none =>
        simp only [Option.ite_none_left_eq_some, Option.some.injEq, Bool.not_eq_true,
          List.any_eq_false] at h
        obtain ⟨hw, rfl⟩ := h
        exact .notifyNobody ‹_› hw
    · cases h
  | lock i =>
    simp only [step] at h
    split at h
    · simp only [Option.ite_none_left_eq_some, Bool.not_eq_true, Option.some.injEq] at h
      obtain ⟨hl, rfl⟩ := h
      exact .lock ‹_› hl
    · cases h
  | test i =>
    simp only [step] at h
    split at h
    · cases h
      unfold ThreadPool.test
      split
      · exact .sleep ‹_› ‹_› ‹_›
      · exact .leave ‹_› ‹_› ‹_›
      · exact .take ‹_› ‹_›
    · cases h
  | wake i =>
    simp only [step] at h
    split at h
    · cases h
      exact .wake ‹_›
    · cases h
  | finish i =>
    simp only [step] at h
    split at h
    · cases h
      exact .finish ‹_›
    · cases h
  | destroy =>
    simp only [step, Option.ite_none_right_eq_some, Option.some.injEq] at h
    obtain ⟨⟨hn, hd⟩, rfl⟩ := h
    exact .destroy hn hd
  | lockDestructor =>
    simp only [step, Option.ite_none_right_eq_some, Option.some.injEq] at h
    obtain ⟨⟨hd, hl⟩, rfl⟩ := h
    exact .lockDestructor hd hl
  | setStop =>
    simp only [step, Option.ite_none_right_eq_some, Option.some.injEq] at h
    obtain ⟨hd, rfl⟩ := h
    exact .setStop hd
  | notifyAll =>
    simp only [step, Option.ite_none_right_eq_some, Option.some.injEq] at h
    obtain ⟨hd, rfl⟩ := h
    exact .notifyAll hd
  | join =>
    simp only [step] at h
    split at h
    · split at h
      · cases h
        exact .joined ‹_› ‹_›
      · cases h
      · cases h
        exact .joinedAll ‹_› ‹_›
    · cases h

/-- What every step keeps, every state of the pool has. -/
theorem reachable_invariant {threads : Nat} {p : ThreadPool τ} {I : ThreadPool τ → Prop}
    (hp : (machine τ threads).Reachable p) (h₀ : I (.new τ threads))
    (hs : ∀ p q a, I p → Steps p a q → I q) : I p :=
  hp.invariant h₀ fun p a q h hst => hs p q a h (steps_of_step hst)

section Mutex

def isTesting : Worker τ → Bool
  | .testing => true
  | _ => false

def isHolding : Caller τ → Bool
  | .holding _ => true
  | _ => false

/-- How many threads are where they have to have the mutex. -/
def inside (p : ThreadPool τ) : Nat :=
  p.workers.countP isTesting + p.callers.countP isHolding +
    if p.destructor = .holding then 1 else 0

def Exclusive (p : ThreadPool τ) : Prop := inside p = if p.locked then 1 else 0

section
variable {p q : ThreadPool τ}

theorem Exclusive.acquired (h : Exclusive p) (hp : p.locked = false) (hq : q.locked = true)
    (hi : inside q = inside p + 1) : Exclusive q := by
  simp only [Exclusive, hp, hq, Bool.false_eq_true, if_false, if_true] at h ⊢
  omega

theorem Exclusive.released (h : Exclusive p) (hq : q.locked = false)
    (hi : inside q + 1 = inside p) : Exclusive q := by
  simp only [Exclusive, hq, Bool.false_eq_true, if_false] at h ⊢
  split at h <;> omega

theorem Exclusive.same (h : Exclusive p) (hq : q.locked = p.locked) (hi : inside q = inside p) :
    Exclusive q := by
  rw [Exclusive, hq, hi]
  exact h

end

theorem Exclusive.step {p q : ThreadPool τ} {a : Action τ} (h : Exclusive p) (hst : Steps p a q) :
    Exclusive q := by
  cases hst with
  | launch hn => exact h.same rfl (by simp [inside, isTesting])
  | enqueue hn => exact h.same rfl (by simp [inside, isHolding])
  | @lockCaller j task hc hl =>
    have hset := countP_set hc isHolding (.holding task)
    simp only [isHolding, Bool.false_eq_true, if_false, if_true] at hset
    exact h.acquired hl rfl (by simp only [inside]; omega)
  | @refuse j task hc hs =>
    have hset := countP_set hc isHolding (.refused task)
    simp only [isHolding, Bool.false_eq_true, if_false, if_true] at hset
    exact h.released rfl (by simp only [inside]; omega)
  | @push j task hc hs =>
    have hset := countP_set hc isHolding (.notifying task)
    simp only [isHolding, Bool.false_eq_true, if_false, if_true] at hset
    exact h.released rfl (by simp only [inside]; omega)
  | @notifyOne j i task hc hw =>
    have hset := countP_set hc isHolding (.enqueued task)
    have hset' := countP_set hw isTesting .locking
    simp only [isHolding, isTesting, Bool.false_eq_true, if_false] at hset hset'
    exact h.same rfl (by simp only [inside]; omega)
  | @notifyNobody j task hc hw =>
    have hset := countP_set hc isHolding (.enqueued task)
    simp only [isHolding, Bool.false_eq_true, if_false] at hset
    exact h.same rfl (by simp only [inside]; omega)
  | lock hw hl =>
    have hset := countP_set hw isTesting .testing
    simp only [isTesting, Bool.false_eq_true, if_false, if_true] at hset
    exact h.acquired hl rfl (by simp only [inside]; omega)
  | sleep hw hs ht =>
    have hset := countP_set hw isTesting .waiting
    simp only [isTesting, Bool.false_eq_true, if_false, if_true] at hset
    exact h.released rfl (by simp only [inside]; omega)
  | leave hw hs ht =>
    have hset := countP_set hw isTesting .returned
    simp only [isTesting, Bool.false_eq_true, if_false, if_true] at hset
    exact h.released rfl (by simp only [inside]; omega)
  | @take i task tasks hw ht =>
    have hset := countP_set hw isTesting (.running task)
    simp only [isTesting, Bool.false_eq_true, if_false, if_true] at hset
    exact h.released rfl (by simp only [inside]; omega)
  | wake hw | finish hw =>
    have hset := countP_set hw isTesting .locking
    simp only [isTesting, Bool.false_eq_true, if_false] at hset
    exact h.same rfl (by simp only [inside]; omega)
  | notifyAll hd =>
    have hmap : (p.workers.map Worker.notified).countP isTesting = p.workers.countP isTesting := by
      rw [List.countP_map]
      congr 1
      funext w
      cases w <;> rfl
    exact h.same rfl (by simp [inside, hmap, hd])
  | destroy hn hd => exact h.same rfl (by simp [inside, hd])
  | lockDestructor hd hl => exact h.acquired hl rfl (by simp [inside, hd])
  | setStop hd => exact h.released rfl (by simp [inside, hd])
  | joined hd hw | joinedAll hd hw => exact h.same rfl (by simp [inside, hd])

end Mutex

section Order

def runs : Worker τ → Option τ
  | .running task => some task
  | _ => none

/-- The task of a call that has put it in the queue. -/
def admitted : Caller τ → Option τ
  | .notifying task | .enqueued task => some task
  | _ => none

/-- Where the tasks are: what was accepted was taken out in that order or is in
the queue still, and what was taken out is finished or with a worker. -/
structure Placed (p : ThreadPool τ) : Prop where
  order : p.accepted = p.started ++ p.tasks
  once : p.started.Perm (p.finished ++ p.workers.filterMap runs)
  calls : p.accepted.Perm (p.callers.filterMap admitted)

theorem Placed.idle {p : ThreadPool τ} (h : Placed p) {i : Nat} {w : Worker τ}
    (hw : p.workers[i]? = some w) (w' : Worker τ) (hr : runs w' = runs w) :
    p.started.Perm (p.finished ++ (p.workers.set i w').filterMap runs) :=
  h.once.trans ((filterMap_set_same hw runs w' hr).symm.append_left _)

theorem Placed.calling {p : ThreadPool τ} (h : Placed p) {j : Nat} {c : Caller τ}
    (hc : p.callers[j]? = some c) (c' : Caller τ) (ha : admitted c' = admitted c) :
    p.accepted.Perm ((p.callers.set j c').filterMap admitted) :=
  h.calls.trans (filterMap_set_same hc admitted c' ha).symm

theorem Placed.step {p q : ThreadPool τ} {a : Action τ} (h : Placed p) (hst : Steps p a q) :
    Placed q := by
  obtain ⟨order, once, calls⟩ := id h
  cases hst with
  | launch hn =>
    refine ⟨order, ?_, calls⟩
    rw [filterMap_snoc_none rfl]
    exact once
  | enqueue hn =>
    refine ⟨order, once, ?_⟩
    rw [filterMap_snoc_none rfl]
    exact calls
  | @lockCaller j task hc hl => exact ⟨order, once, h.calling hc (.holding task) rfl⟩
  | @refuse j task hc hs => exact ⟨order, once, h.calling hc (.refused task) rfl⟩
  | @push j task hc hs =>
    obtain ⟨rest, hl, hset⟩ := filterMap_set hc admitted (.notifying task)
    refine ⟨by simp [order], once, ?_⟩
    have hrest : p.accepted.Perm rest := calls.trans hl
    exact (List.perm_append_singleton task p.accepted).trans ((hrest.cons task).trans hset.symm)
  | @notifyOne j i task hc hw =>
    exact ⟨order, h.idle hw .locking rfl, h.calling hc (.enqueued task) rfl⟩
  | @notifyNobody j task hc hw => exact ⟨order, once, h.calling hc (.enqueued task) rfl⟩
  | lock hw hl => exact ⟨order, h.idle hw .testing rfl, calls⟩
  | sleep hw hs ht => exact ⟨order, h.idle hw .waiting rfl, calls⟩
  | leave hw hs ht => exact ⟨order, h.idle hw .returned rfl, calls⟩
  | wake hw => exact ⟨order, h.idle hw .locking rfl, calls⟩
  | @take i task tasks hw ht =>
    obtain ⟨rest, hl, hset⟩ := filterMap_set hw runs (.running task)
    refine ⟨by simp [order, ht], ?_, calls⟩
    have hrest : p.started.Perm (p.finished ++ rest) := once.trans (hl.append_left _)
    have htaken : (p.started ++ [task]).Perm (p.finished ++ task :: rest) :=
      (List.perm_append_singleton ..).trans ((hrest.cons task).trans List.perm_middle.symm)
    exact htaken.trans (hset.symm.append_left _)
  | @finish i task hw =>
    obtain ⟨rest, hl, hset⟩ := filterMap_set hw runs .locking
    refine ⟨order, ?_, calls⟩
    have hrest : p.started.Perm (p.finished ++ ([task] ++ rest)) := once.trans (hl.append_left _)
    rw [← List.append_assoc] at hrest
    exact hrest.trans (hset.symm.append_left _)
  | notifyAll hd =>
    refine ⟨order, ?_, calls⟩
    have hmap : (p.workers.map Worker.notified).filterMap runs = p.workers.filterMap runs := by
      rw [List.filterMap_map]
      congr 1
      funext w
      cases w <;> rfl
    rw [hmap]
    exact once
  | _ => exact ⟨order, once, calls⟩

theorem placed {threads : Nat} {p : ThreadPool τ} (hp : (machine τ threads).Reachable p) :
    Placed p :=
  reachable_invariant hp ⟨rfl, .nil, .nil⟩ fun _ _ _ h hst => h.step hst

theorem exclusive {threads : Nat} {p : ThreadPool τ} (hp : (machine τ threads).Reachable p) :
    Exclusive p :=
  reachable_invariant hp rfl fun _ _ _ h hst => h.step hst

/-- In every state the accepted tasks are those of the calls that have put one in
the queue, they are taken out in the order in which they were accepted, and what
was taken out is finished or run by one worker, each as often as it was accepted.
At most one thread has the mutex. -/
theorem taken_in_order {threads : Nat} {p : ThreadPool τ} (hp : (machine τ threads).Reachable p) :
    p.accepted.Perm (p.callers.filterMap admitted) ∧ p.accepted = p.started ++ p.tasks ∧
      p.started.Perm (p.finished ++ p.workers.filterMap runs) ∧ inside p ≤ 1 := by
  obtain ⟨order, once, calls⟩ := placed hp
  refine ⟨calls, order, once, ?_⟩
  rw [exclusive hp]
  split <;> omega

def twoWorkers : List (Action Nat) :=
  [.launch, .launch, .enqueue 5, .lockCaller 0, .push 0, .lock 1, .enqueue 6, .test 1, .notifyOne 0 none,
    .lockCaller 1, .push 1, .lock 0, .test 0, .finish 1, .enqueue 7, .lockCaller 2, .push 2]

theorem taken_in_order_two_workers : ∃ p, (machine Nat 2).Reachable p ∧ p.finished = [5] ∧
    p.workers.filterMap runs = [6] ∧ p.tasks = [7] ∧ p.accepted = p.started ++ p.tasks := by
  have hp : (machine Nat 2).Reachable _ := ⟨twoWorkers, rfl⟩
  exact ⟨_, hp, rfl, rfl, rfl, (taken_in_order hp).2.1⟩

end Order

end Ironhide.Proofs.PoolRuns
