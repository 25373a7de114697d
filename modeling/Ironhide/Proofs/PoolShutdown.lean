import Ironhide.Proofs.PoolRest

namespace Ironhide.Proofs.PoolShutdown
open Model Model.ThreadPool Lib.Machines PoolRuns PoolRest

variable {τ : Type} {threads : Nat} {p q : ThreadPool τ} {a : Action τ} {as : List (Action τ)}

section Work

/-- How many steps a worker takes until it sleeps, when it finds no task. -/
def workerWork : Worker τ → Nat
  | .locking => 2
  | .testing => 1
  | .waiting => 0
  | .running _ => 3
  | .returned => 0

/-- The steps of a call, and those of the worker that its task or its
notification leads to. -/
def callerWork : Caller τ → Nat
  | .locking _ => 8
  | .holding _ => 7
  | .notifying _ => 3
  | .enqueued _ => 0
  | .refused _ => 0

def destructorWork (threads : Nat) : Destructor → Nat
  | .absent => 0
  | .locking => 3 * threads + 4
  | .holding => 3 * threads + 3
  | .notifying => 3 * threads + 2
  | .joining i => threads - i + 1
  | .returned => 0

/-- A bound on the steps that are left when nobody calls the pool any more. -/
def work (threads : Nat) (p : ThreadPool τ) : Nat :=
  3 * p.toLaunch + 3 * p.tasks.length + (p.workers.map workerWork).sum +
    (p.callers.map callerWork).sum + destructorWork threads p.destructor

def gain (a : Action τ) : Nat := if a.own then 1 else 0

/-- What a call, a spurious wakeup and the start of the destructor add. -/
def cost (threads : Nat) : Action τ → Nat
  | .enqueue _ => 8
  | .wake _ => 2
  | .destroy => 3 * threads + 4
  | _ => 0

theorem work_notified (l : List (Worker τ)) :
    ((l.map Worker.notified).map workerWork).sum ≤ (l.map workerWork).sum + 2 * l.length := by
  induction l with
  | nil => simp
  | cons w l ih =>
    have hw : workerWork w.notified ≤ workerWork w + 2 := by
      cases w <;> simp [Worker.notified, workerWork]
    simp only [List.map_cons, List.sum_cons, List.length_cons]
    omega

theorem work_step (h : Staged threads p) (hst : Steps p a q) :
    gain a + work threads q ≤ cost threads a + work threads p := by
  cases hst with
  | launch hn =>
    simp only [gain, Action.own, if_true, cost, work, hn, List.map_append, List.sum_append,
      List.map_cons, List.map_nil, List.sum_cons, List.sum_nil, workerWork]
    omega
  | enqueue hn =>
    simp only [gain, Action.own, Bool.false_eq_true, if_false, cost, work, List.map_append,
      List.sum_append, List.map_cons, List.map_nil, List.sum_cons, List.sum_nil, callerWork]
    omega
  | @lockCaller j task hc hl =>
    have hset := sum_set hc callerWork (.holding task)
    simp only [gain, Action.own, if_true, cost, work, callerWork] at hset ⊢
    omega
  | @refuse j task hc hs =>
    have hset := sum_set hc callerWork (.refused task)
    simp only [gain, Action.own, if_true, cost, work, callerWork] at hset ⊢
    omega
  | @push j task hc hs =>
    have hset := sum_set hc callerWork (.notifying task)
    simp only [gain, Action.own, if_true, cost, work, callerWork, List.length_append,
      List.length_singleton] at hset ⊢
    omega
  | @notifyOne j i task hc hw =>
    have hset := sum_set hc callerWork (.enqueued task)
    have hset' := sum_set hw workerWork .locking
    simp only [gain, Action.own, if_true, cost, work, callerWork, workerWork] at hset hset' ⊢
    omega
  | @notifyNobody j task hc hw =>
    have hset := sum_set hc callerWork (.enqueued task)
    simp only [gain, Action.own, if_true, cost, work, callerWork] at hset ⊢
    omega
  | lock hw hl =>
    have hset := sum_set hw workerWork .testing
    simp only [gain, Action.own, if_true, cost, work, workerWork] at hset ⊢
    omega
  | sleep hw hs ht =>
    have hset := sum_set hw workerWork .waiting
    simp only [gain, Action.own, if_true, cost, work, workerWork] at hset ⊢
    omega
  | leave hw hs ht =>
    have hset := sum_set hw workerWork .returned
    simp only [gain, Action.own, if_true, cost, work, workerWork] at hset ⊢
    omega
  | @take i task tasks hw ht =>
    have hset := sum_set hw workerWork (.running task)
    simp only [gain, Action.own, if_true, cost, work, workerWork, ht, List.length_cons] at hset ⊢
    omega
  | wake hw =>
    have hset := sum_set hw workerWork .locking
    simp only [gain, Action.own, Bool.false_eq_true, if_false, cost, work, workerWork] at hset ⊢
    omega
  | finish hw =>
    have hset := sum_set hw workerWork .locking
    simp only [gain, Action.own, if_true, cost, work, workerWork] at hset ⊢
    omega
  | notifyAll hd =>
    have hmap := work_notified p.workers
    have hsize := h.size
    simp only [gain, Action.own, if_true, cost, work, hd, destructorWork, Nat.sub_zero]
    omega
  | @joined i hd hw =>
    have hlt := (List.getElem?_eq_some_iff.mp hw).1
    have hsize := h.size
    simp only [gain, Action.own, if_true, cost, work, hd, destructorWork]
    omega
  | destroy hn hd | lockDestructor hd hl | setStop hd | joinedAll hd hw =>
    simp only [gain, Action.own, Bool.false_eq_true, if_false, if_true, cost, work, hd, destructorWork]
    omega

def isCall : Action τ → Bool
  | .enqueue _ => true
  | _ => false

def isWake : Action τ → Bool
  | .wake _ => true
  | _ => false

def isDestroy : Action τ → Bool
  | .destroy => true
  | _ => false

theorem sum_gain (as : List (Action τ)) : (as.map gain).sum = as.countP Action.own := by
  induction as with
  | nil => rfl
  | cons a as ih =>
    simp only [List.map_cons, List.sum_cons, List.countP_cons, ih, gain]
    omega

theorem sum_cost (as : List (Action τ)) : (as.map (cost threads)).sum =
    8 * as.countP isCall + 2 * as.countP isWake + (3 * threads + 4) * as.countP isDestroy := by
  induction as with
  | nil => rfl
  | cons a as ih =>
    have hcost : cost threads a = 8 * (if isCall a then 1 else 0) + 2 * (if isWake a then 1 else 0) +
        (3 * threads + 4) * if isDestroy a then 1 else 0 := by
      cases a <;> simp [cost, isCall, isWake, isDestroy]
    simp only [List.map_cons, List.sum_cons, List.countP_cons, ih, hcost, Nat.mul_add]
    omega

/-- Left to themselves the threads come to rest. -/
theorem comes_to_rest (hp : (machine τ threads).Reachable p) :
    ∃ as q, (∀ a ∈ as, a.own = true) ∧ (machine τ threads).run p as = some q ∧
      (machine τ threads).Rest Action.own q := by
  refine Machine.exists_rest (I := Staged threads) (μ := work threads)
    (fun s a t h hst => h.step (steps_of_step hst)) (fun s a t h ha hst => ?_) (staged hp)
  have hwork := work_step h (steps_of_step hst)
  have hcost : cost threads a = 0 := by cases a <;> first | rfl | cases ha
  rw [gain, ha, if_pos rfl, hcost] at hwork
  omega

/-- The threads of a pool make so many steps at most for each worker, each call,
each spurious wakeup and the destructor, in whatever order they run, and from
wherever they are they can come to rest. -/
theorem steps_le (hr : (machine τ threads).run (.new τ threads) as = some p) :
    as.countP Action.own ≤ 3 * threads + 8 * as.countP isCall + 2 * as.countP isWake +
      (3 * threads + 4) * as.countP isDestroy ∧
    ∃ bs q, (∀ b ∈ bs, b.own = true) ∧ (machine τ threads).run p bs = some q ∧
      (machine τ threads).Rest Action.own q := by
  refine ⟨?_, comes_to_rest ⟨as, hr⟩⟩
  have hpot : (as.map gain).sum + work threads p ≤
      (as.map (cost threads)).sum + work threads (.new τ threads) :=
    Machine.run_potential (I := Staged threads) (fun s a t h hst => h.step (steps_of_step hst))
      (fun s a t h hst => work_step h (steps_of_step hst)) (staged Machine.reachable_start) hr
  rw [sum_gain, sum_cost] at hpot
  have hnew : work threads (.new τ threads) = 3 * threads := rfl
  rw [hnew] at hpot
  omega

theorem steps_le_two_workers : twoWorkers.countP Action.own ≤ 30 := by
  have hr : (machine Nat 2).run (.new Nat 2) twoWorkers = some _ := rfl
  exact (steps_le hr).1

end Work

/-- A pool that is stopped stays so, and takes no task any more. -/
theorem closed_step (hs : p.stop = true) (hst : Steps p a q) :
    q.stop = true ∧ q.accepted = p.accepted := by
  cases hst with
  | push hc hstop =>
    rw [hs] at hstop
    cases hstop
  | setStop hd => exact ⟨rfl, rfl⟩
  | _ => exact ⟨hs, rfl⟩

theorem closed_run (hs : p.stop = true) (hr : (machine τ threads).run p as = some q) :
    q.stop = true ∧ q.accepted = p.accepted := by
  refine Machine.run_invariant (I := fun q => q.stop = true ∧ q.accepted = p.accepted)
    (fun s a t h hst => ?_) ⟨hs, rfl⟩ hr
  obtain ⟨hstop, hacc⟩ := closed_step h.1 (steps_of_step hst)
  exact ⟨hstop, hacc.trans h.2⟩

/-- From the moment the destructor has stopped the pool no task is accepted, and
when it returns every worker has returned and every task that was accepted has
been run to its end, once. -/
theorem drained_on_shutdown (hp : (machine τ threads).Reachable p) (hs : p.stop = true)
    (hr : (machine τ threads).run p as = some q) :
    q.accepted = p.accepted ∧ (q.destructor = .returned → 0 < threads →
      q.tasks = [] ∧ q.finished.Perm p.accepted ∧ ∀ w ∈ q.workers, w = .returned) := by
  have hq := hp.run hr
  obtain ⟨_, hacc⟩ := closed_run hs hr
  refine ⟨hacc, fun hd ht => ?_⟩
  have hst := staged hq
  have hall := all_returned hst hd
  obtain ⟨w, hw⟩ := exists_worker hst (hst.built (by rw [hd]; simp)) ht
  have htasks := (hst.drained (hall w hw ▸ hw)).2
  refine ⟨htasks, ?_, hall⟩
  rw [← hacc]
  refine finished_of_idle (placed hq) htasks fun w hw => ?_
  rw [hall w hw]
  rfl

def beforeStop : List (Action Nat) :=
  [.launch, .enqueue 5, .enqueue 6, .lockCaller 0, .push 0, .destroy, .lockDestructor, .setStop]

def afterStop : List (Action Nat) :=
  [.lockCaller 1, .push 1, .notifyOne 0 none, .notifyAll, .lock 0, .test 0, .finish 0, .lock 0, .test 0,
    .join, .join]

theorem drained_on_shutdown_one_worker : ∃ p q, (machine Nat 1).run p afterStop = some q ∧
    q.destructor = .returned ∧ q.callers = [.enqueued 5, .refused 6] ∧ q.finished.Perm p.accepted := by
  have hp : (machine Nat 1).Reachable _ := ⟨beforeStop, rfl⟩
  have hdrained {q : ThreadPool Nat} (hr : (machine Nat 1).run _ afterStop = some q) :=
    drained_on_shutdown hp rfl hr
  exact ⟨_, _, rfl, rfl, rfl, ((hdrained rfl).2 rfl Nat.one_pos).2.1⟩

end Ironhide.Proofs.PoolShutdown
