import Ironhide.Lib.Machines

namespace Ironhide.Model
open Lib.Machines

namespace ThreadPool

inductive Worker (τ : Type) where
  -- before it takes the mutex: at the head of the loop, or woken from its wait
  | locking
  -- with the mutex, about to look at the predicate of the wait
  | testing
  | waiting
  | running (task : τ)
  | returned
  deriving DecidableEq, Repr

inductive Caller (τ : Type) where
  | locking (task : τ)
  | holding (task : τ)
  | notifying (task : τ)
  | enqueued (task : τ)
  | refused (task : τ)
  deriving DecidableEq, Repr

/-- Where the destructor is; `joining i` is in the join of worker `i`. -/
inductive Destructor where
  | absent
  | locking
  | holding
  | notifying
  | joining (i : Nat)
  | returned
  deriving DecidableEq, Repr

end ThreadPool

/-- `utils::ThreadPool`, with the threads at work on it. The mutex is held or
not, `toLaunch` is what the loop of the constructor has left to do, and the last
three fields are the history, which the source does not store. -/
structure ThreadPool (τ : Type) where
  toLaunch : Nat
  workers : List (ThreadPool.Worker τ)
  tasks : List τ
  locked : Bool
  stop : Bool
  callers : List (ThreadPool.Caller τ)
  destructor : ThreadPool.Destructor
  accepted : List τ
  started : List τ
  finished : List τ
  deriving DecidableEq, Repr

namespace ThreadPool

variable {τ : Type}

def new (τ : Type) (threads : Nat) : ThreadPool τ where
  toLaunch := threads
  workers := []
  tasks := []
  locked := false
  stop := false
  callers := []
  destructor := .absent
  accepted := []
  started := []
  finished := []

/-- The steps of the constructor, of the callers of `enqueue`, of the workers and
of the destructor. What a thread does while it has the mutex is one step, which
gives it back. -/
inductive Action (τ : Type) where
  | launch
  | enqueue (task : τ)
  | lockCaller (j : Nat)
  | push (j : Nat)
  | notifyOne (j : Nat) (woken : Option Nat)
  | lock (i : Nat)
  | test (i : Nat)
  -- a spurious wakeup
  | wake (i : Nat)
  | finish (i : Nat)
  | destroy
  | lockDestructor
  | setStop
  | notifyAll
  | join
  deriving DecidableEq, Repr

def Worker.isWaiting : Worker τ → Bool
  | .waiting => true
  | _ => false

def Worker.notified : Worker τ → Worker τ
  | .waiting => .locking
  | w => w

/-- A worker that has the mutex looks at the predicate of the wait: it goes to
sleep, or it is over, or it takes the task at the front. -/
def test (p : ThreadPool τ) (i : Nat) : ThreadPool τ :=
  match p.stop, p.tasks with
  | false, [] => { p with locked := false, workers := p.workers.set i .waiting }
  | true, [] => { p with locked := false, workers := p.workers.set i .returned }
  | _, task :: tasks =>
    { p with
      locked := false
      workers := p.workers.set i (.running task)
      tasks
      started := p.started ++ [task] }

def push (p : ThreadPool τ) (j : Nat) (task : τ) : ThreadPool τ :=
  if p.stop then { p with locked := false, callers := p.callers.set j (.refused task) }
  else
    { p with
      locked := false
      callers := p.callers.set j (.notifying task)
      tasks := p.tasks ++ [task]
      accepted := p.accepted ++ [task] }

def step (p : ThreadPool τ) : Action τ → Option (ThreadPool τ)
  | .launch => match p.toLaunch with
    | 0 => none
    | n + 1 => some { p with toLaunch := n, workers := p.workers ++ [.locking] }
  | .enqueue task =>
    if p.toLaunch = 0 then some { p with callers := p.callers ++ [.locking task] } else none
  | .lockCaller j => match p.callers[j]? with
    | some (.locking task) =>
      if p.locked then none
      else some { p with locked := true, callers := p.callers.set j (.holding task) }
    | _ => none
  | .push j => match p.callers[j]? with
    | some (.holding task) => some (p.push j task)
    | _ => none
  | .notifyOne j woken => match p.callers[j]? with
    | some (.notifying task) =>
      let q := { p with callers := p.callers.set j (.enqueued task) }
      match woken with
      | some i =>
        if (p.workers[i]?.any Worker.isWaiting) then
          some { q with workers := p.workers.set i .locking }
        else none
      | none => if p.workers.any Worker.isWaiting then none else some q
    | _ => none
  | .lock i => match p.workers[i]? with
    | some .locking =>
      if p.locked then none
      else some { p with locked := true, workers := p.workers.set i .testing }
    | _ => none
  | .test i => match p.workers[i]? with
    | some .testing => some (p.test i)
    | _ => none
  | .wake i => match p.workers[i]? with
    | some .waiting => some { p with workers := p.workers.set i .locking }
    | _ => none
  | .finish i => match p.workers[i]? with
    | some (.running task) =>
      some { p with workers := p.workers.set i .locking, finished := p.finished ++ [task] }
    | _ => none
  | .destroy =>
    if p.toLaunch = 0 ∧ p.destructor = .absent then some { p with destructor := .locking } else none
  | .lockDestructor =>
    if p.destructor = .locking ∧ p.locked = false then
      some { p with locked := true, destructor := .holding }
    else none
  | .setStop =>
    if p.destructor = .holding then
      some { p with locked := false, stop := true, destructor := .notifying }
    else none
  | .notifyAll =>
    if p.destructor = .notifying then
      some { p with workers := p.workers.map Worker.notified, destructor := .joining 0 }
    else none
  | .join => match p.destructor with
    | .joining i => match p.workers[i]? with
      | some .returned => some { p with destructor := .joining (i + 1) }
      | some _ => none
      | none => some { p with destructor := .returned }
    | _ => none

def machine (τ : Type) (threads : Nat) : Machine (ThreadPool τ) (Action τ) := ⟨new τ threads, step⟩

/-- What happens without anybody calling the pool. A spurious wakeup is nobody's step. -/
def Action.own : Action τ → Bool
  | .enqueue _ | .wake _ | .destroy => false
  | _ => true

end ThreadPool

/-- The pool of `AsyncTaskExecutor`, of as many workers as the machine has
hardware threads; 0 stands for a number that is not known. -/
def AsyncTaskExecutor.new (hardwareConcurrency : Nat) : ThreadPool (Unit → Unit) :=
  ThreadPool.new _ hardwareConcurrency

end Ironhide.Model
