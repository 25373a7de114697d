import Ironhide.Proofs.PoolRuns

namespace Ironhide.Proofs.PoolRest
open Model Model.ThreadPool Lib.Machines PoolRuns

variable {τ : Type} {p q : ThreadPool τ} {a : Action τ}

section Wakeups

def isNotifying : Caller τ → Bool
  | .notifying _ => true
  | _ => false

def isLooking : Worker τ → Bool
  | .locking | .testing => true
  | _ => false

/-- While a worker sleeps, every queued task has a worker that comes to look for
it, or a notification that will wake one. -/
def Attended (p : ThreadPool τ) : Prop :=
  .waiting ∈ p.workers →
    p.tasks.length ≤ p.callers.countP isNotifying + p.workers.countP isLooking

theorem waiting_of_set {l : List (Worker τ)} {i : Nat} {w : Worker τ} (h : .waiting ∈ l.set i w)
    (hw : w ≠ .waiting) : .waiting ∈ l := by
  rcases List.mem_or_eq_of_mem_set h with h | h
  · exact h
  · exact absurd h.symm hw

theorem Attended.step (h : Attended p) (hst : Steps p a q) : Attended q := by
  intro hq
  cases hst with
  | launch hn =>
    simp only [List.mem_append, List.mem_singleton, reduceCtorEq, or_false] at hq
    have hp := h hq
    simp only [List.countP_append]
    omega
  | @enqueue task hn =>
    have hp := h hq
    simp only [List.countP_append]
    omega
  | @lockCaller j task hc hl =>
    have hset := countP_set hc isNotifying (.holding task)
    have hp := h hq
    simp only [isNotifying, Bool.false_eq_true, if_false] at hset hp ⊢
    omega
  | @refuse j task hc hs =>
    have hset := countP_set hc isNotifying (.refused task)
    have hp := h hq
    simp only [isNotifying, Bool.false_eq_true, if_false] at hset hp ⊢
    omega
  | @push j task hc hs =>
    have hset := countP_set hc isNotifying (.notifying task)
    have hp := h hq
    simp only [isNotifying, Bool.false_eq_true, if_false, if_true, List.length_append,
      List.length_singleton] at hset hp ⊢
    omega
  | @notifyOne j i task hc hw =>
    have hset := countP_set hc isNotifying (.enqueued task)
    have hset' := countP_set hw isLooking .locking
    have hp := h (waiting_of_set hq (by simp))
    simp only [isNotifying, isLooking, Bool.false_eq_true, if_false, if_true] at hset hset' hp ⊢
    omega
  | notifyNobody hc hw => exact absurd (hw _ hq) (by simp [Worker.isWaiting])
  | lock hw hl =>
    have hset := countP_set hw isLooking .testing
    have hp := h (waiting_of_set hq (by simp))
    simp only [isLooking, if_true] at hset hp ⊢
    omega
  | sleep hw hs ht | leave hw hs ht => simp [ht]
  | @take i task tasks hw ht =>
    have hset := countP_set hw isLooking (.running task)
    have hp := h (waiting_of_set hq (by simp))
    simp only [isLooking, Bool.false_eq_true, if_false, if_true, ht, List.length_cons] at hset hp ⊢
    omega
  | wake hw =>
    have hset := countP_set hw isLooking .locking
    have hp := h (waiting_of_set hq (by simp))
    simp only [isLooking, Bool.false_eq_true, if_false, if_true] at hset hp ⊢
    omega
  | finish hw =>
    have hset := countP_set hw isLooking .locking
    have hp := h (waiting_of_set hq (by simp))
    simp only [isLooking, Bool.false_eq_true, if_false, if_true] at hset hp ⊢
    omega
  | notifyAll hd =>
    obtain ⟨w, _, hw⟩ := List.mem_map.mp hq
    cases w <;> cases hw
  | _ => exact h hq

/-- No wakeup is lost. -/
theorem attended {threads : Nat} (hp : (machine τ threads).Reachable p) : Attended p :=
  reachable_invariant hp (fun h => by cases h) fun _ _ _ h hst => h.step hst

/-- A worker does not sleep on while there is a task nobody comes for: every
queued task has a worker on its way to the queue or a notification under way. -/
theorem no_wakeup_lost {threads : Nat} (hp : (machine τ threads).Reachable p)
    (hw : .waiting ∈ p.workers) :
    p.tasks.length ≤ p.callers.countP isNotifying + p.workers.countP isLooking :=
  attended hp hw

/-- A worker sleeps, and a task is put in. -/
theorem no_wakeup_lost_one_worker : ∃ p, (machine Nat 1).Reachable p ∧ p.workers = [.waiting] ∧
    p.tasks = [5] ∧ p.tasks.length ≤ p.callers.countP isNotifying + p.workers.countP isLooking :=
  have hp : (machine Nat 1).Reachable _ :=
    ⟨[.launch, .lock 0, .test 0, .enqueue 5, .lockCaller 0, .push 0], rfl⟩
  ⟨_, hp, rfl, rfl, no_wakeup_lost hp List.mem_cons_self⟩

end Wakeups

section Stopping

def stopped : Destructor → Bool
  | .notifying | .joining _ | .returned => true
  | _ => false

def awakened : Destructor → Bool
  | .joining _ | .returned => true
  | _ => false

def joined (workers : Nat) : Destructor → Nat
  | .joining i => i
  | .returned => workers
  | _ => 0

/-- How far the pool is on its way from the constructor to the destructor. -/
structure Staged (threads : Nat) (p : ThreadPool τ) : Prop where
  size : p.workers.length + p.toLaunch = threads
  built : p.destructor ≠ .absent → p.toLaunch = 0
  stop : p.stop = stopped p.destructor
  drained : .returned ∈ p.workers → p.stop = true ∧ p.tasks = []
  woken : awakened p.destructor = true → .waiting ∉ p.workers
  joins : ∀ k < joined p.workers.length p.destructor, p.workers[k]? = some .returned

variable {threads : Nat}

/-- What has returned stays as it is when another worker moves. -/
theorem joins_set {l : List (Worker τ)} {i n : Nat} {w : Worker τ} (hw : l[i]? = some w)
    (hne : w ≠ .returned) (w' : Worker τ) (h : ∀ k < n, l[k]? = some .returned) :
    ∀ k < n, (l.set i w')[k]? = some .returned := by
  intro k hk
  have hki : i ≠ k := by
    rintro rfl
    rw [h i hk] at hw
    exact hne (Option.some.inj hw).symm
  rw [List.getElem?_set_ne hki]
  exact h k hk

theorem returned_of_set {l : List (Worker τ)} {i : Nat} {w : Worker τ} (h : .returned ∈ l.set i w)
    (hw : w ≠ .returned) : .returned ∈ l := by
  rcases List.mem_or_eq_of_mem_set h with h | h
  · exact h
  · exact absurd h.symm hw

/-- One worker moves, which neither slept before it was woken nor returns. -/
theorem Staged.moved (h : Staged threads p) {i : Nat} {w : Worker τ}
    (hw : p.workers[i]? = some w) (w' : Worker τ) (hne : w ≠ .returned) (hr : w' ≠ .returned)
    (hs : w' = .waiting → p.stop = false) :
    (p.workers.set i w').length + p.toLaunch = threads ∧
    (.returned ∈ p.workers.set i w' → p.stop = true ∧ p.tasks = []) ∧
    (awakened p.destructor = true → .waiting ∉ p.workers.set i w') ∧
    ∀ k < joined (p.workers.set i w').length p.destructor,
      (p.workers.set i w')[k]? = some .returned := by
  refine ⟨by simpa using h.size, fun hm => h.drained (returned_of_set hm hr), fun ha hm => ?_, ?_⟩
  · rcases List.mem_or_eq_of_mem_set hm with hm | rfl
    · exact h.woken ha hm
    · have hstop := hs rfl
      rw [h.stop] at hstop
      cases hd : p.destructor <;> simp [hd, awakened, stopped] at ha hstop
  · rw [List.length_set]
    exact joins_set hw hne w' h.joins

theorem Staged.step (h : Staged threads p) (hst : Steps p a q) : Staged threads q := by
  cases hst with
  | @launch n hn =>
    have hd : p.destructor = .absent := by
      by_contra hc
      rw [h.built hc] at hn
      cases hn
    refine ⟨?_, ?_, h.stop, ?_, ?_, ?_⟩
    · have hsize := h.size
      simp only [List.length_append, List.length_singleton]
      omega
    · exact fun hc => absurd hd hc
    · intro hm
      simp only [List.mem_append, List.mem_singleton, reduceCtorEq, or_false] at hm
      exact h.drained hm
    · simp [hd, awakened]
    · simp [hd, joined]
  | push hc hs =>
    refine ⟨h.size, h.built, h.stop, fun hm => ?_, h.woken, h.joins⟩
    have hstop := (h.drained hm).1
    rw [hs] at hstop
    cases hstop
  | notifyOne hc hw =>
    obtain ⟨hsize, hdrained, hwoken, hjoins⟩ :=
      h.moved hw .locking (by simp) (by simp) (by simp)
    exact ⟨hsize, h.built, h.stop, hdrained, hwoken, hjoins⟩
  | lock hw hl =>
    obtain ⟨hsize, hdrained, hwoken, hjoins⟩ :=
      h.moved hw .testing (by simp) (by simp) (by simp)
    exact ⟨hsize, h.built, h.stop, hdrained, hwoken, hjoins⟩
  | sleep hw hs ht =>
    obtain ⟨hsize, hdrained, hwoken, hjoins⟩ :=
      h.moved hw .waiting (by simp) (by simp) (fun _ => hs)
    exact ⟨hsize, h.built, h.stop, hdrained, hwoken, hjoins⟩
  | leave hw hs ht =>
    refine ⟨by simpa using h.size, h.built, h.stop, fun _ => ⟨hs, ht⟩, fun ha hm => ?_, ?_⟩
    · exact h.woken ha (waiting_of_set hm (by simp))
    · rw [List.length_set]
      exact joins_set hw (by simp) _ h.joins
  | @take i task tasks hw ht =>
    obtain ⟨hsize, hdrained, hwoken, hjoins⟩ :=
      h.moved hw (.running task) (by simp) (by simp) (by simp)
    refine ⟨hsize, h.built, h.stop, fun hm => ?_, hwoken, hjoins⟩
    have hempty := (hdrained hm).2
    rw [ht] at hempty
    cases hempty
  | wake hw | finish hw =>
    obtain ⟨hsize, hdrained, hwoken, hjoins⟩ :=
      h.moved hw .locking (by simp) (by simp) (by simp)
    exact ⟨hsize, h.built, h.stop, hdrained, hwoken, hjoins⟩
  | destroy hn hd =>
    refine ⟨h.size, fun _ => hn, ?_, h.drained, by simp [awakened], by simp [joined]⟩
    rw [h.stop, hd]
    rfl
  | lockDestructor hd hl =>
    refine ⟨h.size, fun _ => h.built (by simp [hd]), ?_, h.drained, by simp [awakened],
      by simp [joined]⟩
    rw [h.stop, hd]
    rfl
  | setStop hd =>
    refine ⟨h.size, fun _ => h.built (by simp [hd]), rfl, fun hm => ⟨rfl, (h.drained hm).2⟩,
      by simp [awakened], by simp [joined]⟩
  | notifyAll hd =>
    refine ⟨by simpa using h.size, fun _ => h.built (by simp [hd]), ?_, fun hm => ?_, fun _ hm => ?_,
      by simp [joined]⟩
    · rw [h.stop, hd]
      rfl
    · obtain ⟨w, hw, hwr⟩ := List.mem_map.mp hm
      cases w <;> cases hwr
      exact h.drained hw
    · obtain ⟨w, _, hww⟩ := List.mem_map.mp hm
      cases w <;> cases hww
  | @joined i hd hw =>
    refine ⟨h.size, fun _ => h.built (by simp [hd]), ?_, h.drained, fun _ => h.woken (by simp [hd, awakened]),
      fun k hk => ?_⟩
    · rw [h.stop, hd]
      rfl
    · have hjoins := h.joins k
      simp only [PoolRest.joined, hd] at hk hjoins
      rcases Nat.lt_succ_iff_lt_or_eq.mp hk with hk | rfl
      · exact hjoins hk
      · exact hw
  | @joinedAll i hd hw =>
    refine ⟨h.size, fun _ => h.built (by simp [hd]), ?_, h.drained, fun _ => h.woken (by simp [hd, awakened]),
      fun k hk => ?_⟩
    · rw [h.stop, hd]
      rfl
    · have hjoins := h.joins k
      simp only [PoolRest.joined, hd] at hk hjoins
      have hlen := List.getElem?_eq_none_iff.mp hw
      exact hjoins (by omega)
  | _ => exact ⟨h.size, h.built, h.stop, h.drained, h.woken, h.joins⟩

theorem staged (hp : (machine τ threads).Reachable p) : Staged threads p :=
  reachable_invariant hp ⟨by simp [ThreadPool.new], by simp [ThreadPool.new], rfl, by simp [ThreadPool.new],
    by simp [ThreadPool.new, awakened], by simp [ThreadPool.new, joined]⟩ fun _ _ _ h hst => h.step hst

end Stopping

section Rest
variable {threads : Nat}

theorem rest_step (hrest : (machine τ threads).Rest Action.own p) (a : Action τ)
    (ha : a.own = true) : step p a = none := hrest a ha

/-- Whoever has the mutex can go on, so nobody has it. -/
theorem rest_unlocked (hrest : (machine τ threads).Rest Action.own p) (hex : Exclusive p) :
    p.locked = false := by
  by_contra hl
  simp only [Bool.not_eq_false] at hl
  have hin : inside p = 1 := by rw [hex, hl]; rfl
  have htest : p.workers.countP isTesting = 0 := by
    rw [List.countP_eq_zero]
    intro w hw htest
    obtain ⟨i, hi⟩ := List.mem_iff_getElem?.mp hw
    have hnone := rest_step hrest (.test i) rfl
    cases w <;> simp [isTesting] at htest
    simp [step, hi] at hnone
  have hhold : p.callers.countP isHolding = 0 := by
    rw [List.countP_eq_zero]
    intro c hc hhold
    obtain ⟨j, hj⟩ := List.mem_iff_getElem?.mp hc
    have hnone := rest_step hrest (.push j) rfl
    cases c <;> simp [isHolding] at hhold
    simp [step, hj] at hnone
  have hdes : p.destructor ≠ .holding := by
    intro hd
    have hnone := rest_step hrest .setStop rfl
    simp [step, hd] at hnone
  simp [inside, htest, hhold, hdes] at hin

/-- A worker at rest sleeps or is over. -/
theorem rest_worker (hrest : (machine τ threads).Rest Action.own p) (hl : p.locked = false)
    {w : Worker τ} (hw : w ∈ p.workers) : w = .waiting ∨ w = .returned := by
  obtain ⟨i, hi⟩ := List.mem_iff_getElem?.mp hw
  cases w with
  | waiting => exact Or.inl rfl
  | returned => exact Or.inr rfl
  | locking =>
    have hnone := rest_step hrest (.lock i) rfl
    simp [step, hi, hl] at hnone
  | testing =>
    have hnone := rest_step hrest (.test i) rfl
    simp [step, hi] at hnone
  | running task =>
    have hnone := rest_step hrest (.finish i) rfl
    simp [step, hi] at hnone

/-- A call at rest has returned or thrown. -/
theorem rest_caller (hrest : (machine τ threads).Rest Action.own p) (hl : p.locked = false)
    {c : Caller τ} (hc : c ∈ p.callers) :
    (∃ task, c = .enqueued task) ∨ ∃ task, c = .refused task := by
  obtain ⟨j, hj⟩ := List.mem_iff_getElem?.mp hc
  cases c with
  | enqueued task => exact Or.inl ⟨task, rfl⟩
  | refused task => exact Or.inr ⟨task, rfl⟩
  | locking task =>
    have hnone := rest_step hrest (.lockCaller j) rfl
    simp [step, hj, hl] at hnone
  | holding task =>
    have hnone := rest_step hrest (.push j) rfl
    simp [step, hj] at hnone
  | notifying task =>
    by_cases hw : .waiting ∈ p.workers
    · obtain ⟨i, hi⟩ := List.mem_iff_getElem?.mp hw
      have hnone := rest_step hrest (.notifyOne j (some i)) rfl
      simp [step, hj, hi, Worker.isWaiting] at hnone
    · have hnone := rest_step hrest (.notifyOne j none) rfl
      have hany : p.workers.any Worker.isWaiting = false := by
        rw [List.any_eq_false]
        intro w hmem hwait
        exact hw (isWaiting_iff.mp hwait ▸ hmem)
      simp [step, hj, hany] at hnone

/-- A destructor at rest has not been called or has returned. -/
theorem rest_destructor (hrest : (machine τ threads).Rest Action.own p) (hl : p.locked = false)
    (hst : Staged threads p) : p.destructor = .absent ∨ p.destructor = .returned := by
  cases hd : p.destructor with
  | absent => exact Or.inl rfl
  | returned => exact Or.inr rfl
  | locking =>
    have hnone := rest_step hrest .lockDestructor rfl
    simp [step, hd, hl] at hnone
  | holding =>
    have hnone := rest_step hrest .setStop rfl
    simp [step, hd] at hnone
  | notifying =>
    have hnone := rest_step hrest .notifyAll rfl
    simp [step, hd] at hnone
  | joining i =>
    have hnone := rest_step hrest .join rfl
    cases hi : p.workers[i]? with
    | none => simp [step, hd, hi] at hnone
    | some w =>
      have hmem := List.mem_of_getElem? hi
      rcases rest_worker hrest hl hmem with rfl | rfl
      · exact absurd hmem (hst.woken (by rw [hd]; rfl))
      · simp [step, hd, hi] at hnone

theorem all_returned (hst : Staged threads p) (hd : p.destructor = .returned) :
    ∀ w ∈ p.workers, w = .returned := by
  intro w hw
  obtain ⟨k, hk⟩ := List.mem_iff_getElem?.mp hw
  have hlt := (List.getElem?_eq_some_iff.mp hk).1
  have hjoin := hst.joins k (by rw [hd]; exact hlt)
  rw [hk] at hjoin
  exact Option.some.inj hjoin

theorem exists_worker (hst : Staged threads p) (hl : p.toLaunch = 0) (ht : 0 < threads) :
    ∃ w, w ∈ p.workers := by
  have hsize := hst.size
  apply List.exists_mem_of_length_pos
  omega

/-- When nobody runs a task and none is queued, all that was accepted is finished. -/
theorem finished_of_idle (hpl : Placed p) (htasks : p.tasks = [])
    (hidle : ∀ w ∈ p.workers, runs w = none) : p.finished.Perm p.accepted := by
  have hruns : p.workers.filterMap runs = [] := List.filterMap_eq_nil_iff.mpr hidle
  have hstarted := hpl.once
  rw [hruns, List.append_nil] at hstarted
  rw [hpl.order, htasks, List.append_nil]
  exact hstarted.symm

/-- A pool without workers never starts a task. -/
theorem nothing_started (hp : (machine τ 0).Reachable p) : p.started = [] ∧ p.finished = [] := by
  have hinv : Staged 0 p ∧ p.started = [] ∧ p.finished = [] := by
    refine reachable_invariant (I := fun p => Staged 0 p ∧ p.started = [] ∧ p.finished = []) hp
      ⟨staged Machine.reachable_start, rfl, rfl⟩ fun p q a h hst => ?_
    obtain ⟨hs, hstart, hfin⟩ := h
    refine ⟨hs.step hst, ?_⟩
    have hnone (i : Nat) : p.workers[i]? = none := by
      have hsize := hs.size
      rw [List.getElem?_eq_none_iff]
      omega
    cases hst with
    | take hw ht => simp [hnone] at hw
    | finish hw => simp [hnone] at hw
    | _ => exact ⟨hstart, hfin⟩
  exact hinv.2

/-- Where no thread of the pool can go on, every call is over, and the workers
all sleep or have all been joined. The accepted tasks have all been run unless
there are no workers. -/
theorem at_rest (hp : (machine τ threads).Reachable p)
    (hrest : (machine τ threads).Rest Action.own p) :
    (p.finished.Perm p.accepted ↔ 0 < threads ∨ p.accepted = []) ∧
    (∀ c ∈ p.callers, (∃ task, c = .enqueued task) ∨ ∃ task, c = .refused task) ∧
    ((p.destructor = .absent ∧ ∀ w ∈ p.workers, w = .waiting) ∨
      (p.destructor = .returned ∧ ∀ w ∈ p.workers, w = .returned)) := by
  have hl := rest_unlocked hrest (exclusive hp)
  have hst := staged hp
  have hlaunch : p.toLaunch = 0 := by
    have hnone := rest_step hrest .launch rfl
    cases hn : p.toLaunch with
    | zero => rfl
    | succ n => simp [step, hn] at hnone
  have hcallers (c : Caller τ) (hc : c ∈ p.callers) := rest_caller hrest hl hc
  have hend : (p.destructor = .absent ∧ ∀ w ∈ p.workers, w = .waiting) ∨
      (p.destructor = .returned ∧ ∀ w ∈ p.workers, w = .returned) := by
    rcases rest_destructor hrest hl hst with hd | hd
    · refine Or.inl ⟨hd, fun w hw => (rest_worker hrest hl hw).resolve_right ?_⟩
      rintro rfl
      have hstop := (hst.drained hw).1
      rw [hst.stop, hd] at hstop
      cases hstop
    · exact Or.inr ⟨hd, all_returned hst hd⟩
  have hidle (w : Worker τ) (hw : w ∈ p.workers) : runs w = none := by
    rcases rest_worker hrest hl hw with rfl | rfl <;> rfl
  refine ⟨⟨fun hperm => ?_, fun hcase => ?_⟩, hcallers, hend⟩
  · rcases Nat.eq_zero_or_pos threads with rfl | ht
    · right
      rw [(nothing_started hp).2] at hperm
      exact List.nil_perm.mp hperm
    · exact Or.inl ht
  · rcases hcase with ht | hempty
    · refine finished_of_idle (placed hp) ?_ hidle
      obtain ⟨w, hw⟩ := exists_worker hst hlaunch ht
      rcases hend with ⟨_, hall⟩ | ⟨_, hall⟩
      · have hatt := attended hp (hall w hw ▸ hw)
        have hnotify : p.callers.countP isNotifying = 0 := by
          rw [List.countP_eq_zero]
          intro c hc
          rcases hcallers c hc with ⟨task, rfl⟩ | ⟨task, rfl⟩ <;> simp [isNotifying]
        have hlook : p.workers.countP isLooking = 0 := by
          rw [List.countP_eq_zero]
          intro v hv
          rw [hall v hv]
          simp [isLooking]
        rw [hnotify, hlook] at hatt
        exact List.length_eq_zero_iff.mp (Nat.le_zero.mp hatt)
      · exact (hst.drained (hall w hw ▸ hw)).2
    · have hpl := placed hp
      have hstarted := hpl.order
      rw [hempty] at hstarted
      exact finished_of_idle hpl (List.append_eq_nil_iff.mp hstarted.symm).2 hidle

def asleep : ThreadPool Nat where
  toLaunch := 0
  workers := [.waiting]
  tasks := []
  locked := false
  stop := false
  callers := [.enqueued 5]
  destructor := .absent
  accepted := [5]
  started := [5]
  finished := [5]

theorem asleep_reachable : (machine Nat 1).Reachable asleep :=
  ⟨[.launch, .enqueue 5, .lockCaller 0, .push 0, .notifyOne 0 none, .lock 0, .test 0, .finish 0, .lock 0,
    .test 0], rfl⟩

theorem asleep_rest : (machine Nat 1).Rest Action.own asleep := by
  intro a ha
  cases a with
  | enqueue | wake | destroy => cases ha
  | notifyOne j woken => cases j <;> simp [machine, step, asleep]
  | lockCaller n | push n | lock n | test n | finish n => cases n <;> simp [machine, step, asleep]
  | _ => rfl

theorem at_rest_asleep : asleep.finished.Perm asleep.accepted ∧ ∀ w ∈ asleep.workers, w = .waiting :=
  have h := at_rest asleep_reachable asleep_rest
  ⟨h.1.mpr (Or.inl Nat.one_pos), h.2.2.resolve_right (fun hd => by cases hd.1) |>.2⟩

end Rest

end Ironhide.Proofs.PoolRest
