import RobotBrain.Library.Machine
import Mathlib.Data.Fintype.Defs
import Mathlib.Data.Fin.Basic

/-!
# The thread pool

`ThreadPool` with `k` workers and the bound `maxQueue`, under any number of producers and one call
of `shutdown`. A lock section of `enqueue` reads nothing that another thread changes without the
mutex, so it is one step. A worker takes the mutex, evaluates the predicate of its wait, and sleeps
or takes a task in separate steps, since `shutdown` stores `stop_` without the mutex.

A submitted function is opaque: it returns or throws. It is named by the number of the call of
`enqueue` that submitted it, and so is the promise that `enqueue` makes for it.

## Main definitions

* `PoolWorker`, `ThreadPool`, `PoolEvent`, `PoolOutput`.
* `threadPool` — the pool as a machine.

## Main results

* `ThreadPool.stepResult` — what a step can do.
-/

namespace RobotBrain

/-- Where a worker is in its loop. -/
inductive PoolWorker
  /-- About to lock the mutex at the top of the loop. -/
  | ready
  /-- Holds the mutex, about to evaluate the predicate of the wait. -/
  | evaluate
  /-- Holds the mutex and has found the predicate false. -/
  | block
  /-- Asleep on `cv_not_empty_`, without the mutex. -/
  | waiting
  /-- Woken up, about to lock the mutex again. -/
  | notified
  /-- Holds the mutex and has found the predicate true. -/
  | awake
  /-- Runs a task, without the mutex. -/
  | running (task : ℕ)
  /-- The task has returned or thrown, its promise is next. -/
  | settling (task : ℕ) (threw : Bool)
  | exited
  /-- An exception has left the loop, which ends the process. -/
  | killed
  deriving DecidableEq

/-- The shared state of a promise and its future. -/
inductive PromiseState
  /-- No promise has been made for the call. -/
  | absent
  | pending
  | value
  | exception
  deriving DecidableEq

/-- The state that the end of a task gives its promise. -/
def PromiseState.ofOutcome (threw : Bool) : PromiseState :=
  if threw then .exception else .value

/-- Where the caller of `shutdown` is. -/
inductive ShutdownPc
  | idle
  | notifyAll
  | join
  | done
  deriving DecidableEq

/-- The members of `ThreadPool`, the workers, the promises and the caller of `shutdown`. `calls` is
the number of calls of `enqueue` so far. -/
structure ThreadPool (k : ℕ) where
  tasks : List ℕ
  mutex : Option (Fin k)
  stop : Bool
  workers : Fin k → PoolWorker
  promises : ℕ → PromiseState
  shutdown : ShutdownPc
  calls : ℕ

/-- The inputs of the pool. -/
inductive PoolEvent (k : ℕ)
  /-- A call of `enqueue`; the sleeping worker that its `notify_one` wakes up, if any. -/
  | enqueue (wakes : Option (Fin k))
  /-- The next step of a worker; `throws` says whether the task that it runs throws. -/
  | worker (i : Fin k) (throws : Bool)
  /-- A worker wakes up without a notification. -/
  | spurious (i : Fin k)
  /-- The next step of `shutdown`. -/
  | shutdown

/-- The observable actions of the pool. -/
inductive PoolOutput (k : ℕ)
  | accepted (task : ℕ)
  /-- `enqueue` returns `nullopt`. -/
  | rejected (task : ℕ)
  /-- A worker takes a task from the queue and runs it. -/
  | taken (i : Fin k) (task : ℕ)
  /-- The promise of a task has been set, to an exception if the task has thrown. -/
  | completed (i : Fin k) (task : ℕ) (threw : Bool)
  deriving DecidableEq

namespace ThreadPool

variable {k : ℕ} {maxQueue : ℕ}

/-- The pool after its constructor. -/
def initial (k : ℕ) : ThreadPool k where
  tasks := []
  mutex := none
  stop := false
  workers := fun _ => .ready
  promises := fun _ => .absent
  shutdown := .idle
  calls := 0

/-- A worker moves on. -/
def setWorker (i : Fin k) (pc : PoolWorker) (s : ThreadPool k) : ThreadPool k :=
  { s with workers := Function.update s.workers i pc }

@[simp] theorem setWorker_workers_self (i : Fin k) (pc : PoolWorker) (s : ThreadPool k) :
    (s.setWorker i pc).workers i = pc := by
  simp only [setWorker, Function.update_self]

theorem setWorker_workers_of_ne {i j : Fin k} (h : j ≠ i) (pc : PoolWorker) (s : ThreadPool k) :
    (s.setWorker i pc).workers j = s.workers j := by
  simp only [setWorker, ne_eq, h, not_false_eq_true, Function.update_of_ne]

/-- The promise of a task changes. -/
def setPromise (task : ℕ) (p : PromiseState) (s : ThreadPool k) : ThreadPool k :=
  { s with promises := Function.update s.promises task p }

@[simp] theorem setPromise_promises_self (task : ℕ) (p : PromiseState) (s : ThreadPool k) :
    (s.setPromise task p).promises task = p := by
  simp only [setPromise, Function.update_self]

theorem setPromise_promises_of_ne {task task' : ℕ} (h : task' ≠ task) (p : PromiseState)
    (s : ThreadPool k) : (s.setPromise task p).promises task' = s.promises task' := by
  simp only [setPromise, ne_eq, h, not_false_eq_true, Function.update_of_ne]

/-- A worker locks the mutex. -/
def lock (i : Fin k) (s : ThreadPool k) : ThreadPool k :=
  { s with mutex := some i }

/-- The mutex is unlocked. -/
def unlock (s : ThreadPool k) : ThreadPool k :=
  { s with mutex := none }

/-- `cv_not_empty_.notify_one()`: it wakes up a sleeping worker if there is one. -/
def notifyOne (wakes : Option (Fin k)) (s : ThreadPool k) : Option (ThreadPool k) :=
  match wakes with
  | some i => if s.workers i = .waiting then some (s.setWorker i .notified) else none
  | none => if ∀ i, s.workers i ≠ .waiting then some s else none

/-- A notification wakes up one worker, or none if none sleeps. -/
theorem notifyOne_cases {wakes : Option (Fin k)} {s s' : ThreadPool k}
    (h : s.notifyOne wakes = some s') :
    s' = s ∨ ∃ i, s.workers i = .waiting ∧ s' = s.setWorker i .notified := by
  unfold notifyOne at h
  cases wakes with
  | none =>
    dsimp only at h
    split_ifs at h
    exact Or.inl (Option.some.inj h).symm
  | some i =>
    dsimp only at h
    split_ifs at h with hwaiting
    exact Or.inr ⟨i, hwaiting, (Option.some.inj h).symm⟩

/-- `cv_not_empty_.notify_all()`. -/
def notifyAll (s : ThreadPool k) : ThreadPool k :=
  { s with
    workers := fun i => if s.workers i = .waiting then .notified else s.workers i }

/-- The call is refused. -/
def refuse (s : ThreadPool k) : ThreadPool k :=
  { s with calls := s.calls + 1 }

/-- A promise is made and the task is put at the end of the queue. -/
def emplace (s : ThreadPool k) : ThreadPool k :=
  { s.setPromise s.calls .pending with
    tasks := s.tasks ++ [s.calls]
    calls := s.calls + 1 }

/-- `ThreadPool::enqueue`. -/
def enqueue (maxQueue : ℕ) (wakes : Option (Fin k)) (s : ThreadPool k) :
    Option (ThreadPool k × List (PoolOutput k)) :=
  match s.mutex with
  | some _ => none
  | none =>
    if maxQueue ≤ s.tasks.length then
      if wakes = none then some (s.refuse, [.rejected s.calls]) else none
    else (s.emplace.notifyOne wakes).map fun s' => (s', [.accepted s.calls])

/-- The end of the function that `enqueue` wraps around a task. Setting a promise that is not
pending throws, once from the task and once more from the handler. -/
def settle (i : Fin k) (task : ℕ) (threw : Bool) (s : ThreadPool k) :
    ThreadPool k × List (PoolOutput k) :=
  if s.promises task = .pending then
    ((s.setPromise task (.ofOutcome threw)).setWorker i .ready,
      [.completed i task threw])
  else (s.setWorker i .killed, [])

/-- The next step of a worker. `front()` of an empty queue, undefined in the source, gives none. -/
def workerStep (i : Fin k) (throws : Bool) (s : ThreadPool k) :
    Option (ThreadPool k × List (PoolOutput k)) :=
  match s.workers i with
  | .ready | .notified =>
    if s.mutex = none then some ((s.lock i).setWorker i .evaluate, []) else none
  | .evaluate =>
    let pc : PoolWorker := if s.stop = true ∨ s.tasks ≠ [] then .awake else .block
    some (s.setWorker i pc, [])
  | .block => some (s.unlock.setWorker i .waiting, [])
  | .waiting => none
  | .awake =>
    if s.stop = true ∧ s.tasks = [] then some (s.unlock.setWorker i .exited, [])
    else
      match s.tasks with
      | [] => none
      | task :: rest =>
        some (({ s with tasks := rest }.unlock).setWorker i (.running task), [.taken i task])
  | .running task => some (s.setWorker i (.settling task throws), [])
  | .settling task threw => some (s.settle i task threw)
  | .exited | .killed => none

/-- The next step of `shutdown`. -/
def shutdownStep (s : ThreadPool k) : Option (ThreadPool k) :=
  match s.shutdown with
  | .idle => some { s with stop := true, shutdown := .notifyAll }
  | .notifyAll => some { s.notifyAll with shutdown := .join }
  | .join => if ∀ i, s.workers i = .exited then some { s with shutdown := .done } else none
  | .done => none

/-- One step of the pool. -/
def step (maxQueue : ℕ) (s : ThreadPool k) :
    PoolEvent k → Option (ThreadPool k × List (PoolOutput k))
  | .enqueue wakes => s.enqueue maxQueue wakes
  | .worker i throws => s.workerStep i throws
  | .spurious i => if s.workers i = .waiting then some (s.setWorker i .notified, []) else none
  | .shutdown => s.shutdownStep.map fun s' => (s', [])

/-! ### What a step can do -/

/-- The results of the accesses of a worker: its place in the loop before, and the result. -/
inductive WorkerResult (s : ThreadPool k) (i : Fin k) :
    PoolWorker → ThreadPool k × List (PoolOutput k) → Prop
  | lock {pc : PoolWorker} (hpc : pc = .ready ∨ pc = .notified) (hfree : s.mutex = none) :
      WorkerResult s i pc ((s.lock i).setWorker i .evaluate, [])
  | found (h : s.stop = true ∨ s.tasks ≠ []) :
      WorkerResult s i .evaluate (s.setWorker i .awake, [])
  | nothing (hstop : s.stop = false) (htasks : s.tasks = []) :
      WorkerResult s i .evaluate (s.setWorker i .block, [])
  | sleep : WorkerResult s i .block (s.unlock.setWorker i .waiting, [])
  | exit (hstop : s.stop = true) (htasks : s.tasks = []) :
      WorkerResult s i .awake (s.unlock.setWorker i .exited, [])
  | take {task : ℕ} {rest : List ℕ} (htasks : s.tasks = task :: rest) :
      WorkerResult s i .awake
        (({ s with tasks := rest }.unlock).setWorker i (.running task), [.taken i task])
  | ran (task : ℕ) (throws : Bool) :
      WorkerResult s i (.running task) (s.setWorker i (.settling task throws), [])
  | settled {task : ℕ} (threw : Bool) (hpending : s.promises task = .pending) :
      WorkerResult s i (.settling task threw)
        ((s.setPromise task (.ofOutcome threw)).setWorker i .ready,
          [.completed i task threw])
  | killed {task : ℕ} (threw : Bool) (hset : s.promises task ≠ .pending) :
      WorkerResult s i (.settling task threw) (s.setWorker i .killed, [])

/-- The results of a step. -/
inductive StepResult (maxQueue : ℕ) (s : ThreadPool k) :
    PoolEvent k → ThreadPool k × List (PoolOutput k) → Prop
  | rejected (hfree : s.mutex = none) (hfull : maxQueue ≤ s.tasks.length) :
      StepResult maxQueue s (.enqueue none) (s.refuse, [.rejected s.calls])
  | accepted {wakes : Option (Fin k)} {s' : ThreadPool k} (hfree : s.mutex = none)
      (hroom : s.tasks.length < maxQueue) (hnotify : s.emplace.notifyOne wakes = some s') :
      StepResult maxQueue s (.enqueue wakes) (s', [.accepted s.calls])
  | worker {i : Fin k} {throws : Bool} {pc : PoolWorker}
      {r : ThreadPool k × List (PoolOutput k)} (hpc : s.workers i = pc)
      (h : WorkerResult s i pc r) : StepResult maxQueue s (.worker i throws) r
  | spurious {i : Fin k} (hpc : s.workers i = .waiting) :
      StepResult maxQueue s (.spurious i) (s.setWorker i .notified, [])
  | stop (hpc : s.shutdown = .idle) :
      StepResult maxQueue s .shutdown ({ s with stop := true, shutdown := .notifyAll }, [])
  | notifyAll (hpc : s.shutdown = .notifyAll) :
      StepResult maxQueue s .shutdown ({ s.notifyAll with shutdown := .join }, [])
  | joined (hpc : s.shutdown = .join) (hexited : ∀ i, s.workers i = .exited) :
      StepResult maxQueue s .shutdown ({ s with shutdown := .done }, [])

private theorem enqueueResult {s : ThreadPool k} {wakes : Option (Fin k)}
    {r : ThreadPool k × List (PoolOutput k)} (h : s.enqueue maxQueue wakes = some r) :
    StepResult maxQueue s (.enqueue wakes) r := by
  unfold enqueue at h
  cases hmutex : s.mutex with
  | some i => simp [hmutex] at h
  | none =>
    rw [hmutex] at h
    dsimp only at h
    split_ifs at h with hfull hwakes
    · obtain rfl := Option.some.inj h
      rw [hwakes]
      exact .rejected hmutex hfull
    · obtain ⟨s', hnotify, rfl⟩ := Option.map_eq_some_iff.mp h
      exact .accepted hmutex (not_le.mp hfull) hnotify

private theorem workerResult {s : ThreadPool k} {i : Fin k} {throws : Bool}
    {r : ThreadPool k × List (PoolOutput k)} (h : s.workerStep i throws = some r) :
    WorkerResult s i (s.workers i) r := by
  unfold workerStep at h
  cases hpc : s.workers i with
  | ready | notified =>
    simp only [hpc] at h
    split_ifs at h with hfree
    obtain rfl := Option.some.inj h
    exact .lock (by simp) hfree
  | evaluate =>
    simp only [hpc] at h
    obtain rfl := Option.some.inj h
    split_ifs with hfound
    · exact .found hfound
    · rw [not_or, not_not] at hfound
      exact .nothing (Bool.eq_false_iff.mpr hfound.1) hfound.2
  | awake =>
    simp only [hpc] at h
    split_ifs at h with hexit
    · obtain rfl := Option.some.inj h
      exact .exit hexit.1 hexit.2
    · cases htasks : s.tasks with
      | nil => simp [htasks] at h
      | cons task rest =>
        simp only [htasks] at h
        obtain rfl := Option.some.inj h
        exact .take htasks
  | settling task threw =>
    simp only [hpc, settle] at h
    split_ifs at h with hpending
    · obtain rfl := Option.some.inj h
      exact .settled threw hpending
    · obtain rfl := Option.some.inj h
      exact .killed threw hpending
  | block =>
    simp only [hpc] at h
    obtain rfl := Option.some.inj h
    exact .sleep
  | running task =>
    simp only [hpc] at h
    obtain rfl := Option.some.inj h
    exact .ran task throws
  | waiting | exited | killed => simp [hpc] at h

theorem stepResult {s : ThreadPool k} {e : PoolEvent k}
    {r : ThreadPool k × List (PoolOutput k)} (h : s.step maxQueue e = some r) :
    StepResult maxQueue s e r := by
  cases e with
  | enqueue wakes => exact enqueueResult h
  | worker i throws => exact .worker rfl (workerResult h)
  | spurious i =>
    simp only [step] at h
    split_ifs at h with hpc
    obtain rfl := Option.some.inj h
    exact .spurious hpc
  | shutdown =>
    obtain ⟨s', hs', rfl⟩ := Option.map_eq_some_iff.mp h
    unfold shutdownStep at hs'
    cases hpc : s.shutdown with
    | idle =>
      rw [hpc] at hs'
      obtain rfl := Option.some.inj hs'
      exact .stop hpc
    | notifyAll =>
      rw [hpc] at hs'
      obtain rfl := Option.some.inj hs'
      exact .notifyAll hpc
    | join =>
      simp only [hpc] at hs'
      split_ifs at hs' with hexited
      obtain rfl := Option.some.inj hs'
      exact .joined hpc hexited
    | done => simp [hpc] at hs'

/-- Before `shutdown` is called no worker leaves the loop. -/
theorem StepResult.not_exited {s : ThreadPool k} {e : PoolEvent k}
    {r : ThreadPool k × List (PoolOutput k)} (h : StepResult maxQueue s e r) (he : e ≠ .shutdown)
    (hI : s.stop = false ∧ ∀ i, s.workers i ≠ .exited) :
    r.1.stop = false ∧ ∀ i, r.1.workers i ≠ .exited := by
  obtain ⟨hstop, hrunning⟩ := hI
  have hset {i : Fin k} {pc : PoolWorker} (hpc : pc ≠ .exited) (j : Fin k) :
      Function.update s.workers i pc j ≠ .exited := by
    rw [Function.update_apply]
    split_ifs
    · exact hpc
    · exact hrunning j
  cases h with
  | rejected => exact ⟨hstop, hrunning⟩
  | accepted _ _ hnotify =>
    obtain rfl | ⟨i, -, rfl⟩ := notifyOne_cases hnotify
    · exact ⟨hstop, hrunning⟩
    · exact ⟨hstop, hset (by decide)⟩
  | worker _ h =>
    cases h with
    | exit hstop' => cases hstop.symm.trans hstop'
    | lock | found | nothing | sleep | take | ran | settled | killed =>
      exact ⟨hstop, hset fun h => (by cases h)⟩
  | spurious => exact ⟨hstop, hset (by decide)⟩
  | stop | notifyAll | joined => exact absurd rfl he

/-! ### Steps in a row -/

/-- A worker at the top of its loop locks the mutex, finds the queue not empty and takes a task. -/
theorem workerSteps_take {s : ThreadPool k} {i : Fin k} {task : ℕ} {rest : List ℕ}
    (hfree : s.mutex = none) (hpc : s.workers i = .ready) (htasks : s.tasks = task :: rest)
    (throws : Bool) : ∃ s₁ s₂, s.workerStep i throws = some (s₁, []) ∧
      s₁.workerStep i throws = some (s₂, []) ∧ s₂.workerStep i throws =
        some ({ s with tasks := rest }.setWorker i (.running task), [.taken i task]) := by
  let s₁ := (s.lock i).setWorker i .evaluate
  let s₂ := s₁.setWorker i .awake
  have hevaluate : s₁.workers i = .evaluate := setWorker_workers_self ..
  have hawake : s₂.workers i = .awake := setWorker_workers_self ..
  have hne : s₁.tasks ≠ [] := htasks ▸ List.cons_ne_nil _ _
  have htasks' : s₂.tasks = task :: rest := htasks
  have hafter : { s₂ with tasks := rest }.unlock.setWorker i (.running task) =
      { s with tasks := rest }.setWorker i (.running task) := by
    simp only [s₂, s₁, setWorker, lock, unlock, Function.update_idem, hfree]
  refine ⟨s₁, s₂, ?_, ?_, ?_⟩
  · simp only [workerStep, hpc, hfree, if_true, s₁]
  · simp only [workerStep, hevaluate, hne, ne_eq, not_false_eq_true, or_true, if_true, s₂]
  · simp only [workerStep, hawake, htasks', reduceCtorEq, and_false, if_false, hafter]

/-- A task ends, and the worker sets its promise. -/
theorem workerSteps_settle {s : ThreadPool k} {i : Fin k} {task : ℕ}
    (hpc : s.workers i = .running task) (hpending : s.promises task = .pending) (threw : Bool) :
    ∃ s₁, s.workerStep i threw = some (s₁, []) ∧ s₁.workerStep i threw =
      some ((s.setPromise task (.ofOutcome threw)).setWorker i .ready,
        [.completed i task threw]) := by
  let s₁ := s.setWorker i (.settling task threw)
  have hsettling : s₁.workers i = .settling task threw := setWorker_workers_self ..
  have hpending' : s₁.promises task = .pending := hpending
  have hafter : (s₁.setPromise task (.ofOutcome threw)).setWorker i .ready =
      (s.setPromise task (.ofOutcome threw)).setWorker i .ready := by
    simp only [s₁, setWorker, setPromise, Function.update_idem]
  refine ⟨s₁, ?_, ?_⟩
  · simp only [workerStep, hpc, s₁]
  · simp only [workerStep, hsettling, settle, hpending', if_true, hafter]

end ThreadPool

/-- The thread pool as a machine. -/
def threadPool (k maxQueue : ℕ) : Machine (ThreadPool k) (PoolEvent k) (PoolOutput k) where
  init := ThreadPool.initial k
  step s e := s.step maxQueue e

end RobotBrain
