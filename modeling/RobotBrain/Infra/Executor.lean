import RobotBrain.Infra.QueueDiscipline

/-!
# The thread pool as an executor

To its callers the pool is an executor: a bounded queue and, for each worker, the task that it
holds. There is no mutex in it, no wait, no promise and no shutdown, and each of its steps is
observed. The pool has the same traces: whatever its threads do, they can be seen to do nothing that
the executor does not do in one step after another, and everything that the executor can do can be
seen of the pool under some interleaving.

## Main definitions

* `Executor`, `ExecutorEvent`, `executor` — the executor as a machine.
* `Executor.Abstracts` — the executor that a state of the pool stands for.
* `Executor.Schedules` — a state of the pool in which every worker is at the top of its loop or runs
  a task.

## Main results

* `Executor.exists_run_of_pool`, `Executor.exists_run_of_executor` — the two directions.
* `pool_traces_iff` — the traces of the pool are those of the executor.
* `single_worker_serial` — a pool with a single worker completes the tasks in order.
-/

namespace RobotBrain

variable {k : ℕ}

/-- A bounded queue of tasks and what the workers hold. -/
structure Executor (k : ℕ) where
  queue : List ℕ
  held : Fin k → Option ℕ
  calls : ℕ

/-- The inputs of the executor. -/
inductive ExecutorEvent (k : ℕ)
  | submit
  | take (i : Fin k)
  | finish (i : Fin k) (threw : Bool)

namespace Executor

/-- The executor with an empty queue. -/
def initial (k : ℕ) : Executor k where
  queue := []
  held := fun _ => none
  calls := 0

/-- A task is put at the end of the queue, or refused if the queue is full. -/
def submit (maxQueue : ℕ) (t : Executor k) : Executor k × List (PoolOutput k) :=
  if t.queue.length < maxQueue then
    ({ t with queue := t.queue ++ [t.calls], calls := t.calls + 1 }, [.accepted t.calls])
  else ({ t with calls := t.calls + 1 }, [.rejected t.calls])

/-- A worker without a task takes the first one of the queue. -/
def take (i : Fin k) (t : Executor k) : Option (Executor k × List (PoolOutput k)) :=
  match t.held i, t.queue with
  | none, task :: rest =>
    some ({ t with queue := rest, held := Function.update t.held i (some task) }, [.taken i task])
  | _, _ => none

/-- A worker is done with its task. -/
def finish (i : Fin k) (threw : Bool) (t : Executor k) :
    Option (Executor k × List (PoolOutput k)) :=
  (t.held i).map fun task =>
    ({ t with held := Function.update t.held i none }, [.completed i task threw])

/-- One step of the executor. -/
def step (maxQueue : ℕ) (t : Executor k) :
    ExecutorEvent k → Option (Executor k × List (PoolOutput k))
  | .submit => some (t.submit maxQueue)
  | .take i => t.take i
  | .finish i threw => t.finish i threw

end Executor

/-- The executor as a machine. -/
def executor (k maxQueue : ℕ) : Machine (Executor k) (ExecutorEvent k) (PoolOutput k) where
  init := Executor.initial k
  step t e := t.step maxQueue e

namespace Executor

variable {maxQueue : ℕ} {s s' : ThreadPool k} {t t' : Executor k}

/-! ### The pool does nothing else -/

/-- The executor that a state of the pool stands for. -/
structure Abstracts (s : ThreadPool k) (t : Executor k) : Prop where
  queue : t.queue = s.tasks
  held : ∀ i, t.held i = (s.workers i).task
  calls : t.calls = s.calls

/-- A worker that moves on with its task, or without one, is not seen. -/
theorem Abstracts.congr (h : Abstracts s t) (htasks : s'.tasks = s.tasks)
    (hworkers : ∀ i, (s'.workers i).task = (s.workers i).task) (hcalls : s'.calls = s.calls) :
    Abstracts s' t :=
  ⟨h.queue.trans htasks.symm, fun i => (h.held i).trans (hworkers i).symm,
    h.calls.trans hcalls.symm⟩

theorem Abstracts.setWorker (h : Abstracts s t) {i : Fin k} {pc : PoolWorker}
    (htask : pc.task = (s.workers i).task) : Abstracts (s.setWorker i pc) t := by
  refine h.congr rfl (fun j => ?_) rfl
  by_cases hj : j = i
  · subst hj
    rw [ThreadPool.setWorker_workers_self, htask]
  · rw [ThreadPool.setWorker_workers_of_ne hj]

/-- What a worker holds changes on both sides. -/
theorem Abstracts.update (h : Abstracts s t) (i : Fin k) (pc : PoolWorker) :
    Abstracts (s.setWorker i pc) { t with held := Function.update t.held i pc.task } := by
  refine ⟨h.queue, fun j => ?_, h.calls⟩
  by_cases hj : j = i
  · subst hj
    rw [ThreadPool.setWorker_workers_self]
    exact Function.update_self ..
  · rw [ThreadPool.setWorker_workers_of_ne hj]
    exact (Function.update_of_ne hj ..).trans (h.held j)

/-- The executor takes no step. -/
private theorem leads_refl (t : Executor k) : (executor k maxQueue).Leads t t [] :=
  ⟨[], rfl⟩

private theorem Abstracts.worker (h : Abstracts s t) {tr : List (PoolOutput k)}
    (hI : s.QueueInv maxQueue tr) {i : Fin k} {pc : PoolWorker}
    {r : ThreadPool k × List (PoolOutput k)} (hpc : s.workers i = pc)
    (hr : ThreadPool.WorkerResult s i pc r) :
    ∃ t', (executor k maxQueue).Leads t t' r.2 ∧ Abstracts r.1 t' := by
  have hheld : t.held i = pc.task := (h.held i).trans (congrArg PoolWorker.task hpc)
  have htask : ∀ {pc' : PoolWorker}, pc'.task = pc.task → pc'.task = (s.workers i).task :=
    fun h => h.trans (congrArg PoolWorker.task hpc).symm
  cases hr with
  | lock hpc' =>
    have hnone : pc.task = none := by rcases hpc' with rfl | rfl <;> rfl
    have hlock : Abstracts (s.lock i) t := h.congr rfl (fun _ => rfl) rfl
    exact ⟨t, leads_refl t, hlock.setWorker (htask (hnone.symm ▸ rfl))⟩
  | found | nothing => exact ⟨t, leads_refl t, h.setWorker (htask rfl)⟩
  | sleep | exit =>
    have hunlock : Abstracts s.unlock t := h.congr rfl (fun _ => rfl) rfl
    exact ⟨t, leads_refl t, hunlock.setWorker (htask rfl)⟩
  | @take task rest htasks =>
    have hqueue : t.queue = task :: rest := h.queue.trans htasks
    have hstep : (executor k maxQueue).step t (.take i) = some ({ t with
        queue := rest, held := Function.update t.held i (some task) }, [.taken i task]) := by
      simp only [executor, step, Executor.take, hheld, hqueue, PoolWorker.task]
    have hrest : Abstracts ({ s with tasks := rest }.unlock) { t with queue := rest } :=
      ⟨rfl, h.held, h.calls⟩
    exact ⟨_, Machine.leads_of_step hstep, hrest.update i (.running task)⟩
  | ran task throws => exact ⟨t, leads_refl t, h.setWorker (htask rfl)⟩
  | @settled task threw =>
    have hstep : (executor k maxQueue).step t (.finish i threw) = some ({ t with
        held := Function.update t.held i none }, [.completed i task threw]) := by
      simp only [executor, step, Executor.finish, hheld, PoolWorker.task, Option.map_some]
    have hset : Abstracts (s.setPromise task (.ofOutcome threw)) t :=
      h.congr rfl (fun _ => rfl) rfl
    exact ⟨_, Machine.leads_of_step hstep, hset.update i .ready⟩
  | killed threw hset =>
    exact absurd (hI.pending_of_held (congrArg PoolWorker.task hpc)) hset

/-- A step of the pool is none of the executor, or one. -/
theorem Abstracts.step (h : Abstracts s t) {tr : List (PoolOutput k)}
    (hI : s.QueueInv maxQueue tr) {e : PoolEvent k} {r : ThreadPool k × List (PoolOutput k)}
    (hr : ThreadPool.StepResult maxQueue s e r) :
    ∃ t', (executor k maxQueue).Leads t t' r.2 ∧ Abstracts r.1 t' := by
  cases hr with
  | rejected _ hfull =>
    have hstep : (executor k maxQueue).step t .submit =
        some ({ t with calls := t.calls + 1 }, [.rejected s.calls]) := by
      have hfull' : ¬t.queue.length < maxQueue := by rw [h.queue]; omega
      simp only [executor, Executor.step, submit, if_neg hfull', h.calls]
    exact ⟨_, Machine.leads_of_step hstep, h.queue, h.held, congrArg (· + 1) h.calls⟩
  | accepted _ hroom hnotify =>
    have hstep : (executor k maxQueue).step t .submit = some ({ t with
        queue := t.queue ++ [t.calls], calls := t.calls + 1 }, [.accepted s.calls]) := by
      have hroom' : t.queue.length < maxQueue := by rwa [h.queue]
      simp only [executor, Executor.step, submit, if_pos hroom', h.calls]
    have hemplace : Abstracts s.emplace { t with
        queue := t.queue ++ [t.calls], calls := t.calls + 1 } :=
      ⟨by rw [h.queue, h.calls]; rfl, h.held, congrArg (· + 1) h.calls⟩
    refine ⟨_, Machine.leads_of_step hstep, ?_⟩
    rcases ThreadPool.notifyOne_cases hnotify with rfl | ⟨i, hwaiting, rfl⟩
    · exact hemplace
    · exact hemplace.setWorker (congrArg PoolWorker.task hwaiting).symm
  | worker hpc hr => exact h.worker hI hpc hr
  | spurious hpc =>
    exact ⟨t, leads_refl t, h.setWorker (congrArg PoolWorker.task hpc).symm⟩
  | stop | joined => exact ⟨t, leads_refl t, h.congr rfl (fun _ => rfl) rfl⟩
  | notifyAll =>
    refine ⟨t, leads_refl t, h.congr rfl (fun i => ?_) rfl⟩
    show (if s.workers i = .waiting then PoolWorker.notified else s.workers i).task = _
    split_ifs with hwaiting
    · exact (congrArg PoolWorker.task hwaiting).symm
    · rfl

/-- Every trace of the pool is one of the executor. -/
theorem exists_run_of_pool {es : List (PoolEvent k)} {tr : List (PoolOutput k)}
    (h : (threadPool k maxQueue).Run es s tr) :
    ∃ es' t, (executor k maxQueue).Run es' t tr ∧ Abstracts s t := by
  have hinit : Abstracts (ThreadPool.initial k) (initial k) := ⟨rfl, fun _ => rfl, rfl⟩
  induction h with
  | init => exact ⟨[], _, .init, hinit⟩
  | step h _ hs ih =>
    obtain ⟨es', t, hexec, habs⟩ := ih
    obtain ⟨t', ⟨es'', hfollow⟩, habs'⟩ :=
      habs.step (ThreadPool.queueInv_of_reaches h) (ThreadPool.stepResult hs)
    exact ⟨es' ++ es'', t', hexec.follow hfollow, habs'⟩

/-! ### The pool does all of it -/

/-- No worker is in a lock section or waits: each is at the top of its loop or runs its task. -/
structure Schedules (s : ThreadPool k) (t : Executor k) : Prop where
  mutex : s.mutex = none
  tasks : s.tasks = t.queue
  workers : ∀ i, s.workers i = (t.held i).elim .ready .running
  calls : s.calls = t.calls

theorem Schedules.workers_of_none (h : Schedules s t) {i : Fin k} (hi : t.held i = none) :
    s.workers i = .ready := by
  rw [h.workers, hi]
  rfl

theorem Schedules.workers_of_some (h : Schedules s t) {i : Fin k} {task : ℕ}
    (hi : t.held i = some task) : s.workers i = .running task := by
  rw [h.workers, hi]
  rfl

theorem Schedules.workers_ne_waiting (h : Schedules s t) (i : Fin k) : s.workers i ≠ .waiting := by
  cases hi : t.held i with
  | none => simp [h.workers_of_none hi]
  | some task => simp [h.workers_of_some hi]

/-- What a worker holds changes on both sides. -/
theorem Schedules.update (h : Schedules s t) {i : Fin k} {held : Option ℕ} {queue : List ℕ}
    (hworkers : s'.workers = Function.update s.workers i (held.elim .ready .running))
    (hmutex : s'.mutex = none) (htasks : s'.tasks = queue) (hcalls : s'.calls = s.calls) :
    Schedules s' { t with queue := queue, held := Function.update t.held i held } := by
  refine ⟨hmutex, htasks, fun j => ?_, hcalls.trans h.calls⟩
  dsimp only
  rw [hworkers]
  by_cases hj : j = i
  · subst hj
    rw [Function.update_self, Function.update_self]
  · rw [Function.update_of_ne hj, Function.update_of_ne hj, h.workers]

private theorem Schedules.submit (h : Schedules s t) (maxQueue : ℕ) :
    ∃ s', (threadPool k maxQueue).Leads s s' (t.submit maxQueue).2 ∧
      Schedules s' (t.submit maxQueue).1 := by
  have hnotify : s.emplace.notifyOne none = some s.emplace :=
    if_pos fun i => h.workers_ne_waiting i
  by_cases hroom : t.queue.length < maxQueue
  · have hfull : ¬maxQueue ≤ s.tasks.length := by rw [h.tasks]; omega
    have hstep : (threadPool k maxQueue).step s (.enqueue none) =
        some (s.emplace, [.accepted s.calls]) := by
      simp only [threadPool, ThreadPool.step, ThreadPool.enqueue, h.mutex, if_neg hfull, hnotify,
        Option.map_some]
    rw [Executor.submit, if_pos hroom]
    refine ⟨s.emplace, ⟨[.enqueue none], ?_⟩, h.mutex, ?_, h.workers, congrArg (· + 1) h.calls⟩
    · simp only [Machine.follow, hstep, Option.map_some, List.append_nil, h.calls]
    · show s.tasks ++ [s.calls] = t.queue ++ [t.calls]
      rw [h.tasks, h.calls]
  · have hfull : maxQueue ≤ s.tasks.length := by rw [h.tasks]; omega
    have hstep : (threadPool k maxQueue).step s (.enqueue none) =
        some (s.refuse, [.rejected s.calls]) := by
      simp only [threadPool, ThreadPool.step, ThreadPool.enqueue, h.mutex, if_pos hfull, if_true]
    rw [Executor.submit, if_neg hroom]
    refine ⟨s.refuse, ⟨[.enqueue none], ?_⟩, h.mutex, h.tasks, h.workers,
      congrArg (· + 1) h.calls⟩
    simp only [Machine.follow, hstep, Option.map_some, List.append_nil, h.calls]

/-- The worker locks the mutex, finds the queue not empty and takes the task. -/
private theorem Schedules.take (h : Schedules s t) {i : Fin k} {task : ℕ} {rest : List ℕ}
    (hi : t.held i = none) (hqueue : t.queue = task :: rest) :
    ∃ s', (threadPool k maxQueue).Leads s s' [.taken i task] ∧
      Schedules s' { t with queue := rest, held := Function.update t.held i (some task) } := by
  obtain ⟨s₁, s₂, hlock, hfound, htake⟩ := ThreadPool.workerSteps_take h.mutex
    (h.workers_of_none hi) (h.tasks.trans hqueue) false
  refine ⟨{ s with tasks := rest }.setWorker i (.running task),
    ⟨[.worker i false, .worker i false, .worker i false], ?_⟩, h.update rfl h.mutex rfl rfl⟩
  simp only [Machine.follow, threadPool, ThreadPool.step, hlock, hfound, htake, Option.map_some,
    List.nil_append, List.append_nil]

/-- The task of the worker ends and its promise is set, which is pending. -/
private theorem Schedules.finish (h : Schedules s t) {tr : List (PoolOutput k)}
    (hI : s.QueueInv maxQueue tr) {i : Fin k} {task : ℕ} (hi : t.held i = some task)
    (threw : Bool) : ∃ s', (threadPool k maxQueue).Leads s s' [.completed i task threw] ∧
      Schedules s' { t with held := Function.update t.held i none } := by
  have hrunning := h.workers_of_some hi
  obtain ⟨s₁, hran, hsettled⟩ := ThreadPool.workerSteps_settle hrunning
    (hI.pending_of_held (congrArg PoolWorker.task hrunning)) threw
  refine ⟨(s.setPromise task (.ofOutcome threw)).setWorker i .ready,
    ⟨[.worker i threw, .worker i threw], ?_⟩, h.update rfl h.mutex h.tasks rfl⟩
  simp only [Machine.follow, threadPool, ThreadPool.step, hran, hsettled, Option.map_some,
    List.nil_append, List.append_nil]

/-- A step of the executor is some steps of the pool. -/
theorem Schedules.step (h : Schedules s t) {tr : List (PoolOutput k)}
    (hI : s.QueueInv maxQueue tr) {e : ExecutorEvent k} {out : List (PoolOutput k)}
    (hs : t.step maxQueue e = some (t', out)) :
    ∃ s', (threadPool k maxQueue).Leads s s' out ∧ Schedules s' t' := by
  cases e with
  | submit =>
    have hsubmit : t.submit maxQueue = (t', out) := Option.some.inj hs
    have hleads := h.submit maxQueue
    rwa [hsubmit] at hleads
  | take i =>
    rw [Executor.step, Executor.take] at hs
    split at hs <;> cases hs
    exact h.take ‹_› ‹_›
  | finish i threw =>
    obtain ⟨task, hi, heq⟩ := Option.map_eq_some_iff.mp hs
    cases heq
    exact h.finish hI hi threw

/-- Every trace of the executor is one of the pool. -/
theorem exists_run_of_executor {es : List (ExecutorEvent k)} {tr : List (PoolOutput k)}
    (h : (executor k maxQueue).Run es t tr) :
    ∃ es' s, (threadPool k maxQueue).Run es' s tr ∧ Schedules s t := by
  induction h with
  | init => exact ⟨[], _, .init, rfl, rfl, fun _ => rfl, rfl⟩
  | step _ _ hs ih =>
    obtain ⟨es', s, hrun, hsched⟩ := ih
    obtain ⟨s', ⟨es'', hfollow⟩, hsched'⟩ :=
      hsched.step (ThreadPool.queueInv_of_reaches hrun) hs
    exact ⟨es' ++ es'', s', hrun.follow hfollow, hsched'⟩

end Executor

/-- Under all interleavings of the callers, the workers and `shutdown`, what can be seen of the pool
is exactly what can be seen of an executor that serves a bounded queue in one atomic step after
another. -/
theorem pool_traces_iff (k maxQueue : ℕ) (tr : List (PoolOutput k)) :
    (∃ es s, (threadPool k maxQueue).Run es s tr) ↔
      ∃ es t, (executor k maxQueue).Run es t tr := by
  constructor
  · rintro ⟨es, s, h⟩
    obtain ⟨es', t, hrun, -⟩ := Executor.exists_run_of_pool h
    exact ⟨es', t, hrun⟩
  · rintro ⟨es, t, h⟩
    obtain ⟨es', s, hrun, -⟩ := Executor.exists_run_of_executor h
    exact ⟨es', s, hrun⟩

/-! ### A single worker -/

namespace Executor

variable {maxQueue : ℕ} {t : Executor 1} {tr : List (PoolOutput 1)}

/-- With a single worker, an accepted task has been completed, is held or waits, in this order. -/
structure SerialInv (t : Executor 1) (tr : List (PoolOutput 1)) : Prop where
  serves : taken tr = completed tr ++ (t.held 0).toList
  fifo : accepted tr = taken tr ++ t.queue

theorem SerialInv.step (hI : SerialInv t tr) {e : ExecutorEvent 1} {t' : Executor 1}
    {out : List (PoolOutput 1)} (hs : t.step maxQueue e = some (t', out)) :
    SerialInv t' (tr ++ out) := by
  obtain ⟨hserves, hfifo⟩ := hI
  cases e with
  | submit =>
    have hsubmit : t.submit maxQueue = (t', out) := Option.some.inj hs
    unfold submit at hsubmit
    split_ifs at hsubmit <;> cases hsubmit
    · exact ⟨by simpa [taken, completed] using hserves,
        by simpa [taken, accepted, ← List.append_assoc] using hfifo⟩
    · exact ⟨by simpa [taken, completed] using hserves, by simpa [taken, accepted] using hfifo⟩
  | take i =>
    obtain rfl := Subsingleton.elim i 0
    rw [Executor.step, Executor.take] at hs
    split at hs
    next task rest hi hqueue =>
      cases hs
      rw [hi, Option.toList_none, List.append_nil] at hserves
      rw [hqueue] at hfifo
      exact ⟨by simpa [taken, completed] using hserves, by simpa [taken, accepted] using hfifo⟩
    next => cases hs
  | finish i threw =>
    obtain rfl := Subsingleton.elim i 0
    obtain ⟨task, hi, heq⟩ := Option.map_eq_some_iff.mp hs
    cases heq
    rw [hi, Option.toList_some] at hserves
    exact ⟨by simpa [taken, completed] using hserves, by simpa [taken, accepted] using hfifo⟩

theorem serialInv_of_run {es : List (ExecutorEvent 1)} (h : (executor 1 maxQueue).Run es t tr) :
    SerialInv t tr :=
  h.invariant SerialInv ⟨rfl, rfl⟩ fun _ hI _ hs => hI.step hs

end Executor

/-- A pool with a single worker, as the brain has one for its inference, completes the tasks one
after another in the order in which they were accepted. -/
theorem single_worker_serial {maxQueue : ℕ} {es : List (PoolEvent 1)} {s : ThreadPool 1}
    {tr : List (PoolOutput 1)} (h : (threadPool 1 maxQueue).Run es s tr) :
    completed tr <+: taken tr ∧ taken tr <+: accepted tr ∧
      (taken tr).length ≤ (completed tr).length + 1 := by
  obtain ⟨es', t, hrun⟩ := (pool_traces_iff 1 maxQueue tr).mp ⟨es, s, h⟩
  obtain ⟨hserves, hfifo⟩ := Executor.serialInv_of_run hrun
  refine ⟨⟨_, hserves.symm⟩, ⟨_, hfifo.symm⟩, ?_⟩
  rw [hserves, List.length_append]
  cases t.held 0 <;> simp

/-- Two tasks, the first of which has been completed and the second taken. -/
theorem single_worker_serial_two : ∃ s tr, (threadPool 1 2).Run
    ([.enqueue none, .enqueue none] ++ List.replicate 8 (.worker 0 false)) s tr ∧
    taken tr = [0, 1] ∧ completed tr <+: taken tr ∧ taken tr <+: accepted tr ∧
      (taken tr).length ≤ (completed tr).length + 1 := by
  have hrun : ∃ s tr, (threadPool 1 2).Reaches (fun _ _ _ => True)
      ([.enqueue none, .enqueue none] ++ List.replicate 8 (.worker 0 false)) s tr ∧
      taken tr = [0, 1] :=
    Machine.exists_reaches_of_decide _ (by decide)
  obtain ⟨s, tr, hrun, htaken⟩ := hrun
  exact ⟨s, tr, hrun, htaken, single_worker_serial hrun⟩

end RobotBrain
