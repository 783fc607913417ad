import RobotBrain.Infra.QueueDiscipline

/-!
# Shutting the thread pool down

`shutdown` stores `stop_`, notifies all workers and joins them. A worker leaves its loop when
`stop_` is set and the queue is empty.

Two things can go wrong, and this file says exactly when. `enqueue` does not read `stop_`: a task
that it accepts when all workers have left stays in the queue for good. And `stop_` is stored
without the mutex: a worker that has found the predicate of its wait false before the store, and
goes to sleep after the notification, is not woken up by `shutdown`.

## Main definitions

* `ThreadPool.Drained` — no accepted task is left when all workers have exited.
* `ThreadPool.LostWakeup` — a worker sleeps, or is about to, after the notification.
* `ThreadPool.AdmitsInTime`, `ThreadPool.NotifiesAsleep` — the conditions on the steps.

## Main results

* `drained_iff` — nothing is lost exactly if nothing is accepted after the last worker has exited.
* `no_lostWakeup_iff` — every worker is woken up exactly if none is about to sleep when `shutdown`
  notifies.
-/

namespace RobotBrain

variable {k maxQueue : ℕ}

namespace ThreadPool

variable {s s' : ThreadPool k} {tr : List (PoolOutput k)}

/-! ### Accepted tasks -/

/-- All workers have left their loops. -/
def AllExited (s : ThreadPool k) : Prop :=
  ∀ i, s.workers i = .exited

/-- When all workers have exited, every accepted task has been run and its promise set. -/
def Drained (s : ThreadPool k) (tr : List (PoolOutput k)) : Prop :=
  s.AllExited → ∀ task ∈ accepted tr, task ∈ completed tr

/-- A call of `enqueue` that finds room in the queue also finds a worker that has not exited. -/
def AdmitsInTime (maxQueue : ℕ) (s : ThreadPool k) : PoolEvent k → Prop
  | .enqueue _ => s.tasks.length < maxQueue → ∃ i, s.workers i ≠ .exited
  | _ => True

instance (s : ThreadPool k) : Decidable s.AllExited :=
  inferInstanceAs (Decidable (∀ i, s.workers i = .exited))

instance (s : ThreadPool k) : ∀ e, Decidable (s.AdmitsInTime maxQueue e)
  | .enqueue _ => inferInstanceAs (Decidable (_ → _))
  | .worker _ _ | .spurious _ | .shutdown => isTrue trivial

theorem not_allExited_setWorker {i : Fin k} {pc : PoolWorker} (hpc : pc ≠ .exited) :
    ¬ (s.setWorker i pc).AllExited := by
  intro h
  have hi := h i
  rw [setWorker_workers_self] at hi
  exact hpc hi

/-- `notify_one` does nothing when all workers have exited. -/
theorem AllExited.notifyOne (h : s.AllExited) {wakes : Option (Fin k)}
    (hnotify : s.notifyOne wakes = some s') : s' = s := by
  obtain rfl | ⟨i, hwaiting, -⟩ := notifyOne_cases hnotify
  · rfl
  · rw [h i] at hwaiting
    cases hwaiting

/-- A notification lets no worker exit. -/
theorem AllExited.of_notifyOne (h : s'.AllExited) {wakes : Option (Fin k)}
    (hnotify : s.notifyOne wakes = some s') : s' = s := by
  obtain rfl | ⟨i, -, rfl⟩ := notifyOne_cases hnotify
  · rfl
  · exact absurd h (not_allExited_setWorker nofun)

theorem AllExited.of_notifyAll (h : s.notifyAll.AllExited) : s.AllExited := by
  intro i
  have hi : (if s.workers i = .waiting then PoolWorker.notified else s.workers i) = .exited := h i
  split_ifs at hi
  exact hi

/-- The only access of a worker after which all may have exited is its exit, with an empty
queue. -/
theorem WorkerResult.tasks_of_allExited {i : Fin k} {pc : PoolWorker}
    {r : ThreadPool k × List (PoolOutput k)} (h : WorkerResult s i pc r) (hall : r.1.AllExited) :
    r.1.tasks = [] := by
  cases h with
  | exit _ htasks => exact htasks
  | lock | found | nothing | sleep | take | ran | settled | killed =>
    exact absurd hall (not_allExited_setWorker nofun)

/-- As long as tasks are admitted in time, the queue is empty once all workers have exited. -/
theorem StepResult.tasks_of_allExited {e : PoolEvent k} {r : ThreadPool k × List (PoolOutput k)}
    (h : StepResult maxQueue s e r) (hok : s.AdmitsInTime maxQueue e)
    (hI : s.AllExited → s.tasks = []) (hall : r.1.AllExited) : r.1.tasks = [] := by
  cases h with
  | rejected | stop | joined => exact hI hall
  | accepted _ hroom hnotify =>
    obtain rfl := hall.of_notifyOne hnotify
    obtain ⟨i, hi⟩ := hok hroom
    exact absurd (hall i) hi
  | worker _ h => exact h.tasks_of_allExited hall
  | spurious => exact absurd hall (not_allExited_setWorker nofun)
  | notifyAll => exact hI hall.of_notifyAll

/-- With an empty queue and no worker left, every accepted task has been completed. -/
theorem QueueInv.drained (hI : s.QueueInv maxQueue tr) (htasks : s.AllExited → s.tasks = []) :
    s.Drained tr := by
  intro hall task hmem
  rw [← hI.fifo, htasks hall, List.append_nil] at hmem
  obtain ⟨i, htaken⟩ := mem_taken.mp hmem
  refine (hI.progress i task htaken).resolve_right fun hheld => ?_
  rw [hall i] at hheld
  cases hheld

/-- A task in the queue has not been completed. -/
theorem QueueInv.not_mem_completed (hI : s.QueueInv maxQueue tr) {task : ℕ}
    (hmem : task ∈ s.tasks) : task ∉ completed tr := by
  intro hdone
  obtain ⟨i, threw, hdone⟩ := mem_completed.mp hdone
  have htaken : task ∈ taken tr := mem_taken.mpr ⟨i, (hI.settled i task threw hdone).1⟩
  have hnodup : (taken tr ++ s.tasks).Nodup := by
    rw [hI.fifo]
    exact (List.nodup_append.mp hI.nodup).1
  exact (List.nodup_append.mp hnodup).2.2 task htaken task hmem rfl

/-- A task accepted when all workers have exited is lost. -/
theorem StepResult.admitsInTime {e : PoolEvent k} {r : ThreadPool k × List (PoolOutput k)}
    (h : StepResult maxQueue s e r) (hI : r.1.QueueInv maxQueue (tr ++ r.2))
    (hdrained : r.1.Drained (tr ++ r.2)) : s.AdmitsInTime maxQueue e := by
  cases h with
  | rejected _ hfull => exact fun hroom => absurd hroom hfull.not_gt
  | accepted _ _ hnotify =>
    rintro -
    by_contra hnone
    have hall : s.emplace.AllExited := fun i => not_not.mp fun hi => hnone ⟨i, hi⟩
    obtain rfl := hall.notifyOne hnotify
    have hmem : s.calls ∈ s.emplace.tasks := List.mem_append_right _ List.mem_cons_self
    have hacc : s.calls ∈ RobotBrain.accepted (tr ++ [.accepted s.calls]) :=
      mem_accepted.mpr (List.mem_append_right _ List.mem_cons_self)
    exact hI.not_mem_completed hmem (hdrained hall _ hacc)
  | worker | spurious | stop | notifyAll | joined => trivial

/-- Once all workers have exited nothing leaves the queue any more. -/
theorem AllExited.step (hall : s.AllExited) {e : PoolEvent k}
    {r : ThreadPool k × List (PoolOutput k)} (h : StepResult maxQueue s e r) :
    r.1.AllExited ∧ s.tasks <+: r.1.tasks := by
  cases h with
  | rejected | stop | joined => exact ⟨hall, List.prefix_rfl⟩
  | accepted _ _ hnotify =>
    have hall' : s.emplace.AllExited := hall
    obtain rfl := hall'.notifyOne hnotify
    exact ⟨hall, List.prefix_append _ _⟩
  | @worker i _ _ _ hpc h =>
    rw [hall i] at hpc
    subst hpc
    cases h with
    | lock hpc => rcases hpc with hpc | hpc <;> cases hpc
  | @spurious i hpc =>
    rw [hall i] at hpc
    cases hpc
  | notifyAll =>
    refine ⟨fun i => ?_, List.prefix_rfl⟩
    show (if s.workers i = .waiting then PoolWorker.notified else s.workers i) = .exited
    rw [hall i]
    rfl

/-- The queue left behind by the workers only grows, in every continuation. -/
theorem AllExited.of_run_append {es es' : List (PoolEvent k)} {tr' : List (PoolOutput k)}
    (hall : s.AllExited) (h : (threadPool k maxQueue).Run es s tr)
    (h' : (threadPool k maxQueue).Run (es ++ es') s' tr') :
    s'.AllExited ∧ s.tasks <+: s'.tasks := by
  induction es' using List.reverseRecOn generalizing s' tr' with
  | nil =>
    rw [List.append_nil] at h'
    obtain ⟨rfl, -⟩ := h.unique h'
    exact ⟨hall, List.prefix_rfl⟩
  | append_singleton es' e ih =>
    rw [← List.append_assoc] at h'
    obtain ⟨s₁, tr₁, out, hrun, -, hs, -⟩ := Machine.reaches_concat.mp h'
    obtain ⟨hall₁, hpre⟩ := ih hrun
    obtain ⟨hall₂, hpre'⟩ := hall₁.step (stepResult hs)
    exact ⟨hall₂, hpre.trans hpre'⟩

/-! ### Sleeping workers -/

/-- The worker sleeps, or holds the mutex and goes to sleep with its next step. -/
def Asleep (pc : PoolWorker) : Prop :=
  pc = .block ∨ pc = .waiting

/-- `shutdown` has stored `stop_` and notified all workers, and a worker sleeps or is about to. -/
def LostWakeup (s : ThreadPool k) : Prop :=
  (s.shutdown = .join ∨ s.shutdown = .done) ∧ s.stop = true ∧ ∃ i, Asleep (s.workers i)

/-- When `shutdown` notifies all workers, none is between having found the predicate of its wait
false and being asleep. -/
def NotifiesAsleep (s : ThreadPool k) : PoolEvent k → Prop
  | .shutdown => s.shutdown = .notifyAll → ∀ i, s.workers i ≠ .block
  | _ => True

instance (pc : PoolWorker) : Decidable (Asleep pc) :=
  inferInstanceAs (Decidable (_ ∨ _))

instance (s : ThreadPool k) : Decidable s.LostWakeup :=
  inferInstanceAs (Decidable (_ ∧ _))

instance (s : ThreadPool k) : ∀ e, Decidable (s.NotifiesAsleep e)
  | .shutdown => inferInstanceAs (Decidable (_ → _))
  | .enqueue _ | .worker _ _ | .spurious _ => isTrue trivial

theorem not_asleep_running (task : ℕ) : ¬ Asleep (.running task) := by
  rintro (h | h) <;> cases h

theorem not_asleep_settling (task : ℕ) (threw : Bool) : ¬ Asleep (.settling task threw) := by
  rintro (h | h) <;> cases h

/-- What holds of `stop_` and of the workers after the steps of `shutdown`. -/
structure WakeInv (s : ThreadPool k) : Prop where
  stopped : s.shutdown ≠ .idle → s.stop = true
  awake : s.shutdown = .join ∨ s.shutdown = .done → ∀ i, ¬ Asleep (s.workers i)

/-- A worker may move on if it does not go to sleep after the notification. -/
theorem WakeInv.setWorker (hI : s.WakeInv) {i : Fin k} {pc : PoolWorker}
    (hpc : s.shutdown = .join ∨ s.shutdown = .done → ¬ Asleep pc) : (s.setWorker i pc).WakeInv where
  stopped := hI.stopped
  awake hdown j := by
    by_cases hj : j = i
    · subst hj
      rw [setWorker_workers_self]
      exact hpc hdown
    · rw [setWorker_workers_of_ne hj]
      exact hI.awake hdown j

theorem WakeInv.notifyOne (hI : s.WakeInv) {wakes : Option (Fin k)}
    (h : s.notifyOne wakes = some s') : s'.WakeInv := by
  obtain rfl | ⟨i, -, rfl⟩ := notifyOne_cases h
  · exact hI
  · exact hI.setWorker fun _ => by decide

/-- A worker finds the predicate false only before `stop_` is stored. -/
theorem WakeInv.worker (hI : s.WakeInv) {i : Fin k} {pc : PoolWorker}
    {r : ThreadPool k × List (PoolOutput k)} (hpc : s.workers i = pc)
    (h : WorkerResult s i pc r) : r.1.WakeInv := by
  have hlock : (s.lock i).WakeInv := ⟨hI.stopped, hI.awake⟩
  have hunlock : s.unlock.WakeInv := ⟨hI.stopped, hI.awake⟩
  cases h with
  | lock => exact hlock.setWorker fun _ => by decide
  | found => exact hI.setWorker fun _ => by decide
  | nothing hstop =>
    refine hI.setWorker fun hdown => ?_
    have hset := hI.stopped (by rcases hdown with hdown | hdown <;> rw [hdown] <;> decide)
    rw [hstop] at hset
    cases hset
  | sleep =>
    refine hunlock.setWorker fun hdown => ?_
    exact absurd (Or.inl hpc) (hI.awake hdown i)
  | exit => exact hunlock.setWorker fun _ => by decide
  | @take task rest =>
    have htake : ({ s with tasks := rest }.unlock).WakeInv := ⟨hI.stopped, hI.awake⟩
    exact htake.setWorker fun _ => not_asleep_running task
  | ran task throws => exact hI.setWorker fun _ => not_asleep_settling task throws
  | killed => exact hI.setWorker fun _ => by decide
  | @settled task threw =>
    have hset : (s.setPromise task (.ofOutcome threw)).WakeInv := ⟨hI.stopped, hI.awake⟩
    exact hset.setWorker fun _ => by decide

theorem WakeInv.step (hI : s.WakeInv) {e : PoolEvent k} {r : ThreadPool k × List (PoolOutput k)}
    (h : StepResult maxQueue s e r) (hok : s.NotifiesAsleep e) : r.1.WakeInv := by
  cases h with
  | rejected => exact ⟨hI.stopped, hI.awake⟩
  | accepted _ _ hnotify =>
    have hI' : s.emplace.WakeInv := ⟨hI.stopped, hI.awake⟩
    exact hI'.notifyOne hnotify
  | worker hpc h => exact hI.worker hpc h
  | spurious => exact hI.setWorker fun _ => by decide
  | stop => exact ⟨fun _ => rfl, fun hdown => by rcases hdown with hdown | hdown <;> cases hdown⟩
  | notifyAll hpc =>
    refine ⟨fun _ => hI.stopped (by rw [hpc]; decide), fun _ i => ?_⟩
    show ¬ Asleep (if s.workers i = .waiting then PoolWorker.notified else s.workers i)
    split_ifs with hwaiting
    · decide
    · rintro (hblock | hwaiting')
      · exact hok hpc i hblock
      · exact hwaiting hwaiting'
  | joined hpc =>
    exact ⟨fun _ => hI.stopped (by rw [hpc]; decide), fun _ => hI.awake (Or.inl hpc)⟩

theorem WakeInv.not_lostWakeup (hI : s.WakeInv) : ¬ s.LostWakeup := by
  rintro ⟨hdown, -, i, hi⟩
  exact hI.awake hdown i hi

/-- A worker that is about to sleep when all are notified is not woken up. -/
theorem StepResult.notifiesAsleep {e : PoolEvent k} {r : ThreadPool k × List (PoolOutput k)}
    (h : StepResult maxQueue s e r) (hI : s.WakeInv) (hlost : ¬ r.1.LostWakeup) :
    s.NotifiesAsleep e := by
  cases h with
  | rejected | accepted | worker | spurious => trivial
  | stop hpc | joined hpc =>
    intro hpc'
    rw [hpc] at hpc'
    cases hpc'
  | notifyAll hpc =>
    rintro - i hblock
    refine hlost ⟨Or.inl rfl, hI.stopped (by rw [hpc]; decide), i, Or.inl ?_⟩
    show (if s.workers i = .waiting then PoolWorker.notified else s.workers i) = .block
    rw [hblock]
    rfl

end ThreadPool

/-! ### Results -/

section Results

open ThreadPool

variable {es : List (PoolEvent k)} {s : ThreadPool k} {tr : List (PoolOutput k)}

/-- All along a run every accepted task has been run when all workers have exited, exactly if every
call of `enqueue` that finds room in the queue finds a worker that has not exited. -/
theorem drained_iff (h : (threadPool k maxQueue).Run es s tr) :
    (∀ es' s' tr', es' <+: es → (threadPool k maxQueue).Run es' s' tr' → s'.Drained tr') ↔
      (threadPool k maxQueue).Reaches (fun s _ e => s.AdmitsInTime maxQueue e) es s tr := by
  constructor
  · intro hall
    refine (h.of_forall_prefix (fun _ _ => True) Drained trivial ?_ hall).1
    intro es s tr e s' out hrun _ _ hs hdrained
    exact ⟨(stepResult hs).admitsInTime (queueInv_of_reaches (hrun.step trivial hs)) hdrained,
      trivial⟩
  · intro hok es' s' tr' hpre hrun
    refine hok.forall_prefix (fun es s tr hreach => ?_) hpre hrun
    refine (queueInv_of_reaches hreach).drained ?_
    refine hreach.invariant (fun s _ => s.AllExited → s.tasks = []) (fun _ => rfl) ?_
    exact fun _ hI hok hs => (stepResult hs).tasks_of_allExited hok hI

/-- One worker drains the queue after `shutdown` has stored `stop_`. -/
theorem drained_single :
    ∃ s tr, (threadPool 1 1).Run ([.enqueue none, .shutdown, .shutdown] ++
        List.replicate 8 (.worker 0 false) ++ [.shutdown]) s tr ∧
      s.AllExited ∧ 0 ∈ accepted tr ∧ s.Drained tr := by
  have hrun : ∃ s tr, (threadPool 1 1).Reaches (fun s _ e => s.AdmitsInTime 1 e)
      ([.enqueue none, .shutdown, .shutdown] ++ List.replicate 8 (.worker 0 false) ++ [.shutdown])
      s tr ∧ s.AllExited ∧ 0 ∈ accepted tr :=
    Machine.exists_reaches_of_decide _ (by decide +kernel)
  obtain ⟨s, tr, hreach, hexited, hacc⟩ := hrun
  exact ⟨s, tr, hreach.run, hexited, hacc,
    (drained_iff hreach.run).mpr hreach _ _ _ List.prefix_rfl hreach.run⟩

/-- One worker: `enqueue` accepts a task after `shutdown` has returned, and no continuation of the
run completes it. -/
theorem exists_lost_task :
    ∃ es s tr, (threadPool 1 64).Run es s tr ∧ s.shutdown = .done ∧ s.AllExited ∧
      0 ∈ accepted tr ∧
      ∀ es' s' tr', (threadPool 1 64).Run (es ++ es') s' tr' → 0 ∉ completed tr' := by
  have hrun : ∃ s tr, (threadPool 1 64).Run ([.shutdown, .shutdown] ++
      List.replicate 3 (.worker 0 false) ++ [.shutdown, .enqueue none]) s tr ∧
      s.shutdown = .done ∧ s.AllExited ∧ 0 ∈ accepted tr ∧ 0 ∈ s.tasks :=
    Machine.exists_reaches_of_decide _ (by decide +kernel)
  obtain ⟨s, tr, hrun, hdone, hexited, hacc, hmem⟩ := hrun
  refine ⟨_, s, tr, hrun, hdone, hexited, hacc, fun es' s' tr' hrun' => ?_⟩
  obtain ⟨-, hpre⟩ := hexited.of_run_append hrun hrun'
  exact (queueInv_of_reaches hrun').not_mem_completed (hpre.subset hmem)

/-- All along a run no worker sleeps, or is about to, after the notification of `shutdown`, exactly
if none is about to when `shutdown` notifies. -/
theorem no_lostWakeup_iff (h : (threadPool k maxQueue).Run es s tr) :
    (∀ es' s' tr', es' <+: es → (threadPool k maxQueue).Run es' s' tr' → ¬ s'.LostWakeup) ↔
      (threadPool k maxQueue).Reaches (fun s _ e => s.NotifiesAsleep e) es s tr := by
  have hinit : (initial k).WakeInv :=
    ⟨fun hne => absurd rfl hne, fun hdown => by rcases hdown with hdown | hdown <;> cases hdown⟩
  constructor
  · intro hall
    refine (h.of_forall_prefix (fun s _ => s.WakeInv) (fun s _ => ¬ s.LostWakeup) hinit ?_ hall).1
    intro es s tr e s' out _ hI _ hs hlost
    have hok := (stepResult hs).notifiesAsleep hI hlost
    exact ⟨hok, hI.step (stepResult hs) hok⟩
  · intro hok es' s' tr' hpre hrun
    have hwake {es s tr} (hreach : (threadPool k maxQueue).Reaches
        (fun s _ e => s.NotifiesAsleep e) es s tr) : s.WakeInv :=
      hreach.invariant (fun s _ => s.WakeInv) hinit
        fun _ hI hok hs => hI.step (stepResult hs) hok
    exact (hok.forall_prefix (fun _ _ _ hreach => (hwake hreach).not_lostWakeup) hpre hrun :)

/-- One worker that sleeps when `shutdown` is called is woken up and joined. -/
theorem no_lostWakeup_single :
    ∃ s tr, (threadPool 1 64).Run (List.replicate 3 (.worker 0 false) ++ [.shutdown, .shutdown] ++
        List.replicate 3 (.worker 0 false) ++ [.shutdown]) s tr ∧
      s.shutdown = .done ∧ ¬ s.LostWakeup := by
  have hrun : ∃ s tr, (threadPool 1 64).Reaches (fun s _ e => s.NotifiesAsleep e)
      (List.replicate 3 (.worker 0 false) ++ [.shutdown, .shutdown] ++
        List.replicate 3 (.worker 0 false) ++ [.shutdown]) s tr ∧
      s.shutdown = .done :=
    Machine.exists_reaches_of_decide _ (by decide +kernel)
  obtain ⟨s, tr, hreach, hend⟩ := hrun
  exact ⟨s, tr, hreach.run, hend,
    (no_lostWakeup_iff hreach.run).mpr hreach _ _ _ List.prefix_rfl hreach.run⟩

/-- One worker finds the predicate false before `stop_` is stored and sleeps after the notification:
neither it nor `shutdown` can take a step any more. -/
theorem exists_lostWakeup :
    ∃ s tr, (threadPool 1 64).Run (List.replicate 2 (.worker 0 false) ++
        [.shutdown, .shutdown, .worker 0 false]) s tr ∧
      s.LostWakeup ∧ s.workers 0 = .waiting ∧ (s.step 64 .shutdown).isNone ∧
      ∀ i throws, (s.step 64 (.worker i throws)).isNone :=
  Machine.exists_reaches_of_decide _ (by decide +kernel)

end Results

end RobotBrain
