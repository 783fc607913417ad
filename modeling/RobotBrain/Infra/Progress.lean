import RobotBrain.Infra.Shutdown
import RobotBrain.Library.Progress
import Mathlib.Algebra.Order.BigOperators.Group.Finset
import Mathlib.Data.Fintype.Card

/-!
# The thread pool makes progress

A worker that sleeps is not missed: as long as one sleeps, there is for every task in the queue
another worker on its way to the queue. So `enqueue`, which notifies under the mutex, loses no
wake-up, and a queue that is not empty has a worker that can move.

Every step but a call of `enqueue` and a spurious wake-up uses up some of a finite amount of work.
With the first fact this makes the ends inevitable: every future becomes ready, and `shutdown`
returns, whatever the order in which the threads run.

## Main definitions

* `PoolWorker.arriving`, `ThreadPool.total` — the workers on their way, and sums over the workers.
* `ThreadPool.WorkInv` — the invariant.
* `ThreadPool.work` — the amount of work left.

## Main results

* `work_conserving` — no worker sleeps while tasks outnumber the workers on their way.
* `run_length_le` — the pool never runs in circles.
* `futures_ready` — the promise of every accepted task is set.
* `shutdown_returns` — `shutdown` joins all workers if none is about to sleep when it notifies.
-/

namespace RobotBrain

variable {k maxQueue : ℕ}

/-- The worker holds the mutex. -/
def PoolWorker.locked : PoolWorker → Bool
  | .evaluate | .block | .awake => true
  | _ => false

/-- The worker evaluates the predicate of its wait, or has found it true, before it sleeps. -/
def PoolWorker.arriving : PoolWorker → Bool
  | .ready | .notified | .evaluate | .awake => true
  | _ => false

/-- The steps that a worker takes from here to its sleep, if the queue is empty. A task in the queue
counts five. -/
def PoolWorker.rank : PoolWorker → ℕ
  | .waiting | .exited | .killed => 0
  | .block | .awake => 1
  | .evaluate => 2
  | .ready | .notified => 3
  | .settling _ _ => 4
  | .running _ => 5

namespace ThreadPool

variable {s s' : ThreadPool k} {tr : List (PoolOutput k)}

/-! ### Sums over the workers -/

/-- The sum of a quantity over the workers. -/
def total (f : PoolWorker → ℕ) (s : ThreadPool k) : ℕ :=
  ∑ i, f (s.workers i)

/-- The number of workers on their way to the queue. -/
def arrivals (s : ThreadPool k) : ℕ :=
  s.total fun pc => pc.arriving.toNat

theorem total_update (f : PoolWorker → ℕ) {i : Fin k} {pc : PoolWorker}
    (h : s'.workers = Function.update s.workers i pc) :
    s'.total f + f (s.workers i) = s.total f + f pc := by
  have hrest : ∑ j ∈ Finset.univ.erase i, f (s'.workers j) =
      ∑ j ∈ Finset.univ.erase i, f (s.workers j) := by
    refine Finset.sum_congr rfl fun j hj => ?_
    rw [h, Function.update_of_ne (Finset.ne_of_mem_erase hj)]
  rw [total, total, ← Finset.add_sum_erase _ (fun j => f (s'.workers j)) (Finset.mem_univ i),
    ← Finset.add_sum_erase _ (fun j => f (s.workers j)) (Finset.mem_univ i), hrest, h,
    Function.update_self]
  omega

theorem arrivals_update {i : Fin k} {pc : PoolWorker}
    (h : s'.workers = Function.update s.workers i pc) :
    s'.arrivals + (s.workers i).arriving.toNat = s.arrivals + pc.arriving.toNat :=
  total_update _ h

theorem arrivals_eq_zero (h : ∀ i, (s.workers i).arriving = false) : s.arrivals = 0 := by
  rw [arrivals, total]
  refine Finset.sum_eq_zero fun i _ => ?_
  rw [h i]
  rfl

/-- A notification of all workers raises a quantity by its value at `notified` for each. -/
theorem total_notifyAll_le (f : PoolWorker → ℕ) :
    s.notifyAll.total f ≤ s.total f + k * f .notified := by
  have hle : ∀ i ∈ Finset.univ, f (s.notifyAll.workers i) ≤ f (s.workers i) + f .notified := by
    intro i _
    show f (if s.workers i = .waiting then .notified else s.workers i) ≤ _
    split_ifs <;> omega
  calc s.notifyAll.total f ≤ ∑ i, (f (s.workers i) + f .notified) := Finset.sum_le_sum hle
    _ = s.total f + k * f .notified := by
      rw [Finset.sum_add_distrib, Finset.sum_const_nat fun _ _ => rfl, Finset.card_univ,
        Fintype.card_fin, total]

/-! ### The invariant -/

/-- The mutex belongs to the worker that has locked it, the worker that goes to sleep or is awake
has seen the queue as it is, a sleeping worker is not missed, and a promise is pending only for a
task that is in the queue or held by a worker. -/
structure WorkInv (s : ThreadPool k) : Prop where
  holder : ∀ i, (s.workers i).locked = true ↔ s.mutex = some i
  block : ∀ i, s.workers i = .block → s.tasks = []
  awake : ∀ i, s.workers i = .awake → s.stop = true ∨ s.tasks ≠ []
  conserving : (∃ i, Asleep (s.workers i)) → s.tasks.length ≤ s.arrivals
  unsettled : ∀ task, s.promises task = .pending →
    task ∈ s.tasks ∨ ∃ i, (s.workers i).task = some task

namespace WorkInv

theorem free (hI : s.WorkInv) (hfree : s.mutex = none) (i : Fin k) :
    (s.workers i).locked = false := by
  rw [← Bool.not_eq_true, hI.holder, hfree]
  exact nofun

/-- What the move of one worker has to say to keep the invariant. -/
theorem move (hI : s.WorkInv) {i : Fin k} {pc : PoolWorker}
    (hworkers : s'.workers = Function.update s.workers i pc) (hstop : s'.stop = s.stop)
    (hmutex : s'.mutex =
      if pc.locked then some i else if (s.workers i).locked then none else s.mutex)
    (hlock : pc.locked = true → (s.workers i).locked = true ∨ s.mutex = none)
    (hothers : s'.tasks = s.tasks ∨ ∀ j ≠ i, (s.workers j).locked = false)
    (hblock : pc = .block → s'.tasks = [])
    (hawake : pc = .awake → s'.stop = true ∨ s'.tasks ≠ [])
    (hcons : s'.tasks = [] ∨ ¬ Asleep pc ∧ s'.tasks.length + (s.workers i).arriving.toNat ≤
      s.tasks.length + pc.arriving.toNat ∨ ∀ j, ¬ Asleep (s'.workers j))
    (hunsettled : ∀ task, s'.promises task = .pending →
      task ∈ s'.tasks ∨ ∃ j, (s'.workers j).task = some task) : s'.WorkInv := by
  have hself : s'.workers i = pc := by rw [hworkers, Function.update_self]
  have hother {j : Fin k} (hj : j ≠ i) : s'.workers j = s.workers j := by
    rw [hworkers, Function.update_of_ne hj]
  have hkeep {j : Fin k} (hj : j ≠ i) (h : (s.workers j).locked = true) : s'.tasks = s.tasks :=
    hothers.resolve_right fun hall => by simp [hall j hj] at h
  refine ⟨fun j => ?_, fun j => ?_, fun j => ?_, ?_, hunsettled⟩
  · by_cases hj : j = i
    · subst hj
      rw [hself, hmutex]
      cases hpc : pc.locked with
      | true => simp
      | false =>
        cases hold : (s.workers j).locked with
        | true => simp
        | false => simp [← hI.holder j, hold]
    · rw [hother hj, hI.holder j, hmutex]
      cases hpc : pc.locked with
      | true =>
        have hne : s.mutex ≠ some j := by
          rcases hlock hpc with hheld | hfree
          · rw [(hI.holder i).mp hheld]
            exact fun h => hj (Option.some.inj h).symm
          · rw [hfree]
            exact nofun
        simp [hne, Ne.symm hj]
      | false =>
        cases hold : (s.workers i).locked with
        | true => simp [(hI.holder i).mp hold, Ne.symm hj]
        | false => simp
  · by_cases hj : j = i
    · subst hj
      rw [hself]
      exact hblock
    · rw [hother hj]
      intro h
      rw [hkeep hj (by rw [h]; rfl)]
      exact hI.block j h
  · by_cases hj : j = i
    · subst hj
      rw [hself]
      exact hawake
    · rw [hother hj]
      intro h
      rw [hkeep hj (by rw [h]; rfl), hstop]
      exact hI.awake j h
  · rintro ⟨j, hj⟩
    rcases hcons with hnil | ⟨hpc, hle⟩ | hnone
    · rw [hnil]
      exact Nat.zero_le _
    · have hne : j ≠ i := by
        rintro rfl
        rw [hself] at hj
        exact hpc hj
      rw [hother hne] at hj
      have hbefore := hI.conserving ⟨j, hj⟩
      have hsum := arrivals_update hworkers
      omega
    · exact absurd hj (hnone j)

/-- A worker that takes no task and lets none go keeps the pending promises accounted for. -/
theorem unsettled_of_task_eq (hI : s.WorkInv) {i : Fin k} {pc : PoolWorker}
    (hworkers : s'.workers = Function.update s.workers i pc) (hpc : pc.task = (s.workers i).task)
    (htasks : s'.tasks = s.tasks) (hpromises : s'.promises = s.promises) (task : ℕ)
    (h : s'.promises task = .pending) :
    task ∈ s'.tasks ∨ ∃ j, (s'.workers j).task = some task := by
  rw [hpromises] at h
  rw [htasks, hworkers]
  refine (hI.unsettled task h).imp_right ?_
  rintro ⟨j, hj⟩
  refine ⟨j, ?_⟩
  by_cases hji : j = i
  · subst hji
    rw [Function.update_self, hpc, hj]
  · rw [Function.update_of_ne hji, hj]

/-- The accesses of a worker keep the invariant. -/
theorem worker (hI : s.WorkInv) {i : Fin k} {pc : PoolWorker}
    {r : ThreadPool k × List (PoolOutput k)} (hpc : s.workers i = pc)
    (h : WorkerResult s i pc r) : r.1.WorkInv := by
  have hheld (hlocked : pc.locked = true) : ∀ j ≠ i, (s.workers j).locked = false := by
    intro j hj
    rw [← Bool.not_eq_true, hI.holder]
    intro hmutex
    have hi := (hI.holder i).mp (by rw [hpc, hlocked])
    exact hj (Option.some.inj (hmutex.symm.trans hi))
  cases h with
  | lock hpc' hfree =>
    have harriving : pc.arriving = true := by rcases hpc' with rfl | rfl <;> rfl
    have htask : pc.task = none := by rcases hpc' with rfl | rfl <;> rfl
    refine hI.move rfl rfl rfl (fun _ => Or.inr hfree) (Or.inl rfl) nofun nofun
      (Or.inr (Or.inl ⟨by decide, ?_⟩)) (hI.unsettled_of_task_eq rfl ?_ rfl rfl)
    · rw [hpc, harriving]
      exact le_rfl
    · rw [hpc, htask]
      rfl
  | found hfound =>
    refine hI.move rfl rfl ?_ (fun _ => Or.inl (by rw [hpc]; rfl)) (Or.inl rfl) nofun
      (fun _ => hfound) (Or.inr (Or.inl ⟨by decide, ?_⟩)) (hI.unsettled_of_task_eq rfl ?_ rfl rfl)
    · exact (hI.holder i).mp (by rw [hpc]; rfl)
    · rw [hpc]
      exact le_rfl
    · rw [hpc]
      rfl
  | nothing hstop htasks =>
    refine hI.move rfl rfl ?_ (fun _ => Or.inl (by rw [hpc]; rfl)) (Or.inl rfl) (fun _ => htasks)
      nofun (Or.inl htasks) (hI.unsettled_of_task_eq rfl ?_ rfl rfl)
    · exact (hI.holder i).mp (by rw [hpc]; rfl)
    · rw [hpc]
      rfl
  | sleep =>
    refine hI.move rfl rfl ?_ nofun (Or.inl rfl) nofun nofun (Or.inl (hI.block i hpc))
      (hI.unsettled_of_task_eq rfl ?_ rfl rfl)
    · rw [hpc]
      rfl
    · rw [hpc]
      rfl
  | exit hstop htasks =>
    refine hI.move rfl rfl ?_ nofun (Or.inl rfl) nofun nofun (Or.inl htasks)
      (hI.unsettled_of_task_eq rfl ?_ rfl rfl)
    · rw [hpc]
      rfl
    · rw [hpc]
      rfl
  | @take task rest htasks =>
    refine hI.move rfl rfl ?_ nofun (Or.inr (hheld rfl)) nofun nofun
      (Or.inr (Or.inl ⟨not_asleep_running task, ?_⟩)) ?_
    · rw [hpc]
      rfl
    · rw [hpc, htasks]
      exact le_rfl
    · intro other hother
      rcases hI.unsettled other hother with hmem | ⟨j, hj⟩
      · rw [htasks] at hmem
        rcases List.mem_cons.mp hmem with rfl | hmem
        · exact Or.inr ⟨i, congrArg PoolWorker.task (setWorker_workers_self i _ _)⟩
        · exact Or.inl hmem
      · refine Or.inr ⟨j, ?_⟩
        have hji : j ≠ i := by
          rintro rfl
          rw [hpc] at hj
          cases hj
        exact (congrArg PoolWorker.task (setWorker_workers_of_ne hji _ _)).trans hj
  | ran task throws =>
    refine hI.move rfl rfl ?_ nofun (Or.inl rfl) nofun nofun
      (Or.inr (Or.inl ⟨not_asleep_settling task throws, ?_⟩))
      (hI.unsettled_of_task_eq rfl ?_ rfl rfl)
    · rw [hpc]
      rfl
    · rw [hpc]
      exact le_rfl
    · rw [hpc]
      rfl
  | @settled task threw hpending =>
    refine hI.move rfl rfl ?_ nofun (Or.inl rfl) nofun nofun (Or.inr (Or.inl ⟨by decide, ?_⟩)) ?_
    · rw [hpc]
      rfl
    · rw [hpc]
      exact Nat.le_succ _
    · intro other (hother : (s.setPromise task (.ofOutcome threw)).promises other = .pending)
      have hne : other ≠ task := by
        rintro rfl
        rw [setPromise_promises_self] at hother
        cases threw <;> cases hother
      rw [setPromise_promises_of_ne hne] at hother
      refine (hI.unsettled other hother).imp_right ?_
      rintro ⟨j, hj⟩
      have hji : j ≠ i := by
        rintro rfl
        rw [hpc] at hj
        exact hne (Option.some.inj hj).symm
      exact ⟨j, (congrArg PoolWorker.task (setWorker_workers_of_ne hji _ _)).trans hj⟩
  | @killed task threw hset =>
    refine hI.move rfl rfl ?_ nofun (Or.inl rfl) nofun nofun (Or.inr (Or.inl ⟨by decide, ?_⟩)) ?_
    · rw [hpc]
      rfl
    · rw [hpc]
      exact le_rfl
    · intro other hother
      refine (hI.unsettled other hother).imp_right ?_
      rintro ⟨j, hj⟩
      have hji : j ≠ i := by
        rintro rfl
        rw [hpc] at hj
        obtain rfl : task = other := Option.some.inj hj
        exact hset hother
      exact ⟨j, (congrArg PoolWorker.task (setWorker_workers_of_ne hji _ _)).trans hj⟩

/-- A call of `enqueue` that finds room: with a sleeping worker, it wakes one up for the new
task. -/
theorem accept (hI : s.WorkInv) (hfree : s.mutex = none) {wakes : Option (Fin k)}
    (h : s.emplace.notifyOne wakes = some s') : s'.WorkInv := by
  have hnew (task : ℕ) (hpending : s.emplace.promises task = .pending) :
      task ∈ s.emplace.tasks ∨ ∃ j, (s.workers j).task = some task := by
    by_cases hne : task = s.calls
    · exact Or.inl (List.mem_append_right _ (List.mem_singleton.mpr hne))
    · have hold : (s.setPromise s.calls .pending).promises task = .pending := hpending
      rw [setPromise_promises_of_ne hne] at hold
      exact (hI.unsettled task hold).imp_left (List.mem_append_left _)
  unfold notifyOne at h
  cases wakes with
  | none =>
    dsimp only at h
    split_ifs at h with hnone
    obtain rfl := Option.some.inj h
    have hlocked := hI.free hfree
    have hasleep (j : Fin k) : ¬ Asleep (s.workers j) := by
      rintro (hblock | hwaiting)
      · have hj := hlocked j
        rw [hblock] at hj
        cases hj
      · exact hnone j hwaiting
    refine ⟨hI.holder, fun j hj => ?_, fun j hj => ?_, fun ⟨j, hj⟩ => (hasleep j hj).elim, hnew⟩
    · exact (hasleep j (Or.inl hj)).elim
    · have hj' := hlocked j
      rw [show s.workers j = .awake from hj] at hj'
      cases hj'
  | some i =>
    dsimp only at h
    split_ifs at h with hwaiting
    obtain rfl := Option.some.inj h
    have hwaiting' : s.workers i = .waiting := hwaiting
    refine hI.move rfl rfl ?_ nofun (Or.inr fun j _ => hI.free hfree j) nofun nofun
      (Or.inr (Or.inl ⟨by decide, ?_⟩)) fun task hpending => (hnew task hpending).imp_right ?_
    · rw [hwaiting']
      rfl
    · show (s.tasks ++ [s.calls]).length + _ ≤ _
      rw [hwaiting', List.length_append]
      exact le_rfl
    · rintro ⟨j, hj⟩
      refine ⟨j, ?_⟩
      have hji : j ≠ i := by
        rintro rfl
        rw [hwaiting'] at hj
        cases hj
      exact (congrArg PoolWorker.task (setWorker_workers_of_ne hji _ _)).trans hj

/-- The notification of all workers takes no lock and moves no task. -/
theorem notifyAll (hI : s.WorkInv) : s.notifyAll.WorkInv := by
  have hcases (i : Fin k) : s.notifyAll.workers i = s.workers i ∧ s.workers i ≠ .waiting ∨
      s.notifyAll.workers i = .notified ∧ s.workers i = .waiting := by
    by_cases hwaiting : s.workers i = .waiting
    · exact Or.inr ⟨if_pos hwaiting, hwaiting⟩
    · exact Or.inl ⟨if_neg hwaiting, hwaiting⟩
  have hlocked (i : Fin k) : (s.notifyAll.workers i).locked = (s.workers i).locked := by
    rcases hcases i with ⟨hi, -⟩ | ⟨hi, hwaiting⟩
    · rw [hi]
    · rw [hi, hwaiting]
      rfl
  have htask (i : Fin k) : (s.notifyAll.workers i).task = (s.workers i).task := by
    rcases hcases i with ⟨hi, -⟩ | ⟨hi, hwaiting⟩
    · rw [hi]
    · rw [hi, hwaiting]
      rfl
  have hback {i : Fin k} {pc : PoolWorker} (hpc : pc ≠ .notified)
      (hi : s.notifyAll.workers i = pc) : s.workers i = pc := by
    rcases hcases i with ⟨hsame, -⟩ | ⟨hnotified, -⟩
    · rw [← hsame, hi]
    · exact absurd (hi.symm.trans hnotified) hpc
  refine ⟨fun i => ?_, fun i hi => hI.block i (hback (by decide) hi),
    fun i hi => hI.awake i (hback (by decide) hi), ?_, fun task hpending => ?_⟩
  · rw [hlocked]
    exact hI.holder i
  · rintro ⟨i, hblock | hwaiting⟩
    · rw [show s.notifyAll.tasks = [] from hI.block i (hback (by decide) hblock)]
      exact Nat.zero_le _
    · rcases hcases i with ⟨hsame, hne⟩ | ⟨hnotified, -⟩
      · exact absurd (hsame.symm.trans hwaiting) hne
      · rw [hnotified] at hwaiting
        cases hwaiting
  · refine (hI.unsettled task hpending).imp_right ?_
    rintro ⟨i, hi⟩
    exact ⟨i, (htask i).trans hi⟩

theorem step (hI : s.WorkInv) {e : PoolEvent k} {r : ThreadPool k × List (PoolOutput k)}
    (h : StepResult maxQueue s e r) : r.1.WorkInv := by
  cases h with
  | rejected => exact ⟨hI.holder, hI.block, hI.awake, hI.conserving, hI.unsettled⟩
  | accepted hfree _ hnotify => exact hI.accept hfree hnotify
  | worker hpc h => exact hI.worker hpc h
  | @spurious i hwaiting =>
    refine hI.move rfl rfl ?_ nofun (Or.inl rfl) nofun nofun (Or.inr (Or.inl ⟨by decide, ?_⟩))
      (hI.unsettled_of_task_eq rfl ?_ rfl rfl)
    · rw [hwaiting]
      rfl
    · rw [hwaiting]
      exact Nat.le_succ _
    · rw [hwaiting]
      rfl
  | stop => exact ⟨hI.holder, hI.block, fun _ _ => Or.inl rfl, hI.conserving, hI.unsettled⟩
  | notifyAll =>
    have hI' := hI.notifyAll
    exact ⟨hI'.holder, hI'.block, hI'.awake, hI'.conserving, hI'.unsettled⟩
  | joined => exact ⟨hI.holder, hI.block, hI.awake, hI.conserving, hI.unsettled⟩

end WorkInv

theorem workInv_of_reaches {ok : ThreadPool k → List (PoolOutput k) → PoolEvent k → Prop}
    {es : List (PoolEvent k)} (h : (threadPool k maxQueue).Reaches ok es s tr) : s.WorkInv := by
  refine h.invariant (fun s _ => s.WorkInv) ?_ ?_
  · exact ⟨fun _ => ⟨nofun, nofun⟩, nofun, nofun, fun _ => Nat.zero_le _, nofun⟩
  · intro es s tr e s' out _ hI _ hs
    exact hI.step (stepResult hs)

/-! ### The work left -/

end ThreadPool

/-- The steps of `shutdown` still to come; its notification may give every worker three more. -/
def ShutdownPc.rank (k : ℕ) : ShutdownPc → ℕ
  | .idle => 3 * k + 3
  | .notifyAll => 3 * k + 2
  | .join => 1
  | .done => 0

/-- The steps that an input may add, itself included: those of a new task and of the worker that is
woken up for it, or those of a worker that wakes up without a notification. -/
def PoolEvent.cost : PoolEvent k → ℕ
  | .enqueue _ => 9
  | .spurious _ => 4
  | .worker _ _ | .shutdown => 0

/-- The future of the promise is ready. -/
def PromiseState.Ready (p : PromiseState) : Prop :=
  p = .value ∨ p = .exception

instance (p : PromiseState) : Decidable p.Ready :=
  inferInstanceAs (Decidable (_ ∨ _))

theorem PromiseState.ready_ofOutcome (threw : Bool) : (PromiseState.ofOutcome threw).Ready := by
  cases threw <;> decide

/-- The input is the next step of a worker. -/
def PoolEvent.IsWorker (e : PoolEvent k) : Prop :=
  ∃ i throws, e = .worker i throws

/-- The input is the next step of a worker or of `shutdown`. -/
def PoolEvent.IsOwn (e : PoolEvent k) : Prop :=
  e.IsWorker ∨ e = .shutdown

namespace ThreadPool

variable {s s' : ThreadPool k}

/-- A bound on the steps of the workers and of `shutdown` to come. -/
def work (s : ThreadPool k) : ℕ :=
  5 * s.tasks.length + s.total PoolWorker.rank + s.shutdown.rank k

theorem work_initial : (initial k).work = 6 * k + 3 := by
  have htotal : (initial k).total PoolWorker.rank = k * 3 := by
    show ∑ _i : Fin k, 3 = k * 3
    rw [Finset.sum_const_nat fun _ _ => rfl, Finset.card_univ, Fintype.card_fin]
  rw [work, htotal]
  simp only [initial, List.length_nil, ShutdownPc.rank]
  omega

/-- The access of a worker uses up work. -/
theorem WorkerResult.work_lt {i : Fin k} {pc : PoolWorker}
    {r : ThreadPool k × List (PoolOutput k)} (hpc : s.workers i = pc)
    (h : WorkerResult s i pc r) : r.1.work < s.work := by
  have hsum {s' : ThreadPool k} {pc' : PoolWorker}
      (hworkers : s'.workers = Function.update s.workers i pc') :
      s'.total PoolWorker.rank + pc.rank = s.total PoolWorker.rank + pc'.rank := by
    rw [← hpc]
    exact total_update _ hworkers
  -- a step that moves no task lowers the rank of its worker
  have hlower {s' : ThreadPool k} {pc' : PoolWorker}
      (hworkers : s'.workers = Function.update s.workers i pc') (htasks : s'.tasks = s.tasks)
      (hshutdown : s'.shutdown = s.shutdown) (hrank : pc'.rank < pc.rank) : s'.work < s.work := by
    have htotal := hsum hworkers
    rw [work, work, htasks, hshutdown]
    omega
  cases h with
  | lock hpc' => exact hlower rfl rfl rfl (by rcases hpc' with rfl | rfl <;> decide)
  | found | nothing | sleep | exit => exact hlower rfl rfl rfl (by decide)
  | ran => exact hlower rfl rfl rfl (Nat.lt_succ_self _)
  | settled => exact hlower rfl rfl rfl (Nat.lt_succ_self _)
  | killed => exact hlower rfl rfl rfl (Nat.succ_pos _)
  | @take task rest htasks =>
    let after := ({ s with tasks := rest }.unlock).setWorker i (.running task)
    have htotal : after.total PoolWorker.rank + PoolWorker.awake.rank =
        s.total PoolWorker.rank + (PoolWorker.running task).rank := hsum rfl
    simp only [PoolWorker.rank] at htotal
    have hlength : s.tasks.length = rest.length + 1 := by rw [htasks, List.length_cons]
    show 5 * rest.length + after.total PoolWorker.rank + s.shutdown.rank k < _
    rw [work]
    omega

theorem StepResult.work_le {e : PoolEvent k} {r : ThreadPool k × List (PoolOutput k)}
    (h : StepResult maxQueue s e r) : r.1.work + 1 ≤ s.work + e.cost := by
  have hwake {i : Fin k} {s' : ThreadPool k} (hwaiting : s.workers i = .waiting)
      (hworkers : s'.workers = Function.update s.workers i .notified) :
      s'.total PoolWorker.rank = s.total PoolWorker.rank + 3 := by
    have htotal := total_update PoolWorker.rank hworkers
    rw [hwaiting] at htotal
    exact htotal
  cases h with
  | rejected =>
    show s.work + 1 ≤ s.work + 9
    omega
  | @accepted wakes s' _ _ hnotify =>
    have hlength : s.emplace.tasks.length = s.tasks.length + 1 := List.length_append
    show s'.work + 1 ≤ s.work + 9
    obtain rfl | ⟨i, hwaiting, rfl⟩ := notifyOne_cases hnotify
    · show 5 * s.emplace.tasks.length + s.total PoolWorker.rank + s.shutdown.rank k + 1 ≤ _
      rw [work]
      omega
    · let after := s.emplace.setWorker i .notified
      have htotal : after.total PoolWorker.rank = s.total PoolWorker.rank + 3 :=
        hwake hwaiting rfl
      show 5 * s.emplace.tasks.length + after.total PoolWorker.rank + s.shutdown.rank k + 1 ≤ _
      rw [work]
      omega
  | worker hpc h => exact h.work_lt hpc
  | @spurious i hwaiting =>
    have htotal : (s.setWorker i .notified).total PoolWorker.rank = s.total PoolWorker.rank + 3 :=
      hwake hwaiting rfl
    show 5 * s.tasks.length + (s.setWorker i .notified).total PoolWorker.rank +
      s.shutdown.rank k + 1 ≤ s.work + 4
    rw [work]
    omega
  | stop hpc =>
    show 5 * s.tasks.length + s.total PoolWorker.rank + (3 * k + 2) + 1 ≤ s.work
    rw [work, hpc]
    exact le_rfl
  | notifyAll hpc =>
    have htotal : s.notifyAll.total PoolWorker.rank ≤ s.total PoolWorker.rank + k * 3 :=
      total_notifyAll_le _
    show 5 * s.tasks.length + s.notifyAll.total PoolWorker.rank + 1 + 1 ≤ s.work
    rw [work, hpc, ShutdownPc.rank]
    omega
  | joined hpc =>
    show 5 * s.tasks.length + s.total PoolWorker.rank + 0 + 1 ≤ s.work
    rw [work, hpc]
    exact le_rfl

theorem work_lt_of_isOwn {e : PoolEvent k} {r : ThreadPool k × List (PoolOutput k)}
    (he : e.IsOwn) (h : StepResult maxQueue s e r) : r.1.work < s.work := by
  have hle := h.work_le
  have hcost : e.cost = 0 := by
    rcases he with ⟨i, throws, rfl⟩ | rfl <;> rfl
  omega

/-! ### Stalled workers -/

/-- If no worker can move, each sleeps or has exited. -/
theorem WorkInv.resting (hI : s.WorkInv) (halive : ∀ i, s.workers i ≠ .killed)
    (hstall : ∀ i, s.workerStep i false = none) (i : Fin k) :
    s.workers i = .waiting ∨ s.workers i = .exited := by
  have hfree : s.mutex = none := by
    by_contra hmutex
    obtain ⟨j, hj⟩ := Option.ne_none_iff_exists'.mp hmutex
    have hlocked := (hI.holder j).mpr hj
    have hj' := hstall j
    cases hpc : s.workers j with
    | evaluate | block => simp [workerStep, hpc] at hj'
    | awake =>
      have hawake := hI.awake j hpc
      cases htasks : s.tasks with
      | nil =>
        have hstop : s.stop = true := hawake.resolve_right fun h => h htasks
        simp [workerStep, hpc, hstop, htasks] at hj'
      | cons task rest => simp [workerStep, hpc, htasks] at hj'
    | ready | notified | waiting | running | settling | exited | killed =>
      rw [hpc] at hlocked
      cases hlocked
  have hi := hstall i
  cases hpc : s.workers i with
  | waiting => exact Or.inl rfl
  | exited => exact Or.inr rfl
  | killed => exact absurd hpc (halive i)
  | ready | notified | running => simp [workerStep, hpc, hfree] at hi
  | settling => simp [workerStep, hpc] at hi
  | evaluate | block | awake =>
    have hlocked := hI.free hfree i
    rw [hpc] at hlocked
    cases hlocked

/-- If no worker can move, the queue is empty or all workers have exited. -/
theorem WorkInv.tasks_eq_nil (hI : s.WorkInv)
    (hrest : ∀ i, s.workers i = .waiting ∨ s.workers i = .exited) (hall : ¬ s.AllExited) :
    s.tasks = [] := by
  obtain ⟨i, hi⟩ := not_forall.mp hall
  have hwaiting := (hrest i).resolve_right hi
  have hle := hI.conserving ⟨i, Or.inr hwaiting⟩
  have hzero : s.arrivals = 0 := arrivals_eq_zero fun j => by
    rcases hrest j with hj | hj <;> rw [hj] <;> rfl
  exact List.length_eq_zero_iff.mp (by omega)

theorem exists_worker_of_not_resting (hI : s.WorkInv) (halive : ∀ i, s.workers i ≠ .killed)
    (h : ¬ ∀ i, s.workers i = .waiting ∨ s.workers i = .exited) :
    (threadPool k maxQueue).Enabled PoolEvent.IsWorker s := by
  by_contra hnone
  refine h (hI.resting halive fun i => ?_)
  by_contra hsome
  obtain ⟨r, hr⟩ := Option.ne_none_iff_exists'.mp hsome
  exact hnone ⟨.worker i false, r, ⟨i, false, rfl⟩, hr⟩

/-- The future of an accepted task is ready, or the task is in the queue or held by a worker. -/
theorem QueueInv.ready_or (hI : s.QueueInv maxQueue tr) (hW : s.WorkInv) {task : ℕ}
    (hmem : task ∈ accepted tr) : (s.promises task).Ready ∨ task ∈ s.tasks ∨
      ∃ i, (s.workers i).task = some task := by
  by_cases hdone : task ∈ completed tr
  · obtain ⟨i, threw, hdone⟩ := mem_completed.mp hdone
    rw [(hI.settled i task threw hdone).2]
    exact Or.inl (PromiseState.ready_ofOutcome threw)
  · exact Or.inr (hW.unsettled task (hI.pending task hmem hdone))

theorem wakeInv_of_reaches {es : List (PoolEvent k)}
    (h : (threadPool k maxQueue).Reaches (fun s _ e => s.NotifiesAsleep e) es s tr) :
    s.WakeInv := by
  refine h.invariant (fun s _ => s.WakeInv) ?_ fun _ hI hok hs => hI.step (stepResult hs) hok
  exact ⟨fun hne => absurd rfl hne, fun hdown => by rcases hdown with hdown | hdown <;> cases hdown⟩

/-- After its notification `shutdown` only joins, and it returns when all workers have exited. -/
theorem StepResult.joins {e : PoolEvent k} {r : ThreadPool k × List (PoolOutput k)} (he : e.IsOwn)
    (h : StepResult maxQueue s e r)
    (hpc : s.shutdown = .join ∨ s.shutdown = .done ∧ s.AllExited) :
    r.1.shutdown = .join ∨ r.1.shutdown = .done ∧ r.1.AllExited := by
  have hall (hall : s.AllExited) : r.1.AllExited := (hall.step h).1
  cases h with
  | rejected | accepted | spurious => rcases he with ⟨i, throws, he⟩ | he <;> cases he
  | worker _ h =>
    have hsame : ∀ {i pc r}, WorkerResult s i pc r → r.1.shutdown = s.shutdown := by
      intro i pc r h
      cases h <;> rfl
    rw [hsame h]
    exact hpc.imp_right (And.imp_right hall)
  | stop hidle | notifyAll hidle =>
    rw [hidle] at hpc
    rcases hpc with hpc | ⟨hpc, -⟩ <;> cases hpc
  | joined _ hexited => exact Or.inr ⟨rfl, hexited⟩

/-- The steps of the pool itself accept no task. -/
theorem accepted_append_of_isOwn {e : PoolEvent k} {r : ThreadPool k × List (PoolOutput k)}
    (he : e.IsOwn) (h : StepResult maxQueue s e r) :
    RobotBrain.accepted (tr ++ r.2) = RobotBrain.accepted tr := by
  rw [RobotBrain.accepted, List.filterMap_append]
  cases h with
  | rejected | accepted | spurious => rcases he with ⟨i, throws, he⟩ | he <;> cases he
  | worker _ h => cases h <;> exact List.append_nil _
  | stop | notifyAll | joined => exact List.append_nil _

end ThreadPool

/-! ### Results -/

section Results

open ThreadPool

variable {es : List (PoolEvent k)} {s : ThreadPool k} {tr : List (PoolOutput k)}

/-- In every state reached, as long as a worker sleeps there is for every task in the queue another
worker on its way to the queue; and a queue that is not empty has a worker that can move, unless all
have exited. -/
theorem work_conserving (h : (threadPool k maxQueue).Run es s tr) :
    (∀ i, s.workers i = .waiting → s.tasks.length ≤ s.arrivals) ∧
      (s.tasks ≠ [] → ¬ s.AllExited →
        (threadPool k maxQueue).Enabled PoolEvent.IsWorker s) := by
  have hI := workInv_of_reaches h
  refine ⟨fun i hi => hI.conserving ⟨i, Or.inr hi⟩, fun htasks hall => ?_⟩
  refine exists_worker_of_not_resting hI (queueInv_of_reaches h).alive fun hrest => ?_
  exact htasks (hI.tasks_eq_nil hrest hall)

/-- Two workers: one sleeps and the other has been woken up for the task in the queue. -/
theorem work_conserving_pair :
    ∃ s tr, (threadPool 2 4).Run (List.replicate 3 (.worker 0 false) ++
        List.replicate 3 (.worker 1 false) ++ [.enqueue (some 1)]) s tr ∧
      s.workers 0 = .waiting ∧ s.tasks = [0] ∧ s.tasks.length ≤ s.arrivals := by
  have hrun : ∃ s tr, (threadPool 2 4).Run (List.replicate 3 (.worker 0 false) ++
      List.replicate 3 (.worker 1 false) ++ [.enqueue (some 1)]) s tr ∧
      s.workers 0 = .waiting ∧ s.tasks = [0] :=
    Machine.exists_reaches_of_decide _ (by decide +kernel)
  obtain ⟨s, tr, hrun, hpc, htasks⟩ := hrun
  exact ⟨s, tr, hrun, hpc, htasks, (work_conserving hrun).1 0 hpc⟩

/-- A run has at most nine steps for each call of `enqueue`, four for each spurious wake-up, and
`6 * k + 3` for the start and the end of the pool. -/
theorem run_length_le (h : (threadPool k maxQueue).Run es s tr) :
    es.length ≤ 6 * k + 3 + (es.map PoolEvent.cost).sum := by
  have hle := h.length_le work PoolEvent.cost fun _ hs => (stepResult hs).work_le
  rw [show (threadPool k maxQueue).init.work = 6 * k + 3 from work_initial] at hle
  omega

/-- One task takes one worker eight steps. -/
theorem run_length_le_single :
    ∃ s tr, (threadPool 1 1).Run ([.enqueue none] ++ List.replicate 8 (.worker 0 false)) s tr ∧
      ([.enqueue none] ++ List.replicate 8 (.worker 0 false) : List (PoolEvent 1)).length ≤
        6 * 1 + 3 + 9 := by
  have hrun : ∃ s tr, (threadPool 1 1).Run ([.enqueue none] ++
      List.replicate 8 (.worker 0 false)) s tr ∧ s.tasks = [] :=
    Machine.exists_reaches_of_decide _ (by decide +kernel)
  obtain ⟨s, tr, hrun, -⟩ := hrun
  exact ⟨s, tr, hrun, run_length_le hrun⟩

/-- Unless all workers have exited with tasks in the queue, the steps of the workers make the future
of every accepted task ready, in any order, after at most `s.work` steps. -/
theorem futures_ready (h : (threadPool k maxQueue).Run es s tr)
    (hleft : s.AllExited → s.tasks = []) :
    (threadPool k maxQueue).Inevitable PoolEvent.IsWorker
      (fun s' => ∀ task ∈ accepted tr, (s'.promises task).Ready) s.work s := by
  let I (s' : ThreadPool k) : Prop := ∃ es' tr', (threadPool k maxQueue).Run es' s' tr' ∧
    accepted tr' = accepted tr ∧ (s'.AllExited → s'.tasks = [])
  refine Machine.inevitable_of_measure I work ?_ ?_ ⟨es, tr, h, rfl, hleft⟩
  · rintro s' ⟨es', tr', hrun, hacc, hleft'⟩ hnot
    have hI := workInv_of_reaches hrun
    have hQ := queueInv_of_reaches hrun
    refine exists_worker_of_not_resting hI hQ.alive fun hrest => hnot fun task hmem => ?_
    rw [← hacc] at hmem
    rcases hQ.ready_or hI hmem with hready | htask | ⟨i, hi⟩
    · exact hready
    · have hnil : s'.tasks = [] := by
        by_cases hall : s'.AllExited
        · exact hleft' hall
        · exact hI.tasks_eq_nil hrest hall
      rw [hnil] at htask
      cases htask
    · rcases hrest i with hpc | hpc <;> rw [hpc] at hi <;> cases hi
  · rintro s' e r ⟨es', tr', hrun, hacc, hleft'⟩ - he hs
    have hown : e.IsOwn := Or.inl he
    refine ⟨⟨_, _, hrun.step trivial hs, ?_, ?_⟩, work_lt_of_isOwn hown (stepResult hs)⟩
    · rw [accepted_append_of_isOwn hown (stepResult hs), hacc]
    · refine (stepResult hs).tasks_of_allExited ?_ hleft'
      obtain ⟨i, throws, rfl⟩ := he
      trivial

/-- Two workers and three tasks, of which one is being run. -/
theorem futures_ready_pair :
    ∃ s tr, (threadPool 2 4).Run ([.enqueue none, .enqueue none, .enqueue none] ++
        List.replicate 3 (.worker 0 false)) s tr ∧ accepted tr = [0, 1, 2] ∧
      (threadPool 2 4).Inevitable PoolEvent.IsWorker
        (fun s' => ∀ task ∈ accepted tr, (s'.promises task).Ready) s.work s := by
  have hrun : ∃ s tr, (threadPool 2 4).Run ([.enqueue none, .enqueue none, .enqueue none] ++
      List.replicate 3 (.worker 0 false)) s tr ∧ accepted tr = [0, 1, 2] ∧ ¬ s.AllExited :=
    Machine.exists_reaches_of_decide _ (by decide +kernel)
  obtain ⟨s, tr, hrun, hacc, hnot⟩ := hrun
  exact ⟨s, tr, hrun, hacc, futures_ready hrun fun hall => absurd hall hnot⟩

/-- Once `shutdown` has notified the workers, none of them about to sleep, the steps of the workers
and of `shutdown` lead to its return, in any order, after at most `s.work` steps: then all workers
have exited, and the future of every accepted task is ready or the task is in the queue. -/
theorem shutdown_returns
    (h : (threadPool k maxQueue).Reaches (fun s _ e => s.NotifiesAsleep e) es s tr)
    (hdown : s.shutdown = .join) :
    (threadPool k maxQueue).Inevitable PoolEvent.IsOwn
      (fun s' => s'.shutdown = .done ∧ s'.AllExited ∧
        ∀ task ∈ accepted tr, (s'.promises task).Ready ∨ task ∈ s'.tasks) s.work s := by
  let I (s' : ThreadPool k) : Prop := ∃ es' tr', (threadPool k maxQueue).Run es' s' tr' ∧
    accepted tr' = accepted tr ∧ s'.WakeInv ∧
      (s'.shutdown = .join ∨ s'.shutdown = .done ∧ s'.AllExited)
  refine Machine.inevitable_of_measure I work ?_ ?_
    ⟨es, tr, h.run, rfl, wakeInv_of_reaches h, Or.inl hdown⟩
  · rintro s' ⟨es', tr', hrun, hacc, hwake, hpc⟩ hnot
    have hI := workInv_of_reaches hrun
    have hQ := queueInv_of_reaches hrun
    rcases hpc with hjoin | ⟨hdone, hall⟩
    · by_cases hrest : ∀ i, s'.workers i = .waiting ∨ s'.workers i = .exited
      · have hall : s'.AllExited := fun i =>
          (hrest i).resolve_left fun hi => hwake.awake (Or.inl hjoin) i (Or.inr hi)
        refine ⟨.shutdown, ({ s' with shutdown := .done }, []), Or.inr rfl, ?_⟩
        show s'.shutdownStep.map _ = _
        rw [shutdownStep, hjoin]
        dsimp only
        rw [if_pos (show ∀ i, s'.workers i = .exited from hall)]
        rfl
      · obtain ⟨e, r, he, hs⟩ := exists_worker_of_not_resting hI hQ.alive hrest
        exact ⟨e, r, Or.inl he, hs⟩
    · refine absurd ⟨hdone, hall, fun task hmem => ?_⟩ hnot
      rw [← hacc] at hmem
      refine (hQ.ready_or hI hmem).imp_right fun hopen => hopen.resolve_right ?_
      rintro ⟨i, hi⟩
      rw [hall i] at hi
      cases hi
  · rintro s' e r ⟨es', tr', hrun, hacc, hwake, hpc⟩ - he hs
    have hok : s'.NotifiesAsleep e := by
      rcases he with ⟨i, throws, rfl⟩ | rfl
      · trivial
      · intro hnotify
        rcases hpc with hjoin | ⟨hdone, -⟩
        · rw [hjoin] at hnotify
          cases hnotify
        · rw [hdone] at hnotify
          cases hnotify
    refine ⟨⟨_, _, hrun.step trivial hs, ?_, hwake.step (stepResult hs) hok, ?_⟩,
      work_lt_of_isOwn he (stepResult hs)⟩
    · rw [accepted_append_of_isOwn he (stepResult hs), hacc]
    · exact (stepResult hs).joins he hpc

/-- One worker and one task: `shutdown` is called when the worker has taken the task. -/
theorem shutdown_returns_single :
    ∃ s tr, (threadPool 1 1).Run ([.enqueue none] ++ List.replicate 3 (.worker 0 false) ++
        [.shutdown, .shutdown]) s tr ∧ s.work = 6 ∧ 0 ∈ accepted tr ∧
      (threadPool 1 1).Inevitable PoolEvent.IsOwn
        (fun s' => s'.shutdown = .done ∧ s'.AllExited ∧
          ∀ task ∈ accepted tr, (s'.promises task).Ready ∨ task ∈ s'.tasks) s.work s := by
  have hrun : ∃ s tr, (threadPool 1 1).Reaches (fun s _ e => s.NotifiesAsleep e)
      ([.enqueue none] ++ List.replicate 3 (.worker 0 false) ++ [.shutdown, .shutdown]) s tr ∧
      s.shutdown = .join ∧ s.work = 6 ∧ 0 ∈ accepted tr :=
    Machine.exists_reaches_of_decide _ (by decide +kernel)
  obtain ⟨s, tr, hreach, hdown, hwork, hacc⟩ := hrun
  exact ⟨s, tr, hreach.run, hwork, hacc, shutdown_returns hreach hdown⟩

end Results

end RobotBrain
