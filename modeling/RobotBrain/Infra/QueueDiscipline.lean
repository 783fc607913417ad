import RobotBrain.Infra.ThreadPool
import Mathlib.Data.List.Nodup

/-!
# The queue of the thread pool

The tasks that the workers have taken and those in the queue are together the accepted tasks, in
the order in which they were accepted. A task that has been taken is held by one worker until its
promise is set, and that happens once: the promise is pending until then, so that setting it does
not throw.

## Main definitions

* `accepted`, `rejected`, `taken`, `completed` — the tasks of a trace.
* `ThreadPool.QueueInv` — the invariant.

## Main results

* `ThreadPool.queueInv_of_reaches` — the invariant holds in every interleaving.
* `queue_discipline` — bound, rejection, order and completion.
-/

namespace RobotBrain

variable {k maxQueue : ℕ}

/-- The tasks that `enqueue` has accepted, in order. -/
def accepted (tr : List (PoolOutput k)) : List ℕ :=
  tr.filterMap fun
    | .accepted task => some task
    | _ => none

/-- The tasks for which `enqueue` has returned `nullopt`. -/
def rejected (tr : List (PoolOutput k)) : List ℕ :=
  tr.filterMap fun
    | .rejected task => some task
    | _ => none

/-- The tasks that the workers have taken, in order. -/
def taken (tr : List (PoolOutput k)) : List ℕ :=
  tr.filterMap fun
    | .taken _ task => some task
    | _ => none

/-- The tasks whose promise has been set. -/
def completed (tr : List (PoolOutput k)) : List ℕ :=
  tr.filterMap fun
    | .completed _ task _ => some task
    | _ => none

section Traces

variable {tr : List (PoolOutput k)} {i : Fin k} {task : ℕ}

theorem mem_accepted : task ∈ accepted tr ↔ .accepted task ∈ tr := by
  rw [accepted, List.mem_filterMap]
  constructor
  · rintro ⟨o, ho, hmatch⟩
    cases o <;> cases hmatch
    exact ho
  · intro h
    exact ⟨_, h, rfl⟩

theorem mem_rejected : task ∈ rejected tr ↔ .rejected task ∈ tr := by
  rw [rejected, List.mem_filterMap]
  constructor
  · rintro ⟨o, ho, hmatch⟩
    cases o <;> cases hmatch
    exact ho
  · intro h
    exact ⟨_, h, rfl⟩

theorem mem_taken : task ∈ taken tr ↔ ∃ i, .taken i task ∈ tr := by
  rw [taken, List.mem_filterMap]
  constructor
  · rintro ⟨o, ho, hmatch⟩
    cases o <;> cases hmatch
    exact ⟨_, ho⟩
  · rintro ⟨i, h⟩
    exact ⟨_, h, rfl⟩

theorem mem_completed : task ∈ completed tr ↔ ∃ i threw, .completed i task threw ∈ tr := by
  rw [completed, List.mem_filterMap]
  constructor
  · rintro ⟨o, ho, hmatch⟩
    cases o <;> cases hmatch
    exact ⟨_, _, ho⟩
  · rintro ⟨i, threw, h⟩
    exact ⟨_, h, rfl⟩

end Traces

/-- The task that a worker has taken and not yet completed. -/
def PoolWorker.task : PoolWorker → Option ℕ
  | .running task | .settling task _ => some task
  | _ => none

namespace ThreadPool

/-- The queue, the workers and the promises say what has become of every call of `enqueue`. -/
structure QueueInv (maxQueue : ℕ) (s : ThreadPool k) (tr : List (PoolOutput k)) : Prop where
  bound : s.tasks.length ≤ maxQueue
  fifo : taken tr ++ s.tasks = accepted tr
  numbered : ∀ task ∈ accepted tr ++ rejected tr, task < s.calls
  nodup : (accepted tr ++ rejected tr).Nodup
  held : ∀ i task, (s.workers i).task = some task → .taken i task ∈ tr ∧ task ∉ completed tr
  holder : ∀ i j task, (s.workers i).task = some task → (s.workers j).task = some task → i = j
  progress : ∀ i task, .taken i task ∈ tr → task ∈ completed tr ∨ (s.workers i).task = some task
  taker : ∀ i j task, .taken i task ∈ tr → .taken j task ∈ tr → i = j
  once : (completed tr).Nodup
  settled : ∀ i task threw, .completed i task threw ∈ tr →
    .taken i task ∈ tr ∧ s.promises task = .ofOutcome threw
  pending : ∀ task ∈ accepted tr, task ∉ completed tr → s.promises task = .pending
  alive : ∀ i, s.workers i ≠ .killed

variable {s s' : ThreadPool k} {tr : List (PoolOutput k)}

theorem QueueInv.mem_accepted_of_taken (hI : s.QueueInv maxQueue tr) {i : Fin k} {task : ℕ}
    (h : .taken i task ∈ tr) : task ∈ accepted tr := by
  rw [← hI.fifo]
  exact List.mem_append_left _ (mem_taken.mpr ⟨i, h⟩)

/-- The promise of a task that a worker holds is pending. -/
theorem QueueInv.pending_of_held (hI : s.QueueInv maxQueue tr) {i : Fin k} {task : ℕ}
    (h : (s.workers i).task = some task) : s.promises task = .pending := by
  obtain ⟨htaken, hopen⟩ := hI.held i task h
  exact hI.pending task (hI.mem_accepted_of_taken htaken) hopen

/-- Steps that neither move a task nor touch a promise keep the invariant. -/
theorem QueueInv.congr (hI : s.QueueInv maxQueue tr) (htasks : s'.tasks = s.tasks)
    (hcalls : s'.calls = s.calls) (hpromises : s'.promises = s.promises)
    (hworkers : ∀ i, (s'.workers i).task = (s.workers i).task)
    (halive : ∀ i, s'.workers i ≠ .killed) : s'.QueueInv maxQueue tr where
  bound := by rw [htasks]; exact hI.bound
  fifo := by rw [htasks]; exact hI.fifo
  numbered := by rw [hcalls]; exact hI.numbered
  nodup := hI.nodup
  held := by simp only [hworkers]; exact hI.held
  holder := by simp only [hworkers]; exact hI.holder
  progress := by simp only [hworkers]; exact hI.progress
  taker := hI.taker
  once := hI.once
  settled := by rw [hpromises]; exact hI.settled
  pending := by rw [hpromises]; exact hI.pending
  alive := halive

/-- A worker that moves on with its task, or without one, keeps the invariant. -/
theorem QueueInv.setWorker (hI : s.QueueInv maxQueue tr) {i : Fin k} {pc : PoolWorker}
    (htask : pc.task = (s.workers i).task) (halive : pc ≠ .killed) :
    (s.setWorker i pc).QueueInv maxQueue tr := by
  refine hI.congr rfl rfl rfl (fun j => ?_) fun j => ?_
  · by_cases hj : j = i
    · subst hj
      rw [setWorker_workers_self, htask]
    · rw [setWorker_workers_of_ne hj]
  · by_cases hj : j = i
    · subst hj
      rw [setWorker_workers_self]
      exact halive
    · rw [setWorker_workers_of_ne hj]
      exact hI.alive j

/-- Refusing a call records it. -/
theorem QueueInv.refuse (hI : s.QueueInv maxQueue tr) :
    s.refuse.QueueInv maxQueue (tr ++ [.rejected s.calls]) := by
  have hacc : accepted (tr ++ [.rejected s.calls]) = accepted tr := by simp [accepted]
  have hrej : rejected (tr ++ [.rejected s.calls]) = rejected tr ++ [s.calls] := by
    simp [rejected]
  have htaken : taken (tr ++ [.rejected s.calls]) = taken tr := by simp [taken]
  have hdone : completed (tr ++ [.rejected s.calls]) = completed tr := by simp [completed]
  have hnew : s.calls ∉ accepted tr ++ rejected tr := fun hmem => (hI.numbered _ hmem).false
  refine ⟨hI.bound, ?_, ?_, ?_, ?_, hI.holder, ?_, ?_, ?_, ?_, ?_, hI.alive⟩
  · rw [htaken, hacc]
    exact hI.fifo
  · rw [hacc, hrej, ← List.append_assoc]
    intro task htask
    show task < s.calls + 1
    rcases List.mem_append.mp htask with htask | htask
    · have hlt := hI.numbered task htask
      omega
    · rw [List.mem_singleton] at htask
      omega
  · rw [hacc, hrej, ← List.append_assoc]
    exact List.concat_eq_append ▸ (List.nodup_concat _ _).mpr ⟨hnew, hI.nodup⟩
  · rw [hdone]
    intro i task htask
    obtain ⟨hmem, hopen⟩ := hI.held i task htask
    exact ⟨List.mem_append_left _ hmem, hopen⟩
  · rw [hdone]
    exact fun i task hmem => hI.progress i task (by simpa using hmem)
  · exact fun i j task hi hj => hI.taker i j task (by simpa using hi) (by simpa using hj)
  · rw [hdone]
    exact hI.once
  · intro i task threw hmem
    obtain ⟨hmem, hpromise⟩ := hI.settled i task threw (by simpa using hmem)
    exact ⟨List.mem_append_left _ hmem, hpromise⟩
  · rw [hacc, hdone]
    exact hI.pending

/-- Accepting a call puts its task at the end of the queue and makes its promise. -/
theorem QueueInv.emplace (hI : s.QueueInv maxQueue tr) (hroom : s.tasks.length < maxQueue) :
    s.emplace.QueueInv maxQueue (tr ++ [.accepted s.calls]) := by
  have hacc : accepted (tr ++ [.accepted s.calls]) = accepted tr ++ [s.calls] := by
    simp [accepted]
  have hrej : rejected (tr ++ [.accepted s.calls]) = rejected tr := by simp [rejected]
  have htaken : taken (tr ++ [.accepted s.calls]) = taken tr := by simp [taken]
  have hdone : completed (tr ++ [.accepted s.calls]) = completed tr := by simp [completed]
  have hnew : s.calls ∉ accepted tr ++ rejected tr := fun hmem => (hI.numbered _ hmem).false
  have hold {task : ℕ} (hmem : task ∈ accepted tr) : task ≠ s.calls := by
    rintro rfl
    exact hnew (List.mem_append_left _ hmem)
  refine ⟨?_, ?_, ?_, ?_, ?_, hI.holder, ?_, ?_, ?_, ?_, ?_, hI.alive⟩
  · show (s.tasks ++ [s.calls]).length ≤ maxQueue
    rw [List.length_append, List.length_singleton]
    omega
  · show taken (tr ++ [.accepted s.calls]) ++ (s.tasks ++ [s.calls]) = _
    rw [htaken, hacc, ← hI.fifo, List.append_assoc]
  · rw [hacc, hrej]
    intro task htask
    show task < s.calls + 1
    have hcases : task ∈ accepted tr ++ rejected tr ∨ task = s.calls := by
      simp only [List.mem_append, List.mem_singleton] at htask ⊢
      tauto
    rcases hcases with htask | htask
    · have hlt := hI.numbered task htask
      omega
    · omega
  · rw [hacc, hrej, List.append_assoc]
    exact List.nodup_middle.mpr (List.nodup_cons.mpr ⟨hnew, hI.nodup⟩)
  · rw [hdone]
    intro i task htask
    obtain ⟨hmem, hopen⟩ := hI.held i task htask
    exact ⟨List.mem_append_left _ hmem, hopen⟩
  · rw [hdone]
    exact fun i task hmem => hI.progress i task (by simpa using hmem)
  · exact fun i j task hi hj => hI.taker i j task (by simpa using hi) (by simpa using hj)
  · rw [hdone]
    exact hI.once
  · intro i task threw hmem
    obtain ⟨hmem, hpromise⟩ := hI.settled i task threw (by simpa using hmem)
    refine ⟨List.mem_append_left _ hmem, ?_⟩
    rw [← hpromise]
    exact setPromise_promises_of_ne (hold (hI.mem_accepted_of_taken hmem)) _ s
  · rw [hacc, hdone]
    intro task htask hopen
    show (s.setPromise s.calls .pending).promises task = .pending
    rcases List.mem_append.mp htask with htask | htask
    · rw [setPromise_promises_of_ne (hold htask)]
      exact hI.pending task htask hopen
    · rw [List.mem_singleton.mp htask]
      exact setPromise_promises_self _ _ s

/-- A notification moves no task. -/
theorem QueueInv.notifyOne (hI : s.QueueInv maxQueue tr) {wakes : Option (Fin k)}
    (h : s.notifyOne wakes = some s') : s'.QueueInv maxQueue tr := by
  obtain rfl | ⟨i, hwaiting, rfl⟩ := notifyOne_cases h
  · exact hI
  · exact hI.setWorker (by rw [hwaiting]; rfl) nofun

/-- A worker that holds no task takes the first one of the queue. -/
theorem QueueInv.take (hI : s.QueueInv maxQueue tr) {i : Fin k} {task : ℕ} {rest : List ℕ}
    (htasks : s.tasks = task :: rest) (hidle : (s.workers i).task = none) :
    QueueInv maxQueue (({ s with tasks := rest }.unlock).setWorker i (.running task))
      (tr ++ [.taken i task]) := by
  have hacc : accepted (tr ++ [.taken i task]) = accepted tr := by simp [accepted]
  have hrej : rejected (tr ++ [.taken i task]) = rejected tr := by simp [rejected]
  have htaken : taken (tr ++ [.taken i task]) = taken tr ++ [task] := by simp [taken]
  have hdone : completed (tr ++ [.taken i task]) = completed tr := by simp [completed]
  have hfifo : taken tr ++ task :: rest = accepted tr := by
    rw [← htasks]
    exact hI.fifo
  have hfresh : task ∉ taken tr := by
    have hnodup : (taken tr ++ task :: rest).Nodup := by
      rw [hfifo]
      exact (List.nodup_append.mp hI.nodup).1
    exact fun hmem => (List.nodup_append.mp hnodup).2.2 task hmem task List.mem_cons_self rfl
  have hopen : task ∉ completed tr := by
    intro hmem
    obtain ⟨j, threw, hmem⟩ := mem_completed.mp hmem
    exact hfresh (mem_taken.mpr ⟨j, (hI.settled j task threw hmem).1⟩)
  have hself : ((({ s with tasks := rest }.unlock).setWorker i (.running task)).workers i).task =
      some task := by
    rw [setWorker_workers_self]
    rfl
  have hother {j : Fin k} (hj : j ≠ i) :
      (({ s with tasks := rest }.unlock).setWorker i (.running task)).workers j = s.workers j :=
    setWorker_workers_of_ne hj _ _
  have hbefore {j : Fin k} (hj : (s.workers j).task = some task) : False :=
    hfresh (mem_taken.mpr ⟨j, (hI.held j task hj).1⟩)
  refine ⟨?_, ?_, ?_, ?_, ?_, ?_, ?_, ?_, ?_, ?_, ?_, ?_⟩
  · have hbound := hI.bound
    rw [htasks, List.length_cons] at hbound
    show rest.length ≤ maxQueue
    omega
  · show taken (tr ++ [.taken i task]) ++ rest = _
    rw [htaken, hacc, ← hfifo, List.append_assoc]
    rfl
  · rw [hacc, hrej]
    exact hI.numbered
  · rw [hacc, hrej]
    exact hI.nodup
  · rw [hdone]
    intro j other hheld
    by_cases hj : j = i
    · subst hj
      obtain rfl : task = other := Option.some.inj (hself.symm.trans hheld)
      exact ⟨by simp, hopen⟩
    · rw [hother hj] at hheld
      obtain ⟨hmem, hnot⟩ := hI.held j other hheld
      exact ⟨List.mem_append_left _ hmem, hnot⟩
  · intro j j' other hheld hheld'
    by_cases hj : j = i
    · subst hj
      by_cases hj' : j' = j
      · exact hj'.symm
      · obtain rfl : task = other := Option.some.inj (hself.symm.trans hheld)
        rw [hother hj'] at hheld'
        exact (hbefore hheld').elim
    · rw [hother hj] at hheld
      by_cases hj' : j' = i
      · subst hj'
        obtain rfl : task = other := Option.some.inj (hself.symm.trans hheld')
        exact (hbefore hheld).elim
      · rw [hother hj'] at hheld'
        exact hI.holder j j' other hheld hheld'
  · rw [hdone]
    intro j other hmem
    rcases List.mem_append.mp hmem with hmem | hmem
    · rcases hI.progress j other hmem with hmem | hheld
      · exact Or.inl hmem
      · have hj : j ≠ i := by
          rintro rfl
          rw [hidle] at hheld
          cases hheld
        rw [hother hj]
        exact Or.inr hheld
    · cases List.mem_singleton.mp hmem
      exact Or.inr hself
  · intro j j' other hmem hmem'
    rcases List.mem_append.mp hmem with hmem | hmem
    · rcases List.mem_append.mp hmem' with hmem' | hmem'
      · exact hI.taker j j' other hmem hmem'
      · cases List.mem_singleton.mp hmem'
        exact absurd (mem_taken.mpr ⟨j, hmem⟩) hfresh
    · cases List.mem_singleton.mp hmem
      rcases List.mem_append.mp hmem' with hmem' | hmem'
      · exact absurd (mem_taken.mpr ⟨j', hmem'⟩) hfresh
      · cases List.mem_singleton.mp hmem'
        rfl
  · rw [hdone]
    exact hI.once
  · intro j other threw hmem
    obtain ⟨hmem, hpromise⟩ := hI.settled j other threw (by simpa using hmem)
    exact ⟨List.mem_append_left _ hmem, hpromise⟩
  · rw [hacc, hdone]
    exact hI.pending
  · intro j
    by_cases hj : j = i
    · subst hj
      rw [setWorker_workers_self]
      exact nofun
    · rw [hother hj]
      exact hI.alive j

/-- A worker sets the promise of the task that it holds and lets the task go. -/
theorem QueueInv.settle (hI : s.QueueInv maxQueue tr) {i : Fin k} {task : ℕ} {threw : Bool}
    (hpc : s.workers i = .settling task threw) :
    ((s.setPromise task (.ofOutcome threw)).setWorker i .ready).QueueInv maxQueue
      (tr ++ [.completed i task threw]) := by
  have hacc : accepted (tr ++ [.completed i task threw]) = accepted tr := by simp [accepted]
  have hrej : rejected (tr ++ [.completed i task threw]) = rejected tr := by simp [rejected]
  have htaken : taken (tr ++ [.completed i task threw]) = taken tr := by simp [taken]
  have hdone : completed (tr ++ [.completed i task threw]) = completed tr ++ [task] := by
    simp [completed]
  have hheld : (s.workers i).task = some task := by
    rw [hpc]
    rfl
  obtain ⟨hmem, hopen⟩ := hI.held i task hheld
  have hother {j : Fin k} (hj : j ≠ i) :
      ((s.setPromise task (.ofOutcome threw)).setWorker i .ready).workers j = s.workers j :=
    setWorker_workers_of_ne hj _ _
  have hself {other : ℕ} :
      (((s.setPromise task (.ofOutcome threw)).setWorker i .ready).workers i).task ≠
        some other := by
    rw [setWorker_workers_self]
    exact nofun
  have hpromise {other : ℕ} (hne : other ≠ task) :
      (s.setPromise task (.ofOutcome threw)).promises other = s.promises other :=
    setPromise_promises_of_ne hne _ s
  refine ⟨hI.bound, ?_, ?_, ?_, ?_, ?_, ?_, ?_, ?_, ?_, ?_, ?_⟩
  · rw [htaken, hacc]
    exact hI.fifo
  · rw [hacc, hrej]
    exact hI.numbered
  · rw [hacc, hrej]
    exact hI.nodup
  · rw [hdone]
    intro j other hj
    by_cases hji : j = i
    · subst hji
      exact absurd hj hself
    · rw [hother hji] at hj
      obtain ⟨hmem', hopen'⟩ := hI.held j other hj
      refine ⟨List.mem_append_left _ hmem', fun hin => ?_⟩
      rcases List.mem_append.mp hin with hin | hin
      · exact hopen' hin
      · rw [List.mem_singleton.mp hin] at hj
        exact hji (hI.holder j i task hj hheld)
  · intro j j' other hj hj'
    by_cases hji : j = i
    · subst hji
      exact absurd hj hself
    · by_cases hji' : j' = i
      · subst hji'
        exact absurd hj' hself
      · rw [hother hji] at hj
        rw [hother hji'] at hj'
        exact hI.holder j j' other hj hj'
  · rw [hdone]
    intro j other hin
    by_cases hne : other = task
    · rw [hne]
      exact Or.inl (List.mem_append_right _ List.mem_cons_self)
    · rcases hI.progress j other (by simpa using hin) with hin | hj
      · exact Or.inl (List.mem_append_left _ hin)
      · have hji : j ≠ i := by
          rintro rfl
          rw [hheld] at hj
          exact hne (Option.some.inj hj).symm
        rw [hother hji]
        exact Or.inr hj
  · exact fun j j' other hj hj' => hI.taker j j' other (by simpa using hj) (by simpa using hj')
  · rw [hdone, ← List.concat_eq_append]
    exact (List.nodup_concat _ _).mpr ⟨hopen, hI.once⟩
  · intro j other threw' hin
    rcases List.mem_append.mp hin with hin | hin
    · obtain ⟨hmem', hsettled⟩ := hI.settled j other threw' hin
      have hne : other ≠ task := by
        rintro rfl
        exact hopen (mem_completed.mpr ⟨j, threw', ‹_›⟩)
      exact ⟨List.mem_append_left _ hmem', (hpromise hne).trans hsettled⟩
    · cases List.mem_singleton.mp hin
      exact ⟨List.mem_append_left _ hmem, setPromise_promises_self _ _ s⟩
  · rw [hacc, hdone]
    intro other hin hnot
    rw [List.mem_append, not_or, List.mem_singleton] at hnot
    exact (hpromise hnot.2).trans (hI.pending other hin hnot.1)
  · intro j
    by_cases hji : j = i
    · subst hji
      rw [setWorker_workers_self]
      exact nofun
    · rw [hother hji]
      exact hI.alive j

/-- The accesses of a worker keep the invariant; the promise of its task is pending when it is
set. -/
theorem QueueInv.worker (hI : s.QueueInv maxQueue tr) {i : Fin k} {pc : PoolWorker}
    {r : ThreadPool k × List (PoolOutput k)} (hpc : s.workers i = pc)
    (h : WorkerResult s i pc r) : r.1.QueueInv maxQueue (tr ++ r.2) := by
  have hidle (h : pc.task = none) : (s.workers i).task = none := by
    rw [hpc]
    exact h
  -- the mutex is not part of the invariant
  have hmutex (m : Option (Fin k)) : QueueInv maxQueue { s with mutex := m } tr :=
    hI.congr rfl rfl rfl (fun _ => rfl) hI.alive
  cases h with
  | lock hpc' =>
    rw [List.append_nil]
    refine (hmutex (some i)).setWorker (hidle ?_).symm nofun
    rcases hpc' with rfl | rfl <;> rfl
  | found | nothing =>
    rw [List.append_nil]
    exact hI.setWorker (hidle rfl).symm nofun
  | sleep | exit =>
    rw [List.append_nil]
    exact (hmutex none).setWorker (hidle rfl).symm nofun
  | take htasks => exact hI.take htasks (hidle rfl)
  | ran task throws =>
    rw [List.append_nil]
    refine hI.setWorker ?_ nofun
    rw [hpc]
    rfl
  | settled threw => exact hI.settle hpc
  | killed threw hset =>
    have hheld : (s.workers i).task = some _ := congrArg PoolWorker.task hpc
    exact absurd (hI.pending_of_held hheld) hset

theorem QueueInv.step (hI : s.QueueInv maxQueue tr) {e : PoolEvent k}
    {r : ThreadPool k × List (PoolOutput k)} (h : StepResult maxQueue s e r) :
    r.1.QueueInv maxQueue (tr ++ r.2) := by
  cases h with
  | rejected => exact hI.refuse
  | accepted _ hroom hnotify => exact (hI.emplace hroom).notifyOne hnotify
  | worker hpc h => exact hI.worker hpc h
  | spurious hpc =>
    rw [List.append_nil]
    exact hI.setWorker (by rw [hpc]; rfl) nofun
  | stop | joined =>
    rw [List.append_nil]
    exact hI.congr rfl rfl rfl (fun _ => rfl) hI.alive
  | notifyAll =>
    rw [List.append_nil]
    refine hI.congr rfl rfl rfl (fun i => ?_) fun i => ?_
    · show (if s.workers i = .waiting then PoolWorker.notified else s.workers i).task = _
      split_ifs with hwaiting
      · rw [hwaiting]
        rfl
      · rfl
    · show (if s.workers i = .waiting then PoolWorker.notified else s.workers i) ≠ .killed
      split_ifs
      · exact nofun
      · exact hI.alive i

theorem queueInv_of_reaches {ok : ThreadPool k → List (PoolOutput k) → PoolEvent k → Prop}
    {es : List (PoolEvent k)} (h : (threadPool k maxQueue).Reaches ok es s tr) :
    s.QueueInv maxQueue tr := by
  refine h.invariant (fun s tr => s.QueueInv maxQueue tr) ?_ ?_
  · refine ⟨Nat.zero_le _, rfl, nofun, List.nodup_nil, nofun, nofun, nofun, nofun,
      List.nodup_nil, nofun, nofun, nofun⟩
  · intro es s tr e s' out _ hI _ hs
    exact hI.step (stepResult hs)

/-- From the end of a task the worker sets its promise and goes back to the top of its loop. -/
theorem QueueInv.settles (hI : s.QueueInv maxQueue tr) {i : Fin k} {task : ℕ}
    (hpc : s.workers i = .running task) (throws : Bool) :
    ∃ s', (threadPool k maxQueue).follow s [.worker i throws, .worker i throws] =
        some (s', [.completed i task throws]) ∧
      s'.workers i = .ready ∧ s'.promises task = .ofOutcome throws := by
  have hpending : s.promises task = .pending := hI.pending_of_held (congrArg PoolWorker.task hpc)
  have hpending' : (s.setWorker i (.settling task throws)).promises task = .pending := hpending
  refine ⟨((s.setWorker i (.settling task throws)).setPromise task (.ofOutcome throws)).setWorker i
    .ready, ?_, setWorker_workers_self _ _ _, setPromise_promises_self _ _ _⟩
  simp only [Machine.follow, threadPool, ThreadPool.step, workerStep, hpc, setWorker_workers_self,
    ThreadPool.settle, hpending', if_true, Option.map_some, List.nil_append,
    List.append_nil]

end ThreadPool

/-- In every interleaving of the calls of `enqueue` with the workers and `shutdown`:

* the queue holds at most `maxQueue` tasks, and `enqueue` returns `nullopt` exactly when it holds
  that many;
* a task that has been refused is never accepted or run;
* the tasks taken by the workers are a prefix of the accepted tasks, which are distinct;
* a task that has been taken either is held by one worker, with its promise pending, or has been
  completed, once, by the worker that took it, and its promise has been set accordingly;
* a worker whose task returns or throws sets the promise and goes on. -/
theorem queue_discipline {es : List (PoolEvent k)} {s : ThreadPool k} {tr : List (PoolOutput k)}
    (h : (threadPool k maxQueue).Run es s tr) :
    s.tasks.length ≤ maxQueue ∧
      (∀ wakes r, s.step maxQueue (.enqueue wakes) = some r →
        (r.2 = [.rejected s.calls] ↔ s.tasks.length = maxQueue) ∧
          (r.2 = [.accepted s.calls] ↔ s.tasks.length ≠ maxQueue)) ∧
      (∀ task, .rejected task ∈ tr → .accepted task ∉ tr ∧ ∀ i, .taken i task ∉ tr) ∧
      taken tr <+: accepted tr ∧ (accepted tr).Nodup ∧ (completed tr).Nodup ∧
      (∀ i task, .taken i task ∈ tr →
        (∃ threw, .completed i task threw ∈ tr ∧ s.promises task = .ofOutcome threw) ∨
          (s.workers i).task = some task ∧ task ∉ completed tr ∧ s.promises task = .pending) ∧
      (∀ i task threw, .completed i task threw ∈ tr → .taken i task ∈ tr) ∧
      (∀ i task, s.workers i = .running task → ∀ throws,
        ∃ s', (threadPool k maxQueue).follow s [.worker i throws, .worker i throws] =
            some (s', [.completed i task throws]) ∧
          s'.workers i = .ready ∧ s'.promises task = .ofOutcome throws) ∧
      ∀ i, s.workers i ≠ .killed := by
  have hI := ThreadPool.queueInv_of_reaches h
  have hnodup := List.nodup_append.mp hI.nodup
  refine ⟨hI.bound, ?_, ?_, ⟨s.tasks, hI.fifo⟩, hnodup.1, hI.once, ?_, ?_,
    fun i task hpc throws => hI.settles hpc throws, hI.alive⟩
  · intro wakes r hr
    have hbound := hI.bound
    cases ThreadPool.stepResult hr with
    | rejected hfree hfull => simpa using (show s.tasks.length = maxQueue by omega)
    | accepted hfree hroom => simpa using (show s.tasks.length ≠ maxQueue by omega)
  · intro task hrej
    have hnot : task ∉ accepted tr := fun hacc =>
      hnodup.2.2 task hacc task (mem_rejected.mpr hrej) rfl
    exact ⟨fun hacc => hnot (mem_accepted.mpr hacc),
      fun i htaken => hnot (hI.mem_accepted_of_taken htaken)⟩
  · intro i task htaken
    by_cases hdone : task ∈ completed tr
    · obtain ⟨j, threw, hmem⟩ := mem_completed.mp hdone
      obtain ⟨htaken', hpromise⟩ := hI.settled j task threw hmem
      obtain rfl := hI.taker i j task htaken htaken'
      exact Or.inl ⟨threw, hmem, hpromise⟩
    · have hheld := (hI.progress i task htaken).resolve_left hdone
      exact Or.inr ⟨hheld, hdone, hI.pending_of_held hheld⟩
  · intro i task threw hmem
    exact (hI.settled i task threw hmem).1

/-- One worker and a queue of one task: of two calls of `enqueue` the second is refused, and the
task of the first throws. -/
theorem queue_discipline_single :
    ∃ s tr, (threadPool 1 1).Run ([.enqueue none, .enqueue none] ++
        List.replicate 5 (.worker 0 true)) s tr ∧
      s.tasks.length ≤ 1 ∧ .taken 0 0 ∈ tr ∧ .completed 0 0 true ∈ tr ∧ .rejected 1 ∈ tr ∧
      .accepted 1 ∉ tr ∧ s.workers 0 ≠ .killed := by
  have hrun : ∃ s tr, (threadPool 1 1).Run ([.enqueue none, .enqueue none] ++
      List.replicate 5 (.worker 0 true)) s tr ∧
      .completed 0 0 true ∈ tr ∧ .rejected 1 ∈ tr :=
    Machine.exists_reaches_of_decide _ (by decide +kernel)
  obtain ⟨s, tr, hrun, hdone, hrej⟩ := hrun
  obtain ⟨hbound, -, hrefused, -, -, -, -, htaken, -, halive⟩ := queue_discipline hrun
  exact ⟨s, tr, hrun, hbound, htaken 0 0 true hdone, hdone, hrej, (hrefused 1 hrej).1, halive 0⟩

end RobotBrain
