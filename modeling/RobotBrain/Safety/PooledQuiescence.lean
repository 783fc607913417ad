import RobotBrain.Brain.PoolRefinement
import RobotBrain.Infra.Progress
import RobotBrain.Safety.Quiescence

/-!
# The brain with its pools comes to rest

With the loop of the pool's worker between them the threads do wait: `enqueue` for the mutex, and
the worker for a notification. They never wait for each other. The worker unlocks the mutex within
two steps, and it does not sleep while a task is in the queue, so the calls under way still end. At
rest the worker sleeps, and no future that `enqueue` has handed out is open.

## Main definitions

* `PooledEvent.Internal`, `Pooled.AtRest`, `Pooled.work` — as for the threads alone.

## Main results

* `pooled_comes_to_rest` — rest is inevitable, after at most 86 steps.
-/

namespace RobotBrain

open ExtNum

variable {n : ℕ} {H : Type*} {cfg : BrainConfig n} {env : Environment n H}

/-- The input goes on with a call under way, or with the loop of the pool's worker after a
notification. -/
def PooledEvent.Internal : PooledEvent n → Prop
  | .access e => e.Internal
  | .enqueue _ | .pool | .forward _ _ | .releaseBuffer => True
  | .spurious => False

namespace Threads

/-- Only `enqueue` moves the queue from the side of the control thread. -/
theorem ControlResult.inferenceQueue_eq {prop : Proprioception n} {b b' : Brain n H}
    {pc pc' : ControlPc n} {out : List (Output n)} (h : ControlResult cfg env prop b pc b' pc' out)
    (hpc : ∀ f, pc ≠ .enqueue f) : b'.inferenceQueue = b.inferenceQueue := by
  cases h
  case enqueued f _ => exact absurd rfl (hpc f)
  all_goals rfl

/-- An access that is none to a pool brings the end of its call closer. -/
theorem StepResult.remaining_lt {s : Threads n H} {e : ThreadEvent n}
    {r : Threads n H × List (Output n)} (h : StepResult cfg env s e r) (he : e.Internal)
    (hfree : s.usesPool e = false) :
    r.1.rpc.remaining + 2 * r.1.control.remaining + r.1.worker.remaining <
      s.rpc.remaining + 2 * s.control.remaining + s.worker.remaining := by
  cases h with
  | call | tick => exact he.elim
  | dequeue => cases hfree
  | rpc h =>
    have hlt := h.remaining_lt
    dsimp only
    omega
  | control h =>
    have hqueue := h.inferenceQueue_eq fun f hpc => by
      simp only [usesPool, hpc, Bool.true_eq_false] at hfree
    have hlt := h.remaining_lt
    rw [hqueue] at hlt
    dsimp only
    omega
  | worker h =>
    obtain ⟨-, -, hlt, -⟩ := h.gate
    dsimp only
    omega

end Threads

namespace Pooled

variable {now : ℤ} {es : List (PooledEvent n)} {s : Pooled n H} {tr : List (Output n)}

/-- No thread is in a call, no task is queued, and the worker of the pool sleeps. -/
structure AtRest (s : Pooled n H) : Prop where
  rpc : s.threads.rpc = .idle
  control : s.threads.control = .idle
  worker : s.threads.worker = .idle
  asleep : s.inferencePool.workers 0 = .waiting
  tasks : s.inferencePool.tasks = []

/-- A bound on the steps to come if no call is made and the worker of the pool wakes up only when it
is notified. A call of `enqueue` carries the loop of the worker, and a task its closure. -/
def work (s : Pooled n H) : ℕ :=
  s.threads.rpc.remaining + 2 * s.threads.control.remaining + s.threads.worker.remaining +
    11 * s.inferencePool.tasks.length + s.inferencePool.work

/-! ### Every step uses up work -/

theorem StepResult.work_lt {e : PooledEvent n} {r : Pooled n H × List (Output n)}
    (h : StepResult cfg env s e r) (he : e.Internal) : r.1.work < s.work := by
  cases h with
  | access hfree h =>
    have hlt := (Threads.stepResult h).remaining_lt he hfree
    simp only [work]
    omega
  | @accepted wakes f p hpc _ h hnotify =>
    have hle : p.work + 1 ≤ s.inferencePool.work + 9 := (ThreadPool.stepResult h).work_le
    have hlength : p.tasks.length = s.inferencePool.tasks.length + 1 := by
      obtain rfl | ⟨i, -, rfl⟩ := ThreadPool.notifyOne_cases hnotify <;> exact List.length_append
    show s.threads.rpc.remaining + 2 * 0 + s.threads.worker.remaining + 11 * p.tasks.length +
      p.work < _
    rw [work, hpc, ControlPc.remaining, hlength]
    omega
  | rejected hpc =>
    show s.threads.rpc.remaining + 2 * 2 + s.threads.worker.remaining +
      11 * s.inferencePool.tasks.length + s.inferencePool.work < _
    rw [work, hpc, ControlPc.remaining]
    omega
  | @taken task rest f p hpc htasks h hp =>
    have hle : p.work + 1 ≤ s.inferencePool.work := (ThreadPool.stepResult h).work_le
    have hrest : p.tasks = rest := congrArg ThreadPool.tasks hp
    show s.threads.rpc.remaining + 2 * s.threads.control.remaining + 11 + 11 * p.tasks.length +
      p.work < _
    rw [work, hpc, htasks, hrest, WorkerPc.remaining, List.length_cons]
    omega
  | @moved p out _ h htasks =>
    have hle : p.work + 1 ≤ s.inferencePool.work := (ThreadPool.stepResult h).work_le
    simp only [work, htasks]
    omega
  | spurious => exact he.elim
  | @forward throws fresh f p q loan obs out hpc =>
    have hlt : (s.threads.forwarded env throws ⟨f, obs, loan.pooled⟩).worker.remaining < 11 := by
      cases throws <;> simp [Threads.forwarded, WorkerPc.remaining]
    have hsame : (s.threads.forwarded env throws ⟨f, obs, loan.pooled⟩).rpc = s.threads.rpc ∧
        (s.threads.forwarded env throws ⟨f, obs, loan.pooled⟩).control = s.threads.control := by
      cases throws <;> exact ⟨rfl, rfl⟩
    have hbefore : s.threads.worker.remaining = 11 := by rw [hpc, WorkerPc.remaining]
    simp only [work, hsame]
    omega
  | releaseBuffer hpc =>
    show s.threads.rpc.remaining + 2 * s.threads.control.remaining + 1 +
      11 * s.inferencePool.tasks.length + s.inferencePool.work < _
    rw [work, hpc, WorkerPc.remaining]
    omega

/-! ### Until rest there is a step to take -/

theorem not_exited_of_run (h : (pooled cfg env now).Run es s tr) :
    s.inferencePool.stop = false ∧ ∀ i, s.inferencePool.workers i ≠ .exited := by
  refine h.invariant (fun s _ => s.inferencePool.stop = false ∧
    ∀ i, s.inferencePool.workers i ≠ .exited) ⟨rfl, fun _ h => (by cases h)⟩ ?_
  intro es s tr e s' out _ hI _ hs
  cases stepResult hs with
  | access | forward | releaseBuffer => exact hI
  | accepted _ _ h | rejected _ _ h | taken _ _ h | moved _ h | spurious _ h =>
    exact (ThreadPool.stepResult h).not_exited (fun he => (by cases he)) hI

/-- When the worker of the pool cannot move between closures, it sleeps, the mutex is free and the
queue is empty. -/
theorem resting_of_poolStep (h : (pooled cfg env now).Run es s tr) (hpc : s.threads.worker = .idle)
    (hstall : s.poolStep = none) : s.inferencePool.workers 0 = .waiting ∧
      s.inferencePool.mutex = none ∧ s.inferencePool.tasks = [] := by
  obtain ⟨ks, out, hrun⟩ := exists_run_inferencePool h
  have hW := ThreadPool.workInv_of_reaches hrun
  have hexited := (not_exited_of_run h).2
  have hnone (i : Fin 1) : s.inferencePool.workerStep i false = none := by
    rw [Subsingleton.elim i 0]
    by_contra hsome
    obtain ⟨⟨p, out⟩, hs⟩ := Option.ne_none_iff_exists'.mp hsome
    simp only [poolStep, hpc, hs, Option.bind_some] at hstall
    have hresult :
        ThreadPool.StepResult Brain.maxQueue s.inferencePool (.worker 0 false) (p, out) :=
      ThreadPool.stepResult hs
    cases hresult with
    | worker _ hresult =>
      cases hresult
      case take task rest htasks hpc =>
        obtain ⟨f, hf⟩ := exists_closure h (htasks ▸ List.mem_cons_self)
        simp [hf] at hstall
      all_goals cases hstall
  have hrest := hW.resting (ThreadPool.queueInv_of_reaches hrun).alive hnone
  have hwaiting := (hrest 0).resolve_right (hexited 0)
  refine ⟨hwaiting, ?_, hW.tasks_eq_nil hrest fun hall => hexited 0 (hall 0)⟩
  by_contra hmutex
  obtain ⟨i, hi⟩ := Option.ne_none_iff_exists'.mp hmutex
  have hlocked := (hW.holder i).mpr hi
  rw [Subsingleton.elim i 0, hwaiting] at hlocked
  cases hlocked

/-- A thread that is in a call can move on, or the worker of the pool does in its place. -/
theorem enabled_of_not_atRest (h : (pooled cfg env now).Run es s tr) (hnot : ¬ s.AtRest) :
    (pooled cfg env now).Enabled PooledEvent.Internal s := by
  by_contra hnone
  have hstall (e : PooledEvent n) (he : e.Internal) : s.step cfg env e = none := by
    by_contra hsome
    obtain ⟨r, hr⟩ := Option.ne_none_iff_exists'.mp hsome
    exact hnone ⟨e, r, he, hr⟩
  have haccess (e : ThreadEvent n) (he : e.Internal) (hfree : s.threads.usesPool e = false) :
      s.threads.step cfg env e = none := by
    have hnone := hstall (.access e) he
    simp only [step, hfree, Bool.false_eq_true, if_false] at hnone
    exact Option.map_eq_none_iff.mp hnone
  have hrpc : s.threads.rpc = .idle := Threads.rpc_eq_idle (haccess (.rpc 0) trivial rfl)
  have hworker : s.threads.worker = .idle := by
    cases hpc : s.threads.worker with
    | idle => rfl
    | forward =>
      obtain ⟨r, hr, -⟩ := exists_forward h hpc false
      cases hr.symm.trans (hstall (.forward false 0) trivial)
    | releaseBuffer =>
      obtain ⟨r, hr, -⟩ := exists_releaseBuffer h hpc
      cases hr.symm.trans (hstall .releaseBuffer trivial)
    | _ =>
      refine hpc.symm.trans (Threads.worker_eq_idle (haccess (.worker false 0) trivial ?_))
      simp only [Threads.usesPool, hpc]
  obtain ⟨hasleep, hmutex, htasks⟩ := resting_of_poolStep h hworker (hstall .pool trivial)
  have hcontrol : s.threads.control = .idle := by
    cases hpc : s.threads.control with
    | idle => rfl
    | enqueue =>
      obtain ⟨wakes, r, hr, -⟩ := exists_enqueue hpc hmutex
      cases hr.symm.trans (hstall (.enqueue wakes) trivial)
    | _ =>
      refine hpc.symm.trans
        (Threads.control_eq_idle (haccess (.control (upright cfg)) trivial ?_))
      simp only [Threads.usesPool, hpc]
  exact hnot ⟨hrpc, hcontrol, hworker, hasleep, htasks⟩

/-! ### The state at rest -/

theorem work_le (h : (pooled cfg env now).Run es s tr) : s.work ≤ 86 := by
  have hrpc : s.threads.rpc.remaining ≤ 9 := by cases s.threads.rpc <;> simp [RpcPc.remaining]
  have hcontrol : s.threads.control.remaining ≤ 25 := by
    cases s.threads.control <;> simp [ControlPc.remaining]
  have hworker : s.threads.worker.remaining ≤ 11 * s.threads.worker.running.toNat := by
    cases s.threads.worker <;> simp [WorkerPc.remaining, WorkerPc.running]
  have hrank : s.inferencePool.total PoolWorker.rank ≤ 5 := by
    rw [ThreadPool.total, Fintype.sum_unique]
    cases s.inferencePool.workers default <;> simp [PoolWorker.rank]
  have hshutdown : s.inferencePool.shutdown.rank 1 ≤ 6 := by
    cases s.inferencePool.shutdown <;> simp [ShutdownPc.rank]
  obtain ⟨ks, hrun⟩ := exists_run_threads h
  have hone : s.queue.length + s.threads.worker.running.toNat ≤ 1 :=
    (Threads.gateInv_of_reaches hrun).inFlight_le_one
  rw [length_queue h] at hone
  rw [work, ThreadPool.work]
  omega

theorem accessible_of_atRest (h : (pooled cfg env now).Run es s tr) (hrest : s.AtRest) :
    s.threads.brain.isInferring = false ∧ s.tensorPool.pool.length = 3 ∧
      Threads.Current s.threads.brain ∧ ∀ task, s.inferencePool.promises task ≠ .pending := by
  obtain ⟨ks, hrun⟩ := exists_run_threads h
  have habstract : s.abstract.AtRest := by
    refine ⟨hrest.rpc, hrest.control, hrest.worker, ?_⟩
    show s.queue = []
    rw [queue, hrest.tasks, List.filterMap_nil]
  obtain ⟨hopen, hbuffers, hcurrent⟩ := Threads.accessible_of_atRest
    (Threads.gateInv_of_reaches hrun) (Threads.metricsInv_of_reaches hrun) habstract
  refine ⟨hopen, (List.length_map _).symm.trans hbuffers,
    ⟨hcurrent.generation, hcurrent.type, hcurrent.calm⟩, fun task hpending => ?_⟩
  obtain ⟨ks', out, hpool⟩ := exists_run_inferencePool h
  rcases (ThreadPool.workInv_of_reaches hpool).unsettled task hpending with hmem | ⟨i, hi⟩
  · rw [hrest.tasks] at hmem
    cases hmem
  · rw [Subsingleton.elim i 0, hrest.asleep] at hi
    cases hi

end Pooled

/-- In every state reached with the thread pool and the buffer pool, as long as neither
`ProcessRobotTask` nor `ControlLoopStep` is called and the worker of the pool wakes up only when it
is notified, at most 86 steps lead to rest, in whatever order the threads move and whatever throws.
Then the worker sleeps with an empty queue, all three buffers are back, no future is open, the gate
is open, and the metrics are those of the last task. -/
theorem pooled_comes_to_rest {now : ℤ} {es : List (PooledEvent n)} {s : Pooled n H}
    {tr : List (Output n)} (h : (pooled cfg env now).Run es s tr) :
    s.work ≤ 86 ∧ (pooled cfg env now).Inevitable PooledEvent.Internal
      (fun s' => s'.AtRest ∧ s'.threads.brain.isInferring = false ∧
        s'.tensorPool.pool.length = 3 ∧ Threads.Current s'.threads.brain ∧
        ∀ task, s'.inferencePool.promises task ≠ .pending) s.work s := by
  refine ⟨Pooled.work_le h, ?_⟩
  refine h.inevitable Pooled.work (fun {es s tr} h hnot => ?_) fun _ he hs =>
    (Pooled.stepResult hs).work_lt he
  exact Pooled.enabled_of_not_atRest h fun hrest =>
    hnot ⟨hrest, Pooled.accessible_of_atRest h hrest⟩

/-- The worker has taken the task of a frame and run its inference, and a task is being
processed. -/
theorem pooled_comes_to_rest_shipped :
    ∃ s tr, (pooled shippedConfig (constantPolicy 12 (.fin 0)) 0).Run
        (.access (.tick 20) :: List.replicate 6 (.access (.control (upright shippedConfig))) ++
          .enqueue none :: List.replicate 3 .pool ++
            [.forward false 0, .access (.call stopTask)]) s tr ∧
      s.work = 30 ∧ s.tensorPool.pool.length = 2 ∧ s.inferencePool.promises 0 = .pending ∧
      (pooled shippedConfig (constantPolicy 12 (.fin 0)) 0).Inevitable PooledEvent.Internal
        (fun s' => s'.AtRest ∧ s'.threads.brain.isInferring = false ∧
          s'.tensorPool.pool.length = 3 ∧ Threads.Current s'.threads.brain ∧
          ∀ task, s'.inferencePool.promises task ≠ .pending) s.work s := by
  have hrun : ∃ s tr, (pooled shippedConfig (constantPolicy 12 (.fin 0)) 0).Run
      (.access (.tick 20) :: List.replicate 6 (.access (.control (upright shippedConfig))) ++
        .enqueue none :: List.replicate 3 .pool ++
          [.forward false 0, .access (.call stopTask)]) s tr ∧
      s.work = 30 ∧ s.tensorPool.pool.length = 2 ∧ s.inferencePool.promises 0 = .pending :=
    Machine.exists_reaches_of_decide _ (by decide +kernel)
  obtain ⟨s, tr, hrun, hwork, hlent, hpending⟩ := hrun
  exact ⟨s, tr, hrun, hwork, hlent, hpending, (pooled_comes_to_rest hrun).2⟩

end RobotBrain
