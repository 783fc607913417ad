import RobotBrain.Library.Progress
import RobotBrain.Safety.Gate
import RobotBrain.Rpc.Metrics

/-!
# The brain comes to rest

No access of the three threads waits for another one, and each brings the end of its call closer. So
when nobody calls `ProcessRobotTask` or `ControlLoopStep` any more, the calls under way, the frame
in flight and its closure end after a bounded number of accesses, in whatever order the threads run
and whatever throws. At rest the gate is open, the buffers are back in their pool, and the metrics
are those of the last task.

## Main definitions

* `ThreadEvent.Internal` — the accesses of calls under way, and of closures in the queue.
* `Threads.AtRest`, `Threads.work`.

## Main results

* `comes_to_rest` — rest is inevitable, after at most 46 accesses.
-/

namespace RobotBrain

variable {n : ℕ} {H : Type*} {cfg : BrainConfig n} {env : Environment n H}

/-- The accesses that the RPC thread has left in its call, at most. -/
def RpcPc.remaining : RpcPc → ℕ
  | .idle => 0
  | .feedDog _ => 1
  | .publishDefault _ => 2
  | .resetJointTargets _ => 3
  | .resetHiddenState _ => 4
  | .fillPrevActions _ => 5
  | .storeState _ => 6
  | .storeTaskType _ => 7
  | .storeGeneration .. => 8
  | .incrementGeneration _ => 9

/-- The accesses that the control thread has left in its call, at most, with those of the closure
that it may enqueue. -/
def ControlPc.remaining : ControlPc n → ℕ
  | .idle => 0
  | .publishDefault | .countDropped | .releaseGate => 1
  | .releaseGateFull => 2
  | .enqueue _ => 13
  | .snapshot .. => 14
  | .rampVelocity .. => 15
  | .resetJointTargets .. => 16
  | .fillPrevActions .. => 17
  | .resetHiddenState .. => 18
  | .readProprioception .. => 19
  | .acquireGate .. => 20
  | .loadState _ => 21
  | .watchdogZeroVelocity _ => 22
  | .watchdogStoreState _ => 23
  | .watchdogLoadState _ => 24
  | .loadHeartbeat _ => 25

/-- The input goes on with a call under way or with a closure in the queue. -/
def ThreadEvent.Internal : ThreadEvent n → Prop
  | .call _ | .tick _ => False
  | .rpc _ | .control _ | .dequeue | .worker _ _ => True

namespace Threads

/-- No thread is in a call, and no closure is queued. -/
structure AtRest (s : Threads n H) : Prop where
  rpc : s.rpc = .idle
  control : s.control = .idle
  worker : s.worker = .idle
  queue : s.brain.inferenceQueue = []

/-- A bound on the accesses to come if no call is made. -/
def work (s : Threads n H) : ℕ :=
  s.rpc.remaining + s.control.remaining + s.pending

theorem RpcResult.remaining_lt {now : ℤ} {b b' : Brain n H} {pc pc' : RpcPc}
    {out : List (Output n)} (h : RpcResult cfg env now b pc b' pc' out) :
    pc'.remaining < pc.remaining := by
  cases h <;> simp [RpcPc.remaining]

/-- The access with which the control thread enqueues a closure pays for it. -/
theorem ControlResult.remaining_lt {prop : Proprioception n} {b b' : Brain n H}
    {pc pc' : ControlPc n} {out : List (Output n)}
    (h : ControlResult cfg env prop b pc b' pc' out) :
    pc'.remaining + closureMoves * b'.inferenceQueue.length <
      pc.remaining + closureMoves * b.inferenceQueue.length := by
  cases h
  case enqueued f hroom =>
    show 0 + closureMoves * (b.inferenceQueue ++ [f]).length < 13 + _
    rw [List.length_append, List.length_singleton, closureMoves]
    omega
  all_goals exact Nat.add_lt_add_right (by simp [ControlPc.remaining]) _

theorem StepResult.work_lt {s : Threads n H} {e : ThreadEvent n} {r : Threads n H × List (Output n)}
    (h : StepResult cfg env s e r) (he : e.Internal) : r.1.work < s.work := by
  cases h with
  | call | tick => exact he.elim
  | rpc h =>
    have hlt := h.remaining_lt
    obtain ⟨-, hqueue, -⟩ := h.gate
    simp only [work, pending, hqueue]
    omega
  | control h =>
    have hlt := h.remaining_lt
    simp only [work, pending]
    omega
  | dequeue hpc hq =>
    simp only [work, pending, hpc, hq, List.length_cons, Brain.dequeue, WorkerPc.remaining,
      closureMoves]
    omega
  | worker h =>
    obtain ⟨-, hqueue, hlt, -⟩ := h.gate
    simp only [work, pending, hqueue]
    omega

theorem work_le {s : Threads n H} (hI : s.GateInv) : s.work ≤ 46 := by
  have hrpc : s.rpc.remaining ≤ 9 := by cases s.rpc <;> simp [RpcPc.remaining]
  have hcontrol : s.control.remaining ≤ 25 := by cases s.control <;> simp [ControlPc.remaining]
  have hpending := hI.pending_le
  rw [closureMoves] at hpending
  rw [work]
  omega

/-- The RPC thread never waits in a call. -/
theorem rpc_eq_idle {now : ℤ} {s : Threads n H} (h : s.step cfg env (.rpc now) = none) :
    s.rpc = .idle := by
  cases hpc : s.rpc <;> simp [step, rpcStep, hpc] at h
  rfl

/-- The control thread never waits in a call. -/
theorem control_eq_idle {prop : Proprioception n} {s : Threads n H}
    (h : s.step cfg env (.control prop) = none) : s.control = .idle := by
  cases hpc : s.control with
  | idle => rfl
  | loadHeartbeat | acquireGate | readProprioception | enqueue =>
    simp only [step, controlStep, hpc] at h
    split_ifs at h
  | _ => simp [step, controlStep, hpc] at h

/-- The worker never waits in a closure. -/
theorem worker_eq_idle {throws : Bool} {now : ℤ} {s : Threads n H}
    (h : s.step cfg env (.worker throws now) = none) : s.worker = .idle := by
  cases hpc : s.worker with
  | idle => rfl
  | forward | publish =>
    simp only [step, workerStep, hpc] at h
    split_ifs at h
  | _ => simp [step, workerStep, hpc] at h

/-- A thread that is in a call can take its next access, and an idle worker a closure from the
queue. -/
theorem enabled_of_not_atRest {start : ℤ} {s : Threads n H} (h : ¬ s.AtRest) :
    (threads cfg env start).Enabled ThreadEvent.Internal s := by
  by_contra hnone
  have hstall (e : ThreadEvent n) (he : e.Internal) : s.step cfg env e = none := by
    by_contra hsome
    obtain ⟨r, hr⟩ := Option.ne_none_iff_exists'.mp hsome
    exact hnone ⟨e, r, he, hr⟩
  have hworker : s.worker = .idle := worker_eq_idle (hstall (.worker false 0) trivial)
  refine h ⟨rpc_eq_idle (hstall (.rpc 0) trivial),
    control_eq_idle (hstall (.control (upright cfg)) trivial), hworker, ?_⟩
  have hnone := hstall .dequeue trivial
  cases hq : s.brain.inferenceQueue with
  | nil => rfl
  | cons f q => simp [step, hworker, hq] at hnone

theorem accessible_of_atRest {s : Threads n H} (hgate : s.GateInv) (hmetrics : s.MetricsInv)
    (h : s.AtRest) : s.brain.isInferring = false ∧ s.brain.tensorPool.length = 3 ∧
      Current s.brain := by
  obtain ⟨hrpc, hcontrol, hworker, hqueue⟩ := h
  refine ⟨hgate.open_of_inFlight ?_ ?_, ?_, ?_⟩
  · rw [hcontrol]
    rfl
  · rw [inFlight, hworker, hqueue]
    rfl
  · have hpool := hgate.pool
    rw [hworker] at hpool
    exact hpool
  · have hstoring := hmetrics.storing
    rw [hrpc] at hstoring
    exact hstoring

end Threads

/-- From every state reached, as long as neither `ProcessRobotTask` nor `ControlLoopStep` is called,
at most 46 accesses of the threads lead to rest, in whatever order they move and whatever throws.
Then no closure is queued or running, the gate is open, all buffers are back in the pool and the
metrics are those of the last task. -/
theorem comes_to_rest {start : ℤ} {es : List (ThreadEvent n)} {s : Threads n H}
    {tr : List (Output n)} (h : (threads cfg env start).Run es s tr) :
    s.work ≤ 46 ∧ (threads cfg env start).Inevitable ThreadEvent.Internal
      (fun s' => s'.AtRest ∧ s'.brain.isInferring = false ∧ s'.brain.tensorPool.length = 3 ∧
        Threads.Current s'.brain) s.work s := by
  refine ⟨Threads.work_le (Threads.gateInv_of_reaches h), ?_⟩
  refine h.inevitable Threads.work (fun {es s tr} h hnot => ?_) fun _ he hs =>
    (Threads.stepResult hs).work_lt he
  refine Threads.enabled_of_not_atRest fun hrest => hnot ⟨hrest, ?_⟩
  exact Threads.accessible_of_atRest (Threads.gateInv_of_reaches h)
    (Threads.metricsInv_of_reaches h) hrest

/-- A task is being processed, and a tick has captured a frame. -/
theorem comes_to_rest_shipped :
    ∃ s tr, (threads shippedConfig (constantPolicy 12 (.fin 0)) 0).Run
        (.tick 20 :: List.replicate 7 (.control (upright shippedConfig)) ++
          [.call stopTask, .rpc 30]) s tr ∧ s.work = 20 ∧
      (threads shippedConfig (constantPolicy 12 (.fin 0)) 0).Inevitable ThreadEvent.Internal
        (fun s' => s'.AtRest ∧ s'.brain.isInferring = false ∧ s'.brain.tensorPool.length = 3 ∧
          Threads.Current s'.brain) s.work s := by
  have hrun : ∃ s tr, (threads shippedConfig (constantPolicy 12 (.fin 0)) 0).Run
      (.tick 20 :: List.replicate 7 (.control (upright shippedConfig)) ++
        [.call stopTask, .rpc 30]) s tr ∧ s.work = 20 :=
    Machine.exists_reaches_of_decide _ (by decide +kernel)
  obtain ⟨s, tr, hrun, hwork⟩ := hrun
  exact ⟨s, tr, hrun, hwork, (comes_to_rest hrun).2⟩

end RobotBrain
