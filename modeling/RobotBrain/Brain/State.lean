import RobotBrain.Brain.Control
import RobotBrain.Library.Machine

/-!
# The state of the brain and its elementary accesses

`Brain` holds the members of `AIBrain` that its three threads share: the RPC thread in
`ProcessRobotTask`, the control thread in `ControlLoopStep` and the worker of the inference pool.
Each function on `Brain` below is one access to that state: a lock section, an atomic operation or
a call. `RobotBrain.Brain.Atomic` composes them into the functions of the source, and
`RobotBrain.Brain.Threads` interleaves them.

`History` is not part of the program. It records the tasks in the order in which they incremented
the task generation and the last fallback of the watchdog, for the statements about runs.

## Main definitions

* `Frame` — what an inference closure carries, with the locals of the tick that built it.
* `Output` — the observable actions of a step.
* `Brain`, `Brain.initial` and the elementary accesses.
-/

namespace RobotBrain

open ExtNum

variable {n : ℕ} {H : Type*}

/-- An inference closure. The source captures `prop`, `scaledVelCmd`, `myGeneration` and `profile`;
the other fields keep what the tick had read to compute them: the state, the task type, the target
of the velocity ramp, the time step, and of `History` the number of tasks and the last fallback. -/
structure Frame (n : ℕ) where
  prop : Proprioception n
  scaledVelCmd : Velocity
  myGeneration : UInt64
  profile : TaskProfile
  state : RobotState
  myTaskType : TaskType
  target : Velocity
  dt : ℚ
  tasksBefore : ℕ
  lowered : Option ℕ

/-- Where a joint command comes from. -/
inductive Source (n : ℕ)
  /-- `ProcessRobotTask` on an emergency stop, the number of tasks so far included. -/
  | emergencyStop (tasks : ℕ)
  /-- An inference closure. -/
  | inference (f : Frame n)
  /-- `ControlLoopStep` in the states `IDLE` and `ERROR`. -/
  | inactive

/-- The observable actions of the brain. -/
inductive Output (n : ℕ)
  /-- `ProcessRobotTask` has stored the task type and the velocity. -/
  | commandWritten (t : Task)
  /-- `++task_generation_`, with the number of increments so far. -/
  | generationIncremented (tasks : ℕ)
  /-- `ProcessRobotTask` returns. -/
  | taskReturned (t : Task)
  /-- The watchdog has found the heartbeat too old. -/
  | heartbeatExpired
  /-- The watchdog has stored `STANDING`. -/
  | lowered
  | hiddenStateReset
  | prevActionsReset
  | jointTargetsReset
  /-- A control tick has enqueued a frame. -/
  | captured (f : Frame n)
  /-- An observation is handed to `Forward`. -/
  | forwarded (obs : List Scalar)
  | published (targets : Fin n → Scalar) (source : Source n)
  /-- A frame has been published and written back. -/
  | applied (f : Frame n) (obs : List Scalar) (actions : Actions n)
  /-- A frame has been superseded. -/
  | discarded (f : Frame n)

/-- Whether a joint command comes from an inference closure. -/
def Source.isInference : Source n → Bool
  | .inference _ => true
  | _ => false

/-- The joint commands among the outputs, in order. -/
def commands (tr : List (Output n)) : List ((Fin n → Scalar) × Source n) :=
  tr.filterMap fun
    | .published targets source => some (targets, source)
    | _ => none

theorem commands_append (tr out : List (Output n)) :
    commands (tr ++ out) = commands tr ++ commands out :=
  List.filterMap_append

theorem exists_published_of_any {tr : List (Output n)}
    {p : (Fin n → Scalar) × Source n → Bool}
    (h : (commands tr).any p = true) :
    ∃ targets source, .published targets source ∈ tr ∧ p (targets, source) = true := by
  obtain ⟨c, hc, hp⟩ := List.any_eq_true.mp h
  obtain ⟨o, ho, hoc⟩ := List.mem_filterMap.mp hc
  cases o <;> cases hoc
  exact ⟨_, _, ho, hp⟩

/-- What a load of a `uint64_t` counter gives after so many increments. -/
def counterValue (increments : ℕ) : ℕ := increments % 2 ^ 64

/-- `RuntimeMetrics`, without the two durations. The three counters of frames hold the number of
their increments. -/
structure Metrics where
  totalFrames : ℕ := 0
  droppedFrames : ℕ := 0
  staleFrames : ℕ := 0
  currentGeneration : UInt64 := 0
  currentState : RobotState := .idle
  currentTaskType : TaskType := .taskUnknown

/-- A record of the run, which the program does not keep. -/
structure History where
  /-- The tasks in the order of their increments of the task generation. -/
  tasks : List Task := []
  /-- How many there were when the watchdog last found the heartbeat too old. -/
  expired : ℕ := 0
  /-- The value of `expired` when the watchdog last stored `STANDING`. -/
  lowered : Option ℕ := none

/-- The members of `AIBrain` that change, with the static variable of `ControlLoopStep`, the
recurrent state inside the policy model, and the contents of the buffer pool and of the queue of the
inference pool. -/
structure Brain (n : ℕ) (H : Type*) where
  currentTaskType : TaskType
  velocityCmd : Velocity
  taskGeneration : UInt64
  isInferring : Bool
  lastHeartbeatMs : ℤ
  lastControlMs : ℤ
  lastGravityZ : Scalar
  currentVelCmd : Velocity
  prevActions : Fin n → Scalar
  lastJointTargets : Fin n → Scalar
  hiddenState : H
  tensorPool : List (List Scalar)
  inferenceQueue : List (Frame n)
  metrics : Metrics
  history : History

/-- The brain after its constructor, run at the time `now`. -/
def Brain.initial (cfg : BrainConfig n) (env : Environment n H) (now : ℤ) : Brain n H where
  currentTaskType := .taskUnknown
  velocityCmd := fun _ => fin 0
  taskGeneration := 0
  isInferring := false
  lastHeartbeatMs := now
  lastControlMs := now
  lastGravityZ := fin (-1)
  currentVelCmd := fun _ => fin 0
  prevActions := fun _ => fin 0
  lastJointTargets := cfg.defaultJointPositions
  hiddenState := env.hiddenZero
  tensorPool := List.replicate 3 (List.replicate cfg.obsDim (fin 0))
  inferenceQueue := []
  metrics := { currentState := .standing }
  history := {}

namespace Brain

/-! ### Accesses of `ProcessRobotTask` -/

/-- The lock section that stores the command. -/
def writeCommand (t : Task) (b : Brain n H) : Brain n H :=
  { b with currentTaskType := t.type, velocityCmd := t.velCmd }

/-- `++task_generation_`. -/
def incrementGeneration (t : Task) (b : Brain n H) : Brain n H :=
  { b with
    taskGeneration := b.taskGeneration + 1
    history := { b.history with tasks := b.history.tasks ++ [t] } }

/-- `metrics_.current_generation.store(gen)`. -/
def storeGeneration (gen : UInt64) (b : Brain n H) : Brain n H :=
  { b with metrics := { b.metrics with currentGeneration := gen } }

/-- `metrics_.current_task_type.store(task_type)`. -/
def storeTaskType (type : TaskType) (b : Brain n H) : Brain n H :=
  { b with metrics := { b.metrics with currentTaskType := type } }

/-- `metrics_.current_state.store(...)` for a task. -/
def storeTaskState (t : Task) (b : Brain n H) : Brain n H :=
  { b with metrics := { b.metrics with currentState := t.state } }

/-- `std::fill(prev_actions_.begin(), prev_actions_.end(), 0.0f)`. -/
def fillPrevActions (b : Brain n H) : Brain n H :=
  { b with prevActions := fun _ => fin 0 }

/-- `policy_model_->ResetHiddenState()`. -/
def resetHiddenState (env : Environment n H) (b : Brain n H) : Brain n H :=
  { b with hiddenState := env.hiddenZero }

/-- `last_joint_targets_ = default_joint_positions_`. -/
def resetJointTargets (cfg : BrainConfig n) (b : Brain n H) : Brain n H :=
  { b with lastJointTargets := cfg.defaultJointPositions }

/-- `FeedDog`, at the time `now`. -/
def feedDog (now : ℤ) (b : Brain n H) : Brain n H :=
  { b with lastHeartbeatMs := now }

/-! ### Accesses of `ControlLoopStep` -/

/-- The comparison of the watchdog. -/
def HeartbeatExpired (cfg : BrainConfig n) (now : ℤ) (b : Brain n H) : Prop :=
  cfg.watchdogTimeoutMs < now - b.lastHeartbeatMs

instance (cfg : BrainConfig n) (now : ℤ) (b : Brain n H) :
    Decidable (b.HeartbeatExpired cfg now) :=
  inferInstanceAs (Decidable (_ < _))

/-- The record that the comparison of the watchdog has found the heartbeat too old. -/
def noteExpiry (b : Brain n H) : Brain n H :=
  { b with history := { b.history with expired := b.history.tasks.length } }

/-- The watchdog stores `STANDING`. -/
def lowerToStanding (b : Brain n H) : Brain n H :=
  { b with
    metrics := { b.metrics with currentState := .standing }
    history := { b.history with lowered := some b.history.expired } }

/-- The lock section of the watchdog. -/
def zeroVelocity (b : Brain n H) : Brain n H :=
  { b with velocityCmd := fun _ => fin 0 }

/-- Store `is_inferring_`. -/
def setInferring (flag : Bool) (b : Brain n H) : Brain n H :=
  { b with isInferring := flag }

@[simp] theorem setInferring_currentVelCmd (flag : Bool) (b : Brain n H) :
    (b.setInferring flag).currentVelCmd = b.currentVelCmd := rfl

/-- `metrics_.dropped_frames++`. -/
def countDropped (b : Brain n H) : Brain n H :=
  { b with metrics := { b.metrics with droppedFrames := b.metrics.droppedFrames + 1 } }

/-- The test for a reset of the simulator: `gravity_z` jumps from above `-0.3` to below `-0.7`. -/
def SimulatorReset (prop : Proprioception n) (b : Brain n H) : Prop :=
  fin (-3 / 10) < b.lastGravityZ ∧ prop.gravityZ < fin (-7 / 10)

instance (prop : Proprioception n) (b : Brain n H) : Decidable (b.SimulatorReset prop) :=
  inferInstanceAs (Decidable (_ ∧ _))

/-- `last_gravity_z = cur_gravity_z`. -/
def storeGravity (prop : Proprioception n) (b : Brain n H) : Brain n H :=
  { b with lastGravityZ := prop.gravityZ }

/-- The time step of a tick in seconds, 20 ms in place of one that is not in `(0, 0.5]`. -/
def timeStep (now : ℤ) (b : Brain n H) : ℚ :=
  let dt : ℚ := if 0 < b.lastControlMs then (now - b.lastControlMs : ℤ) / 1000 else 1 / 50
  if dt ≤ 0 ∨ 1 / 2 < dt then 1 / 50 else dt

theorem timeStep_pos (now : ℤ) (b : Brain n H) : 0 < b.timeStep now := by
  unfold timeStep
  dsimp only
  split_ifs with h1 h2
  · norm_num
  · exact not_le.mp fun hle => h2 (Or.inl hle)
  all_goals norm_num

/-- `RampVelocityCommand` and the update of `last_control_ms_`. -/
def rampVelocity (cfg : BrainConfig n) (now : ℤ) (b : Brain n H) : Brain n H :=
  { b with
    lastControlMs := now
    currentVelCmd :=
      rampVelocityCommand cfg (fin (b.timeStep now)) b.velocityCmd b.currentVelCmd }

/-- The lock section that reads the task type and the generation, and the frame built from them.
`target` and `dt` are what the ramp of the same tick used. -/
def snapshot (state : RobotState) (prop : Proprioception n) (target : Velocity) (dt : ℚ)
    (b : Brain n H) : Frame n where
  prop := prop
  scaledVelCmd := RobotBrain.scaledVelCmd state b.currentTaskType b.currentVelCmd
  myGeneration := b.taskGeneration
  profile := frameProfile state b.currentTaskType
  state := state
  myTaskType := b.currentTaskType
  target := target
  dt := dt
  tasksBefore := b.history.tasks.length
  lowered := b.history.lowered

/-- The bound of the queue of the inference pool. -/
def maxQueue : ℕ := 10

/-- The inference pool takes a closure. -/
def enqueue (f : Frame n) (b : Brain n H) : Brain n H :=
  { b with inferenceQueue := b.inferenceQueue ++ [f] }

/-! ### Accesses of the inference closure -/

/-- The worker takes the oldest closure. -/
def dequeue (q : List (Frame n)) (b : Brain n H) : Brain n H :=
  { b with inferenceQueue := q }

/-- `tensor_pool_->Acquire()`: a buffer, whether it belongs to the pool, and the pool without it.
A pool that is exhausted gives a fresh buffer. -/
def acquireBuffer (cfg : BrainConfig n) (b : Brain n H) : List Scalar × Bool × Brain n H :=
  match b.tensorPool with
  | [] => (List.replicate cfg.obsDim (fin 0), false, b)
  | buffer :: pool => (buffer, true, { b with tensorPool := pool })

/-- The end of a loan: a buffer of the pool goes back, a temporary one is freed. -/
def releaseBuffer (buffer : List Scalar) (pooled : Bool) (b : Brain n H) : Brain n H :=
  if pooled then { b with tensorPool := buffer :: b.tensorPool } else b

/-- Acquiring a buffer changes the pool alone. -/
theorem acquireBuffer_brain (cfg : BrainConfig n) (b : Brain n H) :
    (b.acquireBuffer cfg).2.2 = { b with tensorPool := b.tensorPool.tail } := by
  obtain ⟨⟩ := b
  unfold acquireBuffer
  split
  next hpool =>
    cases hpool
    rfl
  next hpool =>
    cases hpool
    rfl

/-- Giving a buffer back changes the pool alone. -/
theorem releaseBuffer_eq (buffer : List Scalar) (pooled : Bool) (b : Brain n H) :
    b.releaseBuffer buffer pooled =
      { b with tensorPool := if pooled then buffer :: b.tensorPool else b.tensorPool } := by
  cases pooled <;> rfl

/-- The observation of a frame, written into a buffer. -/
def observation (cfg : BrainConfig n) (env : Environment n H) (f : Frame n) (buffer : List Scalar)
    (b : Brain n H) : List Scalar :=
  buildObservation cfg env f.prop f.scaledVelCmd b.prevActions (counterValue b.metrics.totalFrames)
    buffer

/-- `Forward` replaces the recurrent state. -/
def storeHiddenState (h : H) (b : Brain n H) : Brain n H :=
  { b with hiddenState := h }

/-- `prev_actions_[i] = actions[i]` for all joints. -/
def writeBackActions (a : Actions n) (b : Brain n H) : Brain n H :=
  { b with prevActions := a.joint }

/-- `last_joint_targets_ = joint_targets`. -/
def writeBackTargets (targets : Fin n → Scalar) (b : Brain n H) : Brain n H :=
  { b with lastJointTargets := targets }

/-- `metrics_.total_frames++`. -/
def countFrame (b : Brain n H) : Brain n H :=
  { b with metrics := { b.metrics with totalFrames := b.metrics.totalFrames + 1 } }

/-- `metrics_.stale_frames++`. -/
def countStale (b : Brain n H) : Brain n H :=
  { b with metrics := { b.metrics with staleFrames := b.metrics.staleFrames + 1 } }

end Brain

end RobotBrain
