import RobotBrain.Sim.ClosedLoop

/-!
# The closed loop as a sequential program

When the control tick keeps pace with the simulator and no message is late, the two nodes and their
messages behave as one sequential program with a period: the simulator steps, the brain answers what
it measures, and the simulator tracks the answer. Nothing of the concurrency is left in that
program: no message waits, no frame is dropped or discarded, and the targets of the simulator are
the baseline from which the brain limits the next ones.

## Main definitions

* `Brain.answer` — a control tick and its inference.
* `Loop.period` — a period of the sequential program.
* `Period` — the motion tasks before a control cycle, and its time.

## Main results

* `lockstep_run` — the system follows the sequential program through any number of periods.
-/

namespace RobotBrain

open ExtNum

variable {n : ℕ} {H D : Type*}

/-! ### The sequential program -/

/-- A control tick and the closure of the frame that it captures, as one call. -/
def Brain.answer (cfg : BrainConfig n) (env : Environment n H) (time : ℤ) (prop : Proprioception n)
    (b : Brain n H) : Brain n H :=
  let b := (b.controlLoopStep cfg env time prop).1
  match b.inferenceQueue with
  | [] => b
  | f :: q => ((b.dequeue q).inferenceClosure cfg env f .completes time).1

/-- A motion task and the time at which its call returns. -/
structure MotionTask where
  task : Task
  now : ℤ
  motion : task.IsMotion

/-- The motion tasks that arrive before a control cycle, and the time of the cycle. -/
structure Period where
  tasks : List MotionTask
  time : ℤ

/-- The inputs of a period. -/
def Period.events (p : Period) : List LoopEvent :=
  (p.tasks.flatMap fun t => [.task t.task t.now]) ++ controlCycle p.time

namespace Loop

/-- A call of `ProcessRobotTask` for a motion task. -/
def processMotion (cfg : BrainConfig n) (env : Environment n H) (s : Loop n H D) (t : MotionTask) :
    Loop n H D :=
  { s with brain := (s.brain.processRobotTask cfg env t.task t.now).1 }

/-- The simulator steps, the brain answers what it measures, and the simulator takes the targets. -/
def cycle (cfg : BrainConfig numStandardJoints) (env : Environment numStandardJoints H)
    (mj : Mujoco D) (simCfg : SimConfig) (time : ℤ) (s : Loop numStandardJoints H D) :
    Loop numStandardJoints H D :=
  let sim := s.sim.advance mj simCfg
  let ros := (s.ros.jointStateCallback (sim.jointState mj)).imuCallback (sim.imu mj)
  let b := s.brain.answer cfg env time ros.getLatestProprioception
  { s with
    brain := b
    ros := ros
    sim := { sim with targetPositions := b.lastJointTargets, physicsEnabled := true } }

/-- A period of the sequential program. -/
def period (cfg : BrainConfig numStandardJoints) (env : Environment numStandardJoints H)
    (mj : Mujoco D) (simCfg : SimConfig) (s : Loop numStandardJoints H D) (p : Period) :
    Loop numStandardJoints H D :=
  (p.tasks.foldl (processMotion cfg env) s).cycle cfg env mj simCfg p.time

/-- No message is in flight, and no inference is running. -/
structure Settled (s : Loop n H D) : Prop where
  commands : s.commands = []
  jointStates : s.jointStates = []
  imus : s.imus = []
  gate : s.brain.isInferring = false
  queue : s.brain.inferenceQueue = []
  active : s.brain.Active

/-- So many frames have been applied since `m`, and none dropped or discarded. -/
structure CountsFrom (m : Metrics) (k : ℕ) (s : Loop n H D) : Prop where
  totalFrames : s.brain.metrics.totalFrames = m.totalFrames + k
  droppedFrames : s.brain.metrics.droppedFrames = m.droppedFrames
  staleFrames : s.brain.metrics.staleFrames = m.staleFrames

end Loop

/-! ### The system follows it -/

theorem Brain.Answers.answer {cfg : BrainConfig n} {env : Environment n H} {time : ℤ}
    {prop : Proprioception n} {b : Brain n H} {w r : Brain n H × List (Output n)} {f : Frame n}
    (h : Answers cfg env time time prop b w r f) : b.answer cfg env time prop = r.1 := by
  rw [Brain.answer, h.tick]
  simp only [h.captured, h.infer]

namespace Loop

section Cycle

variable {cfg : BrainConfig numStandardJoints} {env : Environment numStandardJoints H}
  {mj : Mujoco D} {simCfg : SimConfig} {now : ℤ} {d : D} {s : Loop numStandardJoints H D}
  {m : Metrics} {k : ℕ}

/-- The six steps of a control cycle from a settled state. -/
theorem follow_controlCycle (hs : s.Settled) (hk : CountsFrom m k s) (time : ℤ) :
    ∃ out, (loop cfg env mj simCfg now d).follow s (controlCycle time) =
        some (s.cycle cfg env mj simCfg time, out) ∧
      (s.cycle cfg env mj simCfg time).Settled ∧
      CountsFrom m (k + 1) (s.cycle cfg env mj simCfg time) := by
  obtain ⟨b, ros₀, sim₀, cs, js, imus⟩ := s
  obtain rfl : cs = [] := hs.commands
  obtain rfl : js = [] := hs.jointStates
  obtain rfl : imus = [] := hs.imus
  let sim := sim₀.advance mj simCfg
  let ros := (ros₀.jointStateCallback (sim.jointState mj)).imuCallback (sim.imu mj)
  obtain ⟨w, r, f, h⟩ : ∃ w r f, Brain.Answers cfg env time time ros.getLatestProprioception b w r
      f := Brain.exists_answers cfg env hs.active hs.gate hs.queue rfl time time
  let c : JointCommand numStandardJoints := ⟨r.1.lastJointTargets, .inference f⟩
  have htick : (loop cfg env mj simCfg now d).step ⟨b, ros, sim, [], [], []⟩ (.tick time) =
      some (⟨w.1, ros, sim, [], [], []⟩, []) := by
    show some (Loop.mk (b.controlLoopStep cfg env time _).1 _ _
      ([] ++ jointCommands (b.controlLoopStep cfg env time _).2) _ _, _) = _
    rw [h.tick, jointCommands, h.silent]
    rfl
  have hinfer : (loop cfg env mj simCfg now d).step ⟨w.1, ros, sim, [], [], []⟩
      (.infer .completes time) = some (⟨r.1, ros, sim, [c], [], []⟩, []) := by
    have hstep : w.1.step cfg env (.infer .completes time) = some r := by
      simp only [Brain.step, h.captured, h.infer]
    show (w.1.step cfg env (.infer .completes time)).map _ = _
    rw [hstep, Option.map_some, jointCommands, h.published]
    rfl
  have hcycle : Loop.cycle cfg env mj simCfg time ⟨b, ros₀, sim₀, [], [], []⟩ =
      ⟨r.1, ros, sim.cmdCallback c.data, [], [], []⟩ := by
    have hanswer : b.answer cfg env time ros.getLatestProprioception = r.1 := h.answer
    rw [cmdCallback_data]
    show Loop.mk (b.answer cfg env time _) ros { sim with
      targetPositions := (b.answer cfg env time _).lastJointTargets
      physicsEnabled := true } [] [] [] = _
    rw [hanswer]
  rw [hcycle]
  refine ⟨_, Machine.follow_cons rfl (Machine.follow_cons rfl (Machine.follow_cons rfl
    (Machine.follow_cons htick (Machine.follow_cons hinfer (Machine.follow_cons rfl rfl))))), ?_⟩
  -- the watchdog may lower the state, and counts nothing
  have hw := b.watchdogResult cfg time
  have hmetrics := h.metrics
  have hactive := hw.active hs.active
  generalize b.watchdog cfg time = v at hw hmetrics hactive
  refine ⟨⟨rfl, rfl, rfl, h.gate, h.queue, ?_⟩, ?_⟩
  · show Brain.Active r.1
    rw [Brain.Active, hmetrics]
    exact hactive
  · have htotal := congrArg (· + 1) hk.totalFrames
    cases hw <;>
      exact ⟨(congrArg Metrics.totalFrames hmetrics).trans htotal,
        (congrArg Metrics.droppedFrames hmetrics).trans hk.droppedFrames,
        (congrArg Metrics.staleFrames hmetrics).trans hk.staleFrames⟩

/-- A motion task publishes nothing and leaves the state settled. -/
theorem follow_task (hs : s.Settled) (hk : CountsFrom m k s) (t : MotionTask) :
    ∃ out, (loop cfg env mj simCfg now d).follow s [.task t.task t.now] =
        some (s.processMotion cfg env t, out) ∧
      (s.processMotion cfg env t).Settled ∧ CountsFrom m k (s.processMotion cfg env t) := by
  obtain ⟨b, ros, sim, cs, js, imus⟩ := s
  obtain rfl : cs = [] := hs.commands
  have hstep : (loop cfg env mj simCfg now d).step ⟨b, ros, sim, [], js, imus⟩
      (.task t.task t.now) = some (⟨(b.processRobotTask cfg env t.task t.now).1, ros, sim,
        jointCommands (b.processRobotTask cfg env t.task t.now).2, js, imus⟩, []) := rfl
  have hr := b.taskResult cfg env t.task t.now
  unfold processMotion
  generalize b.processRobotTask cfg env t.task t.now = r at hstep hr
  cases hr with
  | stop hstop => exact absurd hstop t.motion
  | motion =>
    exact ⟨_, Machine.follow_cons hstep rfl,
      ⟨rfl, hs.jointStates, hs.imus, hs.gate, hs.queue, t.task.state_active⟩,
      ⟨hk.totalFrames, hk.droppedFrames, hk.staleFrames⟩⟩

/-- The steps of a period from a settled state. -/
theorem follow_period (hs : s.Settled) (hk : CountsFrom m k s) (p : Period) :
    ∃ out, (loop cfg env mj simCfg now d).follow s p.events =
        some (s.period cfg env mj simCfg p, out) ∧
      (s.period cfg env mj simCfg p).Settled ∧
      CountsFrom m (k + 1) (s.period cfg env mj simCfg p) := by
  obtain ⟨out, htasks, hs', hk'⟩ := Machine.follow_flatMap (M := loop cfg env mj simCfg now d)
    (P := fun _ s => s.Settled ∧ CountsFrom m k s) (k := 0)
    (fun _ _ t h => follow_task h.1 h.2 t) p.tasks ⟨hs, hk⟩
  obtain ⟨out', hcycle, hsettled, hcounts⟩ := follow_controlCycle hs' hk' p.time
  exact ⟨out ++ out', Machine.follow_append htasks hcycle, hsettled, hcounts⟩

end Cycle

end Loop

/-- From every state that can be reached in which no message is in flight and no inference is
running, any number of periods, each of motion tasks and a control cycle without delays, lead where
the sequential program leads. Each period applies one frame, and none is dropped or discarded. -/
theorem lockstep_run {cfg : BrainConfig numStandardJoints}
    {env : Environment numStandardJoints H} {mj : Mujoco D} {simCfg : SimConfig} {now : ℤ} {d : D}
    {es : List LoopEvent} {s : Loop numStandardJoints H D}
    {tr : List (LoopOutput numStandardJoints)} (h : (loop cfg env mj simCfg now d).Run es s tr)
    (hcommands : s.commands = []) (hjointStates : s.jointStates = []) (himus : s.imus = [])
    (hgate : s.brain.isInferring = false) (periods : List Period) :
    ∃ tr', (loop cfg env mj simCfg now d).Run (es ++ periods.flatMap Period.events)
        (periods.foldl (Loop.period cfg env mj simCfg) s) tr' ∧
      Loop.CountsFrom s.brain.metrics periods.length
        (periods.foldl (Loop.period cfg env mj simCfg) s) := by
  obtain ⟨calls, out, hbrain⟩ := Loop.exists_run h
  have hsettled : s.Settled := ⟨hcommands, hjointStates, himus, hgate,
    (gated_of_reaches hbrain).2 hgate, active_of_reaches hbrain⟩
  obtain ⟨out, hfollow, -, hcounts⟩ := Machine.follow_flatMap
    (P := fun k s' => s'.Settled ∧ Loop.CountsFrom s.brain.metrics k s') (k := 0)
    (fun _ _ p h => Loop.follow_period h.1 h.2 p) periods ⟨hsettled, rfl, rfl, rfl⟩
  rw [Nat.zero_add] at hcounts
  exact ⟨_, h.follow hfollow, hcounts⟩

/-- A task that walks forward. -/
def forwardMotion : MotionTask := ⟨⟨.navigate, ![fin (1 / 2), fin 0, fin 0]⟩, 10,
  fun h => (by cases h)⟩

/-- Three periods from the start, the robot falling in the last of them. -/
def fallPeriods : List Period := [⟨[forwardMotion], 20⟩, ⟨[], 40⟩, ⟨[forwardMotion], 60⟩]

theorem lockstep_run_falling :
    ∃ tr', (loop shippedConfig (constantPolicy 12 (fin 0)) (droppingEngine .identity) {} 0 0).Run
        (fallPeriods.flatMap Period.events)
        (fallPeriods.foldl (Loop.period shippedConfig (constantPolicy 12 (fin 0))
          (droppingEngine .identity) {}) (Loop.initial shippedConfig (constantPolicy 12 (fin 0))
            (droppingEngine .identity) 0 0)) tr' ∧
      Loop.CountsFrom { currentState := .standing } 3
        (fallPeriods.foldl (Loop.period shippedConfig (constantPolicy 12 (fin 0))
          (droppingEngine .identity) {}) (Loop.initial shippedConfig (constantPolicy 12 (fin 0))
            (droppingEngine .identity) 0 0)) :=
  lockstep_run .init rfl rfl rfl rfl fallPeriods

end RobotBrain
