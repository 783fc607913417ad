import RobotBrain.Brain.Atomic
import RobotBrain.Sim.Node

/-!
# The brain and the simulator in a loop

The system of the two nodes and of the messages in flight between them. Joint commands arrive
reliably and in order. Joint states and IMU messages arrive in order or are lost. Every message may
be delayed for any time. The steps of the brain are whole calls, and the step and the callback of
the simulator run one at a time in its executor.

## Main definitions

* `Loop`, `LoopEvent`, `loop` — the system as a machine.

## Main results

* `Loop.stepResult` — what a step can do.
* `Loop.exists_run` — the brain in the system is in a state of the brain alone.
-/

namespace RobotBrain

variable {n : ℕ} {H D : Type*}

/-- The two nodes and the messages in flight, the oldest first. -/
structure Loop (n : ℕ) (H D : Type*) where
  brain : Brain n H
  ros : RosNode n
  sim : SimNode D
  commands : List (JointCommand n)
  jointStates : List JointState
  imus : List Imu

/-- The inputs of the system. -/
inductive LoopEvent
  /-- A call of `ProcessRobotTask`. -/
  | task (t : Task) (now : ℤ)
  /-- A call of `ControlLoopStep`. -/
  | tick (now : ℤ)
  /-- The worker of the brain runs a closure. -/
  | infer (outcome : Outcome) (now : ℤ)
  /-- The oldest joint state arrives or is lost. -/
  | jointState (lost : Bool)
  /-- The oldest IMU message arrives or is lost. -/
  | imu (lost : Bool)
  /-- The oldest joint command arrives. -/
  | command
  /-- A step of the simulator. -/
  | simStep

/-- The observable actions of the system. -/
inductive LoopOutput (n : ℕ)
  /-- A command of this source has enabled the physics, after this number of resets. -/
  | released (source : Source n) (resets : ℕ)
  /-- The simulator has put the robot back after a fall. -/
  | reset

/-- The messages in which the brain publishes the commands among its outputs. -/
def jointCommands (out : List (Output n)) : List (JointCommand n) :=
  (commands out).map fun c => ⟨c.1, c.2⟩

namespace Loop

variable (cfg : BrainConfig n) (env : Environment n H) (mj : Mujoco D) (simCfg : SimConfig)

/-- A call of the brain. -/
def brainStep (s : Loop n H D) (e : Event n) : Option (Loop n H D × List (LoopOutput n)) :=
  (s.brain.step cfg env e).map fun r =>
    ({ s with brain := r.1, commands := s.commands ++ jointCommands r.2 }, [])

/-- One step of the system. -/
def step (s : Loop n H D) : LoopEvent → Option (Loop n H D × List (LoopOutput n))
  | .task t now => s.brainStep cfg env (.task t now)
  | .tick now => s.brainStep cfg env (.tick now s.ros.getLatestProprioception)
  | .infer outcome now => s.brainStep cfg env (.infer outcome now)
  | .jointState lost =>
    match s.jointStates with
    | [] => none
    | msg :: rest =>
      some ({ s with
        ros := if lost then s.ros else s.ros.jointStateCallback msg
        jointStates := rest }, [])
  | .imu lost =>
    match s.imus with
    | [] => none
    | msg :: rest =>
      some ({ s with ros := if lost then s.ros else s.ros.imuCallback msg, imus := rest }, [])
  | .command =>
    match s.commands with
    | [] => none
    | c :: rest =>
      let sim := s.sim.cmdCallback c.data
      some ({ s with sim := sim, commands := rest },
        if s.sim.physicsEnabled = false ∧ sim.physicsEnabled = true then
          [.released c.source s.sim.resets]
        else [])
  | .simStep =>
    let (sim, jointState, imu) := s.sim.step mj simCfg
    some ({ s with
      sim := sim
      jointStates := s.jointStates ++ [jointState]
      imus := s.imus ++ [imu] }, if s.sim.Falls mj simCfg then [.reset] else [])

/-- The system when both nodes have been constructed, the engine starting with the data `d`. -/
def initial (now : ℤ) (d : D) : Loop n H D where
  brain := Brain.initial cfg env now
  ros := RosNode.initial n
  sim := SimNode.initial mj d
  commands := []
  jointStates := []
  imus := []

end Loop

/-- The brain and the simulator as a machine. -/
def loop (cfg : BrainConfig n) (env : Environment n H) (mj : Mujoco D) (simCfg : SimConfig)
    (now : ℤ) (d : D) : Machine (Loop n H D) LoopEvent (LoopOutput n) where
  init := Loop.initial cfg env mj now d
  step s e := s.step cfg env mj simCfg e

namespace Loop

variable {cfg : BrainConfig n} {env : Environment n H} {mj : Mujoco D} {simCfg : SimConfig}

/-! ### The brain in the system -/

/-- The call of the brain that an input of the system is. -/
def call (s : Loop n H D) : LoopEvent → Option (Event n)
  | .task t now => some (.task t now)
  | .tick now => some (.tick now s.ros.getLatestProprioception)
  | .infer outcome now => some (.infer outcome now)
  | _ => none

/-- The results of a step of the system. -/
inductive StepResult (cfg : BrainConfig n) (env : Environment n H) (mj : Mujoco D)
    (simCfg : SimConfig) (s : Loop n H D) :
    LoopEvent → Loop n H D × List (LoopOutput n) → Prop
  | brain {e : LoopEvent} {call : Event n} {r : Brain n H × List (Output n)}
      (hcall : s.call e = some call) (hr : s.brain.step cfg env call = some r) :
      StepResult cfg env mj simCfg s e
        ({ s with brain := r.1, commands := s.commands ++ jointCommands r.2 }, [])
  | jointState {lost : Bool} {msg : JointState} {rest : List JointState}
      (h : s.jointStates = msg :: rest) : StepResult cfg env mj simCfg s (.jointState lost)
        ({ s with
          ros := if lost then s.ros else s.ros.jointStateCallback msg
          jointStates := rest }, [])
  | imu {lost : Bool} {msg : Imu} {rest : List Imu} (h : s.imus = msg :: rest) :
      StepResult cfg env mj simCfg s (.imu lost)
        ({ s with ros := if lost then s.ros else s.ros.imuCallback msg, imus := rest }, [])
  /-- A command of another number of joints is ignored. -/
  | ignored {c : JointCommand n} {rest : List (JointCommand n)} (h : s.commands = c :: rest)
      (hn : n ≠ numStandardJoints) :
      StepResult cfg env mj simCfg s .command ({ s with commands := rest }, [])
  | command {c : JointCommand n} {rest : List (JointCommand n)} (h : s.commands = c :: rest)
      (hn : n = numStandardJoints) {sim : SimNode D} (henabled : sim.physicsEnabled = true)
      (hresets : sim.resets = s.sim.resets) :
      StepResult cfg env mj simCfg s .command ({ s with sim := sim, commands := rest },
        if s.sim.physicsEnabled = false then [.released c.source s.sim.resets] else [])
  | stands {sim : SimNode D} {jointState : JointState} {imu : Imu} (h : ¬s.sim.Falls mj simCfg)
      (henabled : sim.physicsEnabled = s.sim.physicsEnabled)
      (hresets : sim.resets = s.sim.resets) :
      StepResult cfg env mj simCfg s .simStep ({ s with
        sim := sim
        jointStates := s.jointStates ++ [jointState]
        imus := s.imus ++ [imu] }, [])
  | falls {sim : SimNode D} {jointState : JointState} {imu : Imu} (h : s.sim.Falls mj simCfg)
      (henabled : sim.physicsEnabled = false) (hresets : sim.resets = s.sim.resets + 1) :
      StepResult cfg env mj simCfg s .simStep ({ s with
        sim := sim
        jointStates := s.jointStates ++ [jointState]
        imus := s.imus ++ [imu] }, [.reset])

private theorem brainResult {s : Loop n H D} {e : LoopEvent} {call : Event n}
    (hcall : s.call e = some call) {r : Loop n H D × List (LoopOutput n)}
    (h : s.brainStep cfg env call = some r) : StepResult cfg env mj simCfg s e r := by
  obtain ⟨r', hr', rfl⟩ := Option.map_eq_some_iff.mp h
  exact .brain hcall hr'

theorem stepResult {s : Loop n H D} {e : LoopEvent} {r : Loop n H D × List (LoopOutput n)}
    (h : s.step cfg env mj simCfg e = some r) : StepResult cfg env mj simCfg s e r := by
  cases e with
  | task t now => exact brainResult rfl h
  | tick now => exact brainResult rfl h
  | infer outcome now => exact brainResult rfl h
  | jointState lost =>
    simp only [step] at h
    split at h <;> cases h
    exact .jointState ‹_›
  | imu lost =>
    simp only [step] at h
    split at h <;> cases h
    exact .imu ‹_›
  | command =>
    simp only [step] at h
    split at h <;> cases h
    rename_i c rest hcommands
    have hlen : c.data.length = n := c.length_data
    by_cases hn : n = numStandardJoints
    · have hsim : s.sim.cmdCallback c.data = { s.sim with
          targetPositions := fun i => c.data.getD i (.fin 0), physicsEnabled := true } :=
        if_pos (hlen.trans hn)
      simp only [hsim, and_true]
      exact .command hcommands hn rfl rfl
    · have hsim : s.sim.cmdCallback c.data = s.sim := if_neg fun h => hn (hlen.symm.trans h)
      have hsame : ¬(s.sim.physicsEnabled = false ∧ s.sim.physicsEnabled = true) := by
        rintro ⟨hoff, hon⟩
        exact Bool.noConfusion (hoff.symm.trans hon)
      simp only [hsim, if_neg hsame]
      exact .ignored hcommands hn
  | simStep =>
    obtain rfl := Option.some.inj h
    by_cases hfalls : s.sim.Falls mj simCfg
    · obtain ⟨henabled, hresets⟩ := SimNode.advance_of_falls hfalls
      rw [if_pos hfalls]
      exact .falls hfalls henabled hresets
    · obtain ⟨henabled, hresets⟩ := SimNode.advance_of_not_falls hfalls
      rw [if_neg hfalls]
      exact .stands hfalls henabled hresets

/-- The steps of the brain in a run of the system form a run of the brain alone. -/
theorem exists_run {now : ℤ} {d : D} {ok : Loop n H D → List (LoopOutput n) → LoopEvent → Prop}
    {es : List LoopEvent} {s : Loop n H D} {tr : List (LoopOutput n)}
    (h : (loop cfg env mj simCfg now d).Reaches ok es s tr) :
    ∃ calls out, (atomic cfg env now).Run calls s.brain out := by
  refine h.invariant (fun s _ => ∃ calls out, (atomic cfg env now).Run calls s.brain out)
    ⟨[], [], .init⟩ ?_
  rintro es s tr e s' out _ ⟨calls, tr', hrun⟩ _ hs
  cases stepResult hs with
  | @brain _ call r _ hr => exact ⟨calls ++ [call], tr' ++ r.2, hrun.step trivial hr⟩
  | _ => exact ⟨calls, tr', hrun⟩

end Loop

end RobotBrain
