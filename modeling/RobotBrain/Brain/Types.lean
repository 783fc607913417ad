import RobotBrain.Library.ExtNum
import Mathlib.Data.Fintype.Basic
import Mathlib.Data.Rat.Floor
import Mathlib.Data.Fin.VecNotation

/-!
# Data types of the brain

The values that the brain exchanges with its clients, its configuration and its policy. A C++
`float` is an exact rational, an infinity or a NaN (`Scalar`); the decimal constants of the source
stand for the rationals they denote. A vector of `num_joints` values is a function on
`Fin num_joints`, so that its length cannot be wrong.

## Main definitions

* `RobotState`, `TaskType`, `TaskProfile`, `Task`.
* `BrainConfig` — the fields of `BrainConfig` that the control loop reads.
* `Proprioception`, `Actions`, `Environment`.
* `shippedConfig`, `upright`, `fallen`, `stopTask`, `constantPolicy` — the robot of `config.yaml`,
  for concrete runs.
-/

namespace RobotBrain

variable {n : ℕ}

/-- The value of a `float`. -/
abbrev Scalar := ExtNum ℚ

/-- A velocity command: forward, lateral and yaw velocity. -/
abbrev Velocity := Fin 3 → Scalar

/-- `RobotState`. -/
inductive RobotState
  | idle
  | executing
  | error
  | standing
  deriving DecidableEq, Repr

/-- `Robot::TaskType`. An enumeration of the protocol may carry a number it does not name. -/
inductive TaskType
  | taskUnknown
  | navigate
  | follow
  | pick
  | emergencyStop
  | unrecognized (value : ℤ)
  deriving DecidableEq, Repr

/-- `TaskProfile`: the scaling of the velocity command and of the policy output. -/
structure TaskProfile where
  velocityScale : Scalar
  actionScale : Scalar
  deriving DecidableEq

/-- The arguments of `ProcessRobotTask` that the control loop depends on. The task identifier and
the command text are stored and never read. -/
structure Task where
  type : TaskType
  velCmd : Velocity
  deriving DecidableEq

/-- The state that `ProcessRobotTask` stores for a task. -/
def Task.state (t : Task) : RobotState :=
  if t.type = .emergencyStop then .standing else .executing

/-- `BrainConfig`, for `n` joints. -/
structure BrainConfig (n : ℕ) where
  obsDim : ℕ := 47
  actionScale : Scalar := .fin (1 / 4)
  defaultJointPositions : Fin n → Scalar
  controlRateMs : ℤ := 20
  watchdogTimeoutMs : ℤ := 500
  maxJointVelocity : Scalar := .fin 1
  jointPositionLimit : Scalar := .fin (1 / 2)
  maxVelRamp : Scalar := .fin 2
  fallGravityThreshold : Scalar := .fin (-1 / 2)
  fallDebounceFrames : ℤ := 25
  angVelScale : Scalar := .fin 1
  dofPosScale : Scalar := .fin 1
  dofVelScale : Scalar := .fin 1
  cmdScale : Fin 3 → Scalar := fun _ => .fin 1
  gaitPhasePeriod : Scalar := .fin (4 / 5)

/-- `Proprioception`. The last two fields are not in the source: they record how many times the
simulator had been reset when it published the messages the values come from. -/
structure Proprioception (n : ℕ) where
  jointPositions : Fin n → Scalar
  jointVelocities : Fin n → Scalar
  angularVelocity : Fin 3 → Scalar
  projectedGravity : Fin 3 → Scalar
  valid : Bool
  jointOrigin : ℕ := 0
  imuOrigin : ℕ := 0
  deriving DecidableEq

/-- An action vector returned by the policy: at least `num_joints` values. -/
def Actions (n : ℕ) := {l : List Scalar // n ≤ l.length}

/-- `actions[i]` for a joint `i`. -/
def Actions.joint (a : Actions n) (i : Fin n) : Scalar :=
  a.1.get ⟨i, i.2.trans_le a.2⟩

/-- What the brain calls and the repository does not contain: the policy model with its recurrent
state `H`, and the sine and cosine of `2π` times their argument. -/
structure Environment (n : ℕ) (H : Type*) where
  /-- The recurrent state after `ResetHiddenState`. -/
  hiddenZero : H
  /-- `Forward`: the actions for an observation, and the next recurrent state. It only reads the
  observation, so that the buffer holds the same values afterwards. -/
  forward : List Scalar → H → Actions n × H
  sinTurn : ℚ → ℚ
  cosTurn : ℚ → ℚ

/-! ### The shipped robot -/

/-- The configuration of `config.yaml`. -/
def shippedConfig : BrainConfig 12 where
  actionScale := .fin (1 / 4)
  defaultJointPositions := fun i => .fin (![-1 / 10, 0, 0, 3 / 10, -1 / 5, 0,
    -1 / 10, 0, 0, 3 / 10, -1 / 5, 0] i)
  maxJointVelocity := .fin 5
  jointPositionLimit := .fin 1
  maxVelRamp := .fin (1 / 2)
  fallGravityThreshold := .fin (-1 / 5)
  angVelScale := .fin (1 / 4)
  dofVelScale := .fin (1 / 20)
  cmdScale := ![.fin 2, .fin 2, .fin (1 / 4)]

/-- The proprioception of a robot that stands still in the default pose. -/
def upright (cfg : BrainConfig n) : Proprioception n where
  jointPositions := cfg.defaultJointPositions
  jointVelocities := fun _ => .fin 0
  angularVelocity := fun _ => .fin 0
  projectedGravity := ![.fin 0, .fin 0, .fin (-1)]
  valid := true

/-- The proprioception of a robot that has fallen. -/
def fallen (cfg : BrainConfig n) : Proprioception n :=
  { upright cfg with projectedGravity := ![.fin 1, .fin 0, .fin 0] }

/-- An emergency stop. -/
def stopTask : Task := ⟨.emergencyStop, fun _ => .fin 0⟩

/-- A policy whose actions are all `x` and whose recurrent state counts its calls. -/
def constantPolicy (n : ℕ) (x : Scalar) : Environment n ℕ where
  hiddenZero := 0
  forward _ calls := (⟨List.replicate n x, by simp⟩, calls + 1)
  sinTurn := fun _ => 0
  cosTurn := fun _ => 1

end RobotBrain
