import RobotBrain.Brain.State
import Mathlib.Data.List.GetD
import Mathlib.Data.List.OfFn

/-!
# The nodes around the brain

The brain talks to the robot through three topics. `RosNode` is its side of them: it keeps the
latest joint state and the latest IMU message, which arrive independently, and publishes joint
commands. `SimNode` is the MuJoCo simulator on the other side, in the mode in which it is driven by
joint commands: it holds the robot in the standing pose until the first command arrives, then steps
the physics, and after a fall it puts the robot back and waits for a command again.

The physics engine is a parameter. Messages of the simulator and the values read from them carry the
number of resets before their publication, and commands carry their source; the program keeps
neither.

## Main definitions

* `JointState`, `Imu`, `JointCommand` — the messages.
* `RosNode` and its callbacks, `RosNode.getLatestProprioception`.
* `Mujoco` — the physics engine.
* `SimNode`, `SimNode.cmdCallback`, `SimNode.step`.
-/

namespace RobotBrain

open ExtNum

variable {n : ℕ} {D : Type*}

/-! ### Messages -/

/-- The number of joints of the simulated robot. -/
abbrev numStandardJoints : ℕ := 12

/-- `sensor_msgs/JointState`. -/
structure JointState where
  position : List Scalar
  velocity : List Scalar
  origin : ℕ

/-- `geometry_msgs/Quaternion`. -/
structure Quaternion where
  w : Scalar
  x : Scalar
  y : Scalar
  z : Scalar

/-- A quaternion of length one. -/
def Quaternion.IsUnit (q : Quaternion) : Prop :=
  ∃ w x y z : ℚ, q = ⟨fin w, fin x, fin y, fin z⟩ ∧ w ^ 2 + x ^ 2 + y ^ 2 + z ^ 2 = 1

/-- `sensor_msgs/Imu`. -/
structure Imu where
  orientation : Quaternion
  angularVelocity : Fin 3 → Scalar
  origin : ℕ

/-- A `std_msgs/Float64MultiArray` on the topic of the joint commands. -/
structure JointCommand (n : ℕ) where
  targets : Fin n → Scalar
  source : Source n

/-- `msg.data`. -/
def JointCommand.data (c : JointCommand n) : List Scalar :=
  List.ofFn c.targets

theorem JointCommand.length_data (c : JointCommand n) : c.data.length = n :=
  List.length_ofFn

/-! ### The node of the brain -/

/-- The proprioception cache of `RosNode`. -/
structure RosNode (n : ℕ) where
  latestJointPositions : Fin n → Scalar
  latestJointVelocities : Fin n → Scalar
  latestAngVel : Fin 3 → Scalar
  latestGravity : Fin 3 → Scalar
  hasJointState : Bool
  hasImu : Bool
  jointOrigin : ℕ
  imuOrigin : ℕ

namespace RosNode

/-- The cache before any message has arrived. -/
def initial (n : ℕ) : RosNode n where
  latestJointPositions := fun _ => fin 0
  latestJointVelocities := fun _ => fin 0
  latestAngVel := fun _ => fin 0
  latestGravity := ![fin 0, fin 0, fin (-1)]
  hasJointState := false
  hasImu := false
  jointOrigin := 0
  imuOrigin := 0

/-- The loop that copies the first `m` values of a message over the cached ones. -/
def copyFirst (m : ℕ) (values : List Scalar) (cached : Fin n → Scalar) : Fin n → Scalar :=
  fun i => if (i : ℕ) < m then values.getD i (cached i) else cached i

theorem copyFirst_ofFn (values cached : Fin n → Scalar) (i : Fin n) :
    copyFirst n (List.ofFn values) cached i = values i := by
  have hi : (i : ℕ) < (List.ofFn values).length := i.isLt.trans_eq List.length_ofFn.symm
  rw [copyFirst, if_pos i.isLt, List.getD_eq_getElem _ _ hi, List.getElem_ofFn]

/-- `RosNode::JointStateCallback`. -/
def jointStateCallback (msg : JointState) (r : RosNode n) : RosNode n :=
  let m := min (min msg.position.length msg.velocity.length) n
  { r with
    latestJointPositions := copyFirst m msg.position r.latestJointPositions
    latestJointVelocities := copyFirst m msg.velocity r.latestJointVelocities
    hasJointState := true
    jointOrigin := msg.origin }

/-- A message with a position and a velocity for every joint replaces the cached ones. -/
theorem jointStateCallback_ofFn (positions velocities : Fin n → Scalar) (origin : ℕ)
    (r : RosNode n) :
    r.jointStateCallback ⟨List.ofFn positions, List.ofFn velocities, origin⟩ =
      { r with
        latestJointPositions := positions
        latestJointVelocities := velocities
        hasJointState := true
        jointOrigin := origin } := by
  have hlen : min (min (List.ofFn positions).length (List.ofFn velocities).length) n = n := by
    simp
  rw [jointStateCallback]
  simp only [hlen, funext (copyFirst_ofFn _ _)]

/-- `RosNode::QuaternionToProjectedGravity`. -/
def quaternionToProjectedGravity (q : Quaternion) : Fin 3 → Scalar :=
  ![fin 2 * (q.w * q.y - q.x * q.z), fin (-2) * (q.w * q.x + q.y * q.z),
    fin 2 * (q.x * q.x + q.y * q.y) - fin 1]

/-- `RosNode::ImuCallback`. -/
def imuCallback (msg : Imu) (r : RosNode n) : RosNode n :=
  { r with
    latestAngVel := msg.angularVelocity
    latestGravity := quaternionToProjectedGravity msg.orientation
    hasImu := true
    imuOrigin := msg.origin }

/-- `RosNode::GetLatestProprioception`. -/
def getLatestProprioception (r : RosNode n) : Proprioception n where
  jointPositions := r.latestJointPositions
  jointVelocities := r.latestJointVelocities
  angularVelocity := r.latestAngVel
  projectedGravity := r.latestGravity
  valid := r.hasJointState && r.hasImu
  jointOrigin := r.jointOrigin
  imuOrigin := r.imuOrigin

end RosNode

/-! ### The simulator -/

/-- The physics engine with its state of type `D`, the addresses of the standard joints in its
arrays, and the arcsine of the Python library. -/
structure Mujoco (D : Type*) where
  /-- `mj_resetData`. -/
  resetData : D → D
  /-- `mj_forward`. -/
  forward : D → D
  /-- `mj_step`. -/
  step : D → D
  qpos : D → ℕ → Scalar
  qvel : D → ℕ → Scalar
  setQpos : D → ℕ → Scalar → D
  setCtrl : D → ℕ → Scalar → D
  qposAdr : Fin numStandardJoints → ℕ
  dofAdr : Fin numStandardJoints → ℕ
  ctrlAdr : Fin numStandardJoints → ℕ
  asin : Scalar → Scalar

/-- The orientation of the base. -/
def Mujoco.orientation (mj : Mujoco D) (d : D) : Quaternion :=
  ⟨mj.qpos d 3, mj.qpos d 4, mj.qpos d 5, mj.qpos d 6⟩

/-- The parameters of the node that its step depends on. -/
structure SimConfig where
  simDt : ℚ := 1 / 500
  controlRateMs : ℤ := 10

/-- `steps_per_control`. -/
def SimConfig.stepsPerControl (cfg : SimConfig) : ℕ :=
  max 1 (truncate ((cfg.controlRateMs : ℚ) / 1000 / cfg.simDt)).toNat

/-- `DEFAULT_JOINT_POSITIONS`. -/
def standingPose : Fin numStandardJoints → Scalar :=
  fun i => fin (![-1 / 10, 0, 0, 3 / 10, -1 / 5, 0, -1 / 10, 0, 0, 3 / 10, -1 / 5, 0] i)

/-- `DEFAULT_KP`. -/
def defaultKp : Fin numStandardJoints → Scalar :=
  fun i => fin (![100, 100, 100, 150, 40, 40, 100, 100, 100, 150, 40, 40] i)

/-- `DEFAULT_KD`. -/
def defaultKd : Fin numStandardJoints → Scalar :=
  fun i => fin (![2, 2, 2, 4, 2, 2, 2, 2, 2, 4, 2, 2] i)

/-- `DEFAULT_TORQUE_LIMITS`. -/
def defaultTorqueLimits : Fin numStandardJoints → Scalar :=
  fun i => fin (![60, 60, 60, 90, 40, 40, 60, 60, 60, 90, 40, 40] i)

/-- `min(a, b)` of Python. -/
def pyMin (a b : Scalar) : Scalar :=
  if b < a then b else a

/-- `max(a, b)` of Python. -/
def pyMax (a b : Scalar) : Scalar :=
  if a < b then b else a

/-- The members of `MuJoCoSimNode` that change, and the number of times that it has put the robot
back after a fall. -/
structure SimNode (D : Type*) where
  data : D
  targetPositions : Fin numStandardJoints → Scalar
  physicsEnabled : Bool
  resets : ℕ

namespace SimNode

variable (mj : Mujoco D) (cfg : SimConfig)

/-- `MuJoCoSimNode._reset_to_standing`, on the data of the engine. -/
def resetToStanding (d : D) : D :=
  let d := mj.setQpos (mj.resetData d) 2 (fin (793 / 1000))
  mj.forward ((List.finRange numStandardJoints).foldl
    (fun d i => mj.setQpos d (mj.qposAdr i) (standingPose i)) d)

/-- The node after its constructor, where the engine starts with the data `d`. -/
def initial (d : D) : SimNode D where
  data := resetToStanding mj d
  targetPositions := standingPose
  physicsEnabled := false
  resets := 0

/-- The torque of the PD controller of a joint. -/
def torque (s : SimNode D) (d : D) (i : Fin numStandardJoints) : Scalar :=
  let tau := defaultKp i * (s.targetPositions i - mj.qpos d (mj.qposAdr i)) -
    defaultKd i * mj.qvel d (mj.dofAdr i)
  pyMax (-defaultTorqueLimits i) (pyMin (defaultTorqueLimits i) tau)

/-- One physics step: the torques of all joints, then the engine. -/
def physicsStep (s : SimNode D) (d : D) : D :=
  mj.step ((List.finRange numStandardJoints).foldl
    (fun d i => mj.setCtrl d (mj.ctrlAdr i) (s.torque mj d i)) d)

/-- The data of the engine after the physics steps of a control period. -/
def physicsSteps (s : SimNode D) : D :=
  (s.physicsStep mj)^[cfg.stepsPerControl] s.data

/-- `MuJoCoSimNode._detect_fall`. -/
def DetectFall (d : D) : Prop :=
  let (w, x, y, z) := (mj.qpos d 3, mj.qpos d 4, mj.qpos d 5, mj.qpos d 6)
  let pitch := mj.asin (pyMax (fin (-1)) (pyMin (fin 1) (fin 2 * (w * y - z * x))))
  mj.qpos d 2 < fin (2 / 5) ∨ fin (157 / 200) < pitch.abs

instance (d : D) : Decidable (DetectFall mj d) :=
  inferInstanceAs (Decidable (_ ∨ _))

/-- The next step of the node finds that the robot has fallen. -/
def Falls (s : SimNode D) : Prop :=
  s.physicsEnabled = true ∧ DetectFall mj (s.physicsSteps mj cfg)

instance (s : SimNode D) : Decidable (s.Falls mj cfg) :=
  inferInstanceAs (Decidable (_ ∧ _))

/-- `MuJoCoSimNode._cmd_callback`. -/
def cmdCallback (data : List Scalar) (s : SimNode D) : SimNode D :=
  if data.length = numStandardJoints then
    { s with targetPositions := fun i => data.getD i (fin 0), physicsEnabled := true }
  else s

/-- The part of `MuJoCoSimNode._step` before the publications, without `direct_policy`. -/
def advance (s : SimNode D) : SimNode D :=
  if s.physicsEnabled then
    let d := s.physicsSteps mj cfg
    if DetectFall mj d then
      { data := resetToStanding mj d
        targetPositions := standingPose
        physicsEnabled := false
        resets := s.resets + 1 }
    else { s with data := d }
  else s

/-- `MuJoCoSimNode._publish_joint_state`. -/
def jointState (s : SimNode D) : JointState where
  position := List.ofFn fun i => mj.qpos s.data (mj.qposAdr i)
  velocity := List.ofFn fun i => mj.qvel s.data (mj.dofAdr i)
  origin := s.resets

/-- `MuJoCoSimNode._publish_imu`. -/
def imu (s : SimNode D) : Imu where
  orientation := ⟨mj.qpos s.data 3, mj.qpos s.data 4, mj.qpos s.data 5, mj.qpos s.data 6⟩
  angularVelocity := ![mj.qvel s.data 3, mj.qvel s.data 4, mj.qvel s.data 5]
  origin := s.resets

/-- `MuJoCoSimNode._step`: the node afterwards, and the two messages that it publishes. -/
def step (s : SimNode D) : SimNode D × JointState × Imu :=
  let s := s.advance mj cfg
  (s, s.jointState mj, s.imu mj)

variable {mj cfg} {s : SimNode D}

theorem advance_of_falls (h : s.Falls mj cfg) :
    (s.advance mj cfg).physicsEnabled = false ∧ (s.advance mj cfg).resets = s.resets + 1 := by
  rw [advance, if_pos h.1]
  dsimp only
  rw [if_pos h.2]
  exact ⟨rfl, rfl⟩

/-- The data published after a fall are those of the standing pose. -/
theorem data_advance_of_falls (h : s.Falls mj cfg) :
    (s.advance mj cfg).data = resetToStanding mj (s.physicsSteps mj cfg) := by
  rw [advance, if_pos h.1]
  dsimp only
  rw [if_pos h.2]

theorem advance_of_not_falls (h : ¬s.Falls mj cfg) :
    (s.advance mj cfg).physicsEnabled = s.physicsEnabled ∧
      (s.advance mj cfg).resets = s.resets := by
  unfold advance
  by_cases hon : s.physicsEnabled = true
  · have hstands : ¬DetectFall mj (s.physicsSteps mj cfg) := fun hfall => h ⟨hon, hfall⟩
    simp only [hon, hstands, if_true, if_false, and_self]
  · simp only [hon, Bool.false_eq_true, if_false, and_self]

end SimNode

end RobotBrain
