import RobotBrain.Brain.Types

/-!
# The configuration file

`LoadConfig` reads a YAML document into an `AppConfig`, keeping the default of every value that is
missing. The YAML library is a parameter: it reads the file, finds the entries of a node and
converts nodes to values. `main` copies the result into the configuration of the brain.

## Main definitions

* `YamlLibrary` — what `LoadConfig` uses of the library.
* `AppConfig`, `loadConfig`, `AppConfig.brainConfig`.
* `AppConfig.WellFormed` — what the brain relies on.

## Main results

* `wellFormed_of_loadConfig` — every configuration that is loaded has a number of joints that is not
  negative, and a default position for every joint.
-/

namespace RobotBrain

open ExtNum

variable {Node α : Type}

/-! ### The YAML library -/

/-- `YAML::Exception`. -/
inductive YamlException
  | badFile
  | parserException
  | badSubscript
  | badConversion
  deriving DecidableEq, Repr

/-- The operations of the library on the nodes of a document. -/
structure YamlLibrary (Node : Type) where
  /-- `node[key]`. An entry that does not exist is an undefined node. -/
  subscript : Node → String → Except YamlException Node
  /-- `if (node)`. -/
  isDefined : Node → Bool
  /-- `node.as<std::string>(fallback)`, which like its siblings throws nothing. -/
  asString : Node → String → String
  /-- `node.as<int>(fallback)`. -/
  asInt : Node → ℤ → ℤ
  /-- `node.as<int64_t>(fallback)`. -/
  asInt64 : Node → ℤ → ℤ
  /-- `node.as<float>(fallback)`. -/
  asFloat : Node → Scalar → Scalar
  /-- `node.as<bool>(fallback)`. -/
  asBool : Node → Bool → Bool
  /-- `node.as<std::vector<float>>()`. -/
  floats : Node → Except YamlException (List Scalar)

namespace YamlLibrary

variable (yaml : YamlLibrary Node)

/-- `node[key].as<T>(fallback)`. -/
def get (node : Node) (key : String) (as : Node → α → α) (fallback : α) :
    Except YamlException α := do
  let entry ← yaml.subscript node key
  return as entry fallback

/-- `if (node[key]) value = node[key].as<std::vector<float>>()`. -/
def getFloats (node : Node) (key : String) (value : List Scalar) :
    Except YamlException (List Scalar) := do
  let entry ← yaml.subscript node key
  if yaml.isDefined entry then yaml.floats entry else return value

end YamlLibrary

/-! ### `AppConfig` -/

/-- `AppConfig`. -/
structure AppConfig where
  host : String := "0.0.0.0"
  port : ℤ := 50051
  workerThreads : ℤ := 4
  policyModelPath : String := ""
  intraOpThreads : ℤ := 2
  useGpu : Bool := false
  numJoints : ℤ := 12
  obsDim : ℤ := 47
  actionScale : Scalar := fin (1 / 4)
  defaultJointPositions : List Scalar := []
  angVelScale : Scalar := fin 1
  dofPosScale : Scalar := fin 1
  dofVelScale : Scalar := fin 1
  cmdScale : List Scalar := [fin 1, fin 1, fin 1]
  gaitPhasePeriod : Scalar := fin (4 / 5)
  jointStateTopic : String := "/joint_states"
  imuTopic : String := "/imu"
  jointCommandTopic : String := "/joint_commands"
  controlRateMs : ℤ := 20
  watchdogTimeoutMs : ℤ := 500
  maxJointVelocity : Scalar := fin 1
  maxJointAccel : Scalar := fin 5
  jointPositionLimit : Scalar := fin (1 / 2)
  maxVelRamp : Scalar := fin 2
  fallGravityThreshold : Scalar := fin (-1 / 2)
  fallDebounceFrames : ℤ := 25
  rtEnabled : Bool := true
  rtPriority : ℤ := 80
  rtUseMlockall : Bool := true

namespace AppConfig

variable (yaml : YamlLibrary Node)

/-- The section `server`. -/
def loadServer (s : Node) (c : AppConfig) : Except YamlException AppConfig := do
  let host ← yaml.get s "host" yaml.asString c.host
  let port ← yaml.get s "port" yaml.asInt c.port
  let workerThreads ← yaml.get s "worker_threads" yaml.asInt c.workerThreads
  return { c with host := host, port := port, workerThreads := workerThreads }

/-- The section `ai_brain`. -/
def loadAiBrain (ab : Node) (c : AppConfig) : Except YamlException AppConfig := do
  let policyModelPath ← yaml.get ab "policy_model_path" yaml.asString c.policyModelPath
  let intraOpThreads ← yaml.get ab "intra_op_threads" yaml.asInt c.intraOpThreads
  let useGpu ← yaml.get ab "use_gpu" yaml.asBool c.useGpu
  let numJoints ← yaml.get ab "num_joints" yaml.asInt c.numJoints
  let obsDim ← yaml.get ab "obs_dim" yaml.asInt c.obsDim
  let actionScale ← yaml.get ab "action_scale" yaml.asFloat c.actionScale
  let defaultJointPositions ←
    yaml.getFloats ab "default_joint_positions" c.defaultJointPositions
  let angVelScale ← yaml.get ab "ang_vel_scale" yaml.asFloat c.angVelScale
  let dofPosScale ← yaml.get ab "dof_pos_scale" yaml.asFloat c.dofPosScale
  let dofVelScale ← yaml.get ab "dof_vel_scale" yaml.asFloat c.dofVelScale
  let cmdScale ← yaml.getFloats ab "cmd_scale" c.cmdScale
  let gaitPhasePeriod ← yaml.get ab "gait_phase_period" yaml.asFloat c.gaitPhasePeriod
  return { c with
    policyModelPath := policyModelPath
    intraOpThreads := intraOpThreads
    useGpu := useGpu
    numJoints := numJoints
    obsDim := obsDim
    actionScale := actionScale
    defaultJointPositions := defaultJointPositions
    angVelScale := angVelScale
    dofPosScale := dofPosScale
    dofVelScale := dofVelScale
    cmdScale := cmdScale
    gaitPhasePeriod := gaitPhasePeriod }

/-- The section `robot`. -/
def loadRobot (r : Node) (c : AppConfig) : Except YamlException AppConfig := do
  let jointStateTopic ← yaml.get r "joint_state_topic" yaml.asString c.jointStateTopic
  let imuTopic ← yaml.get r "imu_topic" yaml.asString c.imuTopic
  let jointCommandTopic ← yaml.get r "joint_command_topic" yaml.asString c.jointCommandTopic
  let controlRateMs ← yaml.get r "control_rate_ms" yaml.asInt c.controlRateMs
  let watchdogTimeoutMs ← yaml.get r "watchdog_timeout_ms" yaml.asInt64 c.watchdogTimeoutMs
  return { c with
    jointStateTopic := jointStateTopic
    imuTopic := imuTopic
    jointCommandTopic := jointCommandTopic
    controlRateMs := controlRateMs
    watchdogTimeoutMs := watchdogTimeoutMs }

/-- The section `safety`. -/
def loadSafety (s : Node) (c : AppConfig) : Except YamlException AppConfig := do
  let maxJointVelocity ← yaml.get s "max_joint_velocity" yaml.asFloat c.maxJointVelocity
  let maxJointAccel ← yaml.get s "max_joint_accel" yaml.asFloat c.maxJointAccel
  let jointPositionLimit ← yaml.get s "joint_position_limit" yaml.asFloat c.jointPositionLimit
  let maxVelRamp ← yaml.get s "max_vel_ramp" yaml.asFloat c.maxVelRamp
  let fallGravityThreshold ← yaml.get s "fall_gravity_threshold" yaml.asFloat c.fallGravityThreshold
  let fallDebounceFrames ← yaml.get s "fall_debounce_frames" yaml.asInt c.fallDebounceFrames
  return { c with
    maxJointVelocity := maxJointVelocity
    maxJointAccel := maxJointAccel
    jointPositionLimit := jointPositionLimit
    maxVelRamp := maxVelRamp
    fallGravityThreshold := fallGravityThreshold
    fallDebounceFrames := fallDebounceFrames }

/-- The section `realtime`. -/
def loadRealtime (rt : Node) (c : AppConfig) : Except YamlException AppConfig := do
  let rtEnabled ← yaml.get rt "enabled" yaml.asBool c.rtEnabled
  let rtPriority ← yaml.get rt "priority" yaml.asInt c.rtPriority
  let rtUseMlockall ← yaml.get rt "use_mlockall" yaml.asBool c.rtUseMlockall
  return { c with
    rtEnabled := rtEnabled, rtPriority := rtPriority, rtUseMlockall := rtUseMlockall }

/-- A section of the document, if it is there. -/
def loadSection (node : Node) (key : String)
    (load : Node → AppConfig → Except YamlException AppConfig) (c : AppConfig) :
    Except YamlException AppConfig := do
  let s ← yaml.subscript node key
  if yaml.isDefined s then load s c else return c

/-- All sections, into the defaults. -/
def loadSections (node : Node) : Except YamlException AppConfig := do
  let c ← loadSection yaml node "server" (loadServer yaml) {}
  let c ← loadSection yaml node "ai_brain" (loadAiBrain yaml) c
  let c ← loadSection yaml node "robot" (loadRobot yaml) c
  let c ← loadSection yaml node "safety" (loadSafety yaml) c
  loadSection yaml node "realtime" (loadRealtime yaml) c

end AppConfig

/-! ### `LoadConfig` -/

/-- The exceptions that leave `LoadConfig`. -/
inductive ConfigError
  /-- `std::runtime_error("Config load failed")`. -/
  | configLoadFailed
  /-- `std::length_error`, from `assign` with a negative number of joints as its size. -/
  | lengthError
  deriving DecidableEq, Repr

/-- The default positions are replaced by zeros if their number is not that of the joints. A
negative number of joints, converted to `size_t`, is the size of no vector. -/
def AppConfig.fillDefaults (c : AppConfig) : Except ConfigError AppConfig :=
  if (c.defaultJointPositions.length : ℤ) ≠ c.numJoints then
    if c.numJoints < 0 then throw .lengthError
    else return { c with defaultJointPositions := List.replicate c.numJoints.toNat (fin 0) }
  else return c

/-- `LoadConfig`, where `file` is what the library makes of the file. -/
def loadConfig (yaml : YamlLibrary Node) (file : Except YamlException Node) :
    Except ConfigError AppConfig :=
  match file.bind (AppConfig.loadSections yaml) with
  | .error _ => throw .configLoadFailed
  | .ok c => c.fillDefaults

/-- What the brain relies on in a configuration. -/
structure AppConfig.WellFormed (c : AppConfig) : Prop where
  numJoints_nonneg : 0 ≤ c.numJoints
  length_defaultJointPositions : c.defaultJointPositions.length = c.numJoints.toNat

theorem AppConfig.wellFormed_of_fillDefaults {c c' : AppConfig} (h : c.fillDefaults = .ok c') :
    c'.WellFormed := by
  rw [fillDefaults] at h
  by_cases hlen : (c.defaultJointPositions.length : ℤ) = c.numJoints
  · rw [if_neg (not_not_intro hlen)] at h
    cases h
    exact ⟨by omega, by omega⟩
  · by_cases hneg : c.numJoints < 0
    · rw [if_pos hlen, if_pos hneg] at h
      cases h
    · rw [if_pos hlen, if_neg hneg] at h
      cases h
      exact ⟨not_lt.mp hneg, List.length_replicate⟩

/-- A configuration that has been loaded has a default position for every joint. -/
theorem wellFormed_of_loadConfig {yaml : YamlLibrary Node} {file : Except YamlException Node}
    {c : AppConfig} (h : loadConfig yaml file = .ok c) : c.WellFormed := by
  unfold loadConfig at h
  split at h
  · cases h
  · exact AppConfig.wellFormed_of_fillDefaults h

/-- The configuration of the brain that `main` makes. Missing components of `cmd_scale` are one. No
buffer of a negative size exists, so that a negative `obs_dim` counts as zero. -/
def AppConfig.brainConfig (c : AppConfig) (h : c.WellFormed) : BrainConfig c.numJoints.toNat where
  obsDim := c.obsDim.toNat
  actionScale := c.actionScale
  defaultJointPositions := fun i =>
    c.defaultJointPositions.get (i.cast h.length_defaultJointPositions.symm)
  controlRateMs := c.controlRateMs
  watchdogTimeoutMs := c.watchdogTimeoutMs
  maxJointVelocity := c.maxJointVelocity
  jointPositionLimit := c.jointPositionLimit
  maxVelRamp := c.maxVelRamp
  fallGravityThreshold := c.fallGravityThreshold
  fallDebounceFrames := c.fallDebounceFrames
  angVelScale := c.angVelScale
  dofPosScale := c.dofPosScale
  dofVelScale := c.dofVelScale
  cmdScale := fun k => c.cmdScale.getD k (fin 1)
  gaitPhasePeriod := c.gaitPhasePeriod

end RobotBrain
