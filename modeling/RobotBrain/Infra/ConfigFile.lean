import RobotBrain.Infra.Config
import RobotBrain.Library.Except

/-!
# What a configuration file means

`LoadConfig` goes through the sections of the document one after the other and leaves at the first
entry that it cannot use. Read as a whole, the order plays no part: every setting is the value of
one entry of one section, or its default where the section is missing, and a document is refused
exactly if it or one of the sections that are there has no entries at all, as a scalar, or if one of
the two lists is there and is not a list of numbers.

Of the library this uses only that a node is asked for all keys or for none: the exception
`BadSubscript` depends on the kind of the node and not on the key.

## Main definitions

* `YamlLibrary.Uniform` — the assumption on the library.
* `YamlLibrary.setting` — the value of a setting in a document.
* `AppConfig.settings`, `AppConfig.Accepts` — the table, and the documents that are not refused.

## Main results

* `AppConfig.loadSections_eq_ok_iff` — the sections give the table of an accepted document.
* `loadConfig_iff` — when `LoadConfig` returns, and what, and which exception leaves it otherwise.
-/

namespace RobotBrain

open ExtNum

variable {Node α : Type}

/-! ### Single entries -/

namespace YamlLibrary

variable (yaml : YamlLibrary Node)

/-- The node may be asked for its entries. -/
def HasEntries (node : Node) : Prop :=
  ∀ key, ∃ entry, yaml.subscript node key = .ok entry

/-- A node that may be asked for one entry may be asked for every other. -/
def Uniform : Prop :=
  ∀ node key entry, yaml.subscript node key = .ok entry → yaml.HasEntries node

/-- The entry of a node, if it is there. -/
def entry (node : Node) (key : String) : Option Node :=
  (yaml.subscript node key).toOption.filter yaml.isDefined

/-- The value of an entry of a node. -/
def value (node : Node) (key : String) (as : Node → α → α) (default : α) : α :=
  ((yaml.subscript node key).toOption.map fun entry => as entry default).getD default

/-- The list that an entry of a node holds, the default where it is missing. -/
def list (node : Node) (key : String) (default : List Scalar) : List Scalar :=
  ((yaml.entry node key).bind fun entry => (yaml.floats entry).toOption).getD default

/-- What a section of the document says, the default where it is missing. -/
def inSection (node : Node) (sec : String) (read : Node → α) (default : α) : α :=
  ((yaml.entry node sec).map read).getD default

/-- The value of an entry of a section, the default where the section is missing. -/
def setting (node : Node) (sec key : String) (as : Node → α → α) (default : α) : α :=
  yaml.inSection node sec (fun s => yaml.value s key as default) default

/-- The list in an entry of a section, the default where it is missing. -/
def listSetting (node : Node) (sec key : String) (default : List Scalar) : List Scalar :=
  yaml.inSection node sec (fun s => yaml.list s key default) default

/-- The entry is a list of numbers if it is there. -/
def Converts (node : Node) (key : String) : Prop :=
  ∀ entry, yaml.entry node key = some entry → ∃ x, yaml.floats entry = .ok x

variable {yaml} {node s : Node} {sec key : String}

theorem inSection_of_eq_none (h : yaml.entry node sec = none) (read : Node → α) (default : α) :
    yaml.inSection node sec read default = default := by
  rw [inSection, h]
  rfl

theorem inSection_of_eq_some (h : yaml.entry node sec = some s) (read : Node → α) (default : α) :
    yaml.inSection node sec read default = read s := by
  rw [inSection, h]
  rfl

theorem Uniform.get_eq_ok_iff (hy : yaml.Uniform) {as : Node → α → α} {fallback x : α} :
    yaml.get node key as fallback = .ok x ↔
      yaml.HasEntries node ∧ yaml.value node key as fallback = x := by
  constructor
  · intro h
    obtain ⟨entry, hentry, h⟩ := Except.bind_eq_ok_iff.mp h
    refine ⟨hy node key entry hentry, ?_⟩
    rw [value, hentry]
    exact Except.ok.inj h
  · rintro ⟨hnode, rfl⟩
    obtain ⟨entry, hentry⟩ := hnode key
    rw [value, hentry]
    exact Except.bind_eq_ok_iff.mpr ⟨entry, hentry, rfl⟩

/-- What an access tells of an entry that is or is not there. -/
theorem entry_eq_of_subscript {entry : Node} (h : yaml.subscript node key = .ok entry) :
    yaml.entry node key = if yaml.isDefined entry then some entry else none := by
  rw [YamlLibrary.entry, h]
  rfl

theorem Uniform.getFloats_eq_ok_iff (hy : yaml.Uniform) {value x : List Scalar} :
    yaml.getFloats node key value = .ok x ↔
      yaml.HasEntries node ∧ yaml.Converts node key ∧ yaml.list node key value = x := by
  rw [getFloats, Except.bind_eq_ok_iff, Converts, list]
  constructor
  · rintro ⟨entry, hentry, h⟩
    refine ⟨hy node key entry hentry, ?_⟩
    rw [entry_eq_of_subscript hentry]
    split_ifs at h ⊢ with hdef
    · refine ⟨?_, ?_⟩
      · rintro _ ⟨⟩
        exact ⟨x, h⟩
      · show ((yaml.floats entry).toOption).getD value = x
        rw [h]
        rfl
    · exact ⟨by simp, Except.ok.inj h⟩
  · rintro ⟨hnode, hconverts, rfl⟩
    obtain ⟨entry, hentry⟩ := hnode key
    refine ⟨entry, hentry, ?_⟩
    rw [entry_eq_of_subscript hentry] at hconverts ⊢
    split_ifs at hconverts ⊢ with hdef
    · obtain ⟨y, hy⟩ := hconverts entry rfl
      show _ = Except.ok (((yaml.floats entry).toOption).getD value)
      rw [hy]
      rfl
    · rfl

end YamlLibrary

/-! ### The sections -/

namespace AppConfig

variable (yaml : YamlLibrary Node) (node : Node)

/-- The settings of the section `server`. -/
def serverSettings (c : AppConfig) : AppConfig :=
  { c with
    host := yaml.setting node "server" "host" yaml.asString c.host
    port := yaml.setting node "server" "port" yaml.asInt c.port
    workerThreads := yaml.setting node "server" "worker_threads" yaml.asInt c.workerThreads }

/-- The settings of the section `ai_brain`. -/
def aiBrainSettings (c : AppConfig) : AppConfig :=
  { c with
    policyModelPath :=
      yaml.setting node "ai_brain" "policy_model_path" yaml.asString c.policyModelPath
    intraOpThreads := yaml.setting node "ai_brain" "intra_op_threads" yaml.asInt c.intraOpThreads
    useGpu := yaml.setting node "ai_brain" "use_gpu" yaml.asBool c.useGpu
    numJoints := yaml.setting node "ai_brain" "num_joints" yaml.asInt c.numJoints
    obsDim := yaml.setting node "ai_brain" "obs_dim" yaml.asInt c.obsDim
    actionScale := yaml.setting node "ai_brain" "action_scale" yaml.asFloat c.actionScale
    defaultJointPositions :=
      yaml.listSetting node "ai_brain" "default_joint_positions" c.defaultJointPositions
    angVelScale := yaml.setting node "ai_brain" "ang_vel_scale" yaml.asFloat c.angVelScale
    dofPosScale := yaml.setting node "ai_brain" "dof_pos_scale" yaml.asFloat c.dofPosScale
    dofVelScale := yaml.setting node "ai_brain" "dof_vel_scale" yaml.asFloat c.dofVelScale
    cmdScale := yaml.listSetting node "ai_brain" "cmd_scale" c.cmdScale
    gaitPhasePeriod :=
      yaml.setting node "ai_brain" "gait_phase_period" yaml.asFloat c.gaitPhasePeriod }

/-- The settings of the section `robot`. -/
def robotSettings (c : AppConfig) : AppConfig :=
  { c with
    jointStateTopic := yaml.setting node "robot" "joint_state_topic" yaml.asString c.jointStateTopic
    imuTopic := yaml.setting node "robot" "imu_topic" yaml.asString c.imuTopic
    jointCommandTopic :=
      yaml.setting node "robot" "joint_command_topic" yaml.asString c.jointCommandTopic
    controlRateMs := yaml.setting node "robot" "control_rate_ms" yaml.asInt c.controlRateMs
    watchdogTimeoutMs :=
      yaml.setting node "robot" "watchdog_timeout_ms" yaml.asInt64 c.watchdogTimeoutMs }

/-- The settings of the section `safety`. -/
def safetySettings (c : AppConfig) : AppConfig :=
  { c with
    maxJointVelocity :=
      yaml.setting node "safety" "max_joint_velocity" yaml.asFloat c.maxJointVelocity
    maxJointAccel := yaml.setting node "safety" "max_joint_accel" yaml.asFloat c.maxJointAccel
    jointPositionLimit :=
      yaml.setting node "safety" "joint_position_limit" yaml.asFloat c.jointPositionLimit
    maxVelRamp := yaml.setting node "safety" "max_vel_ramp" yaml.asFloat c.maxVelRamp
    fallGravityThreshold :=
      yaml.setting node "safety" "fall_gravity_threshold" yaml.asFloat c.fallGravityThreshold
    fallDebounceFrames :=
      yaml.setting node "safety" "fall_debounce_frames" yaml.asInt c.fallDebounceFrames }

/-- The settings of the section `realtime`. -/
def realtimeSettings (c : AppConfig) : AppConfig :=
  { c with
    rtEnabled := yaml.setting node "realtime" "enabled" yaml.asBool c.rtEnabled
    rtPriority := yaml.setting node "realtime" "priority" yaml.asInt c.rtPriority
    rtUseMlockall := yaml.setting node "realtime" "use_mlockall" yaml.asBool c.rtUseMlockall }

/-- The settings in a document. -/
def settings : AppConfig :=
  realtimeSettings yaml node <| safetySettings yaml node <| robotSettings yaml node <|
    aiBrainSettings yaml node <| serverSettings yaml node {}

/-- A section that is there can be asked for its entries. -/
def SectionReadable (sec : String) : Prop :=
  ∀ s, yaml.entry node sec = some s → yaml.HasEntries s

/-- The document is not refused. -/
structure Accepts : Prop where
  root : yaml.HasEntries node
  sections : ∀ sec ∈ ["server", "ai_brain", "robot", "safety", "realtime"],
    SectionReadable yaml node sec
  lists : ∀ s, yaml.entry node "ai_brain" = some s →
    ∀ key ∈ ["default_joint_positions", "cmd_scale"], yaml.Converts s key

variable {yaml node} {c c' : AppConfig}

/-- The section is read if the document and the section can be asked for their entries. -/
theorem loadSection_eq_ok_iff (hy : yaml.Uniform) {sec : String}
    {load : Node → AppConfig → Except YamlException AppConfig} {ok : Node → Prop}
    {result : AppConfig} (hnone : yaml.entry node sec = none → result = c)
    (hsome : ∀ s, yaml.entry node sec = some s → (load s c = .ok c' ↔ ok s ∧ result = c')) :
    loadSection yaml node sec load c = .ok c' ↔
      yaml.HasEntries node ∧ (∀ s, yaml.entry node sec = some s → ok s) ∧ result = c' := by
  rw [loadSection, Except.bind_eq_ok_iff]
  constructor
  · rintro ⟨s, hs, h⟩
    refine ⟨hy node sec s hs, ?_⟩
    rw [YamlLibrary.entry_eq_of_subscript hs] at hnone hsome ⊢
    split_ifs at h hnone hsome ⊢
    · obtain ⟨hok, hresult⟩ := (hsome s rfl).mp h
      refine ⟨?_, hresult⟩
      rintro _ ⟨⟩
      exact hok
    · exact ⟨by simp, (hnone rfl).trans (Except.ok.inj h)⟩
  · rintro ⟨hnode, hok, hresult⟩
    obtain ⟨s, hs⟩ := hnode sec
    refine ⟨s, hs, ?_⟩
    rw [YamlLibrary.entry_eq_of_subscript hs] at hnone hsome hok
    split_ifs at hnone hsome hok ⊢
    · exact (hsome s rfl).mpr ⟨hok s rfl, hresult⟩
    · exact congrArg Except.ok ((hnone rfl).symm.trans hresult)

theorem loadServer_eq_ok_iff (hy : yaml.Uniform) :
    loadSection yaml node "server" (loadServer yaml) c = .ok c' ↔
      yaml.HasEntries node ∧ SectionReadable yaml node "server" ∧
        serverSettings yaml node c = c' := by
  refine loadSection_eq_ok_iff hy (fun h => ?_) fun s h => ?_
  · simp only [serverSettings, YamlLibrary.setting, YamlLibrary.inSection_of_eq_none h]
  · simp only [loadServer, Except.bind_eq_ok_iff, hy.get_eq_ok_iff, and_assoc, exists_and_left,
      exists_eq_left', and_self_left, pure, Except.pure, Except.ok.injEq, serverSettings,
      YamlLibrary.setting, YamlLibrary.inSection_of_eq_some h]

theorem loadRobot_eq_ok_iff (hy : yaml.Uniform) :
    loadSection yaml node "robot" (loadRobot yaml) c = .ok c' ↔
      yaml.HasEntries node ∧ SectionReadable yaml node "robot" ∧
        robotSettings yaml node c = c' := by
  refine loadSection_eq_ok_iff hy (fun h => ?_) fun s h => ?_
  · simp only [robotSettings, YamlLibrary.setting, YamlLibrary.inSection_of_eq_none h]
  · simp only [loadRobot, Except.bind_eq_ok_iff, hy.get_eq_ok_iff, and_assoc, exists_and_left,
      exists_eq_left', and_self_left, pure, Except.pure, Except.ok.injEq, robotSettings,
      YamlLibrary.setting, YamlLibrary.inSection_of_eq_some h]

theorem loadSafety_eq_ok_iff (hy : yaml.Uniform) :
    loadSection yaml node "safety" (loadSafety yaml) c = .ok c' ↔
      yaml.HasEntries node ∧ SectionReadable yaml node "safety" ∧
        safetySettings yaml node c = c' := by
  refine loadSection_eq_ok_iff hy (fun h => ?_) fun s h => ?_
  · simp only [safetySettings, YamlLibrary.setting, YamlLibrary.inSection_of_eq_none h]
  · simp only [loadSafety, Except.bind_eq_ok_iff, hy.get_eq_ok_iff, and_assoc, exists_and_left,
      exists_eq_left', and_self_left, pure, Except.pure, Except.ok.injEq, safetySettings,
      YamlLibrary.setting, YamlLibrary.inSection_of_eq_some h]

theorem loadRealtime_eq_ok_iff (hy : yaml.Uniform) :
    loadSection yaml node "realtime" (loadRealtime yaml) c = .ok c' ↔
      yaml.HasEntries node ∧ SectionReadable yaml node "realtime" ∧
        realtimeSettings yaml node c = c' := by
  refine loadSection_eq_ok_iff hy (fun h => ?_) fun s h => ?_
  · simp only [realtimeSettings, YamlLibrary.setting, YamlLibrary.inSection_of_eq_none h]
  · simp only [loadRealtime, Except.bind_eq_ok_iff, hy.get_eq_ok_iff, and_assoc,
      exists_and_left, exists_eq_left', and_self_left, pure, Except.pure, Except.ok.injEq,
      realtimeSettings, YamlLibrary.setting, YamlLibrary.inSection_of_eq_some h]

/-- The section `ai_brain` is the one with the two lists. -/
theorem loadAiBrain_eq_ok_iff (hy : yaml.Uniform) :
    loadSection yaml node "ai_brain" (loadAiBrain yaml) c = .ok c' ↔
      yaml.HasEntries node ∧ (∀ s, yaml.entry node "ai_brain" = some s → yaml.HasEntries s ∧
        ∀ key ∈ ["default_joint_positions", "cmd_scale"], yaml.Converts s key) ∧
      aiBrainSettings yaml node c = c' := by
  refine loadSection_eq_ok_iff hy (fun h => ?_) fun s h => ?_
  · simp only [aiBrainSettings, YamlLibrary.setting, YamlLibrary.listSetting,
      YamlLibrary.inSection_of_eq_none h]
  · simp only [loadAiBrain, Except.bind_eq_ok_iff, hy.get_eq_ok_iff, hy.getFloats_eq_ok_iff,
      and_assoc, exists_and_left, exists_eq_left', and_self_left, pure, Except.pure,
      Except.ok.injEq, aiBrainSettings, YamlLibrary.setting, YamlLibrary.listSetting,
      YamlLibrary.inSection_of_eq_some h, List.forall_mem_cons]
    constructor
    · rintro ⟨hs, hpositions, -, hcmdScale, -, hc⟩
      exact ⟨hs, hpositions, hcmdScale, fun _ h => absurd h List.not_mem_nil, hc⟩
    · rintro ⟨hs, hpositions, hcmdScale, -, hc⟩
      exact ⟨hs, hpositions, hs, hcmdScale, hs, hc⟩

/-- The sections give the settings of a document that is not refused. -/
theorem loadSections_eq_ok_iff (hy : yaml.Uniform) :
    loadSections yaml node = .ok c ↔ Accepts yaml node ∧ settings yaml node = c := by
  simp only [loadSections, Except.bind_eq_ok_iff, loadServer_eq_ok_iff hy,
    loadAiBrain_eq_ok_iff hy, loadRobot_eq_ok_iff hy, loadSafety_eq_ok_iff hy,
    loadRealtime_eq_ok_iff hy]
  constructor
  · rintro ⟨_, ⟨hroot, hserver, rfl⟩, _, ⟨-, hbrain, rfl⟩, _, ⟨-, hrobot, rfl⟩, _,
      ⟨-, hsafety, rfl⟩, -, hrealtime, rfl⟩
    refine ⟨⟨hroot, ?_, fun s hs => (hbrain s hs).2⟩, rfl⟩
    simp only [List.forall_mem_cons]
    exact ⟨hserver, fun s hs => (hbrain s hs).1, hrobot, hsafety, hrealtime,
      fun _ h => absurd h List.not_mem_nil⟩
  · rintro ⟨⟨hroot, hsections, hlists⟩, rfl⟩
    simp only [List.forall_mem_cons] at hsections
    obtain ⟨hserver, hbrain, hrobot, hsafety, hrealtime, -⟩ := hsections
    exact ⟨_, ⟨hroot, hserver, rfl⟩, _, ⟨hroot, fun s hs => ⟨hbrain s hs, hlists s hs⟩, rfl⟩, _,
      ⟨hroot, hrobot, rfl⟩, _, ⟨hroot, hsafety, rfl⟩, hroot, hrealtime, rfl⟩

/-- The settings with a default position for each of a number of joints, all zeros if the document
has another number of them. -/
def completed (c : AppConfig) : AppConfig :=
  { c with
    defaultJointPositions :=
      if (c.defaultJointPositions.length : ℤ) = c.numJoints then c.defaultJointPositions
      else List.replicate c.numJoints.toNat (fin 0) }

theorem fillDefaults_eq (c : AppConfig) :
    c.fillDefaults = if c.numJoints < 0 then .error .lengthError else .ok c.completed := by
  unfold fillDefaults completed
  by_cases hlen : (c.defaultJointPositions.length : ℤ) = c.numJoints
  · rw [if_neg (not_not_intro hlen), if_neg (by omega), if_pos hlen]
    rfl
  · rw [if_pos hlen, if_neg hlen]
    rfl

end AppConfig

/-! ### `LoadConfig` -/

section LoadConfig

variable {yaml : YamlLibrary Node} (hy : yaml.Uniform)

include hy

theorem loadConfig_of_accepts {node : Node} (h : AppConfig.Accepts yaml node) :
    loadConfig yaml (.ok node) = if (AppConfig.settings yaml node).numJoints < 0 then
      .error .lengthError else .ok (AppConfig.settings yaml node).completed := by
  have hload : (Except.ok node : Except YamlException Node).bind (AppConfig.loadSections yaml) =
      .ok (AppConfig.settings yaml node) := (AppConfig.loadSections_eq_ok_iff hy).mpr ⟨h, rfl⟩
  rw [loadConfig, hload]
  exact AppConfig.fillDefaults_eq _

theorem loadConfig_of_not_accepts {file : Except YamlException Node}
    (h : ∀ node, file = .ok node → ¬AppConfig.Accepts yaml node) :
    loadConfig yaml file = .error .configLoadFailed := by
  rw [loadConfig]
  cases hload : file.bind (AppConfig.loadSections yaml) with
  | error e => rfl
  | ok c =>
    obtain ⟨node, hnode, hc⟩ := Except.bind_eq_ok_iff.mp hload
    exact absurd ((AppConfig.loadSections_eq_ok_iff hy).mp hc).1 (h node hnode)

/-- For every library that allows the access to all entries of a node or to none: `LoadConfig`
returns exactly the completed settings of a document that it accepts and that has no negative number
of joints; a negative number gives a `std::length_error`, and a document that it does not accept the
other exception. -/
theorem loadConfig_iff (file : Except YamlException Node) :
    (∀ c, loadConfig yaml file = .ok c ↔ ∃ node, file = .ok node ∧ AppConfig.Accepts yaml node ∧
      0 ≤ (AppConfig.settings yaml node).numJoints ∧
        (AppConfig.settings yaml node).completed = c) ∧
    (loadConfig yaml file = .error .lengthError ↔ ∃ node, file = .ok node ∧
      AppConfig.Accepts yaml node ∧ (AppConfig.settings yaml node).numJoints < 0) ∧
    (loadConfig yaml file = .error .configLoadFailed ↔
      ∀ node, file = .ok node → ¬AppConfig.Accepts yaml node) := by
  by_cases h : ∃ node, file = .ok node ∧ AppConfig.Accepts yaml node
  · obtain ⟨node, rfl, hnode⟩ := h
    have hsame : ∀ {P : Node → Prop}, (∃ node', (.ok node : Except YamlException Node) = .ok node' ∧
        AppConfig.Accepts yaml node' ∧ P node') ↔ P node := fun {P} => by
      constructor
      · rintro ⟨node', heq, -, hP⟩
        exact Except.ok.inj heq ▸ hP
      · exact fun hP => ⟨node, rfl, hnode, hP⟩
    have haccepted : ¬∀ node', (.ok node : Except YamlException Node) = .ok node' →
        ¬AppConfig.Accepts yaml node' := fun h => h node rfl hnode
    rw [loadConfig_of_accepts hy hnode, hsame]
    simp only [hsame, iff_false_right haccepted]
    split_ifs with hneg
    · simp [hneg]
    · simp [hneg, not_lt.mp hneg]
  · push Not at h
    rw [loadConfig_of_not_accepts hy h]
    refine ⟨fun c => ⟨fun hload => (by cases hload), ?_⟩, ⟨fun hload => (by cases hload), ?_⟩,
      iff_of_true rfl h⟩
    · rintro ⟨node, hfile, hnode, -⟩
      exact absurd hnode (h node hfile)
    · rintro ⟨node, hfile, hnode, -⟩
      exact absurd hnode (h node hfile)

end LoadConfig

/-! ### Three documents -/

/-- A document of numbers. -/
private inductive Document
  | number (value : ℤ)
  | map (entries : List (String × Document))
  | undefined

/-- The library on documents of numbers. -/
private def documentLibrary : YamlLibrary Document where
  subscript
    | .map entries, key => .ok ((entries.lookup key).getD .undefined)
    | .number _, _ | .undefined, _ => .error .badSubscript
  isDefined
    | .undefined => false
    | .number _ | .map _ => true
  asString _ fallback := fallback
  asInt
    | .number value, _ => value
    | .map _, fallback | .undefined, fallback => fallback
  asInt64 _ fallback := fallback
  asFloat _ fallback := fallback
  asBool _ fallback := fallback
  floats _ := .error .badConversion

private theorem uniform_documentLibrary : documentLibrary.Uniform := by
  intro node key entry h key'
  cases node with
  | map entries => exact ⟨_, rfl⟩
  | number | undefined => cases h

/-- A document with a number of joints. -/
private def jointsDocument (numJoints : ℤ) : Document :=
  .map [("ai_brain", .map [("num_joints", .number numJoints)])]

private theorem accepts_jointsDocument (numJoints : ℤ) :
    AppConfig.Accepts documentLibrary (jointsDocument numJoints) := by
  have hmap (entries : List (String × Document)) : documentLibrary.HasEntries (.map entries) :=
    fun _ => ⟨_, rfl⟩
  refine ⟨hmap _, ?_, ?_⟩
  · simp only [List.forall_mem_cons]
    refine ⟨by rintro s ⟨⟩, ?_, by rintro s ⟨⟩, by rintro s ⟨⟩, by rintro s ⟨⟩,
      fun _ h => absurd h List.not_mem_nil⟩
    rintro s ⟨⟩
    exact hmap _
  · rintro s ⟨⟩
    simp only [List.forall_mem_cons]
    exact ⟨by rintro e ⟨⟩, by rintro e ⟨⟩, fun _ h => absurd h List.not_mem_nil⟩

/-- One document that is accepted, one with a negative number of joints, and a number. -/
theorem loadConfig_iff_documents :
    (∃ c, loadConfig documentLibrary (.ok (jointsDocument 2)) = .ok c ∧
      c.defaultJointPositions = [fin 0, fin 0]) ∧
    loadConfig documentLibrary (.ok (jointsDocument (-1))) = .error .lengthError ∧
    loadConfig documentLibrary (.ok (.number 2)) = .error .configLoadFailed := by
  have hiff := loadConfig_iff uniform_documentLibrary
  refine ⟨⟨_, ((hiff _).1 _).mpr ⟨_, rfl, accepts_jointsDocument 2, by decide, rfl⟩, rfl⟩,
    (hiff _).2.1.mpr ⟨_, rfl, accepts_jointsDocument (-1), by decide⟩,
    (hiff _).2.2.mpr ?_⟩
  rintro node ⟨⟩ haccepts
  obtain ⟨entry, hentry⟩ := haccepts.root "server"
  cases hentry

end RobotBrain
