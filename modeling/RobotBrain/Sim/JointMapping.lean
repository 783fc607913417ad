import RobotBrain.Library.Except
import Mathlib.Data.List.Induction
import Mathlib.Data.List.Nodup
import Mathlib.Logic.Function.Basic

/-!
# The joints of the simulated robot

The brain and the simulator know the joints by their place in the standard order, the physics engine
by the addresses in its arrays. The simulator builds the mapping between them from the names in the
model of the robot when it starts, and does not start if a joint or an actuator is missing.

## Main definitions

* `MjModel` — what the mapping reads of the model of the robot.
* `nameToIndex` — the dictionary of names; the last of several equal names counts.
* `buildJointMapping`.

## Main results

* `nameToIndex_eq_some_iff` — the dictionary.
* `joint_mapping` — when there is a mapping and which, what is reported otherwise, and that no two
  joints share an actuator.
-/

namespace RobotBrain

/-! ### The dictionaries -/

/-- The dictionary that a loop over names fills with their places. -/
def nameToIndex (names : List String) : String → Option ℕ :=
  names.zipIdx.foldl (fun dict entry => Function.update dict entry.1 (some entry.2)) fun _ => none

/-- The place is the last one with the name. -/
def IsLastIndex (names : List String) (key : String) (i : ℕ) : Prop :=
  names[i]? = some key ∧ ∀ j, names[j]? = some key → j ≤ i

theorem nameToIndex_concat (names : List String) (name : String) :
    nameToIndex (names ++ [name]) =
      Function.update (nameToIndex names) name (some names.length) := by
  unfold nameToIndex
  rw [List.zipIdx_append, List.foldl_append, Nat.zero_add]
  rfl

theorem nameToIndex_eq_some_iff {names : List String} {key : String} {i : ℕ} :
    nameToIndex names key = some i ↔ IsLastIndex names key i := by
  induction names using List.reverseRecOn with
  | nil => simp [nameToIndex, IsLastIndex]
  | append_singleton names name ih =>
    have hlast : (names ++ [name])[names.length]? = some name := List.getElem?_concat_length ..
    have hlt : ∀ {j : ℕ} {x : String}, (names ++ [name])[j]? = some x → j ≤ names.length :=
      fun h => by
        have hj := (List.getElem?_eq_some_iff.mp h).1
        rw [List.length_append, List.length_singleton] at hj
        omega
    rw [nameToIndex_concat]
    by_cases hkey : key = name
    · subst hkey
      rw [Function.update_self, Option.some.injEq]
      constructor
      · rintro rfl
        exact ⟨hlast, fun j => hlt⟩
      · exact fun h => Nat.le_antisymm (h.2 _ hlast) (hlt h.1)
    · have hsame : ∀ j : ℕ, (names ++ [name])[j]? = some key ↔ names[j]? = some key := fun j => by
        rcases Nat.lt_or_ge j names.length with hj | hj
        · rw [List.getElem?_append_left hj]
        · rw [List.getElem?_append_right hj, List.getElem?_eq_none hj]
          simp only [reduceCtorEq, iff_false]
          intro h
          exact hkey (by simpa using (List.mem_of_getElem? h))
      rw [Function.update_of_ne hkey, ih]
      simp only [IsLastIndex, hsame]

theorem nameToIndex_eq_none_iff {names : List String} {key : String} :
    nameToIndex names key = none ↔ key ∉ names := by
  induction names using List.reverseRecOn with
  | nil => simp [nameToIndex]
  | append_singleton names name ih =>
    rw [nameToIndex_concat, List.mem_append, List.mem_singleton, not_or]
    by_cases hkey : key = name
    · subst hkey
      simp
    · rw [Function.update_of_ne hkey, ih, and_iff_left hkey]

theorem exists_nameToIndex_iff {names : List String} {key : String} :
    (∃ i, nameToIndex names key = some i) ↔ key ∈ names := by
  rw [← not_iff_not, ← nameToIndex_eq_none_iff, ← Option.ne_none_iff_exists', not_not]

/-! ### The mapping -/

/-- What the mapping reads of `mujoco.MjModel`. -/
structure MjModel where
  /-- `joint(i).name`. -/
  jointNames : List String
  /-- `actuator(i).name`. -/
  actuatorNames : List String
  jntQposadr : ℕ → ℕ
  jntDofadr : ℕ → ℕ

/-- The entries of `qpos_adr`, `dof_adr` and `ctrl_adr` for a joint. -/
structure JointAddress where
  qpos : ℕ
  dof : ℕ
  ctrl : ℕ
  deriving DecidableEq

/-- `STANDARD_JOINTS`. -/
def standardJoints : List String :=
  ["left_hip_pitch", "left_hip_roll", "left_hip_yaw", "left_knee", "left_ankle_pitch",
    "left_ankle_roll", "right_hip_pitch", "right_hip_roll", "right_hip_yaw", "right_knee",
    "right_ankle_pitch", "right_ankle_roll"]

/-- `key`. -/
def jointKey (std : String) : String := std ++ "_joint"

/-- A pass of the loop over the standard joints, with the text of the `RuntimeError`. -/
def mapJoint (model : MjModel) (std : String) : Except String JointAddress :=
  match nameToIndex model.jointNames (jointKey std) with
  | none => .error ("missing joint " ++ jointKey std)
  | some jntIdx =>
    match nameToIndex model.actuatorNames (jointKey std) with
    | none => .error ("missing actuator " ++ jointKey std)
    | some act => .ok ⟨model.jntQposadr jntIdx, model.jntDofadr jntIdx, act⟩

/-- `MuJoCoSimNode._build_joint_mapping`. -/
def buildJointMapping (model : MjModel) : Except String (List JointAddress) :=
  standardJoints.mapM (mapJoint model)

variable {model : MjModel} {std : String}

/-- The addresses are those of the joint and of the actuator with its name. -/
def Addresses (model : MjModel) (std : String) (adr : JointAddress) : Prop :=
  ∃ jntIdx, IsLastIndex model.jointNames (jointKey std) jntIdx ∧
    adr.qpos = model.jntQposadr jntIdx ∧ adr.dof = model.jntDofadr jntIdx ∧
    IsLastIndex model.actuatorNames (jointKey std) adr.ctrl

theorem mapJoint_eq_ok_iff {adr : JointAddress} :
    mapJoint model std = .ok adr ↔ Addresses model std adr := by
  unfold mapJoint Addresses
  simp only [← nameToIndex_eq_some_iff]
  cases nameToIndex model.jointNames (jointKey std) with
  | none => simp
  | some jntIdx =>
    cases nameToIndex model.actuatorNames (jointKey std) with
    | none => simp
    | some act =>
      cases adr
      simp [eq_comm]

/-- What is missing for a joint is reported, the joint itself first. -/
theorem mapJoint_eq_error_iff {e : String} : mapJoint model std = .error e ↔
    (jointKey std ∉ model.jointNames ∧ e = "missing joint " ++ jointKey std) ∨
      (jointKey std ∈ model.jointNames ∧ jointKey std ∉ model.actuatorNames ∧
        e = "missing actuator " ++ jointKey std) := by
  have hjoint : jointKey std ∈ model.jointNames ↔ _ := exists_nameToIndex_iff.symm
  unfold mapJoint
  rw [hjoint]
  simp only [← nameToIndex_eq_none_iff]
  cases nameToIndex model.jointNames (jointKey std) with
  | none => simp [eq_comm]
  | some jntIdx =>
    cases nameToIndex model.actuatorNames (jointKey std) with
    | none => simp [eq_comm]
    | some act => simp

theorem exists_mapJoint_eq_ok_iff : (∃ adr, mapJoint model std = .ok adr) ↔
    jointKey std ∈ model.jointNames ∧ jointKey std ∈ model.actuatorNames := by
  simp only [← exists_nameToIndex_iff]
  unfold mapJoint
  cases nameToIndex model.jointNames (jointKey std) with
  | none => simp
  | some jntIdx => cases nameToIndex model.actuatorNames (jointKey std) <;> simp

/-- There is a mapping if and only if all standard joints have a joint and an actuator, and it gives
their addresses in the standard order. Otherwise the first joint or actuator that is missing is
reported. The torques of different joints go to different actuators. -/
theorem joint_mapping (model : MjModel) :
    (∀ adrs, buildJointMapping model = .ok adrs ↔
      List.Forall₂ (Addresses model) standardJoints adrs) ∧
    (∀ e, buildJointMapping model = .error e ↔
      ∃ before std after, standardJoints = before ++ std :: after ∧
        (∀ other ∈ before, jointKey other ∈ model.jointNames ∧
          jointKey other ∈ model.actuatorNames) ∧
        ((jointKey std ∉ model.jointNames ∧ e = "missing joint " ++ jointKey std) ∨
          (jointKey std ∈ model.jointNames ∧ jointKey std ∉ model.actuatorNames ∧
            e = "missing actuator " ++ jointKey std))) ∧
    ∀ adrs, buildJointMapping model = .ok adrs → (adrs.map JointAddress.ctrl).Nodup := by
  have hok : ∀ adrs, buildJointMapping model = .ok adrs ↔
      List.Forall₂ (Addresses model) standardJoints adrs := fun adrs => by
    rw [buildJointMapping, Except.mapM_eq_ok_iff]
    simp only [mapJoint_eq_ok_iff]
  refine ⟨hok, fun e => ?_, fun adrs h => ?_⟩
  · rw [buildJointMapping, Except.mapM_eq_error_iff]
    simp only [exists_mapJoint_eq_ok_iff, mapJoint_eq_error_iff]
  · have hnames : List.Forall₂ (fun std (adr : JointAddress) =>
        some (jointKey std) = model.actuatorNames[adr.ctrl]?) standardJoints adrs :=
      ((hok adrs).mp h).imp fun std adr ⟨_, _, _, _, hctrl⟩ => hctrl.1.symm
    have hmap : standardJoints.map (fun std => some (jointKey std)) =
        (adrs.map JointAddress.ctrl).map fun i => model.actuatorNames[i]? := by
      rw [List.map_map, ← List.forall₂_eq_eq_eq, List.forall₂_map_left_iff,
        List.forall₂_map_right_iff]
      exact hnames
    have hnodup : (standardJoints.map fun std => some (jointKey std)).Nodup := by decide +kernel
    rw [hmap] at hnodup
    exact hnodup.of_map _

end RobotBrain
