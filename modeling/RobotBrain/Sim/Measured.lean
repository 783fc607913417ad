import RobotBrain.Library.Trace
import RobotBrain.Sim.Node

/-!
# What valid proprioception has been measured from

`RosNode` reports its proprioception as valid once a joint state and an IMU message have arrived. A
joint state may carry fewer positions or velocities than there are joints. The callback copies the
joints for which it carries both and takes note of its arrival in any case. Hence a joint may be
reported as measured for which no message carried a value, or with a value that a later message has
replaced.

## Main definitions

* `SensorMessage`, `RosNode.receive` — the messages of the two topics, in any order.
* `FullyMeasured` — valid proprioception consists of the latest measurements.
* `Measures` — for every joint, the latest message with both values has the latest of each.

## Main results

* `RosNode.jointPositions_receive` — the cache in terms of the messages.
* `fullyMeasured_iff` — the code meets `FullyMeasured` on exactly those sequences of messages.
* `measures_of_forall_length` — messages with both values for every joint are among them.
-/

namespace RobotBrain

open ExtNum

variable {n : ℕ}

/-- A message on one of the two topics of the sensors. -/
inductive SensorMessage
  | jointState (msg : JointState)
  | imu (msg : Imu)

namespace SensorMessage

/-- The position that a message carries for a joint. -/
def position (i : ℕ) : SensorMessage → Option Scalar
  | .jointState msg => msg.position[i]?
  | .imu _ => none

/-- The velocity that a message carries for a joint. -/
def velocity (i : ℕ) : SensorMessage → Option Scalar
  | .jointState msg => msg.velocity[i]?
  | .imu _ => none

/-- The position and the velocity that a message carries for a joint, if it carries both. -/
def reading (i : ℕ) (m : SensorMessage) : Option (Scalar × Scalar) :=
  Option.map₂ Prod.mk (m.position i) (m.velocity i)

end SensorMessage

namespace RosNode

/-- The callback for a message. -/
def callback (r : RosNode n) : SensorMessage → RosNode n
  | .jointState msg => r.jointStateCallback msg
  | .imu msg => r.imuCallback msg

/-- The cache after messages, the oldest first. -/
def receive (msgs : List SensorMessage) (r : RosNode n) : RosNode n :=
  msgs.foldl callback r

theorem receive_concat (msgs : List SensorMessage) (m : SensorMessage) (r : RosNode n) :
    r.receive (msgs ++ [m]) = (r.receive msgs).callback m := by
  rw [receive, List.foldl_append]
  rfl

/-- The cache before any message, with other placeholders for the joints than zeros. -/
def initialWith (positions velocities : Fin n → Scalar) : RosNode n :=
  { initial n with latestJointPositions := positions, latestJointVelocities := velocities }

/-! ### The cache in terms of the messages -/

/-- A joint is copied if the message carries both values for it. -/
theorem callback_reading (r : RosNode n) (m : SensorMessage) (i : Fin n) :
    ((r.callback m).latestJointPositions i, (r.callback m).latestJointVelocities i) =
      (m.reading i).getD (r.latestJointPositions i, r.latestJointVelocities i) := by
  cases m with
  | imu msg => rfl
  | jointState msg =>
    have hi := i.isLt
    by_cases hboth : (i : ℕ) < msg.position.length ∧ (i : ℕ) < msg.velocity.length
    · simp [callback, jointStateCallback, copyFirst, SensorMessage.reading,
        SensorMessage.position, SensorMessage.velocity, hboth.1, hboth.2]
    · have hm : ¬(i : ℕ) < min (min msg.position.length msg.velocity.length) n := by omega
      have hnone : SensorMessage.reading i (.jointState msg) = none := by
        rw [not_and_or, not_lt, not_lt] at hboth
        rcases hboth with hshort | hshort
        · simp [SensorMessage.reading, SensorMessage.position, hshort]
        · simp [SensorMessage.reading, SensorMessage.velocity, hshort]
      rw [hnone]
      simp only [callback, jointStateCallback, copyFirst, if_neg hm]
      rfl

/-- The cached values of a joint are those of the latest message that carries both, the placeholders
if there is none. -/
theorem receive_reading (msgs : List SensorMessage) (r : RosNode n) (i : Fin n) :
    ((r.receive msgs).latestJointPositions i, (r.receive msgs).latestJointVelocities i) =
      (latest (SensorMessage.reading i) msgs).getD
        (r.latestJointPositions i, r.latestJointVelocities i) := by
  induction msgs using List.reverseRecOn with
  | nil => rfl
  | append_singleton msgs m ih =>
    rw [receive_concat, callback_reading, ih, latest_append, latest_cons, latest_nil,
      Option.none_or]
    cases m.reading i <;> rfl

theorem hasJointState_receive (msgs : List SensorMessage) (r : RosNode n) :
    (r.receive msgs).hasJointState = true ↔
      r.hasJointState = true ∨ ∃ msg, .jointState msg ∈ msgs := by
  induction msgs using List.reverseRecOn with
  | nil => simp [receive]
  | append_singleton msgs m ih =>
    rw [receive_concat]
    cases m with
    | jointState msg =>
      exact iff_of_true rfl (Or.inr ⟨msg, List.mem_append_right _ List.mem_cons_self⟩)
    | imu msg => simpa [callback, imuCallback] using ih

theorem hasImu_receive (msgs : List SensorMessage) (r : RosNode n) :
    (r.receive msgs).hasImu = true ↔ r.hasImu = true ∨ ∃ msg, .imu msg ∈ msgs := by
  induction msgs using List.reverseRecOn with
  | nil => simp [receive]
  | append_singleton msgs m ih =>
    rw [receive_concat]
    cases m with
    | imu msg =>
      exact iff_of_true rfl (Or.inr ⟨msg, List.mem_append_right _ List.mem_cons_self⟩)
    | jointState msg => simpa [callback, jointStateCallback] using ih

end RosNode

/-! ### Measured proprioception -/

/-- After these messages the proprioception is not valid, or an IMU message is among them and the
position and the velocity of every joint are those of the latest message that carries one, whatever
the placeholders are that the cache holds at first. -/
def FullyMeasured (n : ℕ) (msgs : List SensorMessage) : Prop :=
  ∀ positions velocities : Fin n → Scalar,
    let prop := ((RosNode.initialWith positions velocities).receive msgs).getLatestProprioception
    prop.valid = true → (∃ msg, .imu msg ∈ msgs) ∧
      ∀ i : Fin n, latest (SensorMessage.position i) msgs = some (prop.jointPositions i) ∧
        latest (SensorMessage.velocity i) msgs = some (prop.jointVelocities i)

/-- For every joint there is a message that carries both values, and the latest of these carries the
latest position and the latest velocity. -/
def Measures (n : ℕ) (msgs : List SensorMessage) : Prop :=
  ∀ i : Fin n, ∃ x v, latest (SensorMessage.reading i) msgs = some (x, v) ∧
    latest (SensorMessage.position i) msgs = some x ∧
    latest (SensorMessage.velocity i) msgs = some v

theorem RosNode.valid_receive_initialWith {positions velocities : Fin n → Scalar}
    {msgs : List SensorMessage} :
    ((initialWith positions velocities).receive msgs).getLatestProprioception.valid = true ↔
      (∃ msg, .jointState msg ∈ msgs) ∧ ∃ msg, .imu msg ∈ msgs := by
  simp only [getLatestProprioception, Bool.and_eq_true, hasJointState_receive, hasImu_receive]
  simp [initialWith, initial]

/-- Valid proprioception is fully measured if and only if a topic is still silent or the messages
measure every joint. -/
theorem fullyMeasured_iff (msgs : List SensorMessage) : FullyMeasured n msgs ↔
    ((∃ msg, .jointState msg ∈ msgs) → (∃ msg, .imu msg ∈ msgs) → Measures n msgs) := by
  constructor
  · intro h hjoint himu i
    have hvalues (c : Scalar) :=
      ((h (fun _ => c) fun _ => c) (RosNode.valid_receive_initialWith.mpr ⟨hjoint, himu⟩)).2 i
    have hcache (c : Scalar) :=
      RosNode.receive_reading msgs (RosNode.initialWith (fun _ => c) fun _ => c) i
    cases hreading : latest (SensorMessage.reading i) msgs with
    | none =>
      -- the cache still holds the placeholder, which cannot be the latest position twice
      simp only [hreading, Option.getD_none, Prod.mk.injEq] at hcache
      have hzero := (hvalues (fin 0)).1
      have hone := (hvalues (fin 1)).1
      simp only [RosNode.getLatestProprioception, (hcache _).1] at hzero hone
      rw [hzero] at hone
      simp [RosNode.initialWith] at hone
    | some reading =>
      simp only [hreading, Option.getD_some, Prod.ext_iff] at hcache
      have hlatest := hvalues (fin 0)
      simp only [RosNode.getLatestProprioception, (hcache _).1, (hcache _).2] at hlatest
      exact ⟨reading.1, reading.2, rfl, hlatest⟩
  · intro h positions velocities prop hvalid
    obtain ⟨hjoint, himu⟩ := RosNode.valid_receive_initialWith.mp hvalid
    refine ⟨himu, fun i => ?_⟩
    obtain ⟨x, v, hreading, hposition, hvelocity⟩ := h hjoint himu i
    have hcache := RosNode.receive_reading msgs (RosNode.initialWith positions velocities) i
    rw [hreading, Option.getD_some, Prod.mk.injEq] at hcache
    rw [hposition, hvelocity]
    exact ⟨congrArg some hcache.1.symm, congrArg some hcache.2.symm⟩

/-- Messages with both values for every joint, such as those of the simulator, measure every
joint. -/
theorem measures_of_forall_length {msgs : List SensorMessage}
    (hlen : ∀ msg, .jointState msg ∈ msgs → n ≤ msg.position.length ∧ n ≤ msg.velocity.length)
    (hjoint : ∃ msg, .jointState msg ∈ msgs) : Measures n msgs := by
  induction msgs using List.reverseRecOn with
  | nil => simp at hjoint
  | append_singleton msgs m ih =>
    intro i
    simp only [latest_append, latest_cons, latest_nil, Option.none_or]
    cases m with
    | jointState msg =>
      obtain ⟨hposition, hvelocity⟩ := hlen msg (List.mem_append_right _ List.mem_cons_self)
      have hi := i.isLt
      refine ⟨msg.position[i], msg.velocity[i], ?_, ?_, ?_⟩
      · simp [SensorMessage.reading, SensorMessage.position, SensorMessage.velocity,
          hi.trans_le hposition, hi.trans_le hvelocity]
      · simp [SensorMessage.position, hi.trans_le hposition]
      · simp [SensorMessage.velocity, hi.trans_le hvelocity]
    | imu msg =>
      have hjoint : ∃ msg, .jointState msg ∈ msgs := by simpa using hjoint
      exact ih (fun msg hmsg => hlen msg (List.mem_append_left _ hmsg)) hjoint i

/-- A joint state with positions only. -/
private def positionsOnly : JointState where
  position := List.ofFn shippedConfig.defaultJointPositions
  velocity := []
  origin := 0

/-- An IMU message of a robot that stands upright. -/
private def uprightImu : Imu where
  orientation := ⟨fin 1, fin 0, fin 0, fin 0⟩
  angularVelocity := fun _ => fin 0
  origin := 0

/-- After a joint state with positions only and an IMU message the proprioception is valid, and the
knee is reported at the initial zero instead of the position in the message. -/
theorem exists_invented_position :
    let msgs := [.jointState positionsOnly, .imu uprightImu]
    let prop := ((RosNode.initial 12).receive msgs).getLatestProprioception
    prop.valid = true ∧ prop.jointPositions 3 = fin 0 ∧
      latest (SensorMessage.position 3) msgs = some (fin (3 / 10)) ∧ ¬FullyMeasured 12 msgs := by
  refine ⟨rfl, by decide +kernel, by decide +kernel, fun h => ?_⟩
  have hknee := ((h (fun _ => fin 0) (fun _ => fin 0) rfl).2 3).1
  revert hknee
  decide +kernel

end RobotBrain
