import RobotBrain.Safety.Generation
import Mathlib.Tactic.FinCases

/-!
# The velocity envelope

A range of velocities that holds zero on every axis holds everything that the brain makes of the
commands in it: the targets, which are commands or zero, the values of the ramp, which lie between
an old value and a target, and the scaled commands, which lie between zero and a value of the ramp.
Only the command of `STANDING` is a constant and independent of the range. So a client that keeps
its commands in a range keeps the policy in it, whatever the interleaving.

## Main definitions

* `VelocityBox` — a range for each axis that holds zero.
* `VelocityBox.Allows` — a velocity of the range, or the one of `STANDING`.
* `Feeds` — an observation was written for a velocity.
* `commandsWritten` — the tasks whose commands the RPC thread has stored.

## Main results

* `VelocityBox.rampVelocityCommand_mem`, `VelocityBox.allows_scaledVelCmd` — what the control thread
  computes stays in the range.
* `velocity_within` — targets, ramp and observations in every interleaving.
-/

namespace RobotBrain

open ExtNum

variable {n : ℕ} {H : Type*} {cfg : BrainConfig n} {env : Environment n H}

/-- A closed range of velocities for each axis that holds zero. -/
structure VelocityBox where
  lo : Fin 3 → ℚ
  hi : Fin 3 → ℚ
  lo_nonpos : ∀ axis, lo axis ≤ 0
  hi_nonneg : ∀ axis, 0 ≤ hi axis

/-- The tasks whose commands the RPC thread has stored, in order. -/
def commandsWritten (tr : List (Output n)) : List Task :=
  tr.filterMap fun
    | .commandWritten t => some t
    | _ => none

@[simp] theorem commandsWritten_append (tr out : List (Output n)) :
    commandsWritten (tr ++ out) = commandsWritten tr ++ commandsWritten out :=
  List.filterMap_append

/-- The velocity command of `STANDING`. -/
def fixedVelCmd : Velocity := ![fin (1 / 2), fin 0, fin 0]

namespace VelocityBox

variable {box : VelocityBox}

/-- The velocity lies in the range on every axis. -/
def Within (box : VelocityBox) (v : Velocity) : Prop :=
  ∀ axis, fin (box.lo axis) ≤ v axis ∧ v axis ≤ fin (box.hi axis)

instance (v : Velocity) : Decidable (box.Within v) :=
  inferInstanceAs (Decidable (∀ _, _))

/-- The velocity lies in the range, or is the one of `STANDING`. -/
def Allows (box : VelocityBox) (v : Velocity) : Prop :=
  box.Within v ∨ v = fixedVelCmd

theorem within_zero : box.Within fun _ => fin 0 := fun axis =>
  ⟨fin_le_fin.mpr (box.lo_nonpos axis), fin_le_fin.mpr (box.hi_nonneg axis)⟩

/-- A velocity in the range is finite. -/
theorem Within.exists_eq {v : Velocity} (h : box.Within v) (axis : Fin 3) :
    ∃ x, v axis = fin x ∧ box.lo axis ≤ x ∧ x ≤ box.hi axis := by
  obtain ⟨hlo, hhi⟩ := h axis
  rcases le_cases hlo with ⟨x, hx, hle⟩ | hinf
  · rw [hx] at hhi
    exact ⟨x, hx, hle, fin_le_fin.mp hhi⟩
  · rw [hinf] at hhi
    cases hhi

/-- The ramp goes from a velocity of the range towards one, and not past it. -/
theorem rampVelocityCommand_mem (hramp : ¬cfg.maxVelRamp < fin 0) {dt : ℚ} (hdt : 0 < dt)
    {target current : Velocity} (htarget : box.Within target) (hcurrent : box.Within current) :
    box.Within (rampVelocityCommand cfg (fin dt) target current) := by
  intro axis
  obtain ⟨t, ht, -⟩ := htarget.exists_eq axis
  obtain ⟨c, hc, -⟩ := hcurrent.exists_eq axis
  obtain ⟨x, hx, hmem⟩ := exists_slew_eq (not_mul_lt_zero hdt hramp) c t
  have hlo := le_of_mem_uIcc (hc ▸ (hcurrent axis).1) (ht ▸ (htarget axis).1) hmem
  have hhi := ge_of_mem_uIcc (hc ▸ (hcurrent axis).2) (ht ▸ (htarget axis).2) hmem
  rw [rampVelocityCommand, hc, ht, hx]
  exact ⟨hlo, hhi⟩

/-- A task profile scales a velocity of the range towards zero. -/
theorem allows_scaledVelCmd {current : Velocity} (hcurrent : box.Within current)
    (state : RobotState) (type : TaskType) : box.Allows (scaledVelCmd state type current) := by
  by_cases hstanding : state = .standing
  · right
    rw [scaledVelCmd, if_pos hstanding]
    rfl
  · left
    intro axis
    obtain ⟨x, hx, hlo, hhi⟩ := hcurrent.exists_eq axis
    obtain ⟨k, hk, h0, h1⟩ := exists_velocityScale_eq type
    have hscaled : scaledVelCmd state type current axis = fin (x * k) := by
      rw [scaledVelCmd, if_neg hstanding, frameProfile, if_neg hstanding, hk, hx]
      rfl
    rw [hscaled, fin_le_fin, fin_le_fin]
    have hlo0 := box.lo_nonpos axis
    have hhi0 := box.hi_nonneg axis
    constructor
    · calc box.lo axis ≤ box.lo axis * k := le_mul_of_le_one_right hlo0 h1
        _ ≤ x * k := mul_le_mul_of_nonneg_right hlo h0
    · calc x * k ≤ box.hi axis * k := mul_le_mul_of_nonneg_right hhi h0
        _ ≤ box.hi axis := mul_le_of_le_one_right hhi0 h1

end VelocityBox

/-! ### Observations -/

/-- The observation was written for the velocity `v`: its three components of the command are `v`,
scaled. -/
def Feeds (cfg : BrainConfig n) (v : Velocity) (obs : List Scalar) : Prop :=
  ∀ axis : Fin 3, 6 + axis.val < obs.length →
    obs[6 + axis.val]? = some (v axis * cfg.cmdScale axis)

section Writes

variable (prop : Proprioception n) (velCmd : Velocity) (prevActions : Fin n → Scalar)
  (sinPhase cosPhase : Scalar)

/-- The writes of an observation around those of the command. -/
theorem observationWrites_eq :
    observationWrites cfg prop velCmd prevActions sinPhase cosPhase =
      (observationWrites cfg prop velCmd prevActions sinPhase cosPhase).take 6 ++
        [(6, velCmd 0 * cfg.cmdScale 0), (7, velCmd 1 * cfg.cmdScale 1),
          (8, velCmd 2 * cfg.cmdScale 2)] ++
        (observationWrites cfg prop velCmd prevActions sinPhase cosPhase).drop 9 := rfl

/-- The writes after those of the command go to the indices after it. -/
theorem nine_le_of_mem_drop_observationWrites :
    ∀ w ∈ (observationWrites cfg prop velCmd prevActions sinPhase cosPhase).drop 9, 9 ≤ w.1 := by
  simp only [observationWrites, List.append_assoc, List.cons_append, List.nil_append,
    List.drop_succ_cons, List.drop_zero, List.forall_mem_append, List.forall_mem_map,
    List.forall_mem_cons, List.not_mem_nil, IsEmpty.forall_iff, implies_true, and_true]
  refine ⟨fun i _ => ?_, fun i _ => ?_, fun i _ => ?_, ?_⟩ <;> omega

end Writes

/-- No later write of an observation touches the command. -/
theorem feeds_buildObservation (prop : Proprioception n) (velCmd : Velocity)
    (prevActions : Fin n → Scalar) (frame : ℕ) (obsOut : List Scalar) :
    Feeds cfg velCmd (buildObservation cfg env prop velCmd prevActions frame obsOut) := by
  intro axis haxis
  rw [buildObservation, length_writeAll] at haxis
  have hnot : 6 + axis.val ∉ ((observationWrites cfg prop velCmd prevActions
      ((gaitPhase cfg frame).map env.sinTurn) ((gaitPhase cfg frame).map env.cosTurn)).drop
        9).map Prod.fst := by
    rw [List.mem_map]
    rintro ⟨w, hw, heq⟩
    have hge := nine_le_of_mem_drop_observationWrites _ _ _ _ _ w hw
    have hlt := axis.isLt
    omega
  rw [buildObservation, observationWrites_eq, writeAll_append, getElem?_writeAll_of_notMem hnot,
    writeAll_append]
  refine getElem?_writeAll (by simp) ?_ (by rwa [length_writeAll])
  fin_cases axis <;> simp

namespace Brain

theorem feeds_nextObservation (f : Frame n) (b : Brain n H) :
    Feeds cfg f.scaledVelCmd (b.nextObservation cfg env f) :=
  feeds_buildObservation f.prop f.scaledVelCmd _ _ _

end Brain

/-! ### The invariant -/

/-- The velocities of the threads lie in the range, and so do those of the observations. -/
structure VelocityInv (cfg : BrainConfig n) (box : VelocityBox) (s : Threads n H)
    (tr : List (Output n)) : Prop where
  target : box.Within s.brain.velocityCmd
  ramp : box.Within s.brain.currentVelCmd
  frame : ∀ f ∈ s.frames, box.Allows f.scaledVelCmd
  observation : ∀ obs, .forwarded obs ∈ tr → ∃ v, box.Allows v ∧ Feeds cfg v obs

namespace Threads

variable {box : VelocityBox}

theorem RpcResult.velocity {now : ℤ} {b b' : Brain n H} {pc pc' : RpcPc} {out : List (Output n)}
    (h : RpcResult cfg env now b pc b' pc' out) :
    b'.velocityCmd = b.velocityCmd ∧ b'.currentVelCmd = b.currentVelCmd ∧
      ∀ obs, .forwarded obs ∉ out := by
  cases h <;> exact ⟨rfl, rfl, by simp⟩

/-- The control thread zeroes the target, or moves the ramp towards it. -/
theorem ControlResult.velocity {prop : Proprioception n} {b b' : Brain n H} {pc pc' : ControlPc n}
    {out : List (Output n)} (h : ControlResult cfg env prop b pc b' pc' out)
    (hramp : ¬cfg.maxVelRamp < fin 0) (htarget : box.Within b.velocityCmd)
    (hcurrent : box.Within b.currentVelCmd) :
    box.Within b'.velocityCmd ∧ box.Within b'.currentVelCmd ∧ ∀ obs, .forwarded obs ∉ out := by
  cases h
  case watchdogZeroVelocity => exact ⟨VelocityBox.within_zero, hcurrent, by simp⟩
  case rampVelocity now state p =>
    exact ⟨htarget, VelocityBox.rampVelocityCommand_mem hramp (b.timeStep_pos now) htarget hcurrent,
      by simp⟩
  all_goals exact ⟨htarget, hcurrent, by simp⟩

/-- The worker leaves both alone, and the observation that it hands on is that of its frame. -/
theorem WorkerResult.velocity {now : ℤ} {b b' : Brain n H} {pc pc' : WorkerPc n}
    {out : List (Output n)} (h : WorkerResult cfg env now b pc b' pc' out) :
    b'.velocityCmd = b.velocityCmd ∧ b'.currentVelCmd = b.currentVelCmd ∧
      ∀ obs, .forwarded obs ∈ out → ∃ f ∈ pc.frame, Feeds cfg f.scaledVelCmd obs := by
  cases h
  case forward f | forwardThrew f =>
    have hkeep : (b.acquireBuffer cfg).2.2.velocityCmd = b.velocityCmd ∧
        (b.acquireBuffer cfg).2.2.currentVelCmd = b.currentVelCmd := by
      rw [Brain.acquireBuffer_brain]
      exact ⟨rfl, rfl⟩
    refine ⟨hkeep.1, hkeep.2, fun obs hobs => ⟨f, rfl, ?_⟩⟩
    obtain rfl := Output.forwarded.inj (List.mem_singleton.mp hobs)
    exact Brain.feeds_nextObservation f b
  case releaseBuffer r =>
    rw [Brain.releaseBuffer_eq]
    exact ⟨rfl, rfl, by simp⟩
  all_goals exact ⟨rfl, rfl, by simp⟩

/-- A step whose commands lie in the range keeps everything in it. -/
theorem StepResult.velocityInv {s : Threads n H} {tr : List (Output n)} {e : ThreadEvent n}
    {r : Threads n H × List (Output n)} (h : StepResult cfg env s e r)
    (hramp : ¬cfg.maxVelRamp < fin 0) (hI : VelocityInv cfg box s tr)
    (hbox : ∀ t ∈ commandsWritten r.2, box.Within t.velCmd) :
    VelocityInv cfg box r.1 (tr ++ r.2) := by
  have hframe : ∀ f ∈ r.1.frames, box.Allows f.scaledVelCmd := by
    intro f hf
    rcases h.frames f hf with hf | ⟨state, p, target, dt, -, rfl⟩
    · exact hI.frame f hf
    · exact VelocityBox.allows_scaledVelCmd hI.ramp state s.brain.currentTaskType
  have hobs {out : List (Output n)} (hout : ∀ obs, .forwarded obs ∉ out) :
      ∀ obs, .forwarded obs ∈ tr ++ out → ∃ v, box.Allows v ∧ Feeds cfg v obs :=
    fun obs hmem => hI.observation obs ((List.mem_append.mp hmem).resolve_right (hout obs))
  cases h with
  | @call t hpc =>
    exact ⟨hbox t List.mem_cons_self, hI.ramp, hframe, hobs (by simp)⟩
  | tick | dequeue => exact ⟨hI.target, hI.ramp, hframe, hobs (by simp)⟩
  | rpc h =>
    obtain ⟨htarget, hcurrent, hout⟩ := h.velocity
    exact ⟨htarget ▸ hI.target, hcurrent ▸ hI.ramp, hframe, hobs hout⟩
  | control h =>
    obtain ⟨htarget, hcurrent, hout⟩ := h.velocity hramp hI.target hI.ramp
    exact ⟨htarget, hcurrent, hframe, hobs hout⟩
  | worker h =>
    obtain ⟨htarget, hcurrent, hout⟩ := h.velocity
    refine ⟨htarget ▸ hI.target, hcurrent ▸ hI.ramp, hframe, fun obs hmem => ?_⟩
    rcases List.mem_append.mp hmem with hmem | hmem
    · exact hI.observation obs hmem
    · -- the frame was in flight before the step
      obtain ⟨f, hf, hfeeds⟩ := hout obs hmem
      have hmem : f ∈ s.frames :=
        List.mem_append_right _ (Option.mem_toList.mpr hf)
      exact ⟨f.scaledVelCmd, hI.frame f hmem, hfeeds⟩

end Threads

theorem velocityInv_of_run {box : VelocityBox} {start : ℤ} {es : List (ThreadEvent n)}
    {s : Threads n H} {tr : List (Output n)} (h : (threads cfg env start).Run es s tr)
    (hramp : ¬cfg.maxVelRamp < fin 0)
    (hbox : ∀ t ∈ commandsWritten tr, box.Within t.velCmd) : VelocityInv cfg box s tr := by
  refine h.invariant (fun s tr => (∀ t ∈ commandsWritten tr, box.Within t.velCmd) →
    VelocityInv cfg box s tr) ?_ ?_ hbox
  · intro _
    refine ⟨VelocityBox.within_zero, VelocityBox.within_zero, by rintro f ⟨⟩, by rintro obs ⟨⟩⟩
  · intro es s tr e s' out _ hI _ hs hbox
    rw [commandsWritten_append, List.forall_mem_append] at hbox
    exact (Threads.stepResult hs).velocityInv hramp (hI hbox.1) hbox.2

/-- In every interleaving of the three threads whose commands lie in a range that holds zero, with a
`max_vel_ramp` that is not negative: `velocity_cmd_` and `current_vel_cmd_` lie in the range, and
every observation handed to `Forward` was written for a velocity of the range or for the constant
one of `STANDING`. -/
theorem velocity_within {box : VelocityBox} {start : ℤ} {es : List (ThreadEvent n)}
    {s : Threads n H} {tr : List (Output n)} (h : (threads cfg env start).Run es s tr)
    (hramp : ¬cfg.maxVelRamp < fin 0)
    (hbox : ∀ t ∈ commandsWritten tr, box.Within t.velCmd) :
    box.Within s.brain.velocityCmd ∧ box.Within s.brain.currentVelCmd ∧
      ∀ obs, .forwarded obs ∈ tr → ∃ v, box.Allows v ∧ Feeds cfg v obs :=
  have hI := velocityInv_of_run h hramp hbox
  ⟨hI.target, hI.ramp, hI.observation⟩

/-- Half a metre per second forward, in a range of one metre per second both ways. -/
theorem velocity_within_forward :
    ∃ s tr, (threads shippedConfig (constantPolicy 12 (fin 0)) 1000).Run
        (.call ⟨.navigate, ![fin (1 / 2), fin 0, fin 0]⟩ :: List.replicate 5 (.rpc 1010) ++
          .tick 1020 :: List.replicate 7 (.control (upright shippedConfig)) ++
          [.dequeue, .worker false 1030]) s tr ∧
      s.brain.currentVelCmd 0 = fin (1 / 100) ∧
      ∀ axis, fin (-1) ≤ s.brain.currentVelCmd axis ∧ s.brain.currentVelCmd axis ≤ fin 1 := by
  let box : VelocityBox := ⟨fun _ => -1, fun _ => 1, fun _ => by norm_num, fun _ => by norm_num⟩
  have hrun : ∃ s tr, (threads shippedConfig (constantPolicy 12 (fin 0)) 1000).Run
      (.call ⟨.navigate, ![fin (1 / 2), fin 0, fin 0]⟩ :: List.replicate 5 (.rpc 1010) ++
        .tick 1020 :: List.replicate 7 (.control (upright shippedConfig)) ++
        [.dequeue, .worker false 1030]) s tr ∧
      s.brain.currentVelCmd 0 = fin (1 / 100) ∧
      ∀ t ∈ commandsWritten tr, box.Within t.velCmd :=
    Machine.exists_reaches_of_decide _ (by decide +kernel)
  obtain ⟨s, tr, hrun, hforward, hbox⟩ := hrun
  exact ⟨s, tr, hrun, hforward, (velocity_within hrun (by decide +kernel) hbox).2.1⟩

end RobotBrain
