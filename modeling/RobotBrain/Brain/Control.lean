import RobotBrain.Brain.Types
import RobotBrain.Library.Slew
import Mathlib.Data.Fin.VecNotation

/-!
# The pure computations of the control loop

Everything that `AIBrain` computes without touching shared state: the task profile, the observation
handed to the policy, the joint targets made from its output with the guard against non-finite
values and the position clamp, and the two rate limits.

## Main definitions

* `getTaskProfile`, `frameProfile`, `scaledVelCmd`.
* `observationWrites`, `buildObservation`, `gaitPhase`.
* `jointTargets`, `applyRateLimit`, `rampVelocityCommand`.

## Main results

* `inEnvelope_jointTargets`, `inEnvelope_default`, `inEnvelope_applyRateLimit` — the default, the
  clamped targets and the rate-limited targets are finite and within the position limit.
* `isFinite_of_mem_writeAll` — a finite buffer stays finite under finite writes.
* `getElem?_writeAll` — values written to different indices can be read back.
-/

namespace RobotBrain

open ExtNum

variable {n : ℕ} {H : Type*}

/-! ### Task profiles -/

/-- `AIBrain::GetTaskProfile`. -/
def getTaskProfile : TaskType → TaskProfile
  | .navigate => ⟨fin 1, fin 1⟩
  | .follow => ⟨fin (3 / 5), fin (4 / 5)⟩
  | .pick => ⟨fin (3 / 10), fin (1 / 2)⟩
  | _ => ⟨fin 0, fin 0⟩

/-- The profile a control tick uses: in `STANDING` the task type is not consulted. -/
def frameProfile (state : RobotState) (type : TaskType) : TaskProfile :=
  if state = .standing then ⟨fin 1, fin 1⟩ else getTaskProfile type

/-- The velocity command a control tick hands to the policy: in `STANDING` a fixed one, the value
the policy was trained with. -/
def scaledVelCmd (state : RobotState) (type : TaskType) (currentVelCmd : Velocity) : Velocity :=
  if state = .standing then ![fin (1 / 2), fin 0, fin 0]
  else fun i => currentVelCmd i * (frameProfile state type).velocityScale

/-- The velocity scale of every task type is a number between zero and one. -/
theorem exists_velocityScale_eq (type : TaskType) :
    ∃ k : ℚ, (getTaskProfile type).velocityScale = fin k ∧ 0 ≤ k ∧ k ≤ 1 := by
  cases type <;> refine ⟨_, rfl, ?_, ?_⟩ <;> norm_num

/-! ### Observations -/

/-- The control period in seconds, `control_dt_`. -/
def BrainConfig.controlDt (cfg : BrainConfig n) : Scalar :=
  fin (cfg.controlRateMs / 1000)

/-- The phase of the gait clock, from the number of frames applied so far. -/
def gaitPhase (cfg : BrainConfig n) (frame : ℕ) : Scalar :=
  fmod (fin (frame : ℚ) * cfg.controlDt) cfg.gaitPhasePeriod / cfg.gaitPhasePeriod

/-- The writes of `BuildObservation` in program order, index and value. -/
def observationWrites (cfg : BrainConfig n) (prop : Proprioception n) (velCmd : Velocity)
    (prevActions : Fin n → Scalar) (sinPhase cosPhase : Scalar) : List (ℕ × Scalar) :=
  [(0, prop.angularVelocity 0 * cfg.angVelScale),
    (1, prop.angularVelocity 1 * cfg.angVelScale),
    (2, prop.angularVelocity 2 * cfg.angVelScale),
    (3, prop.projectedGravity 0),
    (4, prop.projectedGravity 1),
    (5, prop.projectedGravity 2),
    (6, velCmd 0 * cfg.cmdScale 0),
    (7, velCmd 1 * cfg.cmdScale 1),
    (8, velCmd 2 * cfg.cmdScale 2)] ++
  (List.finRange n).map (fun i =>
    (9 + i.val, (prop.jointPositions i - cfg.defaultJointPositions i) * cfg.dofPosScale)) ++
  (List.finRange n).map (fun i => (21 + i.val, prop.jointVelocities i * cfg.dofVelScale)) ++
  (List.finRange n).map (fun i => (33 + i.val, prevActions i)) ++
  [(45, sinPhase), (46, cosPhase)]

/-- Write values into a buffer one after the other. A write outside the buffer, undefined in the
source, has no effect here. -/
def writeAll (writes : List (ℕ × Scalar)) (buffer : List Scalar) : List Scalar :=
  writes.foldl (fun p w => p.set w.1 w.2) buffer

/-- Finite values written into a finite buffer leave it finite. -/
theorem isFinite_of_mem_writeAll {writes : List (ℕ × Scalar)} {buffer : List Scalar}
    (hw : ∀ w ∈ writes, w.2.IsFinite) (hb : ∀ x ∈ buffer, x.IsFinite) :
    ∀ x ∈ writeAll writes buffer, x.IsFinite := by
  induction writes generalizing buffer with
  | nil => exact hb
  | cons w writes ih =>
    refine ih (fun w' hw' => hw w' (List.mem_cons_of_mem w hw')) fun x hx => ?_
    rcases List.mem_or_eq_of_mem_set hx with hx | rfl
    · exact hb x hx
    · exact hw w List.mem_cons_self

@[simp] theorem length_writeAll (writes : List (ℕ × Scalar)) (buffer : List Scalar) :
    (writeAll writes buffer).length = buffer.length := by
  induction writes generalizing buffer with
  | nil => rfl
  | cons w writes ih => exact (ih _).trans List.length_set

theorem writeAll_append (writes writes' : List (ℕ × Scalar)) (buffer : List Scalar) :
    writeAll (writes ++ writes') buffer = writeAll writes' (writeAll writes buffer) :=
  List.foldl_append

theorem getElem?_writeAll_of_notMem {writes : List (ℕ × Scalar)} {buffer : List Scalar} {i : ℕ}
    (h : i ∉ writes.map Prod.fst) : (writeAll writes buffer)[i]? = buffer[i]? := by
  induction writes generalizing buffer with
  | nil => rfl
  | cons w writes ih =>
    rw [List.map_cons, List.mem_cons, not_or] at h
    exact (ih h.2).trans (List.getElem?_set_ne (Ne.symm h.1))

/-- If no index is written twice, every value written inside the buffer can be read back. -/
theorem getElem?_writeAll {writes : List (ℕ × Scalar)} {buffer : List Scalar}
    (hnodup : (writes.map Prod.fst).Nodup) {i : ℕ} {x : Scalar} (hmem : (i, x) ∈ writes)
    (hi : i < buffer.length) : (writeAll writes buffer)[i]? = some x := by
  induction writes generalizing buffer with
  | nil => cases hmem
  | cons w writes ih =>
    rw [List.map_cons, List.nodup_cons] at hnodup
    rcases List.mem_cons.mp hmem with rfl | hmem
    · exact (getElem?_writeAll_of_notMem hnodup.1).trans (List.getElem?_set_self hi)
    · exact ih hnodup.2 hmem (hi.trans_eq List.length_set.symm)

/-- Writes to all indices of a buffer in order leave the values written. -/
theorem writeAll_eq_map_snd {writes : List (ℕ × Scalar)} {buffer : List Scalar}
    (h : writes.map Prod.fst = List.range buffer.length) :
    writeAll writes buffer = writes.map Prod.snd := by
  have hlen : writes.length = buffer.length := by
    have hmap := congrArg List.length h
    rwa [List.length_map, List.length_range] at hmap
  refine List.ext_getElem? fun i => ?_
  by_cases hi : i < writes.length
  · have hindex : (writes[i]).1 = i := by
      have hget := congrArg (fun l => l[i]?) h
      simpa [hi, hlen ▸ hi] using hget
    have hmem : (i, (writes[i]).2) ∈ writes := by
      have hpair : (i, (writes[i]).2) = writes[i] := Prod.ext hindex.symm rfl
      exact hpair ▸ List.getElem_mem hi
    rw [getElem?_writeAll (h ▸ List.nodup_range) hmem (hlen ▸ hi), List.getElem?_map,
      List.getElem?_eq_getElem hi]
    rfl
  · rw [List.getElem?_eq_none, List.getElem?_eq_none]
    · rw [List.length_map]
      omega
    · rw [length_writeAll]
      omega

/-- `BuildObservation`, into a buffer that may hold an earlier observation, with the gait clock of
the inference closure. -/
def buildObservation (cfg : BrainConfig n) (env : Environment n H) (prop : Proprioception n)
    (velCmd : Velocity) (prevActions : Fin n → Scalar) (frame : ℕ) (obsOut : List Scalar) :
    List Scalar :=
  writeAll (observationWrites cfg prop velCmd prevActions
    ((gaitPhase cfg frame).map env.sinTurn) ((gaitPhase cfg frame).map env.cosTurn)) obsOut

/-- `cur_gravity_z`. -/
def Proprioception.gravityZ (prop : Proprioception n) : Scalar :=
  prop.projectedGravity 2

/-- The values that a control frame reads from outside are finite. -/
structure Proprioception.Finite (prop : Proprioception n) : Prop where
  jointPositions : ∀ i, (prop.jointPositions i).IsFinite
  jointVelocities : ∀ i, (prop.jointVelocities i).IsFinite
  angularVelocity : ∀ i, (prop.angularVelocity i).IsFinite
  projectedGravity : ∀ i, (prop.projectedGravity i).IsFinite

/-- The configured values that enter an observation or the velocity ramp are finite. -/
structure BrainConfig.Finite (cfg : BrainConfig n) : Prop where
  defaultJointPositions : ∀ i, (cfg.defaultJointPositions i).IsFinite
  angVelScale : cfg.angVelScale.IsFinite
  dofPosScale : cfg.dofPosScale.IsFinite
  dofVelScale : cfg.dofVelScale.IsFinite
  cmdScale : ∀ i, (cfg.cmdScale i).IsFinite
  maxVelRamp : cfg.maxVelRamp.IsFinite
  gaitPhasePeriod : cfg.gaitPhasePeriod.IsFinite

/-- The gait phase is finite for every period but zero, for which `std::fmod` gives a NaN. -/
theorem gaitPhase_isFinite_iff {cfg : BrainConfig n} (hcfg : cfg.gaitPhasePeriod.IsFinite)
    (frame : ℕ) : (gaitPhase cfg frame).IsFinite ↔ cfg.gaitPhasePeriod ≠ fin 0 := by
  obtain ⟨y, hy⟩ := hcfg.exists_eq
  simp only [gaitPhase, hy, BrainConfig.controlDt, fin_mul_fin, ne_eq, fin.injEq]
  by_cases h0 : y = 0
  · simp [h0]
  · simp [h0, fmod_fin_fin, fin_div_fin]

section Observation

variable {cfg : BrainConfig n} {env : Environment n H} {prop : Proprioception n}
  {velCmd : Velocity} {prevActions : Fin n → Scalar} {sinPhase cosPhase : Scalar}

/-- An observation is written from finite values. -/
theorem isFinite_of_mem_observationWrites (hcfg : cfg.Finite) (hprop : prop.Finite)
    (hvel : ∀ i, (velCmd i).IsFinite) (hprev : ∀ i, (prevActions i).IsFinite)
    (hsin : sinPhase.IsFinite) (hcos : cosPhase.IsFinite) :
    ∀ w ∈ observationWrites cfg prop velCmd prevActions sinPhase cosPhase, w.2.IsFinite := by
  have hang (i : Fin 3) := (hprop.angularVelocity i).mul hcfg.angVelScale
  have hcmd (i : Fin 3) := (hvel i).mul (hcfg.cmdScale i)
  have hpos (i : Fin n) :=
    ((hprop.jointPositions i).sub (hcfg.defaultJointPositions i)).mul hcfg.dofPosScale
  have hdof (i : Fin n) := (hprop.jointVelocities i).mul hcfg.dofVelScale
  have hgrav := hprop.projectedGravity
  simp only [observationWrites, List.forall_mem_append, List.forall_mem_cons, List.forall_mem_map,
    List.not_mem_nil, IsEmpty.forall_iff, implies_true, and_true]
  exact ⟨⟨⟨⟨⟨hang 0, hang 1, hang 2, hgrav 0, hgrav 1, hgrav 2, hcmd 0, hcmd 1, hcmd 2⟩,
    fun i _ => hpos i⟩, fun i _ => hdof i⟩, fun i _ => hprev i⟩, hsin, hcos⟩

/-- From finite values an observation that has room for the gait clock is finite exactly if the gait
period is not zero. -/
theorem buildObservation_isFinite_iff (hcfg : cfg.Finite) (hprop : prop.Finite)
    (hvel : ∀ i, (velCmd i).IsFinite) (hprev : ∀ i, (prevActions i).IsFinite) (frame : ℕ)
    {obsOut : List Scalar} (hout : ∀ x ∈ obsOut, x.IsFinite) (hroom : 45 < obsOut.length) :
    (∀ x ∈ buildObservation cfg env prop velCmd prevActions frame obsOut, x.IsFinite) ↔
      cfg.gaitPhasePeriod ≠ fin 0 := by
  rw [← gaitPhase_isFinite_iff hcfg.gaitPhasePeriod frame]
  constructor
  · intro hall
    by_contra hphase
    -- the gait clock writes NaNs to the indices 45 and 46, after everything else
    obtain ⟨body, hbody⟩ : ∃ body, ∀ sinPhase cosPhase,
        observationWrites cfg prop velCmd prevActions sinPhase cosPhase =
          body ++ [(45, sinPhase), (46, cosPhase)] := ⟨_, fun _ _ => rfl⟩
    have hobs : buildObservation cfg env prop velCmd prevActions frame obsOut =
        ((writeAll body obsOut).set 45 nan).set 46 nan := by
      rw [buildObservation, map_eq_nan hphase, map_eq_nan hphase, hbody, writeAll_append]
      rfl
    refine absurd (hall nan ?_) not_isFinite_nan
    rw [hobs]
    refine List.mem_iff_getElem?.mpr ⟨45, ?_⟩
    rw [List.getElem?_set_ne (by decide), List.getElem?_set_self]
    rwa [length_writeAll]
  · intro hphase
    obtain ⟨x, hx⟩ := hphase.exists_eq
    rw [buildObservation, hx]
    exact isFinite_of_mem_writeAll (isFinite_of_mem_observationWrites hcfg hprop hvel hprev
      (isFinite_fin _) (isFinite_fin _)) hout

end Observation

/-! ### Joint targets -/

/-- A joint target before the rate limit: the default position plus the scaled action, where an
action that is not finite counts as zero, clamped to the position limit. -/
def jointTargets (cfg : BrainConfig n) (profile : TaskProfile) (actions : Actions n)
    (i : Fin n) : Scalar :=
  let scaled := actions.joint i * cfg.actionScale * profile.actionScale
  let scaled := if scaled.isNan || scaled.isInf then fin 0 else scaled
  let target := cfg.defaultJointPositions i + scaled
  clamp target (cfg.defaultJointPositions i - cfg.jointPositionLimit)
    (cfg.defaultJointPositions i + cfg.jointPositionLimit)

/-- The guard against non-finite values leaves a finite one. -/
theorem exists_guarded_eq (scaled : Scalar) :
    ∃ x, (if scaled.isNan || scaled.isInf then fin 0 else scaled) = fin x := by
  cases scaled with
  | fin x => exact ⟨x, rfl⟩
  | inf s => exact ⟨0, rfl⟩
  | nan => exact ⟨0, rfl⟩

/-- The guard leaves a finite offset, and clamping introduces no NaN. -/
theorem jointTargets_ne_nan {cfg : BrainConfig n} {i : Fin n}
    (hdefault : (cfg.defaultJointPositions i).IsFinite) (profile : TaskProfile)
    (actions : Actions n) : jointTargets cfg profile actions i ≠ nan := by
  obtain ⟨d, hd⟩ := hdefault.exists_eq
  obtain ⟨x, hx⟩ := exists_guarded_eq
    (actions.joint i * cfg.actionScale * profile.actionScale)
  simp only [jointTargets, hd, hx, fin_add_fin]
  exact clamp_ne_nan (by simp) _ _

/-- `AIBrain::ApplyRateLimit`, with the control period of 20 ms written into it. -/
def applyRateLimit (cfg : BrainConfig n) (lastJointTargets jointTargets : Fin n → Scalar)
    (i : Fin n) : Scalar :=
  slew (cfg.maxJointVelocity * fin (1 / 50)) (lastJointTargets i) (jointTargets i)

/-- `AIBrain::RampVelocityCommand`, for the target read under the lock. -/
def rampVelocityCommand (cfg : BrainConfig n) (dt : Scalar) (target currentVelCmd : Velocity)
    (i : Fin 3) : Scalar :=
  slew (cfg.maxVelRamp * dt) (currentVelCmd i) (target i)

/-! ### The velocity ramp -/

/-- Between finite velocities one step of the ramp is no longer than its limit. -/
theorem exists_rampVelocityCommand_eq {cfg : BrainConfig n} {dt : ℚ} (hdt : 0 < dt)
    (hramp : fin 0 ≤ cfg.maxVelRamp) {target current : Velocity} {i : Fin 3} {c : ℚ}
    (hcurrent : current i = fin c) (htarget : (target i).IsFinite) :
    ∃ x, rampVelocityCommand cfg (fin dt) target current i = fin x ∧
      fin |x - c| ≤ cfg.maxVelRamp * fin dt := by
  obtain ⟨t, ht⟩ := htarget.exists_eq
  rw [rampVelocityCommand, hcurrent, ht]
  exact exists_slew_eq_abs_sub_le_of_fin (zero_le_mul hdt hramp) c t

/-- In one state and under one velocity scale, a step of the ramp moves the velocity command handed
to the policy by no more than the limit. -/
theorem abs_scaledVelCmd_sub_le {cfg : BrainConfig n} {dt : ℚ} (hdt : 0 < dt)
    (hramp : fin 0 ≤ cfg.maxVelRamp) {target current : Velocity} {i : Fin 3}
    (hcurrent : (current i).IsFinite) (htarget : (target i).IsFinite) (state : RobotState)
    {type type' : TaskType} (hscale : (frameProfile state type').velocityScale =
      (frameProfile state type).velocityScale) :
    (scaledVelCmd state type' (rampVelocityCommand cfg (fin dt) target current) i -
      scaledVelCmd state type current i).abs ≤ cfg.maxVelRamp * fin dt := by
  have hlimit : fin 0 ≤ cfg.maxVelRamp * fin dt := zero_le_mul hdt hramp
  by_cases hstanding : state = .standing
  · -- the command is a constant
    have hfinite : ∀ i, (![fin (1 / 2), fin 0, fin 0] i : Scalar).IsFinite := by decide
    simp only [scaledVelCmd, hstanding, if_true, (hfinite i).sub_self, abs_fin, abs_zero]
    exact hlimit
  · obtain ⟨c, hc⟩ := hcurrent.exists_eq
    obtain ⟨x, hx, hstep⟩ := exists_rampVelocityCommand_eq hdt hramp hc htarget
    obtain ⟨k, hk, h0, h1⟩ := exists_velocityScale_eq type
    have hk' : (frameProfile state type).velocityScale = fin k := by
      rw [frameProfile, if_neg hstanding, hk]
    simp only [scaledVelCmd, hstanding, if_false, hscale, hk', hx, hc, fin_mul_fin, fin_sub_fin,
      abs_fin]
    -- the scale is at most one, so it does not lengthen the step
    have hshrink : |x * k - c * k| ≤ |x - c| := by
      rw [← sub_mul, abs_mul, abs_of_nonneg h0]
      exact mul_le_of_le_one_right (abs_nonneg _) h1
    exact fin_le_of_le hshrink hstep

/-! ### The position envelope -/

/-- A value that joint `i` may be commanded to: finite and within the position limit around the
default. -/
def BrainConfig.InEnvelope (cfg : BrainConfig n) (i : Fin n) (x : Scalar) : Prop :=
  x.IsFinite ∧ cfg.defaultJointPositions i - cfg.jointPositionLimit ≤ x ∧
    x ≤ cfg.defaultJointPositions i + cfg.jointPositionLimit

section Envelope

variable {cfg : BrainConfig n} {i : Fin n}

/-- With a nonnegative position limit and a finite default, the clamped target is in the envelope
whatever the policy returned. -/
theorem inEnvelope_jointTargets (hlimit : fin 0 ≤ cfg.jointPositionLimit)
    (hdefault : (cfg.defaultJointPositions i).IsFinite) (profile : TaskProfile)
    (actions : Actions n) : cfg.InEnvelope i (jointTargets cfg profile actions i) := by
  obtain ⟨d, hd⟩ := hdefault.exists_eq
  obtain ⟨x, hx⟩ := exists_guarded_eq
    (actions.joint i * cfg.actionScale * profile.actionScale)
  simp only [BrainConfig.InEnvelope, jointTargets, hd, hx, fin_add_fin]
  obtain ⟨y, hy, hlo, hhi⟩ := clamp_mem hlimit (d + x) d
  rw [hy]
  exact ⟨isFinite_fin y, hlo, hhi⟩

/-- The default position is in the envelope. -/
theorem inEnvelope_default (hlimit : fin 0 ≤ cfg.jointPositionLimit)
    (hdefault : (cfg.defaultJointPositions i).IsFinite) :
    cfg.InEnvelope i (cfg.defaultJointPositions i) := by
  obtain ⟨d, hd⟩ := hdefault.exists_eq
  simp only [BrainConfig.InEnvelope, hd]
  rcases le_cases hlimit with ⟨r, hr, h0⟩ | hr
  · simp only [hr, fin_sub_fin, fin_add_fin, fin_le_fin, isFinite_fin, true_and]
    constructor <;> linarith
  · rw [hr]
    exact ⟨isFinite_fin d, rfl, rfl⟩

/-- The rate limit moves a target towards the baseline, so it leaves the envelope only if the
baseline is outside or the limit is negative. -/
theorem inEnvelope_applyRateLimit (hvel : ¬cfg.maxJointVelocity < fin 0)
    {last target : Fin n → Scalar} (hlast : cfg.InEnvelope i (last i))
    (htarget : cfg.InEnvelope i (target i)) :
    cfg.InEnvelope i (applyRateLimit cfg last target i) := by
  obtain ⟨hc, hclo, hchi⟩ := hlast
  obtain ⟨ht, htlo, hthi⟩ := htarget
  obtain ⟨c, hc⟩ := hc.exists_eq
  obtain ⟨t, ht⟩ := ht.exists_eq
  rw [hc] at hclo hchi
  rw [ht] at htlo hthi
  have hdelta : ¬cfg.maxJointVelocity * fin (1 / 50) < fin 0 :=
    not_mul_lt_zero (by norm_num) hvel
  obtain ⟨x, hx, hmem⟩ := exists_slew_eq hdelta c t
  rw [applyRateLimit, hc, ht, hx]
  exact ⟨isFinite_fin x, le_of_mem_uIcc hclo htlo hmem, ge_of_mem_uIcc hchi hthi hmem⟩

end Envelope

end RobotBrain
