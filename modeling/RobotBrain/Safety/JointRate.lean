import RobotBrain.Brain.Atomic
import RobotBrain.Library.Trace

/-!
# The velocity envelope of joint commands

`ApplyRateLimit` bounds the step from its baseline `last_joint_targets_` to the targets that an
inference closure publishes. The baseline follows the joint commands, with one exception: when
`ControlLoopStep` detects a reset of the simulator it takes the default pose, in which the robot
then stands, although nothing is published. Relative to it every inference command is within the
maximal joint velocity, as long as the control period is not below the 20 ms that `ApplyRateLimit`
has written into it.

## Main definitions

* `rateBaseline`, `lastCommand` — the baseline, and the joint command published last.
* `WithinRate` — the bound on one inference command.

## Main results

* `baselineInv_of_run` — the program keeps the baseline and limits every inference command against
  it.
* `each_withinRate_rateBaseline` — every inference command is within the bound.
* `exceedsRate` — configurations, the shipped one among them, with a run that exceeds the bound
  relative to the last command.
-/

namespace RobotBrain

open ExtNum

variable {n : ℕ} {H : Type*} {cfg : BrainConfig n} {env : Environment n H}

/-- The joint command published last, the default pose if there is none. -/
def lastCommand (cfg : BrainConfig n) (tr : List (Output n)) : Fin n → Scalar :=
  (latest (fun
    | .published targets _ => some targets
    | _ => none) tr).getD cfg.defaultJointPositions

/-- The new baseline of the rate limit that an output stands for. -/
def Output.baseline (cfg : BrainConfig n) : Output n → Option (Fin n → Scalar)
  | .published targets _ => some targets
  | .jointTargetsReset => some cfg.defaultJointPositions
  | _ => none

/-- The joint command published last, or the default pose if there is none or a reset of the
simulator has been detected since. -/
def rateBaseline (cfg : BrainConfig n) (tr : List (Output n)) : Fin n → Scalar :=
  (latest (Output.baseline cfg) tr).getD cfg.defaultJointPositions

/-- An inference command differs from the baseline, joint by joint, by at most the distance that the
maximal joint velocity allows in a control period. -/
def WithinRate (cfg : BrainConfig n) (baseline : List (Output n) → Fin n → Scalar)
    (past : List (Output n)) : Output n → Prop
  | .published targets (.inference _) =>
    ∀ i, (targets i - baseline past i).abs ≤ cfg.maxJointVelocity * cfg.controlDt
  | _ => True

instance (cfg : BrainConfig n) (baseline : List (Output n) → Fin n → Scalar)
    (past : List (Output n)) : (o : Output n) → Decidable (WithinRate cfg baseline past o)
  | .published _ (.inference _) => inferInstanceAs (Decidable (∀ _, _))
  | .published _ (.emergencyStop _) | .published _ .inactive | .commandWritten _
  | .generationIncremented _ | .taskReturned _ | .heartbeatExpired | .lowered | .hiddenStateReset
  | .prevActionsReset | .jointTargetsReset | .captured _ | .forwarded _ | .applied _ _ _
  | .discarded _ => .isTrue trivial

/-! ### The rate limit along a run -/

/-- A joint command of an inference closure is made from the policy output for the observation
handed to it just before, and rate-limited against the baseline; every other one is the default
pose. -/
def RateLimited (cfg : BrainConfig n) (env : Environment n H) (past : List (Output n)) :
    Output n → Prop
  | .published targets (.inference f) => ∃ obs h, past.getLast? = some (.forwarded obs) ∧
      targets = applyRateLimit cfg (rateBaseline cfg past)
        (jointTargets cfg f.profile (env.forward obs h).1)
  | .published targets _ => targets = cfg.defaultJointPositions
  | _ => True

/-- The baseline that the program keeps is the one read off the outputs, and every joint command so
far has been limited against it. -/
structure BaselineInv (cfg : BrainConfig n) (env : Environment n H) (b : Brain n H)
    (tr : List (Output n)) : Prop where
  baseline : b.lastJointTargets = rateBaseline cfg tr
  limited : Each (RateLimited cfg env) tr

namespace BaselineInv

variable {b b' : Brain n H} {tr out : List (Output n)}

theorem append (h : BaselineInv cfg env b tr)
    (hbase : b'.lastJointTargets =
      (latest (Output.baseline cfg) out).getD b.lastJointTargets)
    (hlimited : Each (fun past => RateLimited cfg env (tr ++ past)) out) :
    BaselineInv cfg env b' (tr ++ out) := by
  refine ⟨?_, each_append.mpr ⟨h.limited, hlimited⟩⟩
  rw [hbase, h.baseline, rateBaseline, rateBaseline, getD_latest_append]

theorem task {t : Task} {now : ℤ} {r : Brain n H × List (Output n)} (h : BaselineInv cfg env b tr)
    (hr : Brain.TaskResult cfg env t now b r) : BaselineInv cfg env r.1 (tr ++ r.2) := by
  cases hr <;> exact h.append rfl (by simp [RateLimited])

theorem watchdog {w : Brain n H × List (Output n)} (h : BaselineInv cfg env b tr)
    (hw : Brain.WatchdogResult b w) : BaselineInv cfg env w.1 (tr ++ w.2) := by
  cases hw with
  | quiet => exact h.append rfl (by simp)
  | expired | fallback => exact h.append rfl (by simp [RateLimited])

theorem reset {prop : Proprioception n} {r : Brain n H × List (Output n)}
    (h : BaselineInv cfg env b tr) (hr : Brain.ResetResult cfg env prop b r) :
    BaselineInv cfg env r.1 (tr ++ r.2) := by
  cases hr with
  | reset => exact h.append rfl (by simp [RateLimited])
  | noReset => exact h.append rfl (by simp)

theorem tick {now : ℤ} {prop : Proprioception n} {w r : Brain n H × List (Output n)}
    (h : BaselineInv cfg env w.1 (tr ++ w.2)) (hr : Brain.RunTick cfg env now prop w r) :
    BaselineInv cfg env r.1 (tr ++ r.2) := by
  have hinferring : BaselineInv cfg env (w.1.setInferring true) (tr ++ w.2) :=
    ⟨h.baseline, h.limited⟩
  cases hr with
  | busy | invalid => exact ⟨h.baseline, h.limited⟩
  | captured _ _ _ hr =>
    simp only [← List.append_assoc]
    exact (hinferring.reset hr).append rfl (by simp [RateLimited])

theorem infer {f : Frame n} {outcome : Outcome} {now : ℤ} {r : Brain n H × List (Output n)}
    (h : BaselineInv cfg env b tr) (hr : Brain.InferResult cfg env f now b outcome r) :
    BaselineInv cfg env r.1 (tr ++ r.2) := by
  cases hr with
  | applied =>
    refine h.append rfl ⟨trivial, ⟨b.nextObservation cfg env f, b.hiddenState,
      List.getLast?_concat, ?_⟩, trivial, trivial⟩
    have hpast : rateBaseline cfg (tr ++ [.forwarded (b.nextObservation cfg env f)]) =
        b.lastJointTargets := by
      rw [h.baseline, rateBaseline, getD_latest_concat]
      rfl
    rw [hpast]
    rfl
  | forwardThrew | failed | superseded => exact h.append rfl (by simp [RateLimited])

theorem step {e : Event n} {r : Brain n H × List (Output n)} (h : BaselineInv cfg env b tr)
    (hr : Brain.RunStep cfg env b e r) : BaselineInv cfg env r.1 (tr ++ r.2) := by
  cases hr with
  | task hr => exact h.task hr
  | tick _ hw hr => exact (h.watchdog hw).tick hr
  | infer _ hr =>
    have hdequeue : BaselineInv cfg env (b.dequeue []) tr := ⟨h.baseline, h.limited⟩
    exact hdequeue.infer hr

end BaselineInv

/-- In every run every joint command is rate-limited against the baseline or is the default pose. -/
theorem baselineInv_of_run {now : ℤ} {es : List (Event n)} {b : Brain n H} {tr : List (Output n)}
    (h : (atomic cfg env now).Run es b tr) : BaselineInv cfg env b tr := by
  refine h.invariant (BaselineInv cfg env) ⟨rfl, trivial⟩ ?_
  intro es b tr e b' out hreach hI _ hs
  exact hI.step (Brain.runStep hreach hs)

/-! ### The bound -/

/-- A rate-limited target is finite and no further from a finite baseline than the velocity allows
in a control period of at least 20 ms. -/
theorem applyRateLimit_isFinite_and_abs_sub_le {last target : Fin n → Scalar} {i : Fin n}
    (hperiod : 20 ≤ cfg.controlRateMs) (hvel : fin 0 ≤ cfg.maxJointVelocity)
    (hfinite : cfg.maxJointVelocity.IsFinite) (hlast : (last i).IsFinite)
    (htarget : target i ≠ nan) :
    (applyRateLimit cfg last target i).IsFinite ∧
      (applyRateLimit cfg last target i - last i).abs ≤ cfg.maxJointVelocity * cfg.controlDt := by
  obtain ⟨v, hv⟩ := hfinite.exists_eq
  obtain ⟨c, hc⟩ := hlast.exists_eq
  rw [hv, fin_le_fin] at hvel
  have hdelta : 0 ≤ v * (1 / 50) := by positivity
  obtain ⟨x, hx, hdist⟩ := exists_slew_eq_abs_sub_le hdelta c htarget
  have hlimited : applyRateLimit cfg last target i = fin x := by
    rw [applyRateLimit, hv, hc, fin_mul_fin, hx]
  have hms : (20 : ℚ) ≤ cfg.controlRateMs := by exact_mod_cast hperiod
  have hle : (1 / 50 : ℚ) ≤ cfg.controlRateMs / 1000 := by linarith
  rw [hlimited, hc, hv, BrainConfig.controlDt, fin_sub_fin, abs_fin, fin_mul_fin, fin_le_fin]
  exact ⟨isFinite_fin x, hdist.trans (mul_le_mul_of_nonneg_left hle hvel)⟩

/-- Rate-limited commands keep the baseline finite and stay within the bound of it. -/
private theorem withinRate_of_rateLimited (hperiod : 20 ≤ cfg.controlRateMs)
    (hvel : fin 0 ≤ cfg.maxJointVelocity) (hfinite : cfg.maxJointVelocity.IsFinite)
    (hdefault : ∀ i, (cfg.defaultJointPositions i).IsFinite) {tr : List (Output n)}
    (h : Each (RateLimited cfg env) tr) :
    (∀ i, (rateBaseline cfg tr i).IsFinite) ∧ Each (WithinRate cfg (rateBaseline cfg)) tr := by
  induction tr using List.reverseRecOn with
  | nil => exact ⟨hdefault, trivial⟩
  | append_singleton tr o ih =>
    obtain ⟨hpast, hlimited⟩ := each_concat.mp h
    obtain ⟨hbase, hrate⟩ := ih hpast
    have hnext : rateBaseline cfg (tr ++ [o]) = (o.baseline cfg).getD (rateBaseline cfg tr) :=
      getD_latest_concat _ tr o _
    suffices ho : (∀ i, (rateBaseline cfg (tr ++ [o]) i).IsFinite) ∧
        WithinRate cfg (rateBaseline cfg) tr o from ⟨ho.1, each_concat.mpr ⟨hrate, ho.2⟩⟩
    rw [hnext]
    cases o with
    | published targets source =>
      cases source with
      | inference f =>
        obtain ⟨obs, hidden, -, rfl⟩ := hlimited
        have hlimit (i : Fin n) := applyRateLimit_isFinite_and_abs_sub_le hperiod hvel hfinite
          (hbase i) (jointTargets_ne_nan (hdefault i) f.profile (env.forward obs hidden).1)
        exact ⟨fun i => (hlimit i).1, fun i => (hlimit i).2⟩
      | emergencyStop | inactive =>
        obtain rfl := hlimited
        exact ⟨hdefault, trivial⟩
    | jointTargetsReset => exact ⟨hdefault, trivial⟩
    | _ => exact ⟨hbase, trivial⟩

/-- For a control period of at least 20 ms, a finite default pose and a finite maximal joint
velocity that is not negative, every joint command that an inference closure publishes differs in
each joint from the command before it, or from the default pose if there is none or a reset of the
simulator has been detected since, by at most the maximal joint velocity times the period. -/
theorem each_withinRate_rateBaseline {now : ℤ} (hperiod : 20 ≤ cfg.controlRateMs)
    (hvel : fin 0 ≤ cfg.maxJointVelocity) (hfinite : cfg.maxJointVelocity.IsFinite)
    (hdefault : ∀ i, (cfg.defaultJointPositions i).IsFinite) {es : List (Event n)}
    {b : Brain n H} {tr : List (Output n)} (h : (atomic cfg env now).Run es b tr) :
    Each (WithinRate cfg (rateBaseline cfg)) tr :=
  (withinRate_of_rateLimited hperiod hvel hfinite hdefault (baselineInv_of_run h).limited).2

/-- Two upright frames, a frame of the fallen robot, and one after it has been put back. -/
def standAgain (cfg : BrainConfig n) : List (Event n) :=
  frameEvents 20 (upright cfg) ++ frameEvents 40 (upright cfg) ++ frameEvents 60 (fallen cfg) ++
    frameEvents 80 (upright cfg)

/-- The shipped robot keeps the bound in a run with a detected reset of the simulator. -/
theorem each_withinRate_standAgain :
    ∃ b tr, (atomic shippedConfig (constantPolicy 12 (fin 100)) 0).Run
        (standAgain shippedConfig) b tr ∧
      (commands tr).length = 4 ∧
      Each (WithinRate shippedConfig (rateBaseline shippedConfig)) tr := by
  have hrun : ∃ b tr, (atomic shippedConfig (constantPolicy 12 (fin 100)) 0).Run
      (standAgain shippedConfig) b tr ∧ (commands tr).length = 4 :=
    Machine.exists_reaches_of_decide (standAgain shippedConfig) (by decide +kernel)
  obtain ⟨b, tr, hrun, hlen⟩ := hrun
  exact ⟨b, tr, hrun, hlen, each_withinRate_rateBaseline (by decide)
    (by decide +kernel) (isFinite_fin _) (fun i => isFinite_fin _) hrun⟩

/-- A configuration with a run in which an inference command is further from the last command than
the maximal joint velocity allows. -/
def ExceedsRate (cfg : BrainConfig n) : Prop :=
  0 < cfg.controlRateMs ∧ fin 0 ≤ cfg.maxJointVelocity ∧
    ∃ env : Environment n ℕ, ∃ es b tr, (atomic cfg env 0).Run es b tr ∧
      ¬Each (WithinRate cfg (lastCommand cfg)) tr

private theorem exceedsRate_of_exec {cfg : BrainConfig n} (hrate : 0 < cfg.controlRateMs)
    (hvel : fin 0 ≤ cfg.maxJointVelocity) (env : Environment n ℕ) (es : List (Event n))
    (h : ((atomic cfg env 0).exec (fun _ _ _ => True) (Brain.initial cfg env 0) [] es).any
      (fun x => !decide (Each (WithinRate cfg (lastCommand cfg)) x.2)) = true) :
    ExceedsRate cfg := by
  obtain ⟨b, tr, hrun, hp⟩ : ∃ b tr, (atomic cfg env 0).Run es b tr ∧
      (!decide (Each (WithinRate cfg (lastCommand cfg)) tr)) = true :=
    Machine.exists_reaches es h
  exact ⟨hrate, hvel, env, es, b, tr, hrun, by simpa using hp⟩

/-- The shipped configuration with another control rate. -/
def shippedAtRate (controlRateMs : ℤ) : BrainConfig 12 :=
  { shippedConfig with controlRateMs := controlRateMs }

/-- The shipped configuration with a default pose of NaNs. -/
def nanPoseConfig : BrainConfig 12 :=
  { shippedConfig with defaultJointPositions := fun _ => nan }

/-- The shipped configuration with an unlimited velocity and a position limit of `-∞`. -/
def unlimitedConfig : BrainConfig 12 :=
  { shippedConfig with maxJointVelocity := inf false, jointPositionLimit := inf true }

/-- The step from the last command exceeds the bound when the control period is 10 ms, when a reset
of the simulator has been detected, and when the configuration is not finite. -/
theorem exceedsRate :
    ExceedsRate (shippedAtRate 10) ∧ ExceedsRate shippedConfig ∧ ExceedsRate nanPoseConfig ∧
      ExceedsRate unlimitedConfig := by
  refine ⟨?_, ?_, ?_, ?_⟩
  · exact exceedsRate_of_exec (by decide) (by decide +kernel) (constantPolicy 12 (fin 100))
      (frameEvents 10 (upright shippedConfig)) (by decide +kernel)
  · exact exceedsRate_of_exec (by decide) (by decide +kernel) (constantPolicy 12 (fin 100))
      (standAgain shippedConfig) (by decide +kernel)
  · exact exceedsRate_of_exec (by decide) (by decide +kernel) (constantPolicy 12 (fin 100))
      (frameEvents 20 (upright shippedConfig)) (by decide +kernel)
  · exact exceedsRate_of_exec (by decide) (by decide +kernel) (constantPolicy 12 (fin 100))
      (frameEvents 20 (upright shippedConfig) ++ frameEvents 40 (upright shippedConfig))
      (by decide +kernel)

end RobotBrain
