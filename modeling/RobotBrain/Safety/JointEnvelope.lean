import RobotBrain.Brain.Threads

/-!
# The position envelope of joint commands

Every joint command that the brain publishes is finite and within the position limit of the default
pose, in every interleaving of its three threads and whatever the policy returns. The rate limit is
applied after the position clamp, so this needs an invariant on its baseline `last_joint_targets_`:
initialisation, an emergency stop and a detected simulator reset set it to the default pose, and an
applied frame to targets that are in the envelope.

A negative `max_joint_velocity` breaks the envelope, since `std::copysign` discards its sign while
the comparison before it does not.

## Main results

* `published_inEnvelope` — the envelope, for a maximal joint velocity that is not negative.
* `exists_published_not_inEnvelope` — a configuration with a negative one that leaves it.
-/

namespace RobotBrain

open ExtNum

variable {n : ℕ} {H : Type*} {cfg : BrainConfig n} {env : Environment n H}

/-- A joint command in the envelope. -/
def BrainConfig.PoseInEnvelope (cfg : BrainConfig n) (targets : Fin n → Scalar) : Prop :=
  ∀ i, cfg.InEnvelope i (targets i)

/-- The joint targets that a running closure holds. -/
def WorkerPc.targets : WorkerPc n → Option (Fin n → Scalar)
  | .checkGeneration _ _ targets | .applyRateLimit _ _ targets | .publish _ _ targets
  | .feedDog _ _ targets | .writeBackActions _ _ targets | .writeBackTargets _ _ targets =>
    some targets
  | _ => none

namespace Threads

/-! ### The accesses that matter -/

/-- The RPC thread sets the baseline and publishes only to the default pose. -/
private theorem RpcResult.default {now : ℤ} {b b' : Brain n H} {pc pc' : RpcPc}
    {out : List (Output n)} (h : RpcResult cfg env now b pc b' pc' out) :
    (b'.lastJointTargets = b.lastJointTargets ∨
        b'.lastJointTargets = cfg.defaultJointPositions) ∧
      ∀ targets source, .published targets source ∈ out → targets = cfg.defaultJointPositions := by
  cases h <;> refine ⟨?_, by simp⟩
  case resetJointTargets => exact Or.inr rfl
  all_goals exact Or.inl rfl

/-- So does the control thread. -/
private theorem ControlResult.default {prop : Proprioception n} {b b' : Brain n H}
    {pc pc' : ControlPc n} {out : List (Output n)}
    (h : ControlResult cfg env prop b pc b' pc' out) :
    (b'.lastJointTargets = b.lastJointTargets ∨
        b'.lastJointTargets = cfg.defaultJointPositions) ∧
      ∀ targets source, .published targets source ∈ out → targets = cfg.defaultJointPositions := by
  cases h <;> refine ⟨?_, by simp⟩
  case resetJointTargets => exact Or.inr rfl
  all_goals exact Or.inl rfl

/-- The worker holds clamped targets, and rate-limits them against the baseline before it publishes
them and stores them as the next one. -/
private theorem WorkerResult.inEnvelope {now : ℤ} {b b' : Brain n H} {pc pc' : WorkerPc n}
    {out : List (Output n)} (hlimit : fin 0 ≤ cfg.jointPositionLimit)
    (hdefault : ∀ i, (cfg.defaultJointPositions i).IsFinite)
    (hvel : ¬cfg.maxJointVelocity < fin 0) (h : WorkerResult cfg env now b pc b' pc' out)
    (hbase : cfg.PoseInEnvelope b.lastJointTargets)
    (hheld : ∀ targets, pc.targets = some targets → cfg.PoseInEnvelope targets) :
    cfg.PoseInEnvelope b'.lastJointTargets ∧
      (∀ targets, pc'.targets = some targets → cfg.PoseInEnvelope targets) ∧
      ∀ targets source, .published targets source ∈ out → cfg.PoseInEnvelope targets := by
  cases h
  case computeTargets r actions =>
    refine ⟨hbase, ?_, by simp⟩
    rintro _ ⟨⟩ i
    exact inEnvelope_jointTargets hlimit (hdefault i) r.frame.profile actions
  case applyRateLimit r actions targets =>
    refine ⟨hbase, ?_, by simp⟩
    rintro _ ⟨⟩ i
    exact inEnvelope_applyRateLimit hvel (hbase i) (hheld targets rfl i)
  case publish r actions targets =>
    refine ⟨hbase, hheld, fun _ _ hmem => ?_⟩
    obtain ⟨rfl, -⟩ : _ = targets ∧ _ := by simpa using hmem
    exact hheld _ rfl
  case writeBackTargets r actions targets =>
    exact ⟨hheld targets rfl, by rintro _ ⟨⟩, by simp⟩
  case forward | forwardThrew =>
    refine ⟨?_, by rintro _ ⟨⟩, by simp⟩
    rw [Brain.acquireBuffer_brain]
    exact hbase
  case releaseBuffer =>
    refine ⟨?_, by rintro _ ⟨⟩, by simp⟩
    rw [Brain.releaseBuffer_eq]
    exact hbase
  case checkPassed | feedDog | writeBackActions => exact ⟨hbase, hheld, by simp⟩
  all_goals exact ⟨hbase, by rintro _ ⟨⟩, by simp⟩

/-! ### The envelope along a run -/

/-- The baseline of the rate limit and the targets that the worker holds are in the envelope, and so
is every joint command published so far. -/
structure EnvelopeInv (cfg : BrainConfig n) (s : Threads n H) (tr : List (Output n)) : Prop where
  baseline : cfg.PoseInEnvelope s.brain.lastJointTargets
  held : ∀ targets, s.worker.targets = some targets → cfg.PoseInEnvelope targets
  published : ∀ targets source, .published targets source ∈ tr → cfg.PoseInEnvelope targets

/-- A step that leaves the worker alone keeps the envelope if it moves the baseline and publishes
only to the default pose. -/
private theorem EnvelopeInv.of_default {s : Threads n H} {tr out : List (Output n)}
    {b : Brain n H} {rpc : RpcPc} {control : ControlPc n} (hI : EnvelopeInv cfg s tr)
    (hdefault : cfg.PoseInEnvelope cfg.defaultJointPositions)
    (hbase : b.lastJointTargets = s.brain.lastJointTargets ∨
      b.lastJointTargets = cfg.defaultJointPositions)
    (hout : ∀ targets source, .published targets source ∈ out →
      targets = cfg.defaultJointPositions) :
    EnvelopeInv cfg ⟨b, rpc, control, s.worker⟩ (tr ++ out) := by
  refine ⟨?_, hI.held, fun targets source hmem => ?_⟩
  · rcases hbase with hbase | hbase
    · exact hbase ▸ hI.baseline
    · exact hbase ▸ hdefault
  · rcases List.mem_append.mp hmem with hmem | hmem
    · exact hI.published targets source hmem
    · exact hout targets source hmem ▸ hdefault

/-- Every access of every thread keeps the envelope. -/
private theorem EnvelopeInv.step {s s' : Threads n H} {tr out : List (Output n)} {e : ThreadEvent n}
    (hlimit : fin 0 ≤ cfg.jointPositionLimit)
    (hdefault : ∀ i, (cfg.defaultJointPositions i).IsFinite)
    (hvel : ¬cfg.maxJointVelocity < fin 0) (hI : EnvelopeInv cfg s tr)
    (h : StepResult cfg env s e (s', out)) : EnvelopeInv cfg s' (tr ++ out) := by
  have hpose : cfg.PoseInEnvelope cfg.defaultJointPositions :=
    fun i => inEnvelope_default hlimit (hdefault i)
  cases h with
  | call => exact hI.of_default hpose (Or.inl rfl) (by simp)
  | rpc h => exact hI.of_default hpose h.default.1 h.default.2
  | tick => exact hI.of_default hpose (Or.inl rfl) (by simp)
  | control h => exact hI.of_default hpose h.default.1 h.default.2
  | dequeue => exact ⟨hI.baseline, by rintro _ ⟨⟩, by simpa using hI.published⟩
  | worker h =>
    obtain ⟨hbase, hheld, hout⟩ := h.inEnvelope hlimit hdefault hvel hI.baseline hI.held
    refine ⟨hbase, hheld, fun targets source hmem => ?_⟩
    rcases List.mem_append.mp hmem with hmem | hmem
    · exact hI.published targets source hmem
    · exact hout targets source hmem

end Threads

/-- With a nonnegative position limit, a finite default pose and a maximal joint velocity that is
not negative, every joint command published in any interleaving is finite and within the position
limit of the default pose, whatever the policy returns. -/
theorem published_inEnvelope {now : ℤ} (hlimit : fin 0 ≤ cfg.jointPositionLimit)
    (hdefault : ∀ i, (cfg.defaultJointPositions i).IsFinite)
    (hvel : ¬cfg.maxJointVelocity < fin 0) {es : List (ThreadEvent n)} {s : Threads n H}
    {tr : List (Output n)} (h : (threads cfg env now).Run es s tr) :
    ∀ targets source, .published targets source ∈ tr → ∀ i,
      (targets i).IsFinite ∧
        cfg.defaultJointPositions i - cfg.jointPositionLimit ≤ targets i ∧
        targets i ≤ cfg.defaultJointPositions i + cfg.jointPositionLimit := by
  have hinit : Threads.EnvelopeInv cfg (Threads.rest (Brain.initial cfg env now)) [] := by
    refine ⟨fun i => inEnvelope_default hlimit (hdefault i), by rintro _ ⟨⟩, by simp⟩
  have hI := h.invariant (Threads.EnvelopeInv cfg) hinit
    fun _ hI _ hs => hI.step hlimit hdefault hvel (Threads.stepResult hs)
  exact hI.published

/-- A frame captured from the upright pose and run up to its publication. -/
private def publishedFrame : List (ThreadEvent 12) :=
  .tick 20 :: List.replicate 7 (.control (upright shippedConfig)) ++
    .dequeue :: List.replicate 5 (.worker false 30)

/-- The shipped robot publishes a command in the envelope for a policy that returns NaN. -/
theorem published_inEnvelope_shipped :
    ∃ s tr, (threads shippedConfig (constantPolicy 12 nan) 0).Run publishedFrame s tr ∧
      (commands tr).any (fun c => c.2.isInference) = true ∧
      ∀ targets source, .published targets source ∈ tr → ∀ i,
        (targets i).IsFinite ∧
          shippedConfig.defaultJointPositions i - shippedConfig.jointPositionLimit ≤ targets i ∧
          targets i ≤
            shippedConfig.defaultJointPositions i + shippedConfig.jointPositionLimit := by
  have hrun : ∃ s tr, (threads shippedConfig (constantPolicy 12 nan) 0).Run publishedFrame s tr ∧
      (commands tr).any (fun c => c.2.isInference) = true :=
    Machine.exists_reaches publishedFrame (by decide +kernel)
  obtain ⟨s, tr, hrun, hany⟩ := hrun
  exact ⟨s, tr, hrun, hany,
    published_inEnvelope (by decide +kernel) (fun i => isFinite_fin _) (by decide +kernel) hrun⟩

/-- A configuration with a maximal joint velocity of `-5` and a position limit of `1/20`. -/
def negativeVelocityConfig : BrainConfig 12 :=
  { shippedConfig with maxJointVelocity := fin (-5), jointPositionLimit := fin (1 / 20) }

/-- With it the first inference command moves every joint by a tenth: a target equal to the baseline
is moved off it by the absolute value of the limit. -/
theorem exists_published_not_inEnvelope :
    fin 0 ≤ negativeVelocityConfig.jointPositionLimit ∧
      (∀ i, (negativeVelocityConfig.defaultJointPositions i).IsFinite) ∧
      ∃ es s tr targets source,
        (threads negativeVelocityConfig (constantPolicy 12 (fin 0)) 0).Run es s tr ∧
          .published targets source ∈ tr ∧
          ¬targets 0 ≤ negativeVelocityConfig.defaultJointPositions 0 +
            negativeVelocityConfig.jointPositionLimit := by
  refine ⟨by decide +kernel, fun i => isFinite_fin _, ?_⟩
  have hrun : ∃ s tr, (threads negativeVelocityConfig (constantPolicy 12 (fin 0)) 0).Run
      publishedFrame s tr ∧ (commands tr).any (fun c => !decide (c.1 0 ≤
        negativeVelocityConfig.defaultJointPositions 0 +
          negativeVelocityConfig.jointPositionLimit)) = true :=
    Machine.exists_reaches publishedFrame (by decide +kernel)
  obtain ⟨s, tr, hrun, hany⟩ := hrun
  obtain ⟨targets, source, hmem, hgt⟩ := exists_published_of_any hany
  exact ⟨_, s, tr, targets, source, hrun, hmem, by simpa using hgt⟩

end RobotBrain
