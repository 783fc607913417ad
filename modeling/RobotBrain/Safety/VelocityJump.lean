import RobotBrain.Brain.Atomic
import RobotBrain.Library.Trace

/-!
# Jumps of the commanded velocity

The ramp moves `current_vel_cmd_` by at most `max_vel_ramp` times the time step, but the policy
receives a value derived from it: a constant in `STANDING`, and otherwise the ramped velocity times
the scale of the task type. Between frames of one state and one scale the command moves no faster
than the ramp. Where the state or the scale changes between two frames it jumps, although the
comments at the ramp promise a smooth transition between `STANDING` and `EXECUTING`.

## Main definitions

* `VelocityStep` — the bound between consecutive frames.
* `Brain.KeepsScale` — a tick captures no frame of another state or another scale.

## Main results

* `each_velocityStep` — the bound along the runs that keep state and scale between frames.
* `exists_velocityJump` — a run from standing into a task that jumps.
-/

namespace RobotBrain

open ExtNum

variable {n : ℕ} {H : Type*} {cfg : BrainConfig n} {env : Environment n H}

/-- The frame that a tick has captured. -/
def Output.capturedFrame : Output n → Option (Frame n)
  | .captured f => some f
  | _ => none

/-- The velocity command of a frame differs on every axis from that of the frame captured before it
by at most the ramp times the time step. -/
def VelocityStep (cfg : BrainConfig n) (past : List (Output n)) : Output n → Prop
  | .captured f => ∀ g ∈ latest Output.capturedFrame past, ∀ i,
    (f.scaledVelCmd i - g.scaledVelCmd i).abs ≤ cfg.maxVelRamp * fin f.dt
  | _ => True

instance (cfg : BrainConfig n) (past : List (Output n)) :
    (o : Output n) → Decidable (VelocityStep cfg past o)
  | .captured _ => inferInstanceAs (Decidable (∀ g ∈ latest Output.capturedFrame past, _))
  | .published _ _ | .commandWritten _ | .generationIncremented _ | .taskReturned _
  | .heartbeatExpired | .lowered | .hiddenStateReset | .prevActionsReset | .jointTargetsReset
  | .forwarded _ | .applied _ _ _ | .discarded _ => .isTrue trivial

/-- A task with finite velocities. -/
def Event.FiniteVelocity : Event n → Prop
  | .task t _ => ∀ i, (t.velCmd i).IsFinite
  | _ => True

/-- If the step is a tick that finds the gate open and the proprioception complete, then the frame
it captures has the state and the velocity scale of the frame captured before it. -/
def Brain.KeepsScale (cfg : BrainConfig n) (b : Brain n H) (past : List (Output n)) :
    Event n → Prop
  | .tick now prop => b.isInferring = false → prop.valid = true →
    ∀ g ∈ latest Output.capturedFrame past,
      (b.watchdog cfg now).1.metrics.currentState = g.state ∧
        (frameProfile g.state b.currentTaskType).velocityScale = g.profile.velocityScale
  | _ => True

instance : (e : Event n) → Decidable e.FiniteVelocity
  | .task t _ => inferInstanceAs (Decidable (∀ i, (t.velCmd i).IsFinite))
  | .tick _ _ | .infer _ _ => .isTrue trivial

instance (cfg : BrainConfig n) (b : Brain n H) (past : List (Output n)) :
    (e : Event n) → Decidable (b.KeepsScale cfg past e)
  | .tick _ _ => inferInstanceAs (Decidable (_ → _))
  | .task _ _ | .infer _ _ => .isTrue trivial

/-! ### The ramped velocity along a run -/

/-- The velocities are finite, the frame captured last has the velocity command that its state and
task type give for the velocity the ramp has reached, and the bound has held so far. -/
structure RampInv (cfg : BrainConfig n) (b : Brain n H) (tr : List (Output n)) : Prop where
  target : ∀ i, (b.velocityCmd i).IsFinite
  current : ∀ i, (b.currentVelCmd i).IsFinite
  last : ∀ g ∈ latest Output.capturedFrame tr,
    g.scaledVelCmd = scaledVelCmd g.state g.myTaskType b.currentVelCmd ∧
      g.profile = frameProfile g.state g.myTaskType
  bound : Each (VelocityStep cfg) tr

namespace RampInv

variable {b b' : Brain n H} {tr out : List (Output n)}

/-- Outputs that capture no frame, and accesses that do not ramp. -/
theorem append (h : RampInv cfg b tr) (htarget : ∀ i, (b'.velocityCmd i).IsFinite)
    (hcurrent : b'.currentVelCmd = b.currentVelCmd)
    (hnone : ∀ o ∈ out, o.capturedFrame = none) : RampInv cfg b' (tr ++ out) := by
  refine ⟨htarget, hcurrent ▸ h.current, ?_, each_append.mpr ⟨h.bound, ?_⟩⟩
  · rw [latest_append_of_forall_eq_none hnone, hcurrent]
    exact h.last
  · refine each_iff_forall_eq.mpr fun past o rest hout => ?_
    have ho := hnone o (by rw [hout]; exact List.mem_append_cons_self)
    cases o <;> trivial

theorem task {t : Task} {now : ℤ} {r : Brain n H × List (Output n)} (h : RampInv cfg b tr)
    (hvel : ∀ i, (t.velCmd i).IsFinite) (hr : Brain.TaskResult cfg env t now b r) :
    RampInv cfg r.1 (tr ++ r.2) := by
  cases hr <;> exact h.append hvel rfl (by simp [Output.capturedFrame])

private theorem capturedFrame_watchdog {w : Brain n H × List (Output n)}
    (hw : Brain.WatchdogResult b w) : ∀ o ∈ w.2, o.capturedFrame = none := by
  cases hw <;> simp [Output.capturedFrame]

private theorem capturedFrame_reset {prop : Proprioception n} {r : Brain n H × List (Output n)}
    (hr : Brain.ResetResult cfg env prop b r) : ∀ o ∈ r.2, o.capturedFrame = none := by
  cases hr <;> simp [Output.capturedFrame]

theorem watchdog {w : Brain n H × List (Output n)} (h : RampInv cfg b tr)
    (hw : Brain.WatchdogResult b w) : RampInv cfg w.1 (tr ++ w.2) := by
  refine h.append ?_ hw.currentVelCmd (capturedFrame_watchdog hw)
  cases hw with
  | quiet | expired => exact h.target
  | fallback => exact fun i => isFinite_fin 0

theorem reset {prop : Proprioception n} {r : Brain n H × List (Output n)} (h : RampInv cfg b tr)
    (hr : Brain.ResetResult cfg env prop b r) : RampInv cfg r.1 (tr ++ r.2) := by
  refine h.append ?_ hr.currentVelCmd (capturedFrame_reset hr)
  rw [hr.velocityCmd]
  exact h.target

/-- A frame is captured: the ramp takes one step from the velocity of the frame before it. -/
theorem capture (h : RampInv cfg b tr) (hramp : fin 0 ≤ cfg.maxVelRamp) {now : ℤ}
    {state : RobotState} {prop : Proprioception n}
    (hkeeps : ∀ g ∈ latest Output.capturedFrame tr, state = g.state ∧
      (frameProfile g.state b.currentTaskType).velocityScale = g.profile.velocityScale) :
    RampInv cfg ((b.rampVelocity cfg now).enqueue (b.rampedFrame cfg now state prop))
      (tr ++ [.captured (b.rampedFrame cfg now state prop)]) := by
  have hdt := b.timeStep_pos now
  refine ⟨h.target, fun i => ?_, ?_, each_concat.mpr ⟨h.bound, ?_⟩⟩
  · obtain ⟨c, hc⟩ := (h.current i).exists_eq
    obtain ⟨x, hx, -⟩ := exists_rampVelocityCommand_eq hdt hramp hc (h.target i)
    exact isFinite_iff.mpr ⟨x, hx⟩
  · intro g hg
    rw [latest_append] at hg
    obtain rfl : b.rampedFrame cfg now state prop = g := Option.some.inj hg
    exact ⟨rfl, rfl⟩
  · intro g hg i
    obtain ⟨rfl, hscale⟩ := hkeeps g hg
    obtain ⟨hcommand, hprofile⟩ := h.last g hg
    rw [hprofile] at hscale
    rw [hcommand]
    exact abs_scaledVelCmd_sub_le hdt hramp (h.current i) (h.target i) g.state hscale

theorem tick {now : ℤ} {prop : Proprioception n} {w r : Brain n H × List (Output n)}
    (h : RampInv cfg b tr) (hramp : fin 0 ≤ cfg.maxVelRamp)
    (hkeeps : b.KeepsScale cfg tr (.tick now prop)) (heq : b.watchdog cfg now = w)
    (hw : Brain.WatchdogResult b w) (hr : Brain.RunTick cfg env now prop w r) :
    RampInv cfg r.1 (tr ++ r.2) := by
  have hwatch := h.watchdog hw
  have hinferring : RampInv cfg (w.1.setInferring true) (tr ++ w.2) :=
    ⟨hwatch.target, hwatch.current, hwatch.last, hwatch.bound⟩
  have hgate : w.1.isInferring = b.isInferring := hw.isInferring
  cases hr with
  | busy | invalid => exact ⟨hwatch.target, hwatch.current, hwatch.last, hwatch.bound⟩
  | @captured _ hopen hvalid r' hr' =>
    simp only [← List.append_assoc]
    refine (hinferring.reset hr').capture hramp fun g hg => ?_
    rw [latest_append_of_forall_eq_none (capturedFrame_reset hr'),
      latest_append_of_forall_eq_none (capturedFrame_watchdog hw)] at hg
    have htype : r'.1.currentTaskType = b.currentTaskType :=
      hr'.currentTaskType.trans hw.currentTaskType
    have hsame := hkeeps (hgate ▸ hopen) hvalid g hg
    rw [heq] at hsame
    rw [htype]
    exact hsame

theorem step {e : Event n} {r : Brain n H × List (Output n)} (h : RampInv cfg b tr)
    (hramp : fin 0 ≤ cfg.maxVelRamp) (hfinite : e.FiniteVelocity) (hkeeps : b.KeepsScale cfg tr e)
    (hr : Brain.RunStep cfg env b e r) : RampInv cfg r.1 (tr ++ r.2) := by
  cases hr with
  | task hr => exact h.task hfinite hr
  | tick heq hw hr => exact h.tick hramp hkeeps heq hw hr
  | infer _ hr =>
    cases hr <;> exact h.append h.target rfl (by simp [Output.capturedFrame])

end RampInv

/-- In every run with finite task velocities whose ticks capture no frame of another state or
another velocity scale than the frame before it, the velocity command of every frame differs on
every axis from that of the frame before it by at most `max_vel_ramp` times the time step. -/
theorem each_velocityStep {now : ℤ} (hramp : fin 0 ≤ cfg.maxVelRamp) {es : List (Event n)}
    {b : Brain n H} {tr : List (Output n)}
    (h : (atomic cfg env now).Reaches
      (fun b past e => e.FiniteVelocity ∧ b.KeepsScale cfg past e) es b tr) :
    Each (VelocityStep cfg) tr := by
  have hinit : RampInv cfg (Brain.initial cfg env now) [] := by
    refine ⟨fun i => isFinite_fin 0, fun i => isFinite_fin 0, ?_, trivial⟩
    rintro g ⟨⟩
  refine (h.invariant (RampInv cfg) hinit ?_).bound
  rintro es b tr e b' out hreach hI ⟨hfinite, hkeeps⟩ hs
  exact hI.step hramp hfinite hkeeps (Brain.runStep hreach hs)

/-- A task that walks forward and two frames, between which the ramp moves. -/
private def walkFrames : List (Event 12) :=
  .task ⟨.navigate, ![fin 1, fin 0, fin 0]⟩ 10 :: frameEvents 20 (upright shippedConfig) ++
    frameEvents 40 (upright shippedConfig)

theorem each_velocityStep_walk :
    ∃ b tr, (atomic shippedConfig (constantPolicy 12 (fin 0)) 0).Run walkFrames b tr ∧
      (commands tr).length = 2 ∧ b.currentVelCmd 0 = fin (1 / 50) ∧
      Each (VelocityStep shippedConfig) tr := by
  have hrun : ∃ b tr, (atomic shippedConfig (constantPolicy 12 (fin 0)) 0).Reaches
        (fun b past e => e.FiniteVelocity ∧ b.KeepsScale shippedConfig past e) walkFrames b tr ∧
      (commands tr).length = 2 ∧ b.currentVelCmd 0 = fin (1 / 50) :=
    Machine.exists_reaches_of_decide _ (by decide +kernel)
  obtain ⟨b, tr, hrun, hlen, hvel⟩ := hrun
  exact ⟨b, tr, hrun.run, hlen, hvel, each_velocityStep (by decide +kernel) hrun⟩

/-- A task of the type `NAVIGATE` that stops the robot where it stands. -/
def navigateTask : Task := ⟨.navigate, fun _ => fin 0⟩

/-- From a frame in `STANDING` to one of a task the forward velocity falls from `0.5` to zero at
once, where the ramp allows a step of `0.01`. -/
theorem exists_velocityJump :
    ∃ es b tr, (atomic shippedConfig (constantPolicy 12 (fin 0)) 0).Run es b tr ∧
      (∀ e ∈ es, e.FiniteVelocity) ∧ ¬Each (VelocityStep shippedConfig) tr := by
  have hrun : ∃ b tr, (atomic shippedConfig (constantPolicy 12 (fin 0)) 0).Run
      (frameEvents 20 (upright shippedConfig) ++ .task navigateTask 30 ::
        frameEvents 40 (upright shippedConfig)) b tr ∧
      (!decide (Each (VelocityStep shippedConfig) tr)) = true :=
    Machine.exists_reaches _ (by decide +kernel)
  obtain ⟨b, tr, hrun, hjump⟩ := hrun
  exact ⟨_, b, tr, hrun, by decide, by simpa using hjump⟩

end RobotBrain
