import RobotBrain.Safety.Heartbeat
import RobotBrain.Sim.FallReset

/-!
# The closed loop

Two properties of the brain and the simulator together, for every delay and loss of the messages
between them. The simulator never tracks a target outside the envelope of the brain. And it is never
held in the standing pose for good: after a fall the simulator waits for a command, and the brain
publishes none before it has heard of both sensors, but the simulator publishes these all the time.

## Main results

* `targets_inEnvelope` — the targets of the simulator are in the envelope.
* `controlCycle_enables` — from every state that can be reached, the simulator is released by the
  inference that may be running and one control cycle.
-/

namespace RobotBrain

open ExtNum

variable {n : ℕ} {H D : Type*}

/-! ### Calls of the brain -/

namespace Brain

variable {cfg : BrainConfig n} {env : Environment n H} {b : Brain n H}

/-- Reset detection moves the baseline of the rate limit to the default pose or not at all. -/
theorem ResetResult.inEnvelope {prop : Proprioception n} {r : Brain n H × List (Output n)}
    (h : ResetResult cfg env prop b r)
    (hpose : ∀ i, cfg.InEnvelope i (cfg.defaultJointPositions i))
    (hbase : ∀ i, cfg.InEnvelope i (b.lastJointTargets i)) :
    (∀ i, cfg.InEnvelope i (r.1.lastJointTargets i)) ∧ commands r.2 = [] := by
  cases h with
  | reset => exact ⟨hpose, rfl⟩
  | noReset => exact ⟨hbase, rfl⟩

/-- A tick publishes the default pose or nothing. -/
theorem TickResult.inEnvelope {now : ℤ} {prop : Proprioception n}
    {w r : Brain n H × List (Output n)} (h : TickResult cfg env now prop w r)
    (hpose : ∀ i, cfg.InEnvelope i (cfg.defaultJointPositions i))
    (hbase : ∀ i, cfg.InEnvelope i (w.1.lastJointTargets i)) (hnone : commands w.2 = []) :
    (∀ i, cfg.InEnvelope i (r.1.lastJointTargets i)) ∧
      ∀ c ∈ commands r.2, ∀ i, cfg.InEnvelope i (c.1 i) := by
  cases h with
  | busy | invalid => exact ⟨hbase, fun c hc => absurd (hnone ▸ hc) List.not_mem_nil⟩
  | captured _ _ _ hr | full _ hr =>
    obtain ⟨hbase', hnone'⟩ := hr.inEnvelope hpose hbase
    refine ⟨hbase', fun c hc => ?_⟩
    simp only [commands_append, hnone, hnone', List.nil_append] at hc
    exact absurd hc List.not_mem_nil
  | inactive =>
    refine ⟨hbase, fun c hc => ?_⟩
    rw [commands_append, hnone, List.nil_append] at hc
    rw [List.mem_singleton.mp hc]
    exact hpose

/-- A call moves the baseline of the rate limit and publishes within the envelope. -/
theorem StepResult.inEnvelope (hlimit : fin 0 ≤ cfg.jointPositionLimit)
    (hdefault : ∀ i, (cfg.defaultJointPositions i).IsFinite)
    (hvel : ¬cfg.maxJointVelocity < fin 0) {e : Event n} {r : Brain n H × List (Output n)}
    (h : StepResult cfg env b e r) (hbase : ∀ i, cfg.InEnvelope i (b.lastJointTargets i)) :
    (∀ i, cfg.InEnvelope i (r.1.lastJointTargets i)) ∧
      ∀ c ∈ commands r.2, ∀ i, cfg.InEnvelope i (c.1 i) := by
  have hpose : ∀ i, cfg.InEnvelope i (cfg.defaultJointPositions i) :=
    fun i => inEnvelope_default hlimit (hdefault i)
  cases h with
  | task h =>
    cases h with
    | stop =>
      refine ⟨hpose, fun c hc => ?_⟩
      rw [List.mem_singleton.mp hc]
      exact hpose
    | motion => exact ⟨hbase, fun c hc => absurd hc List.not_mem_nil⟩
  | @tick _ _ w _ _ hw h =>
    have hquiet : (∀ i, cfg.InEnvelope i (w.1.lastJointTargets i)) ∧ commands w.2 = [] := by
      cases hw <;> exact ⟨hbase, rfl⟩
    exact h.inEnvelope hpose hquiet.1 hquiet.2
  | @infer _ _ f q _ hq h =>
    cases h with
    | applied =>
      have htargets : ∀ i, cfg.InEnvelope i ((b.dequeue q).nextTargets cfg env f i) := fun i =>
        inEnvelope_applyRateLimit hvel (hbase i)
          (inEnvelope_jointTargets hlimit (hdefault i) f.profile _)
      refine ⟨htargets, fun c hc => ?_⟩
      rw [List.mem_singleton.mp hc]
      exact htargets
    | forwardThrew | failed | superseded => exact ⟨hbase, fun c hc => absurd hc List.not_mem_nil⟩

end Brain

/-! ### The targets of the simulator -/

namespace Loop

variable {cfg : BrainConfig numStandardJoints} {env : Environment numStandardJoints H}
  {mj : Mujoco D} {simCfg : SimConfig} {now : ℤ} {d : D} {es : List LoopEvent}
  {s : Loop numStandardJoints H D} {tr : List (LoopOutput numStandardJoints)}

/-- The baseline of the rate limit, the commands in flight and the targets are in the envelope. -/
structure TargetsInv (cfg : BrainConfig numStandardJoints) (s : Loop numStandardJoints H D) :
    Prop where
  baseline : ∀ i, cfg.InEnvelope i (s.brain.lastJointTargets i)
  inFlight : ∀ c ∈ s.commands, ∀ i, cfg.InEnvelope i (c.targets i)
  tracked : ∀ i, cfg.InEnvelope i (s.sim.targetPositions i)

/-- A step of the simulator keeps the targets or goes back to the standing pose. -/
theorem targetPositions_advance (mj : Mujoco D) (simCfg : SimConfig) (s : SimNode D) :
    (s.advance mj simCfg).targetPositions = s.targetPositions ∨
      (s.advance mj simCfg).targetPositions = standingPose := by
  unfold SimNode.advance
  split_ifs
  · dsimp only
    split_ifs
    · exact .inr rfl
    · exact .inl rfl
  · exact .inl rfl

/-- A command with a target for every joint replaces the targets and enables the physics. -/
theorem cmdCallback_data (c : JointCommand numStandardJoints) (s : SimNode D) :
    s.cmdCallback c.data = { s with targetPositions := c.targets, physicsEnabled := true } := by
  have htargets : (fun i : Fin numStandardJoints => c.data.getD i (fin 0)) = c.targets := by
    funext i
    have hi : (i : ℕ) < c.data.length := i.isLt.trans_eq c.length_data.symm
    rw [List.getD_eq_getElem _ _ hi]
    exact List.getElem_ofFn ..
  rw [SimNode.cmdCallback, if_pos c.length_data, htargets]

theorem TargetsInv.step (hlimit : fin 0 ≤ cfg.jointPositionLimit)
    (hdefault : cfg.defaultJointPositions = standingPose) (hvel : ¬cfg.maxJointVelocity < fin 0)
    (hI : TargetsInv cfg s) {e : LoopEvent}
    {r : Loop numStandardJoints H D × List (LoopOutput numStandardJoints)}
    (hs : s.step cfg env mj simCfg e = some r) : TargetsInv cfg r.1 := by
  have hfinite : ∀ i, (cfg.defaultJointPositions i).IsFinite := fun i => by
    rw [hdefault]
    exact isFinite_fin _
  have hbrain : ∀ {call}, s.brainStep cfg env call = some r → TargetsInv cfg r.1 := by
    rintro call hr
    obtain ⟨b, hb, rfl⟩ := Option.map_eq_some_iff.mp hr
    obtain ⟨hbase, hout⟩ := (Brain.stepResult hb).inEnvelope hlimit hfinite hvel hI.baseline
    refine ⟨hbase, fun c hc => ?_, hI.tracked⟩
    rcases List.mem_append.mp hc with hc | hc
    · exact hI.inFlight c hc
    · obtain ⟨c', hc', rfl⟩ := List.mem_map.mp hc
      exact hout c' hc'
  cases e with
  | task t now => exact hbrain hs
  | tick now => exact hbrain hs
  | infer outcome now => exact hbrain hs
  | jointState lost =>
    simp only [Loop.step] at hs
    split at hs <;> cases hs
    exact ⟨hI.baseline, hI.inFlight, hI.tracked⟩
  | imu lost =>
    simp only [Loop.step] at hs
    split at hs <;> cases hs
    exact ⟨hI.baseline, hI.inFlight, hI.tracked⟩
  | command =>
    simp only [Loop.step] at hs
    split at hs
    · cases hs
    · rename_i c rest hcommands
      cases hs
      have hflight := hI.inFlight
      rw [hcommands, List.forall_mem_cons] at hflight
      refine ⟨hI.baseline, hflight.2, ?_⟩
      rw [cmdCallback_data]
      exact hflight.1
  | simStep =>
    cases hs
    refine ⟨hI.baseline, hI.inFlight, ?_⟩
    rcases targetPositions_advance mj simCfg s.sim with h | h
    · exact h ▸ hI.tracked
    · exact h ▸ hdefault ▸ fun i => inEnvelope_default hlimit (hfinite i)

end Loop

/-- Whatever the policy returns and however the messages are delayed or lost, every target that the
simulator tracks is finite and within the position limit of the standing pose. -/
theorem targets_inEnvelope {cfg : BrainConfig numStandardJoints}
    {env : Environment numStandardJoints H} {mj : Mujoco D} {simCfg : SimConfig} {now : ℤ} {d : D}
    (hlimit : fin 0 ≤ cfg.jointPositionLimit) (hdefault : cfg.defaultJointPositions = standingPose)
    (hvel : ¬cfg.maxJointVelocity < fin 0) {es : List LoopEvent}
    {s : Loop numStandardJoints H D} {tr : List (LoopOutput numStandardJoints)}
    (h : (loop cfg env mj simCfg now d).Run es s tr) (i : Fin numStandardJoints) :
    (s.sim.targetPositions i).IsFinite ∧
      standingPose i - cfg.jointPositionLimit ≤ s.sim.targetPositions i ∧
      s.sim.targetPositions i ≤ standingPose i + cfg.jointPositionLimit := by
  have hpose : ∀ i, cfg.InEnvelope i (cfg.defaultJointPositions i) := fun i =>
    inEnvelope_default hlimit (hdefault ▸ isFinite_fin _)
  have hinit : Loop.TargetsInv cfg (Loop.initial cfg env mj now d) := by
    refine ⟨hpose, fun c hc => absurd hc List.not_mem_nil, fun i => ?_⟩
    show cfg.InEnvelope i (standingPose i)
    rw [← hdefault]
    exact hpose i
  have hI := h.invariant (fun s _ => Loop.TargetsInv cfg s) hinit
    fun _ hI _ hs => hI.step hlimit hdefault hvel hs
  exact hdefault ▸ hI.tracked i

/-- The loop of `fallEvents` with a policy that returns NaN: the robot falls, and a command that was
published before is tracked again. -/
theorem targets_inEnvelope_falling :
    ∃ (s : Loop numStandardJoints ℕ ℕ) (tr : List (LoopOutput numStandardJoints)),
      (loop shippedConfig (constantPolicy 12 nan) (droppingEngine .identity) {} 0 0).Run
        (fallEvents ++ [.tick 60, .infer .completes 60, .command]) s tr ∧
      s.sim.resets = 1 ∧ s.sim.physicsEnabled = true ∧ ∀ i, (s.sim.targetPositions i).IsFinite ∧
        standingPose i - shippedConfig.jointPositionLimit ≤ s.sim.targetPositions i ∧
        s.sim.targetPositions i ≤ standingPose i + shippedConfig.jointPositionLimit := by
  have hrun : ∃ (s : Loop numStandardJoints ℕ ℕ) (tr : List (LoopOutput numStandardJoints)),
      (loop shippedConfig (constantPolicy 12 nan) (droppingEngine .identity) {} 0 0).Run
        (fallEvents ++ [.tick 60, .infer .completes 60, .command]) s tr ∧
      s.sim.resets = 1 ∧ s.sim.physicsEnabled = true :=
    Machine.exists_reaches_of_decide _ (by decide +kernel)
  obtain ⟨s, tr, hrun, hresets, henabled⟩ := hrun
  exact ⟨s, tr, hrun, hresets, henabled,
    targets_inEnvelope (by decide +kernel) rfl (by decide +kernel) hrun⟩

/-! ### The release of the robot -/

namespace Brain

variable {b : Brain n H}

/-- While an inference is running its frame is queued. -/
def Queued (b : Brain n H) : Prop :=
  b.isInferring = true → ∃ f, b.inferenceQueue = [f]

theorem queued_of_reaches {start : ℤ} {ok : Brain n H → List (Output n) → Event n → Prop}
    {es : List (Event n)} {tr : List (Output n)} (h : (atomic cfg env start).Reaches ok es b tr) :
    b.Queued := by
  refine h.invariant (fun b _ => b.Queued) (fun hgate => (by cases hgate)) ?_
  intro es b tr e b' out hreach hI _ hs
  have hgated := gated_of_reaches hreach
  cases runStep hreach hs with
  | task hr => cases hr <;> exact hI
  | infer hq hr => cases hr <;> exact fun hgate => (by cases hgate)
  | tick _ hw hr =>
    cases hr with
    | busy hgate =>
      intro _
      obtain ⟨f, hf⟩ := hI (hw.isInferring ▸ hgate)
      exact ⟨f, hw.inferenceQueue.trans hf⟩
    | invalid => exact fun hgate => (by cases hgate)
    | captured _ hopen _ hreset =>
      intro _
      have hempty := hreset.inferenceQueue.trans
        (hw.inferenceQueue.trans (hgated.2 (hw.isInferring ▸ hopen)))
      exact ⟨_, congrArg (· ++ [_]) hempty⟩

end Brain

namespace Loop

/-- The end of the inference that may be running. -/
def finishInference (s : Loop n H D) (time : ℤ) : List LoopEvent :=
  if s.brain.isInferring then [.infer .completes time] else []

variable {cfg : BrainConfig n} {env : Environment n H} {mj : Mujoco D} {simCfg : SimConfig}
  {now : ℤ} {d : D} {es : List LoopEvent} {s : Loop n H D} {tr : List (LoopOutput n)}

/-- The inference that may be running ends, and the gate is open. -/
theorem exists_run_finishInference (h : (loop cfg env mj simCfg now d).Run es s tr) (time : ℤ) :
    ∃ s' tr', (loop cfg env mj simCfg now d).Run (es ++ s.finishInference time) s' tr' ∧
      s'.brain.isInferring = false := by
  obtain ⟨calls, out, hbrain⟩ := exists_run h
  unfold finishInference
  by_cases hgate : s.brain.isInferring = true
  · obtain ⟨f, hqueue⟩ := Brain.queued_of_reaches hbrain hgate
    have hs : s.brain.step cfg env (.infer .completes time) =
        some ((s.brain.dequeue []).inferenceClosure cfg env f .completes time) := by
      simp only [Brain.step, hqueue]
    have hstep := congrArg (Option.map fun r : Brain n H × List (Output n) =>
      ({ s with brain := r.1, commands := s.commands ++ jointCommands r.2 },
        ([] : List (LoopOutput n)))) hs
    rw [if_pos hgate]
    refine ⟨_, _, h.step trivial hstep, ?_⟩
    have hinfer := (s.brain.dequeue []).inferResult cfg env f .completes time
    generalize (s.brain.dequeue []).inferenceClosure cfg env f .completes time = r at hinfer
    cases hinfer <;> rfl
  · rw [if_neg hgate, List.append_nil]
    exact ⟨s, tr, h, Bool.not_eq_true _ ▸ hgate⟩

/-- The simulator publishes, and the node of the brain has heard of both sensors. -/
theorem exists_run_sensors (h : (loop cfg env mj simCfg now d).Run es s tr) :
    ∃ s' tr', (loop cfg env mj simCfg now d).Run
        (es ++ [.simStep, .jointState false, .imu false]) s' tr' ∧
      s'.brain = s.brain ∧ s'.ros.getLatestProprioception.valid = true := by
  let sim := s.sim.advance mj simCfg
  obtain ⟨msg, msgs, hmsgs⟩ := List.exists_cons_of_ne_nil
    (List.append_ne_nil_of_right_ne_nil s.jointStates (List.cons_ne_nil (sim.jointState mj) []))
  obtain ⟨imu, imus, himus⟩ := List.exists_cons_of_ne_nil
    (List.append_ne_nil_of_right_ne_nil s.imus (List.cons_ne_nil (sim.imu mj) []))
  let s₁ : Loop n H D := { s with
    sim := sim
    jointStates := s.jointStates ++ [sim.jointState mj]
    imus := s.imus ++ [sim.imu mj] }
  let s₂ : Loop n H D := { s₁ with ros := s.ros.jointStateCallback msg, jointStates := msgs }
  let s₃ : Loop n H D := { s₂ with ros := s₂.ros.imuCallback imu, imus := imus }
  have hjoint : (loop cfg env mj simCfg now d).step s₁ (.jointState false) = some (s₂, []) := by
    show s₁.step cfg env mj simCfg (.jointState false) = _
    unfold step
    simp only [s₁, hmsgs]
    rfl
  have himu : (loop cfg env mj simCfg now d).step s₂ (.imu false) = some (s₃, []) := by
    show s₂.step cfg env mj simCfg (.imu false) = _
    unfold step
    simp only [s₂, s₁, himus]
    rfl
  have hsim : (loop cfg env mj simCfg now d).step s .simStep =
      some (s₁, if s.sim.Falls mj simCfg then [.reset] else []) := rfl
  exact ⟨s₃, _, h.follow (Machine.follow_cons hsim (Machine.follow_cons hjoint
    (Machine.follow_cons himu rfl))), rfl, rfl⟩

/-- A control tick with valid proprioception and its inference publish a command. -/
theorem exists_run_frame (h : (loop cfg env mj simCfg now d).Run es s tr)
    (hcaptures : s.brain.Captures s.ros.getLatestProprioception) (time : ℤ) :
    ∃ s' tr', (loop cfg env mj simCfg now d).Run
        (es ++ [.tick time, .infer .completes time]) s' tr' ∧ s'.commands ≠ [] := by
  obtain ⟨calls, out, hbrain⟩ := exists_run h
  obtain ⟨w, r, f, hframe⟩ := Brain.exists_answers cfg env (active_of_reaches hbrain) hcaptures.1
    ((gated_of_reaches hbrain).2 hcaptures.1) hcaptures.2 time time
  let s₁ : Loop n H D := { s with brain := w.1, commands := s.commands ++ jointCommands w.2 }
  let s₂ : Loop n H D := { s₁ with brain := r.1, commands := s₁.commands ++ jointCommands r.2 }
  have htick : (loop cfg env mj simCfg now d).step s (.tick time) = some (s₁, []) := by
    show (some _).map _ = _
    rw [hframe.tick]
    rfl
  have hinfer : (loop cfg env mj simCfg now d).step s₁ (.infer .completes time) =
      some (s₂, []) := by
    show (s₁.brain.step cfg env (.infer .completes time)).map _ = _
    simp only [Brain.step, s₁, hframe.captured, hframe.infer]
    rfl
  refine ⟨s₂, _, h.follow (Machine.follow_cons htick (Machine.follow_cons hinfer rfl)), ?_⟩
  refine List.append_ne_nil_of_right_ne_nil _ ?_
  rw [jointCommands, hframe.published]
  exact List.cons_ne_nil _ _

/-- The oldest command enables the physics. -/
theorem exists_run_command {cfg : BrainConfig numStandardJoints}
    {env : Environment numStandardJoints H} {s : Loop numStandardJoints H D}
    {tr : List (LoopOutput numStandardJoints)}
    (h : (loop cfg env mj simCfg now d).Run es s tr) (hcommands : s.commands ≠ []) :
    ∃ s' tr', (loop cfg env mj simCfg now d).Run (es ++ [.command]) s' tr' ∧
      s'.sim.physicsEnabled = true := by
  obtain ⟨c, rest, hcons⟩ := List.exists_cons_of_ne_nil hcommands
  have hstep : ∃ out, (loop cfg env mj simCfg now d).step s .command =
      some ({ s with sim := s.sim.cmdCallback c.data, commands := rest }, out) := by
    show ∃ out, s.step cfg env mj simCfg .command = _
    unfold step
    simp only [hcons]
    exact ⟨_, rfl⟩
  obtain ⟨out, hstep⟩ := hstep
  refine ⟨_, _, h.step trivial hstep, ?_⟩
  show (s.sim.cmdCallback c.data).physicsEnabled = true
  rw [cmdCallback_data]

end Loop

/-- In every run the simulator, wherever it holds the robot, is one control cycle away from being
released: when the inference that may be running has ended, the next messages of the simulator, a
control tick, its inference and the arrival of a command enable the physics. -/
theorem controlCycle_enables {cfg : BrainConfig numStandardJoints}
    {env : Environment numStandardJoints H} {now : ℤ} {d : D} {es : List LoopEvent}
    {s : Loop numStandardJoints H D} {tr : List (LoopOutput numStandardJoints)}
    (h : (loop cfg env mj simCfg now d).Run es s tr) (time time' : ℤ) :
    ∃ s' tr', (loop cfg env mj simCfg now d).Run
        (es ++ s.finishInference time ++ controlCycle time') s' tr' ∧
      s'.sim.physicsEnabled = true := by
  obtain ⟨s₁, tr₁, h₁, hopen⟩ := Loop.exists_run_finishInference h time
  obtain ⟨s₂, tr₂, h₂, hbrain, hvalid⟩ := Loop.exists_run_sensors h₁
  have hcaptures : s₂.brain.Captures s₂.ros.getLatestProprioception := ⟨hbrain ▸ hopen, hvalid⟩
  obtain ⟨s₃, tr₃, h₃, hcommands⟩ := Loop.exists_run_frame h₂ hcaptures time'
  obtain ⟨s₄, tr₄, h₄, henabled⟩ := Loop.exists_run_command h₃ hcommands
  refine ⟨s₄, tr₄, ?_, henabled⟩
  simpa only [controlCycle, List.append_assoc, List.cons_append, List.nil_append] using h₄

/-- After the fall of `fallEvents` the robot is held while an inference is running. -/
theorem controlCycle_enables_fallen :
    ∃ (s s' : Loop numStandardJoints ℕ ℕ) (tr' : List (LoopOutput numStandardJoints)),
      s.sim.physicsEnabled = false ∧ s.brain.isInferring = true ∧
      (loop shippedConfig (constantPolicy 12 (fin 0)) (droppingEngine .identity) {} 0 0).Run
        (fallEvents ++ [.tick 60] ++ s.finishInference 65 ++ controlCycle 80) s' tr' ∧
      s'.sim.physicsEnabled = true := by
  have hrun : ∃ (s : Loop numStandardJoints ℕ ℕ) (tr : List (LoopOutput numStandardJoints)),
      (loop shippedConfig (constantPolicy 12 (fin 0)) (droppingEngine .identity) {} 0 0).Run
        (fallEvents ++ [.tick 60]) s tr ∧
      s.sim.physicsEnabled = false ∧ s.brain.isInferring = true :=
    Machine.exists_reaches_of_decide _ (by decide +kernel)
  obtain ⟨s, tr, hrun, hheld, hgate⟩ := hrun
  obtain ⟨s', tr', hrun', henabled⟩ := controlCycle_enables hrun 65 80
  exact ⟨s, s', tr', hheld, hgate, hrun', henabled⟩

end RobotBrain
