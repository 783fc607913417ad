import RobotBrain.Sim.Loop

/-!
# The start gate of the physics

The simulator holds the robot in the standing pose until the first joint command arrives, at the
start and after every reset. The brain publishes nothing before it has valid proprioception, so that
this command should be one that the policy has computed from the pose in which the robot is held.
Three things break this: an emergency stop publishes the default pose at once, a command or a frame
may be in flight across a reset, and the proprioception that the brain holds may still be that of
the fallen robot.

## Main definitions

* `Source.Current` — a command is computed from messages published since the last reset.
* `Loop.InSequence` — the step does none of the three things.

## Main results

* `released_current` — in the runs of such steps only current commands enable the physics.
* `exists_released_bare` — an emergency stop at the start enables it with the bare default pose.
-/

namespace RobotBrain

open ExtNum

variable {n : ℕ} {H D : Type*} {cfg : BrainConfig n} {env : Environment n H} {mj : Mujoco D}
  {simCfg : SimConfig}

/-- The proprioception is complete, and both messages that it comes from were published after this
number of resets. -/
def Proprioception.Current (resets : ℕ) (prop : Proprioception n) : Prop :=
  prop.valid = true ∧ prop.jointOrigin = resets ∧ prop.imuOrigin = resets

instance (resets : ℕ) (prop : Proprioception n) : Decidable (prop.Current resets) :=
  inferInstanceAs (Decidable (_ ∧ _))

/-- The command comes from an inference on current proprioception. -/
def Source.Current (resets : ℕ) : Source n → Prop
  | .inference f => f.prop.Current resets
  | _ => False

instance (resets : ℕ) : (source : Source n) → Decidable (source.Current resets)
  | .inference f => inferInstanceAs (Decidable (f.prop.Current resets))
  | .emergencyStop _ | .inactive => .isFalse id

/-- The command that an output says has enabled the physics is current. -/
def LoopOutput.Current : LoopOutput n → Prop
  | .released source resets => source.Current resets
  | .reset => True

instance : (o : LoopOutput n) → Decidable o.Current
  | .released source resets => inferInstanceAs (Decidable (source.Current resets))
  | .reset => .isTrue trivial

namespace Loop

/-- The physics is disabled and no command is in flight that will enable it. -/
def Waiting (s : Loop n H D) : Prop :=
  s.sim.physicsEnabled = false ∧ s.commands = []

instance (s : Loop n H D) : Decidable s.Waiting :=
  inferInstanceAs (Decidable (_ ∧ _))

/-- While the simulator waits, no emergency stop is processed and no frame captured from
proprioception that is not current; and the robot falls only when no command is in flight and no
frame is queued or being inferred (the closure of such a frame leaves the queue of this model when
its inference ends). -/
def InSequence (mj : Mujoco D) (simCfg : SimConfig) (s : Loop n H D) : LoopEvent → Prop
  | .task t _ => s.Waiting → t.type ≠ .emergencyStop
  | .tick _ => s.Waiting → s.brain.isInferring = false →
    s.ros.getLatestProprioception.valid = true →
      s.ros.getLatestProprioception.Current s.sim.resets
  | .simStep => s.sim.Falls mj simCfg → s.commands = [] ∧ s.brain.inferenceQueue = []
  | _ => True

instance (s : Loop n H D) : (e : LoopEvent) → Decidable (s.InSequence mj simCfg e)
  | .task _ _ | .tick _ | .simStep => inferInstanceAs (Decidable (_ → _))
  | .infer _ _ | .jointState _ | .imu _ | .command => .isTrue trivial

/-! ### What the brain publishes and enqueues -/

/-- A task publishes a command only if it is an emergency stop, and enqueues nothing. -/
private theorem task_flow {t : Task} {now : ℤ} {b : Brain n H} {r : Brain n H × List (Output n)}
    (h : Brain.TaskResult cfg env t now b r) :
    r.1.inferenceQueue = b.inferenceQueue ∧
      (t.type ≠ .emergencyStop → jointCommands r.2 = []) := by
  cases h with
  | stop ht => exact ⟨rfl, fun hmotion => absurd ht hmotion⟩
  | motion => exact ⟨rfl, fun _ => rfl⟩

private theorem jointCommands_append (out more : List (Output n)) :
    jointCommands (out ++ more) = jointCommands out ++ jointCommands more := by
  rw [jointCommands, RobotBrain.commands, List.filterMap_append, List.map_append]
  rfl

/-- A control tick publishes no command, and it enqueues a frame only through the open gate and from
valid proprioception. -/
private theorem tick_flow {now : ℤ} {prop : Proprioception n} {b : Brain n H}
    {w r : Brain n H × List (Output n)} (hw : Brain.WatchdogResult b w)
    (h : Brain.RunTick cfg env now prop w r) :
    jointCommands r.2 = [] ∧ ∀ f ∈ r.1.inferenceQueue, f ∈ b.inferenceQueue ∨
      b.isInferring = false ∧ prop.valid = true ∧ f.prop = prop := by
  have hquiet : jointCommands w.2 = [] := by cases hw <;> rfl
  cases h with
  | busy =>
    refine ⟨hquiet, fun f hf => Or.inl ?_⟩
    rw [← hw.inferenceQueue]
    exact hf
  | invalid =>
    refine ⟨hquiet, fun f hf => Or.inl ?_⟩
    rw [← hw.inferenceQueue]
    exact hf
  | @captured _ hgate hvalid r hr =>
    constructor
    · have hreset : jointCommands r.2 = [] := by cases hr <;> rfl
      rw [jointCommands_append, jointCommands_append, hquiet, hreset]
      rfl
    · intro f hf
      rcases List.mem_append.mp hf with hf | hf
      · left
        rw [← hw.inferenceQueue]
        have hqueue : r.1.inferenceQueue = w.1.inferenceQueue := hr.inferenceQueue
        rw [← hqueue]
        exact hf
      · right
        obtain rfl := List.mem_singleton.mp hf
        exact ⟨hw.isInferring ▸ hgate, hvalid, rfl⟩

/-- A closure publishes at most the command of its frame, and leaves the queue empty. -/
private theorem infer_flow {outcome : Outcome} {now : ℤ} {f : Frame n} {b : Brain n H}
    {r : Brain n H × List (Output n)}
    (h : Brain.InferResult cfg env f now (b.dequeue []) outcome r) :
    r.1.inferenceQueue = [] ∧ ∀ c ∈ jointCommands r.2, c.source = .inference f := by
  refine ⟨h.inferenceQueue, fun c hc => ?_⟩
  cases h with
  | applied =>
    obtain rfl := List.mem_singleton.mp hc
    rfl
  | forwardThrew | failed | superseded => cases hc

/-! ### The invariant -/

/-- While the physics is disabled, the oldest command in flight is current, and so is every queued
frame if there is none; and only current commands have enabled it. -/
structure GateInv (s : Loop n H D) (tr : List (LoopOutput n)) : Prop where
  oldest : n = numStandardJoints → s.sim.physicsEnabled = false →
    ∀ c ∈ s.commands.head?, c.source.Current s.sim.resets
  queued : n = numStandardJoints → s.Waiting →
    ∀ f ∈ s.brain.inferenceQueue, f.prop.Current s.sim.resets
  released : ∀ o ∈ tr, o.Current

namespace GateInv

variable {s : Loop n H D} {tr : List (LoopOutput n)}

/-- A call of the brain whose commands and frames are current if the simulator waits. -/
private theorem brain (h : GateInv s tr) {b : Brain n H} {more : List (JointCommand n)}
    (hmore : n = numStandardJoints → s.Waiting → ∀ c ∈ more, c.source.Current s.sim.resets)
    (hqueue : n = numStandardJoints → s.Waiting →
      ∀ f ∈ b.inferenceQueue, f.prop.Current s.sim.resets) :
    GateInv { s with brain := b, commands := s.commands ++ more } tr := by
  refine ⟨fun hn hoff c hc => ?_, fun hn hwait => ?_, h.released⟩
  · cases hcommands : s.commands with
    | nil =>
      have hc' : c ∈ ([] ++ more).head? := hcommands ▸ hc
      exact hmore hn ⟨hoff, hcommands⟩ c (List.mem_of_mem_head? hc')
    | cons first rest =>
      -- the command that was the oldest before still is
      refine h.oldest hn hoff c ?_
      have hc' : c ∈ (first :: rest ++ more).head? := hcommands ▸ hc
      rw [hcommands]
      exact hc'
  · obtain ⟨hoff, hnil⟩ := hwait
    exact hqueue hn ⟨hoff, (List.append_eq_nil_iff.mp hnil).1⟩

private theorem call (h : GateInv s tr) {e : LoopEvent} {call : Event n}
    (hcall : s.call e = some call) (hok : s.InSequence mj simCfg e)
    {r : Brain n H × List (Output n)} (hr : Brain.RunStep cfg env s.brain call r) :
    GateInv { s with brain := r.1, commands := s.commands ++ jointCommands r.2 } tr := by
  cases e with
  | task t now =>
    cases hcall
    cases hr with
    | task hr =>
      obtain ⟨hqueue, hmotion⟩ := task_flow hr
      refine h.brain (fun hn hwait c hc => ?_) (fun hn hwait => ?_)
      · rw [hmotion (hok hwait)] at hc
        cases hc
      · rw [hqueue]
        exact h.queued hn hwait
  | tick now =>
    cases hcall
    cases hr with
    | tick heq hw hr =>
      obtain ⟨hquiet, hframes⟩ := tick_flow hw hr
      refine h.brain (fun hn hwait c hc => ?_) (fun hn hwait f hf => ?_)
      · rw [hquiet] at hc
        cases hc
      · rcases hframes f hf with hf | ⟨hgate, hvalid, hprop⟩
        · exact h.queued hn hwait f hf
        · rw [hprop]
          exact hok hwait hgate hvalid
  | infer outcome now =>
    cases hcall
    cases hr with
    | @infer _ _ f _ hq hr =>
      obtain ⟨hempty, hcommand⟩ := infer_flow hr
      refine h.brain (fun hn hwait c hc => ?_) (fun hn hwait f hf => ?_)
      · rw [hcommand c hc]
        refine h.queued hn hwait f ?_
        rw [hq]
        exact List.mem_singleton_self f
      · rw [hempty] at hf
        cases hf
  | _ => cases hcall

private theorem step (h : GateInv s tr) {e : LoopEvent}
    {r : Loop n H D × List (LoopOutput n)} (hok : s.InSequence mj simCfg e)
    (hcall : ∀ {call r'}, s.brain.step cfg env call = some r' →
      Brain.RunStep cfg env s.brain call r')
    (hr : StepResult cfg env mj simCfg s e r) : GateInv r.1 (tr ++ r.2) := by
  have hreleased {out : List (LoopOutput n)} (hout : ∀ o ∈ out, o.Current) :
      ∀ o ∈ tr ++ out, o.Current := by
    intro o ho
    rcases List.mem_append.mp ho with ho | ho
    · exact h.released o ho
    · exact hout o ho
  cases hr with
  | brain heq hr =>
    rw [List.append_nil]
    exact h.call heq hok (hcall hr)
  | jointState | imu =>
    rw [List.append_nil]
    exact ⟨h.oldest, h.queued, h.released⟩
  | ignored hcommands hn =>
    rw [List.append_nil]
    exact ⟨fun heq => absurd heq hn, fun heq => absurd heq hn, h.released⟩
  | @command c rest hcommands hn sim henabled hresets =>
    refine ⟨fun _ hoff => ?_, fun _ hwait => ?_, hreleased fun o ho => ?_⟩
    · exact Bool.noConfusion (henabled.symm.trans hoff)
    · exact Bool.noConfusion (henabled.symm.trans hwait.1)
    · by_cases hoff : s.sim.physicsEnabled = false
      · rw [if_pos hoff] at ho
        obtain rfl := List.mem_singleton.mp ho
        refine h.oldest hn hoff c ?_
        rw [hcommands]
        rfl
      · rw [if_neg hoff] at ho
        cases ho
  | @stands sim jointState imu hstands henabled hresets =>
    rw [List.append_nil]
    refine ⟨fun hn hoff c hc => ?_, fun hn hwait f hf => ?_, h.released⟩
    · show c.source.Current sim.resets
      rw [hresets]
      exact h.oldest hn (henabled.symm.trans hoff) c hc
    · show f.prop.Current sim.resets
      rw [hresets]
      exact h.queued hn ⟨henabled.symm.trans hwait.1, hwait.2⟩ f hf
  | falls hfalls =>
    obtain ⟨hcommands, hqueue⟩ := hok hfalls
    refine ⟨fun _ _ c hc => ?_, fun _ _ f hf => ?_, hreleased fun o ho => ?_⟩
    · change c ∈ s.commands.head? at hc
      rw [hcommands] at hc
      cases hc
    · change f ∈ s.brain.inferenceQueue at hf
      rw [hqueue] at hf
      cases hf
    · obtain rfl := List.mem_singleton.mp ho
      trivial

end GateInv

end Loop

/-- In every run of the two nodes in which no emergency stop is processed and no frame captured from
outdated proprioception while the simulator waits, and in which the robot falls only when no command
is in flight and no frame is queued or being inferred: whenever a command enables the physics, at
the start or after a reset, it comes from an inference on a joint state and an IMU message published
since. -/
theorem released_current {now : ℤ} {d : D} {es : List LoopEvent} {s : Loop n H D}
    {tr : List (LoopOutput n)}
    (h : (loop cfg env mj simCfg now d).Reaches (fun s _ e => s.InSequence mj simCfg e) es s tr) :
    ∀ source resets, .released source resets ∈ tr → source.Current resets := by
  have hinit : Loop.GateInv (Loop.initial cfg env mj now d) [] :=
    ⟨by rintro _ _ c ⟨⟩, by rintro _ _ f ⟨⟩, by simp⟩
  have hI : Loop.GateInv s tr := by
    refine h.invariant Loop.GateInv hinit ?_
    intro es s tr e s' out hreach hI hok hs
    obtain ⟨calls, out', hrun⟩ := Loop.exists_run hreach
    exact hI.step hok (Brain.runStep hrun) (Loop.stepResult hs)
  intro source resets hmem
  exact hI.released _ hmem

/-! ### Concrete runs -/

/-- The arrays of an engine, as functions on addresses. -/
structure EngineArrays where
  qpos : ℕ → Scalar
  qvel : ℕ → Scalar
  ctrl : ℕ → Scalar

/-- Write one entry of an array. -/
def writeEntry (a : ℕ → Scalar) (adr : ℕ) (x : Scalar) : ℕ → Scalar :=
  fun i => if i = adr then x else a i

/-- The arrays of the engine, with the free joint of the base first and the standard joints after
it. The runs below end when the physics is enabled, so that they take no physics step. -/
def arrayEngine : Mujoco EngineArrays where
  resetData _ := ⟨writeEntry (fun _ => fin 0) 3 (fin 1), fun _ => fin 0, fun _ => fin 0⟩
  forward d := d
  step d := d
  qpos d := d.qpos
  qvel d := d.qvel
  setQpos d adr x := { d with qpos := writeEntry d.qpos adr x }
  setCtrl d adr x := { d with ctrl := writeEntry d.ctrl adr x }
  qposAdr i := 7 + i
  dofAdr i := 6 + i
  ctrlAdr i := i
  asin x := x

/-- The shipped robot in the loop with the simulator. -/
def shippedLoop : Machine (Loop 12 ℕ EngineArrays) LoopEvent (LoopOutput 12) :=
  loop shippedConfig (constantPolicy 12 (fin 1)) arrayEngine {} 0
    (arrayEngine.resetData ⟨fun _ => fin 0, fun _ => fin 0, fun _ => fin 0⟩)

/-- An output that says that a current command, or one that is not, has enabled the physics. -/
private def LoopOutput.releases (current : Bool) : LoopOutput n → Bool
  | .released source resets => decide (source.Current resets) == current
  | .reset => false

private theorem exists_released {tr : List (LoopOutput n)} {current : Bool}
    (h : tr.any (LoopOutput.releases current) = true) : ∃ source resets,
      .released source resets ∈ tr ∧ decide (source.Current resets) = current := by
  obtain ⟨o, ho, hreleases⟩ := List.any_eq_true.mp h
  cases o with
  | released source resets => exact ⟨source, resets, ho, eq_of_beq hreleases⟩
  | reset => cases hreleases

/-- The start as intended: the messages of a step of the simulator arrive, a frame is captured from
them, and its command enables the physics. -/
def startUp : List LoopEvent :=
  [.simStep, .jointState false, .imu false, .tick 20, .infer .completes 25, .command]

theorem released_current_startUp :
    ∃ s tr, shippedLoop.Run startUp s tr ∧
      (∃ source resets, .released source resets ∈ tr) ∧
      ∀ source resets, .released source resets ∈ tr → source.Current resets := by
  have hrun : ∃ s tr,
      shippedLoop.Reaches (fun s _ e => s.InSequence arrayEngine {} e) startUp s tr ∧
        tr.any (LoopOutput.releases true) = true :=
    Machine.exists_reaches startUp (by decide +kernel)
  obtain ⟨s, tr, hrun, hany⟩ := hrun
  obtain ⟨source, resets, hmem, -⟩ := exists_released hany
  exact ⟨s, tr, hrun.run, ⟨source, resets, hmem⟩, released_current hrun⟩

/-- An emergency stop before any sensor message: its default pose enables the physics. -/
theorem exists_released_bare :
    ∃ s tr, shippedLoop.Run [.task stopTask 10, .command] s tr ∧
      ∃ source resets, .released source resets ∈ tr ∧ ¬source.Current resets := by
  have hrun : ∃ s tr, shippedLoop.Run [.task stopTask 10, .command] s tr ∧
      tr.any (LoopOutput.releases false) = true :=
    Machine.exists_reaches _ (by decide +kernel)
  obtain ⟨s, tr, hrun, hany⟩ := hrun
  obtain ⟨source, resets, hmem, hstale⟩ := exists_released hany
  exact ⟨s, tr, hrun, source, resets, hmem, of_decide_eq_false hstale⟩

end RobotBrain
