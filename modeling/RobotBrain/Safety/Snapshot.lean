import RobotBrain.Safety.Fallback
import RobotBrain.Safety.Generation

/-!
# The snapshot of a task

A control tick reads the state, the target of the velocity ramp, and the task type with the
generation in three accesses, and `ProcessRobotTask` writes the command, the generation and the
state in three others. When the two sequences overlap, a frame can carry the generation of a task
and be computed from the state or the velocity of another. When they do not, and no fallback of the
watchdog overlaps the writes either, every frame is computed from the command that belongs to its
generation, or from `STANDING` with a zero target when the watchdog has lowered the state since.

## Main definitions

* `commandOf` — the task type, target and state that belong to a generation.
* `Frame.Computed`, `Untorn` — what a frame has been computed from, and that it belongs together.
* `Threads.SectionsApart` — the step does not let reads and writes overlap.

## Main results

* `untorn_of_sectionsApart` — no frame is torn in the interleavings whose steps are of this kind.
* `exists_torn` — a frame of a `PICK` task computed with the profile of `STANDING`.
-/

namespace RobotBrain

open ExtNum

variable {n : ℕ} {H : Type*} {cfg : BrainConfig n} {env : Environment n H}

/-- A task type, a target velocity and a state that belong together. -/
structure Command where
  type : TaskType
  target : Velocity
  state : RobotState

/-- The command of a task. -/
def Task.command (t : Task) : Command := ⟨t.type, t.velCmd, t.state⟩

/-- The command with the generation `g`; the generation zero is that of the constructor. -/
def commandOf (tasks : List Task) : ℕ → Command
  | 0 => ⟨.taskUnknown, fun _ => fin 0, .standing⟩
  | g + 1 => match tasks[g]? with
    | some t => t.command
    | none => ⟨.taskUnknown, fun _ => fin 0, .standing⟩

theorem commandOf_append {tasks : List Task} {g : ℕ} (h : g ≤ tasks.length) (more : List Task) :
    commandOf (tasks ++ more) g = commandOf tasks g := by
  cases g with
  | zero => rfl
  | succ g => rw [commandOf, commandOf, List.getElem?_append_left h]

theorem commandOf_length_concat (tasks : List Task) (t : Task) :
    commandOf (tasks ++ [t]) (tasks ++ [t]).length = t.command := by
  rw [List.length_append, List.length_singleton, commandOf, List.getElem?_concat_length]

/-- The profile and the velocity command of a frame come from its state, its task type and a step of
the ramp towards its target. -/
def Frame.Computed (cfg : BrainConfig n) (f : Frame n) : Prop :=
  f.profile = frameProfile f.state f.myTaskType ∧
    ∃ current, f.scaledVelCmd = RobotBrain.scaledVelCmd f.state f.myTaskType
      (rampVelocityCommand cfg (fin f.dt) f.target current)

/-- The task type, the target and the state of a frame are those that belong to its generation, or
the watchdog has lowered the state and zeroed the target since. -/
def Untorn (tasks : List Task) (f : Frame n) : Prop :=
  f.myTaskType = (commandOf tasks f.tasksBefore).type ∧
    (f.state = (commandOf tasks f.tasksBefore).state ∧
        f.target = (commandOf tasks f.tasksBefore).target ∨
      f.state = .standing ∧ f.target = (fun _ => fin 0) ∧ f.lowered = some f.tasksBefore)

instance (tasks : List Task) (f : Frame n) : Decidable (Untorn tasks f) :=
  inferInstanceAs (Decidable (_ ∧ _))

/-- The RPC thread has written a command and not yet stored its state. -/
def RpcPc.writing : RpcPc → Bool
  | .incrementGeneration _ | .storeGeneration _ _ | .storeTaskType _ | .storeState _ => true
  | _ => false

/-- The control thread is about to load the state. -/
def ControlPc.loadsState : ControlPc n → Bool
  | .loadState _ => true
  | _ => false

/-- The state that the control thread has loaded for a frame that it has not built yet. -/
def ControlPc.loaded : ControlPc n → Option RobotState
  | .acquireGate _ state | .readProprioception _ state | .resetHiddenState _ state _
  | .fillPrevActions _ state _ | .resetJointTargets _ state _ | .rampVelocity _ state _
  | .snapshot state _ _ _ => some state
  | _ => none

namespace Threads

/-- No command is written during a fallback or between the state load of a tick and its snapshot,
and during the writes of a task no state is loaded and no heartbeat found too old. -/
def SectionsApart (cfg : BrainConfig n) (s : Threads n H) : ThreadEvent n → Prop
  | .call _ => s.control.inFallback = false ∧ s.control.loaded = none
  | .control _ => s.rpc.writing = true → s.control.loadsState = false ∧
    ∀ now ∈ s.control.comparing, ¬s.brain.HeartbeatExpired cfg now
  | _ => True

instance (s : Threads n H) : (e : ThreadEvent n) → Decidable (s.SectionsApart cfg e)
  | .call _ => inferInstanceAs (Decidable (_ ∧ _))
  | .control _ => inferInstanceAs (Decidable (_ → _))
  | .rpc _ | .tick _ | .dequeue | .worker _ _ => .isTrue trivial

/-! ### The invariant -/

/-- The command in the shared state is the one that belongs to the current generation, or the
watchdog has lowered it. -/
def Settled (b : Brain n H) : Prop :=
  b.metrics.currentState = (commandOf b.history.tasks b.history.tasks.length).state ∧
      b.velocityCmd = (commandOf b.history.tasks b.history.tasks.length).target ∨
    b.metrics.currentState = .standing ∧ b.velocityCmd = (fun _ => fin 0) ∧
      b.history.lowered = some b.history.tasks.length

/-- What holds while the RPC thread writes: the command is that of its task, and the task has been
counted once the generation has been incremented. -/
def Writing (b : Brain n H) : RpcPc → Prop
  | .incrementGeneration t => b.currentTaskType = t.type ∧ b.velocityCmd = t.velCmd
  | .storeGeneration t _ | .storeTaskType t | .storeState t =>
    b.currentTaskType = t.type ∧ b.velocityCmd = t.velCmd ∧
      commandOf b.history.tasks b.history.tasks.length = t.command
  | _ => True

/-- What the control thread knows at each access, when no task is being written. -/
def Reading (cfg : BrainConfig n) (b : Brain n H) : ControlPc n → Prop
  | .watchdogLoadState _ => Settled b ∧ b.history.expired = b.history.tasks.length
  | .watchdogStoreState _ => b.history.expired = b.history.tasks.length
  | .watchdogZeroVelocity _ =>
    b.metrics.currentState = .standing ∧ b.history.lowered = some b.history.tasks.length
  | .acquireGate _ state | .readProprioception _ state | .resetHiddenState _ state _
  | .fillPrevActions _ state _ | .resetJointTargets _ state _ | .rampVelocity _ state _ =>
    Settled b ∧ state = b.metrics.currentState
  | .snapshot state _ target dt => Settled b ∧ state = b.metrics.currentState ∧
    target = b.velocityCmd ∧
      ∃ current, b.currentVelCmd = rampVelocityCommand cfg (fin dt) target current
  | _ => Settled b

/-- Either a task is being written and the control thread reads nothing, or the shared command
belongs together and so does what the control thread has read. -/
structure SnapshotInv (cfg : BrainConfig n) (s : Threads n H) : Prop where
  writing : s.rpc.writing = true →
    Writing s.brain s.rpc ∧ s.control.inFallback = false ∧ s.control.loaded = none
  type : s.rpc.writing = false → s.brain.currentTaskType =
    (commandOf s.brain.history.tasks s.brain.history.tasks.length).type
  reading : s.rpc.writing = false → Reading cfg s.brain s.control

variable {b b' : Brain n H}

private theorem Settled.congr (h : Settled b) (hmetrics : b'.metrics.currentState =
    b.metrics.currentState) (hvel : b'.velocityCmd = b.velocityCmd)
    (hhistory : b'.history = b.history) : Settled b' := by
  unfold Settled
  rw [hmetrics, hvel, hhistory]
  exact h

private theorem Reading.congr {pc : ControlPc n} (h : Reading cfg b pc)
    (hmetrics : b'.metrics.currentState = b.metrics.currentState)
    (hvel : b'.velocityCmd = b.velocityCmd) (hhistory : b'.history = b.history)
    (hcurrent : b'.currentVelCmd = b.currentVelCmd) : Reading cfg b' pc := by
  have hsettled : Settled b' ↔ Settled b := by
    unfold Settled
    rw [hmetrics, hvel, hhistory]
  cases pc <;> simpa only [Reading, hsettled, hmetrics, hvel, hhistory, hcurrent] using h

/-- Outside a fallback and with no state loaded, the control thread knows that the shared command
belongs together. -/
private theorem reading_iff {pc : ControlPc n} (hfallback : pc.inFallback = false)
    (hloaded : pc.loaded = none) : Reading cfg b pc ↔ Settled b := by
  cases pc
  case watchdogLoadState | watchdogStoreState | watchdogZeroVelocity => cases hfallback
  case acquireGate | readProprioception | resetHiddenState | fillPrevActions | resetJointTargets
      | rampVelocity | snapshot => cases hloaded
  all_goals rfl

/-! ### One access -/

private theorem SnapshotInv.rpc {s : Threads n H} (h : SnapshotInv cfg s)
    {now : ℤ} {b : Brain n H} {pc : RpcPc} {out : List (Output n)}
    (hr : RpcResult cfg env now s.brain s.rpc b pc out) :
    SnapshotInv cfg { s with brain := b, rpc := pc } := by
  obtain ⟨b₀, rpc, control, worker⟩ := s
  obtain ⟨hwriting, htype, hreading⟩ := h
  cases hr
  case incrementGeneration t =>
    obtain ⟨⟨htask, hvel⟩, hapart⟩ := hwriting rfl
    exact ⟨fun _ => ⟨⟨htask, hvel, commandOf_length_concat _ t⟩, hapart⟩, nofun, nofun⟩
  case storeGeneration t gen | storeTaskType t => exact ⟨fun _ => hwriting rfl, nofun, nofun⟩
  case storeStateStop t ht | storeStateMotion t ht =>
    -- the last write of the task
    obtain ⟨⟨htask, hvel, hcommand⟩, hfallback, hloaded⟩ := hwriting rfl
    refine ⟨nofun, fun _ => ?_, fun _ => (reading_iff hfallback hloaded).mpr (Or.inl ?_)⟩
    · show b₀.currentTaskType = (commandOf b₀.history.tasks b₀.history.tasks.length).type
      rw [hcommand]
      exact htask
    · show t.state = (commandOf b₀.history.tasks b₀.history.tasks.length).state ∧
        b₀.velocityCmd = (commandOf b₀.history.tasks b₀.history.tasks.length).target
      rw [hcommand]
      exact ⟨rfl, hvel⟩
  all_goals
    exact ⟨nofun, fun _ => htype rfl, fun _ => (hreading rfl).congr rfl rfl rfl rfl⟩

/-- What the control thread knows is kept by its accesses. -/
private theorem ControlResult.reading {prop : Proprioception n} {b b' : Brain n H}
    {pc pc' : ControlPc n} {out : List (Output n)}
    (hr : ControlResult cfg env prop b pc b' pc' out) (h : Reading cfg b pc) :
    Reading cfg b' pc' := by
  cases hr
  case heartbeatExpired now hexpired => exact ⟨h, rfl⟩
  case watchdogExecuting now hstate => exact h.2
  case watchdogOther now hstate => exact h.1
  case watchdogStoreState now => exact ⟨rfl, congrArg some h⟩
  case watchdogZeroVelocity now => exact Or.inr ⟨h.1, rfl, h.2⟩
  case loadActive now hstate => exact ⟨h, rfl⟩
  case invalid now state hvalid => exact h.1
  case gateBusy now state hgate => exact h.1
  case rampVelocity now state p =>
    exact ⟨h.1.congr rfl rfl rfl, h.2, rfl, b.currentVelCmd, rfl⟩
  case snapshot state p target dt => exact h.1
  case gateOpen | simulatorReset | noReset | resetHiddenState | fillPrevActions
      | resetJointTargets =>
    exact ⟨h.1.congr rfl rfl rfl, h.2⟩
  case enqueued | releaseGateFull | releaseGate | countDropped => exact Settled.congr h rfl rfl rfl
  all_goals exact h

/-- Outside a fallback and with no state loaded, a control thread that neither loads the state nor
finds the heartbeat too old stays so and leaves the command alone. -/
private theorem ControlResult.apart {prop : Proprioception n} {b b' : Brain n H}
    {pc pc' : ControlPc n} {out : List (Output n)}
    (hr : ControlResult cfg env prop b pc b' pc' out) (hfallback : pc.inFallback = false)
    (hloaded : pc.loaded = none) (hloads : pc.loadsState = false)
    (hfresh : ∀ now ∈ pc.comparing, ¬b.HeartbeatExpired cfg now) :
    pc'.inFallback = false ∧ pc'.loaded = none ∧ b'.history = b.history ∧
      b'.currentTaskType = b.currentTaskType ∧ b'.velocityCmd = b.velocityCmd := by
  cases hr
  case heartbeatExpired now hexpired => exact absurd hexpired (hfresh now rfl)
  case loadActive | loadInactive => cases hloads
  case watchdogExecuting | watchdogOther | watchdogStoreState | watchdogZeroVelocity =>
    cases hfallback
  case gateBusy | gateOpen | simulatorReset | noReset | invalid | resetHiddenState
      | fillPrevActions | resetJointTargets | rampVelocity | snapshot => cases hloaded
  all_goals exact ⟨rfl, rfl, rfl, rfl, rfl⟩

private theorem Writing.congr {pc : RpcPc} (h : Writing b pc)
    (htask : b'.currentTaskType = b.currentTaskType) (hvel : b'.velocityCmd = b.velocityCmd)
    (hhistory : b'.history = b.history) : Writing b' pc := by
  unfold Writing
  rw [htask, hvel, hhistory]
  exact h

private theorem ControlResult.currentTaskType {prop : Proprioception n} {pc pc' : ControlPc n}
    {out : List (Output n)} (hr : ControlResult cfg env prop b pc b' pc' out) :
    b'.currentTaskType = b.currentTaskType := by
  cases hr <;> rfl

private theorem SnapshotInv.control {s : Threads n H} (h : SnapshotInv cfg s)
    {prop : Proprioception n} (hok : s.SectionsApart cfg (.control prop)) {b : Brain n H}
    {pc : ControlPc n} {out : List (Output n)}
    (hr : ControlResult cfg env prop s.brain s.control b pc out) :
    SnapshotInv cfg { s with brain := b, control := pc } := by
  refine ⟨fun hrpc => ?_, fun hrpc => ?_, fun hrpc => hr.reading (h.reading hrpc)⟩
  · obtain ⟨hwriting, hfallback, hloaded⟩ := h.writing hrpc
    obtain ⟨hloads, hfresh⟩ := hok hrpc
    obtain ⟨hfallback', hloaded', hhistory, htask, hvel⟩ :=
      hr.apart hfallback hloaded hloads hfresh
    exact ⟨hwriting.congr htask hvel hhistory, hfallback', hloaded'⟩
  · show b.currentTaskType = (commandOf b.history.tasks b.history.tasks.length).type
    rw [hr.currentTaskType, hr.generation.1]
    exact h.type hrpc

private theorem SnapshotInv.step {s : Threads n H} {e : ThreadEvent n}
    {r : Threads n H × List (Output n)} (h : SnapshotInv cfg s) (hok : s.SectionsApart cfg e)
    (hr : StepResult cfg env s e r) : SnapshotInv cfg r.1 := by
  cases hr with
  | call hpc => exact ⟨fun _ => ⟨⟨rfl, rfl⟩, hok⟩, nofun, nofun⟩
  | rpc hr => exact h.rpc hr
  | tick hpc =>
    refine ⟨fun hrpc => ⟨(h.writing hrpc).1, rfl, rfl⟩, h.type, fun hrpc => ?_⟩
    have hreading := h.reading hrpc
    rw [hpc] at hreading
    exact hreading
  | control hr => exact h.control hok hr
  | dequeue =>
    exact ⟨fun hrpc => ⟨(h.writing hrpc).1.congr rfl rfl rfl, (h.writing hrpc).2⟩, h.type,
      fun hrpc => (h.reading hrpc).congr rfl rfl rfl rfl⟩
  | @worker throws now b pc out hr =>
    obtain ⟨-, hstate, hvel, htask, hcurrent⟩ := hr.command
    have hhistory := hr.generation.1
    refine ⟨fun hrpc => ⟨(h.writing hrpc).1.congr htask hvel hhistory, (h.writing hrpc).2⟩,
      fun hrpc => ?_, fun hrpc => (h.reading hrpc).congr hstate hvel hhistory hcurrent⟩
    show b.currentTaskType = (commandOf b.history.tasks b.history.tasks.length).type
    rw [htask, hhistory]
    exact h.type hrpc

/-- A frame is built from a command that belongs together. -/
private theorem SnapshotInv.snapshot {s : Threads n H} (h : SnapshotInv cfg s)
    {state : RobotState} {p : Proprioception n} {target : Velocity} {dt : ℚ}
    (hpc : s.control = .snapshot state p target dt) :
    (s.brain.snapshot state p target dt).Computed cfg ∧
      Untorn s.brain.history.tasks (s.brain.snapshot state p target dt) := by
  -- no task is being written, for a state is loaded
  have hrpc : s.rpc.writing = false := by
    rw [← Bool.not_eq_true]
    intro hrpc
    have hloaded := (h.writing hrpc).2.2
    rw [hpc] at hloaded
    cases hloaded
  have hreading := h.reading hrpc
  rw [hpc] at hreading
  obtain ⟨hsettled, rfl, rfl, current, hcurrent⟩ := hreading
  refine ⟨⟨rfl, current, ?_⟩, h.type hrpc, hsettled⟩
  show RobotBrain.scaledVelCmd _ _ s.brain.currentVelCmd = _
  rw [hcurrent]
  rfl

/-- Later tasks do not tear a frame. -/
private theorem untorn_step {s : Threads n H} {f : Frame n}
    (hf : f.tasksBefore ≤ s.brain.history.tasks.length) (h : Untorn s.brain.history.tasks f)
    {e : ThreadEvent n} {r : Threads n H × List (Output n)} (hr : StepResult cfg env s e r) :
    Untorn r.1.brain.history.tasks f := by
  rcases hr.tasks with ⟨htasks, -⟩ | ⟨t, -, htasks, -⟩
  · rwa [htasks]
  · unfold Untorn
    rw [htasks, commandOf_append hf]
    exact h

end Threads

/-- In every interleaving in which the command, the generation and the state of a task are written
neither while the watchdog falls back nor while a tick is between its state load and its snapshot:
every frame is computed from the task type, the target velocity and the state that belong to its
generation, or from `STANDING` and a zero target if the watchdog has lowered the state since. -/
theorem untorn_of_sectionsApart {now : ℤ} {es : List (ThreadEvent n)} {s : Threads n H}
    {tr : List (Output n)}
    (h : (threads cfg env now).Reaches (fun s _ e => s.SectionsApart cfg e) es s tr) :
    ∀ f ∈ s.frames, f.Computed cfg ∧ Untorn s.brain.history.tasks f := by
  have hinit : Threads.SnapshotInv cfg (Threads.rest (Brain.initial cfg env now)) :=
    ⟨nofun, fun _ => rfl, fun _ => Or.inl ⟨rfl, rfl⟩⟩
  refine (h.invariant (fun s _ => Threads.SnapshotInv cfg s ∧
    ∀ f ∈ s.frames, f.Computed cfg ∧ Untorn s.brain.history.tasks f)
    ⟨hinit, by rintro f ⟨⟩⟩ ?_).2
  intro es s tr e s' out hreach ⟨hI, hframe⟩ hok hs
  have hr := Threads.stepResult hs
  have hgen := Threads.generationInv_of_reaches hreach
  refine ⟨hI.step hok hr, fun f hf => ?_⟩
  rcases hr.frames f hf with hf | ⟨state, p, target, dt, hpc, rfl⟩
  · exact ⟨(hframe f hf).1, Threads.untorn_step (hgen.frame f hf).1 (hframe f hf).2 hr⟩
  · obtain ⟨hcomputed, huntorn⟩ := hI.snapshot hpc
    exact ⟨hcomputed, Threads.untorn_step le_rfl huntorn hr⟩

/-- A task to pick something up while walking slowly. -/
private def pickTask : Task := ⟨.pick, ![fin (1 / 5), fin 0, fin 0]⟩

/-- Inference on the frame in the queue, up to the publication. -/
private def checkFrame : List (ThreadEvent 12) :=
  .dequeue :: List.replicate 3 (.worker false 30)

/-- A tick after the call of a task: its frame passes the check, and it is not torn. -/
theorem untorn_of_sectionsApart_pick :
    ∃ s tr, (threads shippedConfig (constantPolicy 12 (fin 0)) 0).Run
        (.call pickTask :: List.replicate 5 (.rpc 10) ++
          .tick 20 :: List.replicate 7 (.control (upright shippedConfig)) ++ checkFrame) s tr ∧
      ∃ f ∈ s.worker.checked, f.myTaskType = .pick ∧
        f.Computed shippedConfig ∧ Untorn s.brain.history.tasks f := by
  have hrun : ∃ s tr, (threads shippedConfig (constantPolicy 12 (fin 0)) 0).Reaches
      (fun s _ e => s.SectionsApart shippedConfig e)
      (.call pickTask :: List.replicate 5 (.rpc 10) ++
        .tick 20 :: List.replicate 7 (.control (upright shippedConfig)) ++ checkFrame) s tr ∧
      (s.worker.checked.any fun f => f.myTaskType = .pick) = true :=
    Machine.exists_reaches _ (by decide +kernel)
  obtain ⟨s, tr, hrun, hany⟩ := hrun
  obtain ⟨f, hf, hpick⟩ := (Option.any_eq_true ..).mp hany
  have hmem : f ∈ s.frames :=
    List.mem_append_right _ (Option.mem_toList.mpr (Threads.frame_of_checked hf))
  exact ⟨s, tr, hrun.run, f, hf, of_decide_eq_true hpick, untorn_of_sectionsApart hrun f hmem⟩

/-- A tick loads `STANDING`, and before it reads the task type and the generation a `PICK` task
writes both: the frame passes the check with the generation of the task and the profile of
`STANDING`. -/
theorem exists_torn :
    ∃ es s tr, (threads shippedConfig (constantPolicy 12 (fin 0)) 0).Run es s tr ∧
      ∃ f ∈ s.worker.checked, f.myTaskType = .pick ∧ f.profile = ⟨fin 1, fin 1⟩ ∧
        ¬Untorn s.brain.history.tasks f := by
  have hrun : ∃ s tr, (threads shippedConfig (constantPolicy 12 (fin 0)) 0).Run
      (.tick 20 :: List.replicate 2 (.control (upright shippedConfig)) ++
        [.call pickTask, .rpc 10] ++
        List.replicate 5 (.control (upright shippedConfig)) ++ checkFrame) s tr ∧
      (s.worker.checked.any fun f => decide (f.myTaskType = .pick) &&
        decide (f.profile = ⟨fin 1, fin 1⟩) && !decide (Untorn s.brain.history.tasks f)) = true :=
    Machine.exists_reaches _ (by decide +kernel)
  obtain ⟨s, tr, hrun, hany⟩ := hrun
  obtain ⟨f, hf, htorn⟩ := (Option.any_eq_true ..).mp hany
  simp only [Bool.and_eq_true, decide_eq_true_eq, Bool.not_eq_eq_eq_not, Bool.not_true,
    decide_eq_false_iff_not, and_assoc] at htorn
  exact ⟨_, s, tr, hrun, f, hf, htorn⟩

end RobotBrain
