import RobotBrain.Brain.State

/-!
# The brain with whole calls as steps

The functions `ProcessRobotTask` and `ControlLoopStep` and the inference closure as the source
writes them, and the machine whose steps are complete calls of them: a task, a control tick with the
proprioception it finds, and the closure at the head of the inference queue.
`RobotBrain.Brain.Refinement` shows that its runs are runs of the three threads.

## Main definitions

* `Brain.processRobotTask`, `Brain.controlLoopStep`, `Brain.inferenceClosure`.
* `Event`, `Brain.step`, `atomic` — the machine.

## Main results

* `Brain.tickResult` — what a control tick can do.
* `Brain.inferResult` — what an inference closure can do.
* `Brain.runStep` — what a call can do in a run.
-/

namespace RobotBrain

open ExtNum

variable {n : ℕ} {H : Type*}

/-- How an inference closure ends: it runs to its end, or an exception is thrown by `Forward`, after
it, or by `PublishJointCommand`. -/
inductive Outcome
  | completes
  | forwardThrows
  | targetsThrow
  | publishThrows
  deriving DecidableEq

namespace Brain

/-- `AIBrain::ProcessRobotTask`. -/
def processRobotTask (cfg : BrainConfig n) (env : Environment n H) (t : Task) (now : ℤ)
    (b : Brain n H) : Brain n H × List (Output n) :=
  let b := b.writeCommand t
  let b := b.incrementGeneration t
  let gen := b.taskGeneration
  let tasks := b.history.tasks.length
  let b := b.storeGeneration gen
  let b := b.storeTaskType t.type
  let b := b.storeTaskState t
  if t.type = .emergencyStop then
    let b := b.fillPrevActions
    let b := b.resetHiddenState env
    let b := b.resetJointTargets cfg
    (b.feedDog now,
      [.commandWritten t, .generationIncremented tasks, .prevActionsReset, .hiddenStateReset,
        .jointTargetsReset, .published cfg.defaultJointPositions (.emergencyStop tasks),
        .taskReturned t])
  else
    (b.feedDog now, [.commandWritten t, .generationIncremented tasks, .taskReturned t])

/-- The watchdog of `ControlLoopStep`. -/
def watchdog (cfg : BrainConfig n) (now : ℤ) (b : Brain n H) : Brain n H × List (Output n) :=
  if b.HeartbeatExpired cfg now then
    let b := b.noteExpiry
    if b.metrics.currentState = .executing then
      (b.lowerToStanding.zeroVelocity, [.heartbeatExpired, .lowered])
    else (b, [.heartbeatExpired])
  else (b, [])

/-- The reset of the policy memory when the simulator has been reset. -/
def detectReset (cfg : BrainConfig n) (env : Environment n H) (prop : Proprioception n)
    (b : Brain n H) : Brain n H × List (Output n) :=
  if b.SimulatorReset prop then
    ((((b.storeGravity prop).resetHiddenState env).fillPrevActions).resetJointTargets cfg,
      [.hiddenStateReset, .prevActionsReset, .jointTargetsReset])
  else (b.storeGravity prop, [])

/-- The frame that a tick builds from the state before the ramp. -/
def rampedFrame (cfg : BrainConfig n) (now : ℤ) (state : RobotState) (prop : Proprioception n)
    (b : Brain n H) : Frame n :=
  (b.rampVelocity cfg now).snapshot state prop b.velocityCmd (b.timeStep now)

/-- The part of `ControlLoopStep` between the validity check and the end: reset detection, velocity
ramp, snapshot and enqueueing. -/
def captureFrame (cfg : BrainConfig n) (env : Environment n H) (now : ℤ) (state : RobotState)
    (prop : Proprioception n) (b : Brain n H) : Brain n H × List (Output n) :=
  let (b, resets) := b.detectReset cfg env prop
  let f := b.rampedFrame cfg now state prop
  let b := b.rampVelocity cfg now
  if b.inferenceQueue.length < maxQueue then (b.enqueue f, resets ++ [.captured f])
  else ((b.setInferring false).countDropped, resets)

/-- `AIBrain::ControlLoopStep` at the time `now`, `prop` being the latest proprioception. -/
def controlLoopStep (cfg : BrainConfig n) (env : Environment n H) (now : ℤ)
    (prop : Proprioception n) (b : Brain n H) : Brain n H × List (Output n) :=
  let (b, fallback) := b.watchdog cfg now
  let state := b.metrics.currentState
  if state = .executing ∨ state = .standing then
    if b.isInferring then (b.countDropped, fallback)
    else
      let b := b.setInferring true
      if prop.valid then
        let (b, out) := b.captureFrame cfg env now state prop
        (b, fallback ++ out)
      else (b.setInferring false, fallback)
  else (b, fallback ++ [.published cfg.defaultJointPositions .inactive])

/-- The inference closure of a frame, ending at the time `now`. -/
def inferenceClosure (cfg : BrainConfig n) (env : Environment n H) (f : Frame n) (outcome : Outcome)
    (now : ℤ) (b : Brain n H) : Brain n H × List (Output n) :=
  let (buffer, pooled, b) := b.acquireBuffer cfg
  let obs := b.observation cfg env f buffer
  if outcome = .forwardThrows then
    ((b.releaseBuffer obs pooled).setInferring false, [.forwarded obs])
  else
    let actions := (env.forward obs b.hiddenState).1
    let b := b.storeHiddenState (env.forward obs b.hiddenState).2
    if outcome = .targetsThrow then
      ((b.releaseBuffer obs pooled).setInferring false, [.forwarded obs])
    else
      let targets := jointTargets cfg f.profile actions
      if f.myGeneration = b.taskGeneration then
        let targets := applyRateLimit cfg b.lastJointTargets targets
        if outcome = .publishThrows then
          ((b.releaseBuffer obs pooled).setInferring false, [.forwarded obs])
        else
          let b := b.feedDog now
          let b := b.writeBackActions actions
          let b := b.writeBackTargets targets
          let b := b.countFrame
          ((b.releaseBuffer obs pooled).setInferring false,
            [.forwarded obs, .published targets (.inference f), .applied f obs actions])
      else
        ((b.countStale.releaseBuffer obs pooled).setInferring false,
          [.forwarded obs, .discarded f])

/-! ### What a task can do -/

/-- The part of `ProcessRobotTask` common to all task types. -/
def acceptTask (t : Task) (b : Brain n H) : Brain n H :=
  ((((b.writeCommand t).incrementGeneration t).storeGeneration (b.taskGeneration + 1)).storeTaskType
    t.type).storeTaskState t

/-- The results of `ProcessRobotTask`. -/
inductive TaskResult (cfg : BrainConfig n) (env : Environment n H) (t : Task) (now : ℤ)
    (b : Brain n H) : Brain n H × List (Output n) → Prop
  | stop (ht : t.type = .emergencyStop) : TaskResult cfg env t now b
      (((((b.acceptTask t).fillPrevActions).resetHiddenState env).resetJointTargets cfg).feedDog
          now,
        [.commandWritten t, .generationIncremented (b.history.tasks ++ [t]).length,
          .prevActionsReset, .hiddenStateReset, .jointTargetsReset,
          .published cfg.defaultJointPositions (.emergencyStop (b.history.tasks ++ [t]).length),
          .taskReturned t])
  | motion (ht : t.type ≠ .emergencyStop) : TaskResult cfg env t now b
      ((b.acceptTask t).feedDog now,
        [.commandWritten t, .generationIncremented (b.history.tasks ++ [t]).length,
          .taskReturned t])

theorem taskResult (cfg : BrainConfig n) (env : Environment n H) (t : Task) (now : ℤ)
    (b : Brain n H) : TaskResult cfg env t now b (b.processRobotTask cfg env t now) := by
  unfold processRobotTask
  split_ifs with ht
  · exact .stop ht
  · exact .motion ht

/-! ### What a control tick can do -/

/-- The results of the watchdog. -/
inductive WatchdogResult (b : Brain n H) : Brain n H × List (Output n) → Prop
  | quiet : WatchdogResult b (b, [])
  | expired : WatchdogResult b (b.noteExpiry, [.heartbeatExpired])
  | fallback (hstate : b.metrics.currentState = .executing) :
      WatchdogResult b (b.noteExpiry.lowerToStanding.zeroVelocity, [.heartbeatExpired, .lowered])

theorem watchdogResult (cfg : BrainConfig n) (now : ℤ) (b : Brain n H) :
    WatchdogResult b (b.watchdog cfg now) := by
  by_cases hexpired : b.HeartbeatExpired cfg now
  · by_cases hstate : b.noteExpiry.metrics.currentState = .executing
    · simp only [watchdog, hexpired, hstate, if_true]
      exact .fallback hstate
    · simp only [watchdog, hexpired, hstate, if_true, if_false]
      exact .expired
  · simp only [watchdog, hexpired, if_false]
    exact .quiet

section Watchdog

/-! The watchdog writes the velocity command, the state and nothing else. -/

variable {b : Brain n H} {w : Brain n H × List (Output n)} (h : WatchdogResult b w)

include h

theorem WatchdogResult.currentTaskType : w.1.currentTaskType = b.currentTaskType := by
  cases h <;> rfl

theorem WatchdogResult.isInferring : w.1.isInferring = b.isInferring := by
  cases h <;> rfl

theorem WatchdogResult.currentVelCmd : w.1.currentVelCmd = b.currentVelCmd := by
  cases h <;> rfl

theorem WatchdogResult.inferenceQueue : w.1.inferenceQueue = b.inferenceQueue := by
  cases h <;> rfl

end Watchdog

/-- The results of reset detection. -/
inductive ResetResult (cfg : BrainConfig n) (env : Environment n H) (prop : Proprioception n)
    (b : Brain n H) : Brain n H × List (Output n) → Prop
  | reset (h : b.SimulatorReset prop) : ResetResult cfg env prop b
      ((((b.storeGravity prop).resetHiddenState env).fillPrevActions).resetJointTargets cfg,
        [.hiddenStateReset, .prevActionsReset, .jointTargetsReset])
  | noReset (h : ¬b.SimulatorReset prop) : ResetResult cfg env prop b (b.storeGravity prop, [])

theorem resetResult (cfg : BrainConfig n) (env : Environment n H) (prop : Proprioception n)
    (b : Brain n H) : ResetResult cfg env prop b (b.detectReset cfg env prop) := by
  unfold detectReset
  split_ifs with h
  · exact .reset h
  · exact .noReset h

section Reset

/-! Reset detection writes the policy memory, the baseline of the rate limit, the last gravity and
nothing else. -/

variable {cfg : BrainConfig n} {env : Environment n H} {prop : Proprioception n} {b : Brain n H}
  {r : Brain n H × List (Output n)} (h : ResetResult cfg env prop b r)

include h

theorem ResetResult.currentTaskType : r.1.currentTaskType = b.currentTaskType := by
  cases h <;> rfl

theorem ResetResult.velocityCmd : r.1.velocityCmd = b.velocityCmd := by
  cases h <;> rfl

theorem ResetResult.isInferring : r.1.isInferring = b.isInferring := by
  cases h <;> rfl

theorem ResetResult.currentVelCmd : r.1.currentVelCmd = b.currentVelCmd := by
  cases h <;> rfl

theorem ResetResult.inferenceQueue : r.1.inferenceQueue = b.inferenceQueue := by
  cases h <;> rfl

theorem ResetResult.metrics : r.1.metrics = b.metrics := by
  cases h <;> rfl

end Reset

/-- The results of a control tick, from the result `w` of its watchdog. -/
inductive TickResult (cfg : BrainConfig n) (env : Environment n H) (now : ℤ)
    (prop : Proprioception n) (w : Brain n H × List (Output n)) :
    Brain n H × List (Output n) → Prop
  /-- An inference is running: the tick is dropped. -/
  | busy (hgate : w.1.isInferring = true) : TickResult cfg env now prop w (w.1.countDropped, w.2)
  /-- The proprioception is not complete: nothing is published. -/
  | invalid (hgate : w.1.isInferring = false) (hvalid : prop.valid = false) :
      TickResult cfg env now prop w ((w.1.setInferring true).setInferring false, w.2)
  /-- A frame is enqueued. -/
  | captured (hstate : w.1.metrics.currentState = .executing ∨
        w.1.metrics.currentState = .standing)
      (hgate : w.1.isInferring = false) (hvalid : prop.valid = true)
      {r : Brain n H × List (Output n)} (hr : ResetResult cfg env prop (w.1.setInferring true) r)
      (hroom : r.1.inferenceQueue.length < maxQueue) :
      TickResult cfg env now prop w
        ((r.1.rampVelocity cfg now).enqueue
            (r.1.rampedFrame cfg now w.1.metrics.currentState prop),
          w.2 ++ (r.2 ++ [.captured (r.1.rampedFrame cfg now w.1.metrics.currentState prop)]))
  /-- The queue of the inference pool is full. -/
  | full (hgate : w.1.isInferring = false)
      {r : Brain n H × List (Output n)} (hr : ResetResult cfg env prop (w.1.setInferring true) r)
      (hfull : maxQueue ≤ r.1.inferenceQueue.length) :
      TickResult cfg env now prop w
        (((r.1.rampVelocity cfg now).setInferring false).countDropped, w.2 ++ r.2)
  /-- The states `IDLE` and `ERROR`. -/
  | inactive (hexec : w.1.metrics.currentState ≠ .executing)
      (hstand : w.1.metrics.currentState ≠ .standing) :
      TickResult cfg env now prop w
        (w.1, w.2 ++ [.published cfg.defaultJointPositions .inactive])

theorem tickResult (cfg : BrainConfig n) (env : Environment n H) (now : ℤ)
    (prop : Proprioception n) (b : Brain n H) :
    TickResult cfg env now prop (b.watchdog cfg now) (b.controlLoopStep cfg env now prop) := by
  unfold controlLoopStep
  generalize b.watchdog cfg now = w
  by_cases hstate : w.1.metrics.currentState = .executing ∨ w.1.metrics.currentState = .standing
  · cases hgate : w.1.isInferring with
    | true =>
      simp only [hstate, hgate, if_true]
      exact .busy hgate
    | false =>
      cases hvalid : prop.valid with
      | false =>
        simp only [hstate, hgate, if_true, Bool.false_eq_true, if_false]
        exact .invalid hgate hvalid
      | true =>
        simp only [hstate, hgate, if_true, Bool.false_eq_true, if_false, captureFrame]
        have hr := (w.1.setInferring true).resetResult cfg env prop
        split_ifs with hroom
        · exact .captured hstate hgate hvalid hr hroom
        · exact .full hgate hr (not_lt.mp hroom)
  · simp only [hstate, if_false]
    rw [not_or] at hstate
    exact .inactive hstate.1 hstate.2

/-! ### What an inference closure can do -/

/-- The observation that the closure of a frame hands to `Forward`. -/
def nextObservation (cfg : BrainConfig n) (env : Environment n H) (f : Frame n) (b : Brain n H) :
    List Scalar :=
  (b.acquireBuffer cfg).2.2.observation cfg env f (b.acquireBuffer cfg).1

/-- The actions that `Forward` returns to the closure of a frame. -/
def nextActions (cfg : BrainConfig n) (env : Environment n H) (f : Frame n) (b : Brain n H) :
    Actions n :=
  (env.forward (b.nextObservation cfg env f) b.hiddenState).1

/-- The recurrent state that `Forward` leaves. -/
def nextHiddenState (cfg : BrainConfig n) (env : Environment n H) (f : Frame n) (b : Brain n H) :
    H :=
  (env.forward (b.nextObservation cfg env f) b.hiddenState).2

/-- The rate-limited targets that the closure of a frame publishes. -/
def nextTargets (cfg : BrainConfig n) (env : Environment n H) (f : Frame n) (b : Brain n H) :
    Fin n → Scalar :=
  applyRateLimit cfg b.lastJointTargets (jointTargets cfg f.profile (b.nextActions cfg env f))

/-- The buffer pool after a closure: the loan is returned, holding the observation. -/
def poolAfter (cfg : BrainConfig n) (env : Environment n H) (f : Frame n) (b : Brain n H) :
    List (List Scalar) :=
  match b.tensorPool with
  | [] => []
  | _ :: pool => b.nextObservation cfg env f :: pool

/-- The results of an inference closure, field by field. -/
inductive InferResult (cfg : BrainConfig n) (env : Environment n H) (f : Frame n) (now : ℤ)
    (b : Brain n H) : Outcome → Brain n H × List (Output n) → Prop
  | forwardThrew : InferResult cfg env f now b .forwardThrows
      ({ b with tensorPool := b.poolAfter cfg env f, isInferring := false },
        [.forwarded (b.nextObservation cfg env f)])
  /-- An exception after `Forward` and before publishing. -/
  | failed {outcome : Outcome} (h : outcome = .targetsThrow ∨
        outcome = .publishThrows ∧ f.myGeneration = b.taskGeneration) :
      InferResult cfg env f now b outcome
        ({ b with
            hiddenState := b.nextHiddenState cfg env f
            tensorPool := b.poolAfter cfg env f
            isInferring := false },
          [.forwarded (b.nextObservation cfg env f)])
  | applied (hgen : f.myGeneration = b.taskGeneration) :
      InferResult cfg env f now b .completes
        ({ b with
            hiddenState := b.nextHiddenState cfg env f
            tensorPool := b.poolAfter cfg env f
            isInferring := false
            lastHeartbeatMs := now
            prevActions := (b.nextActions cfg env f).joint
            lastJointTargets := b.nextTargets cfg env f
            metrics := { b.metrics with totalFrames := b.metrics.totalFrames + 1 } },
          [.forwarded (b.nextObservation cfg env f),
            .published (b.nextTargets cfg env f) (.inference f),
            .applied f (b.nextObservation cfg env f) (b.nextActions cfg env f)])
  | superseded {outcome : Outcome} (hout : outcome = .completes ∨ outcome = .publishThrows)
      (hgen : f.myGeneration ≠ b.taskGeneration) :
      InferResult cfg env f now b outcome
        ({ b with
            hiddenState := b.nextHiddenState cfg env f
            tensorPool := b.poolAfter cfg env f
            isInferring := false
            metrics := { b.metrics with staleFrames := b.metrics.staleFrames + 1 } },
          [.forwarded (b.nextObservation cfg env f), .discarded f])

theorem inferResult (cfg : BrainConfig n) (env : Environment n H) (f : Frame n) (outcome : Outcome)
    (now : ℤ) (b : Brain n H) :
    InferResult cfg env f now b outcome (b.inferenceClosure cfg env f outcome now) := by
  obtain ⟨type, vel, gen, inferring, heartbeat, control, gravity, current, prev, last, hidden, pool,
    queue, metrics, history⟩ := b
  -- whether the loan comes from the pool or not, both sides are the same record
  cases outcome with
  | forwardThrows => cases pool <;> exact .forwardThrew
  | targetsThrow => cases pool <;> exact .failed (Or.inl rfl)
  | publishThrows =>
    by_cases hgen : f.myGeneration = gen
    · cases pool <;> simp only [inferenceClosure, acquireBuffer, storeHiddenState, hgen,
        reduceCtorEq, if_true, if_false] <;> exact .failed (Or.inr ⟨rfl, hgen⟩)
    · cases pool <;> simp only [inferenceClosure, acquireBuffer, storeHiddenState, hgen,
        reduceCtorEq, if_false] <;> exact .superseded (Or.inr rfl) hgen
  | completes =>
    by_cases hgen : f.myGeneration = gen
    · cases pool <;> simp only [inferenceClosure, acquireBuffer, storeHiddenState, hgen,
        reduceCtorEq, if_true, if_false] <;> exact .applied hgen
    · cases pool <;> simp only [inferenceClosure, acquireBuffer, storeHiddenState, hgen,
        reduceCtorEq, if_false] <;> exact .superseded (Or.inl rfl) hgen

/-- A closure leaves the queue of the inference pool alone. -/
theorem InferResult.inferenceQueue {cfg : BrainConfig n} {env : Environment n H} {f : Frame n}
    {outcome : Outcome} {now : ℤ} {b : Brain n H} {r : Brain n H × List (Output n)}
    (h : InferResult cfg env f now b outcome r) : r.1.inferenceQueue = b.inferenceQueue := by
  cases h <;> rfl

end Brain

/-- The inputs of the machine with whole calls as steps. -/
inductive Event (n : ℕ)
  /-- `ProcessRobotTask`, returning at the time `now`. -/
  | task (t : Task) (now : ℤ)
  /-- `ControlLoopStep` at the time `now`. -/
  | tick (now : ℤ) (prop : Proprioception n)
  /-- The worker runs the closure at the head of the queue. -/
  | infer (outcome : Outcome) (now : ℤ)

/-- One call. -/
def Brain.step (cfg : BrainConfig n) (env : Environment n H) (b : Brain n H) :
    Event n → Option (Brain n H × List (Output n))
  | .task t now => some (b.processRobotTask cfg env t now)
  | .tick now prop => some (b.controlLoopStep cfg env now prop)
  | .infer outcome now =>
    match b.inferenceQueue with
    | [] => none
    | f :: q => some ((b.dequeue q).inferenceClosure cfg env f outcome now)

/-- The results of a call. -/
inductive Brain.StepResult (cfg : BrainConfig n) (env : Environment n H) (b : Brain n H) :
    Event n → Brain n H × List (Output n) → Prop
  | task {t : Task} {now : ℤ} {r : Brain n H × List (Output n)}
      (h : TaskResult cfg env t now b r) : StepResult cfg env b (.task t now) r
  | tick {now : ℤ} {prop : Proprioception n} {w r : Brain n H × List (Output n)}
      (heq : b.watchdog cfg now = w) (hw : WatchdogResult b w)
      (h : TickResult cfg env now prop w r) : StepResult cfg env b (.tick now prop) r
  | infer {outcome : Outcome} {now : ℤ} {f : Frame n} {q : List (Frame n)}
      {r : Brain n H × List (Output n)} (hq : b.inferenceQueue = f :: q)
      (h : InferResult cfg env f now (b.dequeue q) outcome r) :
      StepResult cfg env b (.infer outcome now) r

theorem Brain.stepResult {cfg : BrainConfig n} {env : Environment n H} {b : Brain n H} {e : Event n}
    {r : Brain n H × List (Output n)} (h : b.step cfg env e = some r) :
    StepResult cfg env b e r := by
  cases e with
  | task t now =>
    obtain rfl := Option.some.inj h
    exact .task (b.taskResult cfg env t now)
  | tick now prop =>
    obtain rfl := Option.some.inj h
    exact .tick rfl (b.watchdogResult cfg now) (b.tickResult cfg env now prop)
  | infer outcome now =>
    unfold step at h
    cases hq : b.inferenceQueue with
    | nil => simp [hq] at h
    | cons f q =>
      simp only [hq, Option.some.injEq] at h
      subst h
      exact .infer hq ((b.dequeue q).inferResult cfg env f outcome now)

/-- The brain as a machine whose steps are whole calls, started at the time `now`. -/
def atomic (cfg : BrainConfig n) (env : Environment n H) (now : ℤ) :
    Machine (Brain n H) (Event n) (Output n) where
  init := Brain.initial cfg env now
  step b e := b.step cfg env e

/-- A control tick and the closure of the frame that it captures. -/
def frameEvents (now : ℤ) (prop : Proprioception n) : List (Event n) :=
  [.tick now prop, .infer .completes now]

/-! ### The gate -/

/-- At most one frame is queued, and none while the gate is open. -/
def Brain.Gated (b : Brain n H) : Prop :=
  b.inferenceQueue.length ≤ 1 ∧ (b.isInferring = false → b.inferenceQueue = [])

theorem Brain.Gated.eq_nil_of_cons {b : Brain n H} (hb : b.Gated) {f : Frame n}
    {q : List (Frame n)} (hq : b.inferenceQueue = f :: q) : q = [] := by
  have hlen := hb.1
  rw [hq, List.length_cons] at hlen
  exact List.eq_nil_of_length_eq_zero (by omega)

theorem Brain.StepResult.gated {cfg : BrainConfig n} {env : Environment n H} {b : Brain n H}
    {e : Event n} {r : Brain n H × List (Output n)} (h : StepResult cfg env b e r)
    (hb : b.Gated) : r.1.Gated := by
  obtain ⟨hlen, hopen⟩ := hb
  cases h with
  | task h => cases h <;> exact ⟨hlen, hopen⟩
  | tick _ hw h =>
    have hqueue := hw.inferenceQueue
    have hinfer := hw.isInferring
    cases h with
    | busy => exact ⟨hqueue ▸ hlen, fun h => hqueue.trans (hopen (hinfer ▸ h))⟩
    | invalid hgate => exact ⟨hqueue ▸ hlen, fun _ => hqueue.trans (hopen (hinfer ▸ hgate))⟩
    | inactive => exact ⟨hqueue ▸ hlen, fun h => hqueue.trans (hopen (hinfer ▸ h))⟩
    | captured _ hgate _ hr =>
      have hempty := hr.inferenceQueue.trans (hqueue.trans (hopen (hinfer ▸ hgate)))
      have hclosed := hr.isInferring
      refine ⟨?_, fun h => Bool.noConfusion (hclosed.symm.trans h)⟩
      exact (congrArg List.length (congrArg (· ++ [_]) hempty)).le
    | full hgate hr hfull =>
      have hempty := hr.inferenceQueue.trans (hqueue.trans (hopen (hinfer ▸ hgate)))
      rw [hempty] at hfull
      exact absurd hfull (Nat.not_succ_le_zero 9)
  | infer hq h =>
    obtain rfl := Gated.eq_nil_of_cons ⟨hlen, hopen⟩ hq
    cases h <;> exact ⟨Nat.zero_le 1, fun _ => rfl⟩

/-- The gate is kept by every call. -/
theorem gated_of_reaches {cfg : BrainConfig n} {env : Environment n H} {now : ℤ}
    {ok : Brain n H → List (Output n) → Event n → Prop} {es : List (Event n)} {b : Brain n H}
    {tr : List (Output n)} (h : (atomic cfg env now).Reaches ok es b tr) : b.Gated := by
  refine h.invariant (fun b _ => b.Gated) ⟨Nat.zero_le 1, fun _ => rfl⟩ ?_
  intro es b tr e b' out _ hb _ hs
  exact (Brain.stepResult hs).gated hb

/-! ### The state -/

/-- The states that the brain reaches; `IDLE` and `ERROR` are never stored while it runs. -/
def Brain.Active (b : Brain n H) : Prop :=
  b.metrics.currentState = .executing ∨ b.metrics.currentState = .standing

theorem Task.state_active (t : Task) : t.state = .executing ∨ t.state = .standing := by
  unfold Task.state
  split_ifs
  · exact Or.inr rfl
  · exact Or.inl rfl

theorem Brain.WatchdogResult.active {b : Brain n H} {w : Brain n H × List (Output n)}
    (h : WatchdogResult b w) (hb : b.Active) : w.1.Active := by
  cases h with
  | quiet | expired => exact hb
  | fallback => exact Or.inr rfl

theorem Brain.StepResult.active {cfg : BrainConfig n} {env : Environment n H} {b : Brain n H}
    {e : Event n} {r : Brain n H × List (Output n)} (h : StepResult cfg env b e r)
    (hb : b.Active) : r.1.Active := by
  cases h with
  | @task t _ _ h => cases h <;> exact t.state_active
  | tick _ hw h =>
    cases h with
    | busy | invalid | inactive => exact hw.active hb
    | captured _ _ _ hr | full _ hr =>
      have hmetrics := hr.metrics
      simp only [Active, enqueue, countDropped, setInferring, rampVelocity, hmetrics]
      exact hw.active hb
  | infer _ h => cases h <;> exact hb

theorem active_of_reaches {cfg : BrainConfig n} {env : Environment n H} {now : ℤ}
    {ok : Brain n H → List (Output n) → Event n → Prop} {es : List (Event n)} {b : Brain n H}
    {tr : List (Output n)} (h : (atomic cfg env now).Reaches ok es b tr) : b.Active := by
  refine h.invariant (fun b _ => b.Active) (Or.inr rfl) ?_
  intro es b tr e b' out _ hb _ hs
  exact (Brain.stepResult hs).active hb

/-! ### The steps of a run -/

/-- The results of a control tick in a run, where the state is active and the queue has room. -/
inductive Brain.RunTick (cfg : BrainConfig n) (env : Environment n H) (now : ℤ)
    (prop : Proprioception n) (w : Brain n H × List (Output n)) :
    Brain n H × List (Output n) → Prop
  | busy (hgate : w.1.isInferring = true) : RunTick cfg env now prop w (w.1.countDropped, w.2)
  | invalid (hgate : w.1.isInferring = false) (hvalid : prop.valid = false) :
      RunTick cfg env now prop w ((w.1.setInferring true).setInferring false, w.2)
  | captured (hstate : w.1.Active) (hgate : w.1.isInferring = false) (hvalid : prop.valid = true)
      {r : Brain n H × List (Output n)} (hr : ResetResult cfg env prop (w.1.setInferring true) r) :
      RunTick cfg env now prop w
        ((r.1.rampVelocity cfg now).enqueue
            (r.1.rampedFrame cfg now w.1.metrics.currentState prop),
          w.2 ++ (r.2 ++ [.captured (r.1.rampedFrame cfg now w.1.metrics.currentState prop)]))

/-- The results of a call in a run, where the worker empties the queue. -/
inductive Brain.RunStep (cfg : BrainConfig n) (env : Environment n H) (b : Brain n H) :
    Event n → Brain n H × List (Output n) → Prop
  | task {t : Task} {now : ℤ} {r : Brain n H × List (Output n)}
      (h : TaskResult cfg env t now b r) : RunStep cfg env b (.task t now) r
  | tick {now : ℤ} {prop : Proprioception n} {w r : Brain n H × List (Output n)}
      (heq : b.watchdog cfg now = w) (hw : WatchdogResult b w)
      (h : RunTick cfg env now prop w r) : RunStep cfg env b (.tick now prop) r
  | infer {outcome : Outcome} {now : ℤ} {f : Frame n} {r : Brain n H × List (Output n)}
      (hq : b.inferenceQueue = [f]) (h : InferResult cfg env f now (b.dequeue []) outcome r) :
      RunStep cfg env b (.infer outcome now) r

theorem Brain.runStep {cfg : BrainConfig n} {env : Environment n H} {now : ℤ}
    {ok : Brain n H → List (Output n) → Event n → Prop} {es : List (Event n)} {b : Brain n H}
    {tr : List (Output n)} (h : (atomic cfg env now).Reaches ok es b tr) {e : Event n}
    {r : Brain n H × List (Output n)} (hs : b.step cfg env e = some r) : RunStep cfg env b e r := by
  cases stepResult hs with
  | task hr => exact .task hr
  | infer hq hr =>
    obtain rfl := (gated_of_reaches h).eq_nil_of_cons hq
    exact .infer hq hr
  | tick heq hw hr =>
    refine .tick heq hw ?_
    cases hr with
    | busy hgate => exact .busy hgate
    | invalid hgate hvalid => exact .invalid hgate hvalid
    | captured hstate hgate hvalid hr => exact .captured hstate hgate hvalid hr
    | full hgate hr hfull =>
      have hopen := (gated_of_reaches h).2 (hw.isInferring ▸ hgate)
      rw [hr.inferenceQueue.trans (hw.inferenceQueue.trans hopen)] at hfull
      exact absurd hfull (Nat.not_succ_le_zero 9)
    | inactive hexec hstand =>
      exact absurd (hw.active (active_of_reaches h)) (not_or.mpr ⟨hexec, hstand⟩)

end RobotBrain
