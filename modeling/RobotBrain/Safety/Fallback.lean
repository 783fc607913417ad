import RobotBrain.Brain.Threads
import RobotBrain.Library.Trace

/-!
# The watchdog and newer tasks

The watchdog compares the heartbeat, loads the state, stores `STANDING` and zeroes the velocity
command in four accesses, and `ProcessRobotTask` writes the same fields and feeds the watchdog in
five others. A task that arrives after the comparison has found the heartbeat too old is undone by
the fallback decided before it. If no call of a motion task overlaps such a fallback, every task
that has returned stays in force until the next task or an expiry found after it.

## Main definitions

* `acceptedTask` — the motion task that must be in force.
* `Threads.FallbackApart` — the step does not let a motion task overlap a fallback.

## Main results

* `acceptedTask_inForce` — the task is in force in every interleaving whose steps are of this kind.
* `exists_task_undone` — a task undone by a fallback decided before it.
-/

namespace RobotBrain

open ExtNum

variable {n : ℕ} {H : Type*} {cfg : BrainConfig n} {env : Environment n H}

/-- What an output says about the task that must be in force: the return of a motion task puts it in
force, and a new command, the return of a stop or an expired heartbeat end that. -/
def Output.accepted : Output n → Option (Option Task)
  | .taskReturned t => some (if t.type = .emergencyStop then none else some t)
  | .commandWritten _ | .heartbeatExpired => some none
  | _ => none

/-- The motion task whose call has returned, if since then no task has been processed and no control
tick has found the heartbeat too old. -/
def acceptedTask (tr : List (Output n)) : Option Task :=
  (latest Output.accepted tr).getD none

/-- The watchdog has found the heartbeat too old and has not finished its fallback. -/
def ControlPc.inFallback : ControlPc n → Bool
  | .watchdogLoadState _ | .watchdogStoreState _ | .watchdogZeroVelocity _ => true
  | _ => false

/-- The time with which the watchdog is about to compare the heartbeat. -/
def ControlPc.comparing : ControlPc n → Option ℤ
  | .loadHeartbeat now => some now
  | _ => none

/-- The task that the RPC thread is processing. -/
def RpcPc.task : RpcPc → Option Task
  | .idle => none
  | .incrementGeneration t | .storeGeneration t _ | .storeTaskType t | .storeState t
  | .fillPrevActions t | .resetHiddenState t | .resetJointTargets t | .publishDefault t
  | .feedDog t => some t

namespace Threads

/-- No motion task is called during a fallback, and no heartbeat is found too old during the call of
one. -/
def FallbackApart (cfg : BrainConfig n) (s : Threads n H) : ThreadEvent n → Prop
  | .call t => t.type ≠ .emergencyStop → s.control.inFallback = false
  | .control _ => ∀ now ∈ s.control.comparing, s.brain.HeartbeatExpired cfg now →
    ∀ t ∈ s.rpc.task, t.type = .emergencyStop
  | _ => True

instance (s : Threads n H) : (e : ThreadEvent n) → Decidable (s.FallbackApart cfg e)
  | .call _ => inferInstanceAs (Decidable (_ → _))
  | .control _ => inferInstanceAs (Decidable (∀ now ∈ s.control.comparing, _ → _))
  | .rpc _ | .tick _ | .dequeue | .worker _ _ => .isTrue trivial

/-- The state of a motion task in force. -/
def InForce (t : Task) (b : Brain n H) : Prop :=
  b.metrics.currentState = .executing ∧ b.velocityCmd = t.velCmd

/-- The RPC thread is past the branch for emergency stops only with an emergency stop. -/
def StopBranch : RpcPc → Prop
  | .fillPrevActions t | .resetHiddenState t | .resetJointTargets t | .publishDefault t =>
    t.type = .emergencyStop
  | _ => True

/-- An accepted task is in force, and so is the command of the motion task being processed, while no
fallback is under way. -/
structure FallbackInv (s : Threads n H) (tr : List (Output n)) : Prop where
  accepted : ∀ t ∈ acceptedTask tr,
    s.rpc = .idle ∧ InForce t s.brain ∧ s.control.inFallback = false
  calling : ∀ t ∈ s.rpc.task, t.type ≠ .emergencyStop →
    s.brain.velocityCmd = t.velCmd ∧ s.control.inFallback = false
  stored : ∀ t, s.rpc = .feedDog t → t.type ≠ .emergencyStop →
    s.brain.metrics.currentState = .executing
  branch : StopBranch s.rpc

/-! ### Who writes the state and the velocity command -/

/-- Outside a fallback the control thread writes neither the state nor the velocity command, and it
enters one only when it finds the heartbeat too old. -/
theorem ControlResult.fallback {prop : Proprioception n} {b b' : Brain n H} {pc pc' : ControlPc n}
    {out : List (Output n)} (h : ControlResult cfg env prop b pc b' pc' out) :
    (latest Output.accepted out = some none ∧ ∃ now ∈ pc.comparing, b.HeartbeatExpired cfg now) ∧
        b'.metrics = b.metrics ∧ b'.velocityCmd = b.velocityCmd ∨
      latest Output.accepted out = none ∧ (pc.inFallback = false → pc'.inFallback = false ∧
        b'.metrics.currentState = b.metrics.currentState ∧ b'.velocityCmd = b.velocityCmd) := by
  cases h
  case heartbeatExpired now hexpired => exact Or.inl ⟨⟨rfl, now, rfl, hexpired⟩, rfl, rfl⟩
  case watchdogExecuting | watchdogOther | watchdogStoreState | watchdogZeroVelocity =>
    exact Or.inr ⟨rfl, fun h => Bool.noConfusion h⟩
  all_goals exact Or.inr ⟨rfl, fun _ => ⟨rfl, rfl, rfl⟩⟩

/-- The worker writes neither the state nor the command nor the ramped velocity. -/
theorem WorkerResult.command {now : ℤ} {b b' : Brain n H} {pc pc' : WorkerPc n}
    {out : List (Output n)} (h : WorkerResult cfg env now b pc b' pc' out) :
    latest Output.accepted out = none ∧ b'.metrics.currentState = b.metrics.currentState ∧
      b'.velocityCmd = b.velocityCmd ∧ b'.currentTaskType = b.currentTaskType ∧
        b'.currentVelCmd = b.currentVelCmd := by
  cases h
  case forward | forwardThrew =>
    rw [Brain.acquireBuffer_brain]
    exact ⟨rfl, rfl, rfl, rfl, rfl⟩
  case releaseBuffer =>
    rw [Brain.releaseBuffer_eq]
    exact ⟨rfl, rfl, rfl, rfl, rfl⟩
  all_goals exact ⟨rfl, rfl, rfl, rfl, rfl⟩

/-! ### The invariant -/

private theorem acceptedTask_append {tr out : List (Output n)}
    (hout : latest Output.accepted out = none) : acceptedTask (tr ++ out) = acceptedTask tr := by
  rw [acceptedTask, getD_latest_append, hout]
  rfl

/-- An access of the RPC thread in the middle of a call. -/
private theorem FallbackInv.rpc {s : Threads n H} {tr : List (Output n)} (h : FallbackInv s tr)
    {now : ℤ} {b : Brain n H} {pc : RpcPc} {out : List (Output n)}
    (hr : RpcResult cfg env now s.brain s.rpc b pc out) :
    FallbackInv { s with brain := b, rpc := pc } (tr ++ out) := by
  obtain ⟨b₀, rpc, control, worker⟩ := s
  obtain ⟨haccepted, hcalling, hstored, hbranch⟩ := h
  -- no task is accepted during a call
  have hnone {out : List (Output n)} (hrpc : rpc ≠ .idle)
      (hout : latest Output.accepted out = none) {t : Task} (ht : t ∈ acceptedTask (tr ++ out)) :
      False := by
    rw [acceptedTask_append hout] at ht
    exact hrpc (haccepted t ht).1
  cases hr
  case feedDog t =>
    refine ⟨fun t' ht' => ?_, by rintro t' ⟨⟩, by rintro t' ⟨⟩, trivial⟩
    have hlast : acceptedTask (tr ++ [.taskReturned t]) =
        if t.type = .emergencyStop then none else some t := by
      rw [acceptedTask, getD_latest_concat]
      rfl
    rw [hlast] at ht'
    split_ifs at ht' with hstop
    · cases ht'
    · obtain rfl : t = t' := Option.some.inj ht'
      obtain ⟨hvel, hapart⟩ := hcalling t rfl hstop
      exact ⟨rfl, ⟨hstored t rfl hstop, hvel⟩, hapart⟩
  case storeStateMotion t ht =>
    refine ⟨fun t' ht' => (hnone nofun rfl ht').elim, hcalling, ?_, trivial⟩
    rintro t' ⟨⟩ -
    exact if_neg ht
  case storeStateStop t ht =>
    exact ⟨fun t' ht' => (hnone nofun rfl ht').elim, hcalling, by rintro t' ⟨⟩, ht⟩
  case publishDefault t =>
    refine ⟨fun t' ht' => (hnone nofun rfl ht').elim, hcalling, ?_, trivial⟩
    rintro t' ⟨⟩ hmotion
    exact absurd hbranch hmotion
  all_goals
    exact ⟨fun t' ht' => (hnone nofun rfl ht').elim, hcalling, by rintro t' ⟨⟩, hbranch⟩

private theorem FallbackInv.control {s : Threads n H} {tr : List (Output n)} (h : FallbackInv s tr)
    {prop : Proprioception n} (hapart : s.FallbackApart cfg (.control prop)) {b : Brain n H}
    {pc : ControlPc n} {out : List (Output n)}
    (hr : ControlResult cfg env prop s.brain s.control b pc out) :
    FallbackInv { s with brain := b, control := pc } (tr ++ out) := by
  rcases hr.fallback with ⟨⟨hout, now, hnow, hexpired⟩, hmetrics, hvel⟩ | ⟨hout, hkeep⟩
  · -- the heartbeat is too old: no task is in force any more, and no motion task is being processed
    have hstop := hapart now hnow hexpired
    refine ⟨fun t ht => ?_, fun t ht hmotion => absurd (hstop t ht) hmotion, ?_, h.branch⟩
    · rw [acceptedTask, getD_latest_append, hout] at ht
      cases ht
    · intro t ht hmotion
      rw [hmetrics]
      exact h.stored t ht hmotion
  · refine ⟨fun t ht => ?_, fun t ht hmotion => ?_, fun t ht hmotion => ?_, h.branch⟩
    · rw [acceptedTask_append hout] at ht
      obtain ⟨hrpc, ⟨hstate, hvel⟩, hfallback⟩ := h.accepted t ht
      obtain ⟨hfallback', hstate', hvel'⟩ := hkeep hfallback
      exact ⟨hrpc, ⟨hstate'.trans hstate, hvel'.trans hvel⟩, hfallback'⟩
    · obtain ⟨hvel, hfallback⟩ := h.calling t ht hmotion
      obtain ⟨hfallback', -, hvel'⟩ := hkeep hfallback
      exact ⟨hvel'.trans hvel, hfallback'⟩
    · have hfallback := (h.calling t (by rw [show s.rpc = .feedDog t from ht]; rfl) hmotion).2
      exact (hkeep hfallback).2.1.trans (h.stored t ht hmotion)

private theorem FallbackInv.step {s : Threads n H} {tr : List (Output n)} {e : ThreadEvent n}
    {r : Threads n H × List (Output n)} (h : FallbackInv s tr) (hapart : s.FallbackApart cfg e)
    (hr : StepResult cfg env s e r) : FallbackInv r.1 (tr ++ r.2) := by
  cases hr with
  | @call t hpc =>
    refine ⟨fun t' ht' => ?_, ?_, by rintro t' ⟨⟩, trivial⟩
    · rw [acceptedTask, getD_latest_concat] at ht'
      cases ht'
    · rintro t' ⟨⟩ hmotion
      exact ⟨rfl, hapart hmotion⟩
  | rpc hr => exact h.rpc hr
  | tick =>
    rw [List.append_nil]
    exact ⟨fun t ht => ⟨(h.accepted t ht).1, (h.accepted t ht).2.1, rfl⟩,
      fun t ht hmotion => ⟨(h.calling t ht hmotion).1, rfl⟩, h.stored, h.branch⟩
  | control hr => exact h.control hapart hr
  | dequeue =>
    rw [List.append_nil]
    exact ⟨h.accepted, h.calling, h.stored, h.branch⟩
  | worker hr =>
    obtain ⟨hout, hstate, hvel, -⟩ := hr.command
    refine ⟨fun t ht => ?_, fun t ht hmotion => ?_, fun t ht hmotion => ?_, h.branch⟩
    · rw [acceptedTask_append hout] at ht
      obtain ⟨hrpc, hforce, hfallback⟩ := h.accepted t ht
      exact ⟨hrpc, ⟨hstate.trans hforce.1, hvel.trans hforce.2⟩, hfallback⟩
    · exact ⟨hvel.trans (h.calling t ht hmotion).1, (h.calling t ht hmotion).2⟩
    · exact hstate.trans (h.stored t ht hmotion)

end Threads

/-- In every interleaving in which no call of a motion task overlaps a fallback of the watchdog:
after every such call that has returned, the state is `EXECUTING` and the velocity command that of
the task, until another task is processed or a control tick finds the heartbeat too old. -/
theorem acceptedTask_inForce {now : ℤ} {es : List (ThreadEvent n)} {s : Threads n H}
    {tr : List (Output n)}
    (h : (threads cfg env now).Reaches (fun s _ e => s.FallbackApart cfg e) es s tr) :
    ∀ t ∈ acceptedTask tr,
      s.brain.metrics.currentState = .executing ∧ s.brain.velocityCmd = t.velCmd := by
  have hinit : Threads.FallbackInv (Threads.rest (Brain.initial cfg env now)) [] :=
    ⟨by rintro t ⟨⟩, by rintro t ⟨⟩, by rintro t ⟨⟩, trivial⟩
  intro t ht
  refine ((h.invariant Threads.FallbackInv hinit ?_).accepted t ht).2.1
  intro es s tr e s' out _ hI hapart hs
  exact hI.step hapart (Threads.stepResult hs)

/-- A motion task with a forward velocity. -/
private def walkTask (velocity : ℚ) : Task := ⟨.navigate, ![fin velocity, fin 0, fin 0]⟩

/-- A whole call of `ProcessRobotTask` for a motion task. -/
private def motionCall (velocity : ℚ) (now : ℤ) : List (ThreadEvent 12) :=
  .call (walkTask velocity) :: List.replicate 5 (.rpc now)

private def isInForce (t : Task) (b : Brain n H) : Bool :=
  decide (b.metrics.currentState = .executing) && decide (b.velocityCmd = t.velCmd)

/-- A task whose heartbeat expires, the whole tick with its fallback, a second task and a tick. -/
private def expiryThenTask : List (ThreadEvent 12) :=
  motionCall 1 10 ++ .tick 600 :: List.replicate 10 (.control (upright shippedConfig)) ++
    motionCall 2 700 ++ .tick 720 :: List.replicate 4 (.control (upright shippedConfig))

/-- The watchdog has lowered the state under the first task; the second is in force. -/
theorem acceptedTask_inForce_walk :
    ∃ s tr, (threads shippedConfig (constantPolicy 12 (fin 0)) 0).Run expiryThenTask s tr ∧
      s.brain.history.lowered = some 1 ∧ ∃ t ∈ acceptedTask tr,
        s.brain.metrics.currentState = .executing ∧ s.brain.velocityCmd = t.velCmd := by
  have hrun : ∃ s tr, (threads shippedConfig (constantPolicy 12 (fin 0)) 0).Reaches
      (fun s _ e => s.FallbackApart shippedConfig e) expiryThenTask s tr ∧
      s.brain.history.lowered = some 1 ∧ (acceptedTask tr).isSome = true :=
    Machine.exists_reaches_of_decide _ (by decide +kernel)
  obtain ⟨s, tr, hrun, hlowered, hsome⟩ := hrun
  obtain ⟨t, ht⟩ := Option.isSome_iff_exists.mp hsome
  exact ⟨s, tr, hrun.run, hlowered, t, ht, acceptedTask_inForce hrun t ht⟩

/-- A task that arrives after the heartbeat of the task before it has been found too old: it
returns, and then the watchdog stores `STANDING` and zeroes its velocity. -/
theorem exists_task_undone :
    ∃ es s tr, (threads shippedConfig (constantPolicy 12 (fin 0)) 0).Run es s tr ∧
      ∃ t ∈ acceptedTask tr,
        ¬(s.brain.metrics.currentState = .executing ∧ s.brain.velocityCmd = t.velCmd) := by
  have hrun : ∃ s tr, (threads shippedConfig (constantPolicy 12 (fin 0)) 0).Run
      (motionCall 1 10 ++ .tick 600 :: List.replicate 2 (.control (upright shippedConfig)) ++
        motionCall 2 610 ++ List.replicate 2 (.control (upright shippedConfig))) s tr ∧
      ((acceptedTask tr).any fun t => !isInForce t s.brain) = true :=
    Machine.exists_reaches _ (by decide +kernel)
  obtain ⟨s, tr, hrun, hany⟩ := hrun
  obtain ⟨t, ht, hnot⟩ := (Option.any_eq_true ..).mp hany
  refine ⟨_, s, tr, hrun, t, ht, fun hforce => ?_⟩
  simp [isInForce, hforce.1, hforce.2] at hnot

end RobotBrain
