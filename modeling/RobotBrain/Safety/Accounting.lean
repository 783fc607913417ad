import RobotBrain.Safety.Gate

/-!
# Accounting of frames

Every control tick that attempts a frame ends in one of three counters, `total_frames`,
`dropped_frames` or `stale_frames`, unless the inference of its frame throws: the handler of the
closure logs the exception and counts nothing. So attempts are conserved as long as no closure
throws.

## Main definitions

* `Tally`, `Threads.tally` — the attempts and the failures of a run, recorded beside it.
* `Threads.uncounted` — the frames in flight that have not been counted.

## Main results

* `Threads.attempts_eq` — the balance, with the failures, in every interleaving.
* `frame_accounting_iff` — the balance of the counters.
* `exists_uncounted_failure` — an inference that throws.
-/

namespace RobotBrain

variable {n : ℕ} {H : Type*} {cfg : BrainConfig n} {env : Environment n H}

/-- How many control ticks have attempted a frame, and how many closures have thrown. -/
structure Tally where
  attempts : ℕ := 0
  failures : ℕ := 0

/-- The control thread has attempted a frame and neither counted nor enqueued it. -/
def ControlPc.attempting : ControlPc n → Bool
  | .resetHiddenState .. | .fillPrevActions .. | .resetJointTargets .. | .rampVelocity ..
  | .snapshot .. | .enqueue _ | .releaseGateFull | .countDropped => true
  | _ => false

/-- The worker runs a closure whose frame has not been counted. -/
def WorkerPc.uncounted : WorkerPc n → Bool
  | .idle | .releaseBuffer _ | .clearFlag => false
  | _ => true

/-- An access with which a tick attempts a frame: in `EXECUTING` or `STANDING` it finds an inference
running, or finds the proprioception valid. -/
def ControlPc.attempts : ControlPc n → ControlPc n → Bool
  | .acquireGate .., .countDropped => true
  | .readProprioception .., .resetHiddenState .. | .readProprioception .., .rampVelocity .. => true
  | _, _ => false

/-- An access that throws: it takes the worker to the end of the `try` block before the frame has
been counted. -/
def WorkerPc.throws : WorkerPc n → WorkerPc n → Bool
  | .forward _, .releaseBuffer _ | .computeTargets .., .releaseBuffer _
  | .publish .., .releaseBuffer _ => true
  | _, _ => false

/-- The frames that have been counted. -/
def Metrics.counted (m : Metrics) : ℕ :=
  m.totalFrames + m.droppedFrames + m.staleFrames

namespace Threads

/-- The record of the attempts and of the failures. -/
def tally (s : Threads n H) (e : ThreadEvent n) (s' : Threads n H) (g : Tally) : Tally :=
  match e with
  | .control _ =>
    { g with attempts := g.attempts + (ControlPc.attempts s.control s'.control).toNat }
  | .worker _ _ => { g with failures := g.failures + (WorkerPc.throws s.worker s'.worker).toNat }
  | _ => g

/-- The frames in flight that have not been counted: those in the queue and in the worker. -/
def uncounted (s : Threads n H) : ℕ :=
  s.brain.inferenceQueue.length + s.worker.uncounted.toNat

/-! ### The balance -/

theorem RpcResult.counted {now : ℤ} {b b' : Brain n H} {pc pc' : RpcPc} {out : List (Output n)}
    (h : RpcResult cfg env now b pc b' pc' out) :
    b'.metrics.counted = b.metrics.counted ∧ b'.inferenceQueue = b.inferenceQueue := by
  cases h <;> exact ⟨rfl, rfl⟩

/-- What the control thread attempts it enqueues or counts. -/
theorem ControlResult.counted {prop : Proprioception n} {b b' : Brain n H} {pc pc' : ControlPc n}
    {out : List (Output n)} (h : ControlResult cfg env prop b pc b' pc' out) :
    b.metrics.counted + pc.attempting.toNat + b.inferenceQueue.length +
        (ControlPc.attempts pc pc').toNat =
      b'.metrics.counted + pc'.attempting.toNat + b'.inferenceQueue.length := by
  cases h
  case enqueued f hroom =>
    show _ = b.metrics.counted + 0 + (b.inferenceQueue ++ [f]).length
    rw [List.length_append, List.length_singleton]
    simp only [ControlPc.attempting, ControlPc.attempts, Bool.toNat_true, Bool.toNat_false]
    omega
  case countDropped =>
    simp only [Metrics.counted, Brain.countDropped, ControlPc.attempting, ControlPc.attempts,
      Bool.toNat_true, Bool.toNat_false]
    omega
  case gateBusy =>
    simp only [ControlPc.attempting, ControlPc.attempts, Bool.toNat_true, Bool.toNat_false]
    omega
  case simulatorReset | noReset =>
    simp only [ControlPc.attempting, ControlPc.attempts, Bool.toNat_true, Bool.toNat_false]
    show b.metrics.counted + 0 + b.inferenceQueue.length + 1 =
      b.metrics.counted + 1 + b.inferenceQueue.length
    omega
  all_goals rfl

/-- The worker counts the frame of its closure, or its closure throws. -/
theorem WorkerResult.counted {now : ℤ} {b b' : Brain n H} {pc pc' : WorkerPc n}
    {out : List (Output n)} (h : WorkerResult cfg env now b pc b' pc' out) :
    b.metrics.counted + pc.uncounted.toNat =
        b'.metrics.counted + pc'.uncounted.toNat + (WorkerPc.throws pc pc').toNat ∧
      b'.inferenceQueue = b.inferenceQueue := by
  cases h
  case forward f | forwardThrew f =>
    rw [Brain.acquireBuffer_brain]
    exact ⟨rfl, rfl⟩
  case releaseBuffer r =>
    rw [Brain.releaseBuffer_eq]
    exact ⟨rfl, rfl⟩
  case countFrame | countStale =>
    refine ⟨?_, rfl⟩
    simp only [Metrics.counted, Brain.countFrame, Brain.countStale, WorkerPc.uncounted,
      WorkerPc.throws, Bool.toNat_true, Bool.toNat_false]
    omega
  all_goals exact ⟨rfl, rfl⟩

/-- Every attempt has been counted, has failed or is on its way. -/
def Balanced (s : Threads n H) (g : Tally) : Prop :=
  g.attempts = s.brain.metrics.counted + s.control.attempting.toNat + s.uncounted + g.failures

theorem Balanced.step {s : Threads n H} {e : ThreadEvent n} {r : Threads n H × List (Output n)}
    {g : Tally} (hI : s.Balanced g) (h : StepResult cfg env s e r) :
    r.1.Balanced (s.tally e r.1 g) := by
  unfold Balanced uncounted at hI ⊢
  cases h with
  | call => exact hI
  | tick hpc =>
    rw [hpc] at hI
    exact hI
  | rpc h =>
    obtain ⟨hcounted, hqueue⟩ := h.counted
    rw [hcounted, hqueue]
    exact hI
  | control h =>
    have hcounted := h.counted
    simp only [tally]
    omega
  | @dequeue f q hpc hq =>
    rw [hpc, hq, List.length_cons] at hI
    show g.attempts = s.brain.metrics.counted + s.control.attempting.toNat + (q.length + 1) +
      g.failures
    exact hI
  | worker h =>
    obtain ⟨hcounted, hqueue⟩ := h.counted
    simp only [tally, hqueue]
    omega

end Threads

/-- The threads with the record of attempts and failures. -/
def talliedThreads (cfg : BrainConfig n) (env : Environment n H) (start : ℤ) :
    Machine (Threads n H × Tally) (ThreadEvent n) (Output n) :=
  (threads cfg env start).withRecord {} Threads.tally

namespace Threads

/-- In every interleaving the attempts are the frames counted, those on their way and the
failures. -/
theorem attempts_eq {start : ℤ} {es : List (ThreadEvent n)} {s : Threads n H × Tally}
    {tr : List (Output n)} (h : (talliedThreads cfg env start).Run es s tr) :
    s.1.Balanced s.2 := by
  refine h.invariant (fun s _ => s.1.Balanced s.2) rfl ?_
  rintro es ⟨s, g⟩ tr e r out _ hI _ hs
  obtain ⟨s', out', hstep, heq⟩ := Machine.step_withRecord.mp hs
  cases heq
  exact hI.step (stepResult hstep)

end Threads

/-- In every state of every interleaving, the number of ticks that have attempted a frame equals
`total_frames + dropped_frames + stale_frames`, plus one if a frame is in flight, plus one if a tick
that has attempted a frame is still under way, if and only if no closure has thrown and each of the
three counters has been incremented fewer than `2^64` times. -/
theorem frame_accounting_iff {start : ℤ} {es : List (ThreadEvent n)} {s : Threads n H × Tally}
    {tr : List (Output n)} (h : (talliedThreads cfg env start).Run es s tr) :
    (s.2.attempts = counterValue s.1.brain.metrics.totalFrames +
          counterValue s.1.brain.metrics.droppedFrames +
          counterValue s.1.brain.metrics.staleFrames + s.1.uncounted +
          s.1.control.attempting.toNat ↔
        s.2.failures = 0 ∧ s.1.brain.metrics.totalFrames < 2 ^ 64 ∧
          s.1.brain.metrics.droppedFrames < 2 ^ 64 ∧ s.1.brain.metrics.staleFrames < 2 ^ 64) ∧
      s.1.uncounted ≤ 1 := by
  have hbalance := Threads.attempts_eq h
  rw [Threads.Balanced, Metrics.counted] at hbalance
  constructor
  · unfold counterValue
    omega
  · have hrun := (Machine.run_iff_exists_withRecord _ _).mpr ⟨s.2, h⟩
    have hflight := (Threads.gateInv_of_reaches hrun).inFlight_le_one
    have hworker : s.1.worker.uncounted.toNat ≤ s.1.worker.running.toNat := by
      cases s.1.worker <;> simp [WorkerPc.uncounted, WorkerPc.running]
    rw [Threads.inFlight] at hflight
    rw [Threads.uncounted]
    omega

/-- A tick and the accesses of the worker in the closure of its frame. -/
private def tickAndInference (accesses : List (ThreadEvent 12)) : List (ThreadEvent 12) :=
  .tick 20 :: List.replicate 7 (.control (upright shippedConfig)) ++ .dequeue :: accesses

/-- A frame that is applied: one attempt, one frame. -/
theorem frame_accounting_iff_applied :
    ∃ s tr, (talliedThreads shippedConfig (constantPolicy 12 (.fin 0)) 0).Run
        (tickAndInference (List.replicate 10 (.worker false 30))) s tr ∧
      s.2.attempts = 1 ∧ s.1.brain.metrics.totalFrames = 1 ∧ s.2.failures = 0 := by
  have hrun : ∃ s tr, (talliedThreads shippedConfig (constantPolicy 12 (.fin 0)) 0).Run
      (tickAndInference (List.replicate 10 (.worker false 30))) s tr ∧
      s.2.attempts = 1 ∧ s.1.brain.metrics.totalFrames = 1 ∧
        s.1.brain.metrics.droppedFrames = 0 ∧ s.1.brain.metrics.staleFrames = 0 ∧
        s.1.uncounted = 0 ∧ s.1.control.attempting = false :=
    Machine.exists_reaches_of_decide _ (by decide +kernel)
  obtain ⟨s, tr, hrun, hattempts, htotal, hdropped, hstale, hflight, hcontrol⟩ := hrun
  refine ⟨s, tr, hrun, hattempts, htotal, ((frame_accounting_iff hrun).1.mp ?_).1⟩
  rw [hattempts, htotal, hdropped, hstale, hflight, hcontrol]
  rfl

/-- `Forward` throws: the tick has attempted a frame, no counter has moved, nothing is in flight and
the gate is open again. -/
theorem exists_uncounted_failure :
    ∃ s tr, (talliedThreads shippedConfig (constantPolicy 12 (.fin 0)) 0).Run
        (tickAndInference [.worker true 30, .worker false 30, .worker false 30]) s tr ∧
      s.2.attempts = 1 ∧ s.1.brain.metrics.counted + s.1.uncounted = 0 ∧
      s.1.control.attempting = false ∧ s.1.brain.isInferring = false :=
  Machine.exists_reaches_of_decide _ (by decide +kernel)

end RobotBrain
