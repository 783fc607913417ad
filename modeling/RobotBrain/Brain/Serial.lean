import RobotBrain.Brain.Refinement
import RobotBrain.Library.Reduction

/-!
# Serial interleavings are runs of whole calls

The converse of `RobotBrain.Brain.Refinement`: an interleaving of the three threads in which no call
begins while another one is under way is a run of whole calls, with the same outputs. So the machine
of whole calls loses nothing but the races: what an interleaving can do and a run of whole calls
cannot, it does by overlapping calls.

## Main definitions

* `ThreadEvent.starts`, `Threads.Serial` — no call begins within a call.

## Main results

* `exists_atomic_run` — a serial interleaving that ends between calls is a run of whole calls.
-/

namespace RobotBrain

open ExtNum

variable {n : ℕ} {H : Type*} {cfg : BrainConfig n} {env : Environment n H} {start : ℤ}

/-- The input begins a call. -/
def ThreadEvent.starts : ThreadEvent n → Bool
  | .call _ | .tick _ | .dequeue => true
  | .rpc _ | .control _ | .worker _ _ => false

namespace Threads

/-- No call is under way. -/
def betweenCalls : Threads n H → Bool
  | ⟨_, .idle, .idle, .idle⟩ => true
  | _ => false

theorem exists_rest_of_betweenCalls {s : Threads n H} (h : s.betweenCalls = true) :
    ∃ b, s = rest b := by
  unfold betweenCalls at h
  split at h
  · exact ⟨_, rfl⟩
  · cases h

/-- A call begins only between calls. -/
def Serial (s : Threads n H) (e : ThreadEvent n) : Prop :=
  e.starts = true → s.betweenCalls = true

instance (s : Threads n H) (e : ThreadEvent n) : Decidable (s.Serial e) :=
  inferInstanceAs (Decidable (_ → _))

theorem rest_injective : Function.Injective (rest : Brain n H → Threads n H) := by
  intro b b' h
  exact congrArg Threads.brain h

/-- How the call under way may end, if no other one begins before. -/
abbrev Ends (cfg : BrainConfig n) (env : Environment n H) (start : ℤ) (s : Threads n H)
    (r : Brain n H × List (Output n)) : Prop :=
  (threads cfg env start).Completes Serial rest s r

/-- The RPC thread alone, at an access. -/
def processing (b : Brain n H) (pc : RpcPc) : Threads n H := ⟨b, pc, .idle, .idle⟩

/-! ### The next access of a call -/

section Inversion

variable {b : Brain n H} {r : Brain n H × List (Output n)}

theorem Ends.of_rest (h : Ends cfg env start (rest b) r) : r = (b, []) :=
  Machine.Completes.eq_of_rest rest_injective h

theorem Ends.rpc {pc : RpcPc} (h : Ends cfg env start (processing b pc) r) (hpc : pc ≠ .idle) :
    ∃ now b' pc' out r', RpcResult cfg env now b pc b' pc' out ∧
      Ends cfg env start (processing b' pc') r' ∧ r = (r'.1, out ++ r'.2) := by
  have hcall (b' : Brain n H) : processing b pc ≠ rest b' := fun heq =>
    hpc (congrArg Threads.rpc heq)
  obtain ⟨e, s', out, r', hok, hs, h, rfl⟩ := h.exists_step hcall
  have hinternal : ¬ e.starts = true := fun he => by
    obtain ⟨b', heq⟩ := exists_rest_of_betweenCalls (hok he)
    exact hcall b' heq
  have hr : StepResult cfg env (processing b pc) e (s', out) := stepResult hs
  cases hr with
  | call | tick | dequeue => exact absurd rfl hinternal
  | rpc hr => exact ⟨_, _, _, _, r', hr, h, rfl⟩
  | control hr => cases hr
  | worker hr => cases hr

theorem Ends.control {pc : ControlPc n} (h : Ends cfg env start (controlling b pc) r)
    (hpc : pc ≠ .idle) :
    ∃ prop b' pc' out r', ControlResult cfg env prop b pc b' pc' out ∧
      Ends cfg env start (controlling b' pc') r' ∧ r = (r'.1, out ++ r'.2) := by
  have hcall (b' : Brain n H) : controlling b pc ≠ rest b' := fun heq =>
    hpc (congrArg Threads.control heq)
  obtain ⟨e, s', out, r', hok, hs, h, rfl⟩ := h.exists_step hcall
  have hinternal : ¬ e.starts = true := fun he => by
    obtain ⟨b', heq⟩ := exists_rest_of_betweenCalls (hok he)
    exact hcall b' heq
  have hr : StepResult cfg env (controlling b pc) e (s', out) := stepResult hs
  cases hr with
  | call | tick | dequeue => exact absurd rfl hinternal
  | rpc hr => cases hr
  | control hr => exact ⟨_, _, _, _, r', hr, h, rfl⟩
  | worker hr => cases hr

theorem Ends.worker {pc : WorkerPc n} (h : Ends cfg env start (working b pc) r)
    (hpc : pc ≠ .idle) :
    ∃ now b' pc' out r', WorkerResult cfg env now b pc b' pc' out ∧
      Ends cfg env start (working b' pc') r' ∧ r = (r'.1, out ++ r'.2) := by
  have hcall (b' : Brain n H) : working b pc ≠ rest b' := fun heq =>
    hpc (congrArg Threads.worker heq)
  obtain ⟨e, s', out, r', hok, hs, h, rfl⟩ := h.exists_step hcall
  have hinternal : ¬ e.starts = true := fun he => by
    obtain ⟨b', heq⟩ := exists_rest_of_betweenCalls (hok he)
    exact hcall b' heq
  have hr : StepResult cfg env (working b pc) e (s', out) := stepResult hs
  cases hr with
  | call | tick | dequeue => exact absurd rfl hinternal
  | rpc hr => cases hr
  | control hr => cases hr
  | worker hr => exact ⟨_, _, _, _, r', hr, h, rfl⟩

end Inversion

/-! ### Tasks -/

/-- The end of a call of `ProcessRobotTask`. -/
theorem Ends.feedDog {t : Task} {b : Brain n H} {r : Brain n H × List (Output n)}
    (h : Ends cfg env start (processing b (.feedDog t)) r) :
    ∃ now, r = (b.feedDog now, [.taskReturned t]) := by
  obtain ⟨now, _, _, _, _, ⟨⟩, hrest, rfl⟩ := h.rpc (by simp)
  obtain rfl := Ends.of_rest hrest
  exact ⟨now, rfl⟩

theorem Ends.processRobotTask {t : Task} {b : Brain n H} {r : Brain n H × List (Output n)}
    (h : Ends cfg env start (processing (b.writeCommand t) (.incrementGeneration t)) r) :
    ∃ now, b.processRobotTask cfg env t now = (r.1, .commandWritten t :: r.2) := by
  obtain ⟨_, _, _, _, _, ⟨⟩, hgen, rfl⟩ := h.rpc (by simp)
  obtain ⟨_, _, _, _, _, ⟨⟩, htype, rfl⟩ := hgen.rpc (by simp)
  obtain ⟨_, _, _, _, _, ⟨⟩, hstate, rfl⟩ := htype.rpc (by simp)
  obtain ⟨_, _, _, _, _, hr, hnext, rfl⟩ := hstate.rpc (by simp)
  cases hr with
  | storeStateStop _ ht =>
    obtain ⟨_, _, _, _, _, ⟨⟩, hhidden, rfl⟩ := hnext.rpc (by simp)
    obtain ⟨_, _, _, _, _, ⟨⟩, htargets, rfl⟩ := hhidden.rpc (by simp)
    obtain ⟨_, _, _, _, _, ⟨⟩, hpublish, rfl⟩ := htargets.rpc (by simp)
    obtain ⟨_, _, _, _, _, ⟨⟩, hfeed, rfl⟩ := hpublish.rpc (by simp)
    obtain ⟨now, rfl⟩ := hfeed.feedDog
    refine ⟨now, ?_⟩
    simp only [Brain.processRobotTask, ht, if_true]
    rfl
  | storeStateMotion _ ht =>
    obtain ⟨now, rfl⟩ := hnext.feedDog
    refine ⟨now, ?_⟩
    simp only [Brain.processRobotTask, ht, if_false]
    rfl

/-! ### Control ticks -/

variable {b : Brain n H} {r : Brain n H × List (Output n)}

/-- The watchdog of a tick. -/
theorem Ends.watchdog {now : ℤ} (h : Ends cfg env start (controlling b (.loadHeartbeat now)) r) :
    ∃ r', Ends cfg env start (controlling (b.watchdog cfg now).1 (.loadState now)) r' ∧
      r = (r'.1, (b.watchdog cfg now).2 ++ r'.2) := by
  obtain ⟨_, _, _, _, _, hr, hnext, rfl⟩ := h.control (by simp)
  cases hr with
  | heartbeatFresh _ hfresh =>
    simp only [Brain.watchdog, hfresh, if_false]
    exact ⟨_, hnext, rfl⟩
  | heartbeatExpired _ hexpired =>
    obtain ⟨_, _, _, _, _, hr, hafter, rfl⟩ := hnext.control (by simp)
    cases hr with
    | watchdogOther _ hstate =>
      simp only [Brain.watchdog, hexpired, hstate, if_true, if_false]
      exact ⟨_, hafter, rfl⟩
    | watchdogExecuting _ hstate =>
      simp only [Brain.watchdog, hexpired, hstate, if_true]
      obtain ⟨_, _, _, _, _, ⟨⟩, hzero, rfl⟩ := hafter.control (by simp)
      obtain ⟨_, _, _, _, _, ⟨⟩, hload, rfl⟩ := hzero.control (by simp)
      exact ⟨_, hload, rfl⟩

/-- Reset detection of a tick, with the proprioception that the tick reads, or its early end. -/
theorem Ends.readProprioception {now : ℤ} {state : RobotState}
    (h : Ends cfg env start (controlling b (.readProprioception now state)) r) :
    ∃ prop, (prop.valid = false ∧ r = (b.setInferring false, [])) ∨
      prop.valid = true ∧ ∃ r', Ends cfg env start
        (controlling (b.detectReset cfg env prop).1 (.rampVelocity now state prop)) r' ∧
        r = (r'.1, (b.detectReset cfg env prop).2 ++ r'.2) := by
  obtain ⟨prop, _, _, _, _, hr, hnext, rfl⟩ := h.control (by simp)
  refine ⟨prop, ?_⟩
  cases hr with
  | invalid _ _ hvalid =>
    obtain ⟨_, _, _, _, _, ⟨⟩, hrest, rfl⟩ := hnext.control (by simp)
    obtain rfl := Ends.of_rest hrest
    exact Or.inl ⟨hvalid, rfl⟩
  | noReset _ _ hvalid hreset =>
    refine Or.inr ⟨hvalid, ?_⟩
    simp only [Brain.detectReset, hreset, if_false]
    exact ⟨_, hnext, rfl⟩
  | simulatorReset _ _ hvalid hreset =>
    refine Or.inr ⟨hvalid, ?_⟩
    simp only [Brain.detectReset, hreset, if_true]
    obtain ⟨_, _, _, _, _, ⟨⟩, hactions, rfl⟩ := hnext.control (by simp)
    obtain ⟨_, _, _, _, _, ⟨⟩, htargets, rfl⟩ := hactions.control (by simp)
    obtain ⟨_, _, _, _, _, ⟨⟩, hramp, rfl⟩ := htargets.control (by simp)
    exact ⟨_, hramp, rfl⟩

/-- A dropped tick. -/
theorem Ends.countDropped (h : Ends cfg env start (controlling b .countDropped) r) :
    r = (b.countDropped, []) := by
  obtain ⟨_, _, _, _, _, ⟨⟩, hrest, rfl⟩ := h.control (by simp)
  obtain rfl := Ends.of_rest hrest
  rfl

/-- A tick from the velocity ramp on. -/
theorem Ends.rampVelocity {now : ℤ} {state : RobotState} {prop : Proprioception n}
    (h : Ends cfg env start (controlling b (.rampVelocity now state prop)) r) :
    r = if (b.rampVelocity cfg now).inferenceQueue.length < Brain.maxQueue then
        ((b.rampVelocity cfg now).enqueue (b.rampedFrame cfg now state prop),
          [.captured (b.rampedFrame cfg now state prop)])
      else (((b.rampVelocity cfg now).setInferring false).countDropped, []) := by
  obtain ⟨_, _, _, _, _, ⟨⟩, hsnapshot, rfl⟩ := h.control (by simp)
  obtain ⟨_, _, _, _, _, ⟨⟩, henqueue, rfl⟩ := hsnapshot.control (by simp)
  obtain ⟨_, _, _, _, _, hr, hnext, rfl⟩ := henqueue.control (by simp)
  cases hr with
  | enqueued _ hroom =>
    obtain rfl := Ends.of_rest hnext
    rw [if_pos hroom]
    rfl
  | full _ hfull =>
    obtain ⟨_, _, _, _, _, ⟨⟩, hdropped, rfl⟩ := hnext.control (by simp)
    obtain rfl := hdropped.countDropped
    rw [if_neg (not_lt.mpr hfull)]
    rfl

theorem Ends.captureFrame {now : ℤ} {state : RobotState} {prop : Proprioception n}
    (h : Ends cfg env start
      (controlling (b.detectReset cfg env prop).1 (.rampVelocity now state prop)) r) :
    b.captureFrame cfg env now state prop = (r.1, (b.detectReset cfg env prop).2 ++ r.2) := by
  rw [h.rampVelocity]
  unfold Brain.captureFrame
  dsimp only
  split_ifs
  · rfl
  · rw [List.append_nil]

theorem Ends.controlLoopStep {now : ℤ}
    (h : Ends cfg env start (controlling b (.loadHeartbeat now)) r) :
    ∃ prop, b.controlLoopStep cfg env now prop = r := by
  obtain ⟨r', hload, rfl⟩ := h.watchdog
  unfold Brain.controlLoopStep
  generalize b.watchdog cfg now = w at hload ⊢
  obtain ⟨prop, _, _, _, _, hr, hnext, rfl⟩ := hload.control (by simp)
  cases hr with
  | loadInactive _ hstate =>
    obtain ⟨_, _, _, _, _, ⟨⟩, hrest, rfl⟩ := hnext.control (by simp)
    obtain rfl := Ends.of_rest hrest
    exact ⟨prop, by simp only [hstate, if_false, List.nil_append]; rfl⟩
  | loadActive _ hstate =>
    obtain ⟨prop, _, _, _, _, hr, hafter, rfl⟩ := hnext.control (by simp)
    cases hr with
    | gateBusy _ _ hgate =>
      obtain rfl := hafter.countDropped
      exact ⟨prop, by simp only [hstate, hgate, if_true, List.append_nil]⟩
    | gateOpen _ _ hgate =>
      obtain ⟨prop, ⟨hvalid, rfl⟩ | ⟨hvalid, r', hramp, rfl⟩⟩ := hafter.readProprioception
      · refine ⟨prop, ?_⟩
        simp only [hstate, hgate, hvalid, if_true, Bool.false_eq_true, if_false, List.append_nil]
      · refine ⟨prop, ?_⟩
        simp only [hstate, hgate, hvalid, if_true, Bool.false_eq_true, if_false,
          hramp.captureFrame, List.nil_append]

/-! ### Inference closures -/

/-- The end of a closure. -/
theorem Ends.releaseBuffer {x : Inference n}
    (h : Ends cfg env start (working b (.releaseBuffer x)) r) :
    r = ((b.releaseBuffer x.obs x.pooled).setInferring false, []) := by
  obtain ⟨_, _, _, _, _, ⟨⟩, hflag, rfl⟩ := h.worker (by simp)
  obtain ⟨_, _, _, _, _, ⟨⟩, hrest, rfl⟩ := hflag.worker (by simp)
  obtain rfl := Ends.of_rest hrest
  rfl

/-- A closure from the check of the generation on: it has been superseded, its publication throws,
or it is applied. -/
theorem Ends.checkGeneration {x : Inference n} {actions : Actions n} {targets : Fin n → Scalar}
    (h : Ends cfg env start (working b (.checkGeneration x actions targets)) r) :
    (x.frame.myGeneration ≠ b.taskGeneration ∧
        r = ((b.countStale.releaseBuffer x.obs x.pooled).setInferring false,
          [.discarded x.frame])) ∨
      x.frame.myGeneration = b.taskGeneration ∧
        (r = ((b.releaseBuffer x.obs x.pooled).setInferring false, []) ∨
          ∃ now, r = let targets := RobotBrain.applyRateLimit cfg b.lastJointTargets targets
            let b := (((b.feedDog now).writeBackActions actions).writeBackTargets
              targets).countFrame
            ((b.releaseBuffer x.obs x.pooled).setInferring false,
              [.published targets (.inference x.frame), .applied x.frame x.obs actions])) := by
  obtain ⟨_, _, _, _, _, hr, hnext, rfl⟩ := h.worker (by simp)
  cases hr with
  | checkFailed _ _ _ hgen =>
    obtain ⟨_, _, _, _, _, ⟨⟩, hrelease, rfl⟩ := hnext.worker (by simp)
    obtain rfl := hrelease.releaseBuffer
    exact Or.inl ⟨hgen, rfl⟩
  | checkPassed _ _ _ hgen =>
    refine Or.inr ⟨hgen, ?_⟩
    obtain ⟨_, _, _, _, _, ⟨⟩, hpublish, rfl⟩ := hnext.worker (by simp)
    obtain ⟨_, _, _, _, _, hr, hafter, rfl⟩ := hpublish.worker (by simp)
    cases hr with
    | publishThrew =>
      obtain rfl := hafter.releaseBuffer
      exact Or.inl rfl
    | publish =>
      obtain ⟨now, _, _, _, _, ⟨⟩, hactions, rfl⟩ := hafter.worker (by simp)
      obtain ⟨_, _, _, _, _, ⟨⟩, htargets, rfl⟩ := hactions.worker (by simp)
      obtain ⟨_, _, _, _, _, ⟨⟩, hcount, rfl⟩ := htargets.worker (by simp)
      obtain ⟨_, _, _, _, _, ⟨⟩, hrelease, rfl⟩ := hcount.worker (by simp)
      obtain rfl := hrelease.releaseBuffer
      exact Or.inr ⟨now, rfl⟩

theorem Ends.inferenceClosure {f : Frame n} (h : Ends cfg env start (working b (.forward f)) r) :
    ∃ outcome now, b.inferenceClosure cfg env f outcome now = r := by
  have hkeep : (b.acquireBuffer cfg).2.2.hiddenState = b.hiddenState := by
    rw [Brain.acquireBuffer_brain]
  obtain ⟨_, _, _, _, _, hr, hnext, rfl⟩ := h.worker (by simp)
  cases hr with
  | forwardThrew =>
    obtain rfl := hnext.releaseBuffer
    exact ⟨.forwardThrows, 0, rfl⟩
  | forward =>
    simp only [Brain.nextHiddenState, Brain.nextActions, ← hkeep] at hnext ⊢
    obtain ⟨_, _, _, _, _, hr, hcheck, rfl⟩ := hnext.worker (by simp)
    cases hr with
    | targetsThrew =>
      obtain rfl := hcheck.releaseBuffer
      exact ⟨.targetsThrow, 0, rfl⟩
    | computeTargets =>
      rcases hcheck.checkGeneration with ⟨hgen, rfl⟩ | ⟨hgen, rfl | ⟨now, rfl⟩⟩
      · refine ⟨.completes, 0, ?_⟩
        unfold Brain.inferenceClosure
        simp only [reduceCtorEq, if_false]
        exact if_neg hgen
      · refine ⟨.publishThrows, 0, ?_⟩
        unfold Brain.inferenceClosure
        simp only [reduceCtorEq, if_false, if_true]
        exact if_pos hgen
      · refine ⟨.completes, now, ?_⟩
        unfold Brain.inferenceClosure
        simp only [reduceCtorEq, if_false]
        exact if_pos hgen

end Threads

/-- Every interleaving of the three threads in which each call ends before the next one begins, and
which ends between calls, is a run of whole calls with the same outputs. -/
theorem exists_atomic_run {es : List (ThreadEvent n)} {b : Brain n H} {tr : List (Output n)}
    (h : (threads cfg env start).Reaches (fun s _ e => s.Serial e) es (Threads.rest b) tr) :
    ∃ es', (atomic cfg env start).Run es' b tr := by
  refine h.exists_run_of_rest Threads.rest_injective rfl ?_
  intro b e s' out r _ hs hends
  have hr : Threads.StepResult cfg env (Threads.rest b) e (s', out) := Threads.stepResult hs
  cases hr with
  | @call t =>
    obtain ⟨now, hnow⟩ := Threads.Ends.processRobotTask hends
    exact ⟨.task t now, congrArg some hnow⟩
  | @tick now =>
    obtain ⟨prop, hprop⟩ := Threads.Ends.controlLoopStep hends
    exact ⟨.tick now prop, congrArg some hprop⟩
  | @dequeue f q _ hq =>
    obtain ⟨outcome, now, hclosure⟩ := Threads.Ends.inferenceClosure hends
    refine ⟨.infer outcome now, ?_⟩
    have hq' : b.inferenceQueue = f :: q := hq
    show b.step cfg env (.infer outcome now) = _
    simp only [Brain.step, hq']
    exact congrArg some hclosure
  | rpc hr => cases hr
  | control hr => cases hr
  | worker hr => cases hr

/-- A tick, the closure of its frame and an emergency stop, one after another. -/
theorem exists_atomic_run_stop :
    ∃ b tr, (threads shippedConfig (constantPolicy 12 (.fin 0)) 0).Run
        (.tick 20 :: List.replicate 7 (.control (upright shippedConfig)) ++
          .dequeue :: List.replicate 11 (.worker false 30) ++
          .call stopTask :: List.replicate 9 (.rpc 40)) (Threads.rest b) tr ∧
      b.metrics.totalFrames = 1 ∧ b.lastHeartbeatMs = 40 ∧
      ∃ es', (atomic shippedConfig (constantPolicy 12 (.fin 0)) 0).Run es' b tr := by
  have hrun : ∃ s tr, (threads shippedConfig (constantPolicy 12 (.fin 0)) 0).Reaches
      (fun s _ e => s.Serial e)
      (.tick 20 :: List.replicate 7 (.control (upright shippedConfig)) ++
        .dequeue :: List.replicate 11 (.worker false 30) ++
        .call stopTask :: List.replicate 9 (.rpc 40)) s tr ∧
      s.betweenCalls = true ∧ s.brain.metrics.totalFrames = 1 ∧ s.brain.lastHeartbeatMs = 40 :=
    Machine.exists_reaches_of_decide _ (by decide +kernel)
  obtain ⟨s, tr, hreach, hrest, hframes, hheartbeat⟩ := hrun
  obtain ⟨b, rfl⟩ := Threads.exists_rest_of_betweenCalls hrest
  exact ⟨b, tr, hreach.run, hframes, hheartbeat, exists_atomic_run hreach⟩

end RobotBrain
