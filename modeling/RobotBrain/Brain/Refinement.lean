import RobotBrain.Brain.Threads

/-!
# Whole calls are interleavings

The machine whose steps are whole calls refines the three threads: from a state in which no thread
is in a call, the accesses of one thread make every call, with the same outputs and the same state
after it. Whatever holds in all interleavings therefore holds in all runs of whole calls, and a run
of whole calls that breaks a property is an interleaving that breaks it.

## Main results

* `Threads.leads_processRobotTask`, `Threads.leads_controlLoopStep`,
  `Threads.leads_inferenceClosure` — the accesses of a call.
* `exists_threads_run` — a run of whole calls is a run of the threads.
-/

namespace RobotBrain

open ExtNum

variable {n : ℕ} {H : Type*} {cfg : BrainConfig n} {env : Environment n H} {start : ℤ}

namespace Threads

/-! ### Tasks -/

/-- The accesses of a call of `ProcessRobotTask`. -/
theorem leads_processRobotTask (t : Task) (now : ℤ) (b : Brain n H) :
    (threads cfg env start).Leads (rest b) (rest (b.processRobotTask cfg env t now).1)
      (b.processRobotTask cfg env t now).2 := by
  by_cases ht : t.type = .emergencyStop
  · refine ⟨.call t :: List.replicate 9 (.rpc now), ?_⟩
    simp only [ht, if_true, Brain.processRobotTask, List.replicate, Machine.follow, threads, step,
      rpcStep, rest, Option.map_some, List.nil_append, List.cons_append]
    rfl
  · refine ⟨.call t :: List.replicate 5 (.rpc now), ?_⟩
    simp only [ht, if_false, Brain.processRobotTask, List.replicate, Machine.follow, threads, step,
      rpcStep, rest, Option.map_some, List.nil_append, List.cons_append]

/-! ### Control ticks -/

/-- The control thread alone, at an access. -/
def controlling (b : Brain n H) (pc : ControlPc n) : Threads n H := ⟨b, .idle, pc, .idle⟩

theorem leads_watchdog (now : ℤ) (prop : Proprioception n) (b : Brain n H) :
    (threads cfg env start).Leads (controlling b (.loadHeartbeat now))
      (controlling (b.watchdog cfg now).1 (.loadState now)) (b.watchdog cfg now).2 := by
  by_cases hexpired : b.HeartbeatExpired cfg now
  · by_cases hstate : b.noteExpiry.metrics.currentState = .executing
    · refine ⟨List.replicate 4 (.control prop), ?_⟩
      simp only [Brain.watchdog, hexpired, hstate, if_true, List.replicate, Machine.follow, threads,
        step, controlStep, controlling, Option.map_some, List.nil_append, List.cons_append]
    · refine ⟨List.replicate 2 (.control prop), ?_⟩
      simp only [Brain.watchdog, hexpired, hstate, if_true, if_false, List.replicate,
        Machine.follow, threads, step, controlStep, controlling, Option.map_some, List.append_nil]
  · refine ⟨[.control prop], ?_⟩
    simp only [Brain.watchdog, hexpired, if_false, Machine.follow, threads, step, controlStep,
      controlling, Option.map_some, List.append_nil]

theorem leads_detectReset (now : ℤ) (state : RobotState) {prop : Proprioception n}
    (hvalid : prop.valid = true) (b : Brain n H) :
    (threads cfg env start).Leads (controlling b (.readProprioception now state))
      (controlling (b.detectReset cfg env prop).1 (.rampVelocity now state prop))
      (b.detectReset cfg env prop).2 := by
  by_cases hreset : b.SimulatorReset prop
  · refine ⟨List.replicate 4 (.control prop), ?_⟩
    simp only [Brain.detectReset, hvalid, hreset, if_true, List.replicate, Machine.follow, threads,
      step, controlStep, controlling, Option.map_some, List.nil_append, List.cons_append]
  · refine ⟨[.control prop], ?_⟩
    simp only [Brain.detectReset, hvalid, hreset, if_true, if_false, Machine.follow, threads, step,
      controlStep, controlling, Option.map_some, List.append_nil]

/-- From the velocity ramp to the end of a tick that enqueues its frame. -/
theorem leads_enqueue (now : ℤ) (state : RobotState) (prop : Proprioception n) (b : Brain n H)
    (hroom : b.inferenceQueue.length < Brain.maxQueue) :
    (threads cfg env start).Leads (controlling b (.rampVelocity now state prop))
      (rest ((b.rampVelocity cfg now).enqueue (b.rampedFrame cfg now state prop)))
      [.captured (b.rampedFrame cfg now state prop)] := by
  have hroom' : (b.rampVelocity cfg now).inferenceQueue.length < Brain.maxQueue := hroom
  refine ⟨List.replicate 3 (.control prop), ?_⟩
  simp only [hroom', if_true, List.replicate, Machine.follow, threads, step, controlStep,
    controlling, rest, Option.map_some, List.nil_append, List.append_nil]
  rfl

/-- From the velocity ramp to the end of a tick that finds the queue full. -/
theorem leads_full (now : ℤ) (state : RobotState) (prop : Proprioception n) (b : Brain n H)
    (hfull : ¬b.inferenceQueue.length < Brain.maxQueue) :
    (threads cfg env start).Leads (controlling b (.rampVelocity now state prop))
      (rest ((b.rampVelocity cfg now).setInferring false).countDropped) [] := by
  have hfull' : ¬(b.rampVelocity cfg now).inferenceQueue.length < Brain.maxQueue := hfull
  refine ⟨List.replicate 5 (.control prop), ?_⟩
  simp only [hfull', if_false, List.replicate, Machine.follow, threads, step, controlStep,
    controlling, rest, Option.map_some, List.append_nil]

/-- From reset detection to the end of a tick. -/
theorem leads_captureFrame (now : ℤ) (state : RobotState) {prop : Proprioception n}
    (hvalid : prop.valid = true) (b : Brain n H) :
    (threads cfg env start).Leads (controlling b (.readProprioception now state))
      (rest (b.captureFrame cfg env now state prop).1)
      (b.captureFrame cfg env now state prop).2 := by
  have hreset : (threads cfg env start).Leads (controlling b (.readProprioception now state))
      (controlling (b.detectReset cfg env prop).1 (.rampVelocity now state prop))
      (b.detectReset cfg env prop).2 := leads_detectReset now state hvalid b
  unfold Brain.captureFrame
  dsimp only
  split_ifs with hroom
  · exact hreset.trans (leads_enqueue now state prop _ hroom)
  · exact hreset.trans_silent (leads_full now state prop _ hroom)

/-- A tick that finds an inference running. -/
theorem leads_busy (now : ℤ) (prop : Proprioception n) (b : Brain n H)
    (hstate : b.metrics.currentState = .executing ∨ b.metrics.currentState = .standing)
    (hgate : b.isInferring = true) :
    (threads cfg env start).Leads (controlling b (.loadState now)) (rest b.countDropped) [] := by
  refine ⟨List.replicate 3 (.control prop), ?_⟩
  simp only [hstate, hgate, if_true, List.replicate, Machine.follow, threads, step, controlStep,
    controlling, rest, Option.map_some, List.append_nil]

theorem leads_acquireGate (now : ℤ) (prop : Proprioception n) (b : Brain n H)
    (hstate : b.metrics.currentState = .executing ∨ b.metrics.currentState = .standing)
    (hgate : b.isInferring = false) :
    (threads cfg env start).Leads (controlling b (.loadState now))
      (controlling (b.setInferring true) (.readProprioception now b.metrics.currentState)) [] := by
  refine ⟨List.replicate 2 (.control prop), ?_⟩
  simp only [hstate, hgate, if_true, Bool.false_eq_true, if_false, List.replicate, Machine.follow,
    threads, step, controlStep, controlling, Option.map_some, List.append_nil]

/-- A tick that finds incomplete proprioception. -/
theorem leads_invalid (now : ℤ) (state : RobotState) {prop : Proprioception n}
    (hvalid : ¬prop.valid = true) (b : Brain n H) :
    (threads cfg env start).Leads (controlling b (.readProprioception now state))
      (rest (b.setInferring false)) [] := by
  refine ⟨List.replicate 2 (.control prop), ?_⟩
  simp only [hvalid, Bool.false_eq_true, if_false, List.replicate, Machine.follow, threads, step,
    controlStep, controlling, rest, Option.map_some, List.append_nil]

/-- A tick in the states `IDLE` and `ERROR`. -/
theorem leads_inactive (now : ℤ) (prop : Proprioception n) (b : Brain n H)
    (hstate : ¬(b.metrics.currentState = .executing ∨ b.metrics.currentState = .standing)) :
    (threads cfg env start).Leads (controlling b (.loadState now)) (rest b)
      [.published cfg.defaultJointPositions .inactive] := by
  refine ⟨List.replicate 2 (.control prop), ?_⟩
  simp only [hstate, if_false, List.replicate, Machine.follow, threads, step, controlStep,
    controlling, rest, Option.map_some, List.nil_append, List.append_nil]

/-- The accesses of a call of `ControlLoopStep`. -/
theorem leads_controlLoopStep (now : ℤ) (prop : Proprioception n) (b : Brain n H) :
    (threads cfg env start).Leads (rest b) (rest (b.controlLoopStep cfg env now prop).1)
      (b.controlLoopStep cfg env now prop).2 := by
  have hwatchdog : (threads cfg env start).Leads (rest b)
      (controlling (b.watchdog cfg now).1 (.loadState now)) (b.watchdog cfg now).2 := by
    have htick : (threads cfg env start).Leads (rest b) (controlling b (.loadHeartbeat now)) [] :=
      ⟨[.tick now], rfl⟩
    exact htick.trans (leads_watchdog now prop b)
  unfold Brain.controlLoopStep
  generalize b.watchdog cfg now = w at hwatchdog ⊢
  dsimp only
  split_ifs with hstate hgate hvalid
  · exact hwatchdog.trans_silent (leads_busy now prop w.1 hstate hgate)
  · rw [Bool.not_eq_true] at hgate
    have hopen := hwatchdog.trans_silent (leads_acquireGate now prop w.1 hstate hgate)
    exact hopen.trans (leads_captureFrame now _ hvalid _)
  · rw [Bool.not_eq_true] at hgate
    have hopen := hwatchdog.trans_silent (leads_acquireGate now prop w.1 hstate hgate)
    exact hopen.trans_silent (leads_invalid now _ hvalid _)
  · exact hwatchdog.trans (leads_inactive now prop w.1 hstate)

/-! ### Inference closures -/

/-- The worker alone, at an access. -/
def working (b : Brain n H) (pc : WorkerPc n) : Threads n H := ⟨b, .idle, .idle, pc⟩

/-- The end of a closure: the buffer goes back and the gate opens. -/
theorem leads_releaseBuffer (r : Inference n) (now : ℤ) (b : Brain n H) :
    (threads cfg env start).Leads (working b (.releaseBuffer r))
      (rest ((b.releaseBuffer r.obs r.pooled).setInferring false)) [] :=
  ⟨List.replicate 2 (.worker false now), rfl⟩

/-- From the check of the generation to the return of the buffer, in a closure that publishes. -/
theorem leads_applied (r : Inference n) (actions : Actions n) (targets : Fin n → Scalar) (now : ℤ)
    (b : Brain n H) (hgen : r.frame.myGeneration = b.taskGeneration) :
    (threads cfg env start).Leads (working b (.checkGeneration r actions targets))
      (working (((b.feedDog now).writeBackActions actions).writeBackTargets
        (applyRateLimit cfg b.lastJointTargets targets)).countFrame (.releaseBuffer r))
      [.published (applyRateLimit cfg b.lastJointTargets targets) (.inference r.frame),
        .applied r.frame r.obs actions] := by
  refine ⟨List.replicate 7 (.worker false now), ?_⟩
  simp only [hgen, if_true, Bool.false_eq_true, if_false, List.replicate, Machine.follow, threads,
    step, workerStep, working, Option.map_some, List.nil_append, List.cons_append]

/-- From the check of the generation to the return of the buffer, in a closure whose publication
throws. -/
theorem leads_publishThrew (r : Inference n) (actions : Actions n) (targets : Fin n → Scalar)
    (now : ℤ) (b : Brain n H) (hgen : r.frame.myGeneration = b.taskGeneration) :
    (threads cfg env start).Leads (working b (.checkGeneration r actions targets))
      (working b (.releaseBuffer r)) [] := by
  refine ⟨List.replicate 3 (.worker true now), ?_⟩
  simp only [hgen, if_true, List.replicate, Machine.follow, threads, step, workerStep, working,
    Option.map_some, List.append_nil]

/-- From the check of the generation to the return of the buffer, in a closure that has been
superseded. -/
theorem leads_superseded (r : Inference n) (actions : Actions n) (targets : Fin n → Scalar)
    (now : ℤ) (b : Brain n H) (hgen : ¬r.frame.myGeneration = b.taskGeneration) :
    (threads cfg env start).Leads (working b (.checkGeneration r actions targets))
      (working b.countStale (.releaseBuffer r)) [.discarded r.frame] := by
  refine ⟨List.replicate 2 (.worker false now), ?_⟩
  simp only [hgen, if_false, List.replicate, Machine.follow, threads, step, workerStep, working,
    Option.map_some, List.nil_append, List.append_nil]

/-- The accesses of an inference closure. -/
theorem leads_inferenceClosure (f : Frame n) (outcome : Outcome) (now : ℤ) (b : Brain n H) :
    (threads cfg env start).Leads (working b (.forward f))
      (rest (b.inferenceClosure cfg env f outcome now).1)
      (b.inferenceClosure cfg env f outcome now).2 := by
  unfold Brain.inferenceClosure
  generalize hloan : b.acquireBuffer cfg = loan
  obtain ⟨buffer, pooled, b'⟩ := loan
  dsimp only
  generalize hobs : b'.observation cfg env f buffer = obs
  have hthrows : (threads cfg env start).Leads (working b (.forward f))
      (working b' (.releaseBuffer ⟨f, obs, pooled⟩)) [.forwarded obs] := by
    refine ⟨[.worker true now], ?_⟩
    simp only [Machine.follow, threads, step, workerStep, working, hloan, hobs, if_true,
      Option.map_some, List.append_nil]
  have hforward : (threads cfg env start).Leads (working b (.forward f))
      (working (b'.storeHiddenState (env.forward obs b'.hiddenState).2)
        (.computeTargets ⟨f, obs, pooled⟩ (env.forward obs b'.hiddenState).1))
      [.forwarded obs] := by
    refine ⟨[.worker false now], ?_⟩
    simp only [Machine.follow, threads, step, workerStep, working, hloan, hobs, Bool.false_eq_true,
      if_false, Option.map_some, List.append_nil]
  generalize env.forward obs b'.hiddenState = result at hforward ⊢
  split_ifs with hforwardThrows htargetsThrow hgen hpublishThrows
  · exact hthrows.trans_silent (leads_releaseBuffer ⟨f, obs, pooled⟩ now b')
  · refine (hforward.trans_silent ?_).trans_silent (leads_releaseBuffer ⟨f, obs, pooled⟩ now _)
    exact ⟨[.worker true now], rfl⟩
  all_goals
    have htargets : (threads cfg env start).Leads (working b (.forward f))
        (working (b'.storeHiddenState result.2) (.checkGeneration ⟨f, obs, pooled⟩ result.1
          (jointTargets cfg f.profile result.1))) [.forwarded obs] :=
      hforward.trans_silent ⟨[.worker false now], rfl⟩
  · exact (htargets.trans_silent (leads_publishThrew _ _ _ now _ hgen)).trans_silent
      (leads_releaseBuffer ⟨f, obs, pooled⟩ now _)
  · exact (htargets.trans (leads_applied _ _ _ now _ hgen)).trans_silent
      (leads_releaseBuffer ⟨f, obs, pooled⟩ now _)
  · exact (htargets.trans (leads_superseded _ _ _ now _ hgen)).trans_silent
      (leads_releaseBuffer ⟨f, obs, pooled⟩ now _)

end Threads

/-- From a state between calls, the threads make every call. -/
theorem leads_of_step {b : Brain n H} {e : Event n} {r : Brain n H × List (Output n)}
    (h : b.step cfg env e = some r) :
    (threads cfg env start).Leads (Threads.rest b) (Threads.rest r.1) r.2 := by
  cases e with
  | task t now =>
    obtain rfl := Option.some.inj h
    exact Threads.leads_processRobotTask t now b
  | tick now prop =>
    obtain rfl := Option.some.inj h
    exact Threads.leads_controlLoopStep now prop b
  | infer outcome now =>
    unfold Brain.step at h
    cases hq : b.inferenceQueue with
    | nil => simp [hq] at h
    | cons f q =>
      simp only [hq, Option.some.injEq] at h
      subst h
      have hdequeue : (threads cfg env start).Leads (Threads.rest b)
          (Threads.working (b.dequeue q) (.forward f)) [] := by
        refine ⟨[.dequeue], ?_⟩
        simp only [Machine.follow, threads, Threads.step, Threads.rest, Threads.working, hq,
          Option.map_some, List.append_nil]
      exact hdequeue.trans (Threads.leads_inferenceClosure f outcome now (b.dequeue q))

/-- Every run of whole calls is a run of the three threads, with the same outputs, that ends between
calls. -/
theorem exists_threads_run {es : List (Event n)} {b : Brain n H} {tr : List (Output n)}
    (h : (atomic cfg env start).Run es b tr) :
    ∃ es', (threads cfg env start).Run es' (Threads.rest b) tr := by
  have hsim : ∃ es' s, (threads cfg env start).Run es' s tr ∧ s = Threads.rest b := by
    refine Machine.Run.simulate (fun b s => s = Threads.rest b) rfl ?_ h
    intro b s e b' out heq hs
    subst heq
    exact ⟨_, leads_of_step hs, rfl⟩
  obtain ⟨es', s, hrun, rfl⟩ := hsim
  exact ⟨es', hrun⟩

end RobotBrain
