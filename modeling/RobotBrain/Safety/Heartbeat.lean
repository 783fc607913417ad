import RobotBrain.Brain.Atomic
import RobotBrain.Library.Lease

/-!
# The heartbeat

The state `EXECUTING` is a lease of `watchdog_timeout_ms`. A motion task grants it, an emergency
stop revokes it, each control tick checks it, and it is renewed by every frame that is published:
`FeedDog` is called by the tasks and by the brain itself. So the state is `EXECUTING` exactly while
the lease is held, and a brain whose inferences keep up needs no client to go on walking.

## Main definitions

* `Brain.leaseEvent`, `leasedAtomic` — the history of the lease, recorded beside a run.
* `Brain.Answers` — a control tick and the closure of the frame that it captures.
* `Cycle`, `Timely` — control ticks whose inferences end before the lease does.

## Main results

* `executing_iff` — the state in every run.
* `follow_cycles` — cycles in time keep the state, one command each.
-/

namespace RobotBrain

variable {n : ℕ} {H : Type*} {cfg : BrainConfig n} {env : Environment n H}

/-! ### The state -/

/-- What a call does to the lease. -/
def Brain.leaseEvent (b : Brain n H) : Event n → Option (LeaseEvent Task ℤ)
  | .task t now => some (.grant t now)
  | .tick now _ => some (.check now)
  | .infer .completes now =>
    if ∃ f ∈ b.inferenceQueue.head?, f.myGeneration = b.taskGeneration then some (.renew now)
    else none
  | .infer _ _ => none

/-- The brain with the history of its lease. -/
def leasedAtomic (cfg : BrainConfig n) (env : Environment n H) (start : ℤ) :
    Machine (Brain n H × List (LeaseEvent Task ℤ)) (Event n) (Output n) :=
  (atomic cfg env start).withRecord [] fun b e _ history => history ++ (b.leaseEvent e).toList

/-- The tasks that grant the lease. -/
def Task.IsMotion (t : Task) : Prop := t.type ≠ .emergencyStop

/-- The state and the heartbeat are those of the lease. -/
structure LeaseInv (cfg : BrainConfig n) (start : ℤ) (b : Brain n H)
    (history : List (LeaseEvent Task ℤ)) : Prop where
  state : b.metrics.currentState = .executing ↔
    LeaseHeld cfg.watchdogTimeoutMs Task.IsMotion history
  heartbeat : b.lastHeartbeatMs = lastRenewal start history

section Steps

variable {start : ℤ} {b : Brain n H} {history : List (LeaseEvent Task ℤ)}

theorem state_eq_executing_iff (t : Task) : t.state = .executing ↔ t.IsMotion := by
  unfold Task.state Task.IsMotion
  split_ifs with h <;> simp [h]

theorem standing_ne_executing : RobotState.standing ≠ .executing := by decide

theorem LeaseInv.task (t : Task) (now : ℤ) {r : Brain n H × List (Output n)}
    (h : Brain.TaskResult cfg env t now b r) :
    LeaseInv cfg start r.1 (history ++ [.grant t now]) := by
  constructor
  · rw [leaseHeld_concat_grant, ← state_eq_executing_iff]
    cases h <;> exact Iff.rfl
  · rw [lastRenewal_append]
    cases h <;> rfl

/-- The watchdog checks the lease, and nothing else in a tick concerns it. -/
theorem watchdog_state (cfg : BrainConfig n) (now : ℤ) (b : Brain n H) :
    ((b.watchdog cfg now).1.metrics.currentState = .executing ↔
      b.metrics.currentState = .executing ∧ now - b.lastHeartbeatMs ≤ cfg.watchdogTimeoutMs) ∧
      (b.watchdog cfg now).1.lastHeartbeatMs = b.lastHeartbeatMs := by
  by_cases hexpired : b.HeartbeatExpired cfg now
  · have hlate : ¬now - b.lastHeartbeatMs ≤ cfg.watchdogTimeoutMs := not_le.mpr hexpired
    by_cases hstate : b.noteExpiry.metrics.currentState = .executing
    · rw [Brain.watchdog, if_pos hexpired, if_pos hstate]
      exact ⟨iff_of_false standing_ne_executing fun h => hlate h.2, rfl⟩
    · rw [Brain.watchdog, if_pos hexpired, if_neg hstate]
      exact ⟨iff_of_false hstate fun h => hlate h.2, rfl⟩
  · rw [Brain.watchdog, if_neg hexpired]
    exact ⟨(and_iff_left (not_lt.mp hexpired)).symm, rfl⟩

theorem Brain.RunTick.state {now : ℤ} {prop : Proprioception n} {w r : Brain n H × List (Output n)}
    (h : Brain.RunTick cfg env now prop w r) :
    r.1.metrics.currentState = w.1.metrics.currentState ∧
      r.1.lastHeartbeatMs = w.1.lastHeartbeatMs := by
  cases h with
  | busy | invalid => exact ⟨rfl, rfl⟩
  | captured _ _ _ hr => cases hr <;> exact ⟨rfl, rfl⟩

theorem LeaseInv.step {e : Event n} {r : Brain n H × List (Output n)}
    (hI : LeaseInv cfg start b history) (h : Brain.RunStep cfg env b e r) :
    LeaseInv cfg start r.1 (history ++ (b.leaseEvent e).toList) := by
  obtain ⟨hstate, hheart⟩ := hI
  cases h with
  | @task t now r h => exact LeaseInv.task t now h
  | @tick now prop w r heq hw h =>
    obtain ⟨hkeep, hfed⟩ := h.state
    obtain ⟨hdog, hsame⟩ := watchdog_state cfg now b
    rw [heq] at hdog hsame
    constructor
    · rw [hkeep, hdog, hstate, hheart]
      exact leaseHeld_concat_check.symm
    · rw [hfed, hsame, hheart, lastRenewal_append]
      rfl
  | @infer outcome now f r hq h =>
    have hevent (now : ℤ) : b.leaseEvent (.infer .completes now) =
        if f.myGeneration = b.taskGeneration then some (.renew now) else none := by
      simp [Brain.leaseEvent, hq]
    -- a closure that publishes nothing leaves the lease alone
    have hkeep {e : Option (LeaseEvent Task ℤ)} (he : e = none) {b' : Brain n H}
        (hstate' : b'.metrics.currentState = b.metrics.currentState)
        (hheart' : b'.lastHeartbeatMs = b.lastHeartbeatMs) :
        LeaseInv cfg start b' (history ++ e.toList) := by
      rw [he, Option.toList_none, List.append_nil]
      exact ⟨hstate' ▸ hstate, hheart'.trans hheart⟩
    cases h with
    | forwardThrew => exact hkeep rfl rfl rfl
    | failed hout => rcases hout with rfl | ⟨rfl, -⟩ <;> exact hkeep rfl rfl rfl
    | applied hgen =>
      rw [hevent, if_pos (show f.myGeneration = b.taskGeneration from hgen)]
      refine ⟨hstate.trans leaseHeld_concat_renew.symm, ?_⟩
      rw [lastRenewal_append]
      rfl
    | superseded hout hgen =>
      rcases hout with rfl | rfl
      · exact hkeep ((hevent now).trans (if_neg hgen)) rfl rfl
      · exact hkeep rfl rfl rfl

end Steps

/-- In every run of whole calls the state is `EXECUTING` exactly if the latest task is a motion task
and every control tick since then came within `watchdog_timeout_ms` of the last feeding before it:
the return of that task, or a frame published since. -/
theorem executing_iff {start : ℤ} {es : List (Event n)}
    {s : Brain n H × List (LeaseEvent Task ℤ)} {tr : List (Output n)}
    (h : (leasedAtomic cfg env start).Run es s tr) :
    s.1.metrics.currentState = .executing ↔
      LeaseHeld cfg.watchdogTimeoutMs Task.IsMotion s.2 := by
  have hinv : LeaseInv cfg start s.1 s.2 ∧ ∃ es tr, (atomic cfg env start).Run es s.1 tr := by
    refine h.invariant (fun s _ => LeaseInv cfg start s.1 s.2 ∧
      ∃ es tr, (atomic cfg env start).Run es s.1 tr) ?_ ?_
    · exact ⟨⟨iff_of_false standing_ne_executing not_leaseHeld_nil, rfl⟩, [], [], .init⟩
    · rintro es ⟨b, history⟩ tr e s' out - ⟨hI, es', tr', hrun⟩ - hs
      obtain ⟨b', out', hstep, heq⟩ := Machine.step_withRecord.mp hs
      obtain ⟨rfl, rfl⟩ := Prod.mk.inj heq
      exact ⟨hI.step (Brain.runStep hrun hstep), _, _, hrun.step trivial hstep⟩
  exact hinv.1.state

/-- A task, and two ticks almost a second later with an inference between them: the lease has been
renewed by the frame. -/
theorem executing_iff_renewed :
    ∃ s tr, (leasedAtomic shippedConfig (constantPolicy 12 (.fin 0)) 1000).Run
        [.task ⟨.navigate, fun _ => .fin 0⟩ 1010, .tick 1500 (upright shippedConfig),
          .infer .completes 1505, .tick 1990 (upright shippedConfig)] s tr ∧
      LeaseHeld shippedConfig.watchdogTimeoutMs Task.IsMotion s.2 := by
  have hrun : ∃ s tr, (leasedAtomic shippedConfig (constantPolicy 12 (.fin 0)) 1000).Run
      [.task ⟨.navigate, fun _ => .fin 0⟩ 1010, .tick 1500 (upright shippedConfig),
        .infer .completes 1505, .tick 1990 (upright shippedConfig)] s tr ∧
      s.1.metrics.currentState = .executing :=
    Machine.exists_reaches_of_decide _ (by decide +kernel)
  obtain ⟨s, tr, hrun, hstate⟩ := hrun
  exact ⟨s, tr, hrun, (executing_iff hrun).mp hstate⟩

/-! ### One frame -/

namespace Brain

variable {b : Brain n H}

/-- A tick whose watchdog has left `v` has captured the frame `f` and published nothing. -/
structure TickCaptures (v b' : Brain n H) (out : List (Output n)) (f : Frame n) : Prop where
  queue : b'.inferenceQueue = [f]
  generation : f.myGeneration = b'.taskGeneration
  silent : commands out = []
  metrics : b'.metrics = v.metrics
  currentTaskType : b'.currentTaskType = v.currentTaskType
  velocityCmd : b'.velocityCmd = v.velocityCmd

/-- A tick that finds the gate open and both sensors heard captures a frame of the current
generation. -/
theorem exists_tickCaptures (cfg : BrainConfig n) (env : Environment n H) (hactive : b.Active)
    (hgate : b.isInferring = false) (hqueue : b.inferenceQueue = []) {prop : Proprioception n}
    (hvalid : prop.valid = true) (now : ℤ) :
    ∃ f, TickCaptures (b.watchdog cfg now).1 (b.controlLoopStep cfg env now prop).1
      (b.controlLoopStep cfg env now prop).2 f := by
  have hw := b.watchdogResult cfg now
  have hr := b.tickResult cfg env now prop
  generalize b.watchdog cfg now = w at hw hr
  generalize b.controlLoopStep cfg env now prop = r at hr
  have hempty := hw.inferenceQueue.trans hqueue
  cases hr with
  | busy hbusy => exact Bool.noConfusion (hgate.symm.trans (hw.isInferring.symm.trans hbusy))
  | invalid _ hinvalid => exact Bool.noConfusion (hvalid.symm.trans hinvalid)
  | inactive hexec hstand => exact absurd (hw.active hactive) (not_or.mpr ⟨hexec, hstand⟩)
  | full _ hreset hfull =>
    rw [hreset.inferenceQueue.trans hempty] at hfull
    exact absurd hfull (Nat.not_succ_le_zero 9)
  | @captured _ _ _ r hreset =>
    refine ⟨r.1.rampedFrame cfg now w.1.metrics.currentState prop, ?_, ?_, ?_, hreset.metrics,
      hreset.currentTaskType, hreset.velocityCmd⟩
    · exact congrArg (· ++ [_]) (hreset.inferenceQueue.trans hempty)
    · cases hreset <;> rfl
    · cases hw <;> cases hreset <;> rfl

/-- A tick and the closure of its frame: the tick captures `f` and publishes nothing, and the
closure applies the frame and publishes the new baseline of the rate limit. -/
structure Answers (cfg : BrainConfig n) (env : Environment n H) (now done : ℤ)
    (prop : Proprioception n) (b : Brain n H) (w r : Brain n H × List (Output n))
    (f : Frame n) : Prop where
  tick : b.controlLoopStep cfg env now prop = w
  captured : w.1.inferenceQueue = [f]
  silent : commands w.2 = []
  infer : (w.1.dequeue []).inferenceClosure cfg env f .completes done = r
  published : commands r.2 = [(r.1.lastJointTargets, .inference f)]
  queue : r.1.inferenceQueue = []
  gate : r.1.isInferring = false
  heartbeat : r.1.lastHeartbeatMs = done
  metrics : r.1.metrics = { (b.watchdog cfg now).1.metrics with
    totalFrames := (b.watchdog cfg now).1.metrics.totalFrames + 1 }
  currentTaskType : r.1.currentTaskType = (b.watchdog cfg now).1.currentTaskType
  velocityCmd : r.1.velocityCmd = (b.watchdog cfg now).1.velocityCmd

theorem exists_answers (cfg : BrainConfig n) (env : Environment n H) (hactive : b.Active)
    (hgate : b.isInferring = false) (hqueue : b.inferenceQueue = []) {prop : Proprioception n}
    (hvalid : prop.valid = true) (now done : ℤ) :
    ∃ w r f, Answers cfg env now done prop b w r f := by
  obtain ⟨f, hframe⟩ := exists_tickCaptures cfg env hactive hgate hqueue hvalid now
  generalize htick : b.controlLoopStep cfg env now prop = w at hframe
  have hinfer := (w.1.dequeue []).inferResult cfg env f .completes done
  generalize hclosure : (w.1.dequeue []).inferenceClosure cfg env f .completes done = r at hinfer
  refine ⟨w, r, f, ?_⟩
  cases hinfer with
  | superseded _ hstale => exact absurd hframe.generation hstale
  | failed hout => rcases hout with hout | ⟨hout, -⟩ <;> cases hout
  | applied =>
    refine ⟨htick, hframe.queue, hframe.silent, hclosure, rfl, rfl, rfl, rfl, ?_,
      hframe.currentTaskType, hframe.velocityCmd⟩
    rw [← hframe.metrics]
    rfl

end Brain

/-! ### Walking without a client -/

/-- A control tick with complete proprioception, and the time at which the inference of its frame
ends. -/
structure Cycle (n : ℕ) where
  now : ℤ
  prop : Proprioception n
  done : ℤ
  valid : prop.valid = true

/-- The calls of a cycle. -/
def Cycle.events (c : Cycle n) : List (Event n) := [.tick c.now c.prop, .infer .completes c.done]

/-- Each cycle begins within the timeout of the end of the one before it. -/
def Timely (timeout : ℤ) : ℤ → List (Cycle n) → Prop
  | _, [] => True
  | fed, c :: cycles => c.now - fed ≤ timeout ∧ Timely timeout c.done cycles

/-- The brain executes a task, and no inference is running. -/
structure Brain.Walking (b : Brain n H) : Prop where
  state : b.metrics.currentState = .executing
  gate : b.isInferring = false
  queue : b.inferenceQueue = []

/-- What the cycles make of a brain: it walks on with the same command, and has counted and
published one frame for each of them. -/
structure Brain.WalksOn (b b' : Brain n H) (cycles : ℕ) (out : List (Output n)) : Prop where
  walking : b'.Walking
  type : b'.currentTaskType = b.currentTaskType
  target : b'.velocityCmd = b.velocityCmd
  frames : b'.metrics.totalFrames = b.metrics.totalFrames + cycles
  length : (commands out).length = cycles
  source : ∀ c ∈ commands out, c.2.isInference = true

section Cycles

variable {start : ℤ} {b b' b'' : Brain n H} {out out' : List (Output n)}

theorem Brain.WalksOn.trans {k k' : ℕ} (h : b.WalksOn b' k out) (h' : b'.WalksOn b'' k' out') :
    b.WalksOn b'' (k + k') (out ++ out') where
  walking := h'.walking
  type := h'.type.trans h.type
  target := h'.target.trans h.target
  frames := by rw [h'.frames, h.frames, Nat.add_assoc]
  length := by
    rw [commands_append, List.length_append, h.length, h'.length]
  source := by
    rw [commands_append, List.forall_mem_append]
    exact ⟨h.source, h'.source⟩

/-- A tick in time does not find the heartbeat expired. -/
theorem watchdog_of_le {now : ℤ} (htime : now - b.lastHeartbeatMs ≤ cfg.watchdogTimeoutMs) :
    b.watchdog cfg now = (b, []) :=
  if_neg (not_lt.mpr htime)

/-- One cycle in time. -/
theorem follow_cycle (env : Environment n H) (start : ℤ) (hb : b.Walking) (c : Cycle n)
    (htime : c.now - b.lastHeartbeatMs ≤ cfg.watchdogTimeoutMs) :
    ∃ b' out, (atomic cfg env start).follow b c.events = some (b', out) ∧ b.WalksOn b' 1 out ∧
      b'.lastHeartbeatMs = c.done := by
  obtain ⟨w, r, f, h⟩ := Brain.exists_answers cfg env (Or.inl hb.state) hb.gate hb.queue c.valid
    c.now c.done
  have htick : (atomic cfg env start).step b (.tick c.now c.prop) = some w := congrArg some h.tick
  have hinfer : (atomic cfg env start).step w.1 (.infer .completes c.done) = some r := by
    simp only [atomic, Brain.step, h.captured, h.infer]
  have hquiet := watchdog_of_le htime
  have hcommands : commands (w.2 ++ (r.2 ++ [])) = [(r.1.lastJointTargets, .inference f)] := by
    rw [commands_append, h.silent, List.append_nil, h.published]
    rfl
  have hmetrics := h.metrics
  have htype := h.currentTaskType
  have hvel := h.velocityCmd
  rw [hquiet] at hmetrics htype hvel
  refine ⟨r.1, _, Machine.follow_cons htick (Machine.follow_cons hinfer rfl),
    ⟨⟨?_, h.gate, h.queue⟩, htype, hvel, ?_, ?_, ?_⟩, h.heartbeat⟩
  · rw [hmetrics]
    exact hb.state
  · rw [hmetrics]
  · rw [hcommands]
    rfl
  · rw [hcommands]
    intro command hcommand
    rw [List.mem_singleton.mp hcommand]
    rfl

/-- Cycles in time after a run, however many. -/
theorem follow_cycles {es : List (Event n)} {tr : List (Output n)}
    (h : (atomic cfg env start).Run es b tr) (hstate : b.metrics.currentState = .executing)
    (hgate : b.isInferring = false) {cycles : List (Cycle n)}
    (htime : Timely cfg.watchdogTimeoutMs b.lastHeartbeatMs cycles) :
    ∃ b' out, (atomic cfg env start).Run (es ++ cycles.flatMap Cycle.events) b' (tr ++ out) ∧
      b.WalksOn b' cycles.length out := by
  have hfollow : ∀ (cycles : List (Cycle n)) (b : Brain n H), b.Walking →
      Timely cfg.watchdogTimeoutMs b.lastHeartbeatMs cycles → ∃ b' out,
        (atomic cfg env start).follow b (cycles.flatMap Cycle.events) = some (b', out) ∧
          b.WalksOn b' cycles.length out := by
    intro cycles
    induction cycles with
    | nil => exact fun b hb _ => ⟨b, [], rfl, hb, rfl, rfl, rfl, rfl, by simp [commands]⟩
    | cons c cycles ih =>
      intro b hb htime
      obtain ⟨b₁, out₁, hfollow₁, hon₁, hheart⟩ := follow_cycle env start hb c htime.1
      obtain ⟨b₂, out₂, hfollow₂, hon₂⟩ := ih b₁ hon₁.walking (hheart ▸ htime.2)
      refine ⟨b₂, out₁ ++ out₂, Machine.follow_append hfollow₁ hfollow₂, ?_⟩
      rw [List.length_cons, Nat.add_comm]
      exact hon₁.trans hon₂
  have hwalking : b.Walking := ⟨hstate, hgate, (gated_of_reaches h).2 hgate⟩
  obtain ⟨b', out, hfollowed, hon⟩ := hfollow cycles b hwalking htime
  exact ⟨b', out, h.follow hfollowed, hon⟩

end Cycles

/-- Two cycles after one task. -/
theorem follow_cycles_pair :
    ∃ (b b' : Brain 12 ℕ) (tr out : List (Output 12)), b.WalksOn b' 2 out ∧
      (atomic shippedConfig (constantPolicy 12 (.fin 0)) 1000).Run
        ([.task ⟨.navigate, fun _ => .fin 0⟩ 1010] ++
          frameEvents 1500 (upright shippedConfig) ++ frameEvents 2000 (upright shippedConfig)) b'
        (tr ++ out) := by
  have hrun : ∃ b tr, (atomic shippedConfig (constantPolicy 12 (.fin 0)) 1000).Run
      [.task ⟨.navigate, fun _ => .fin 0⟩ 1010] b tr ∧ b.metrics.currentState = .executing ∧
      b.isInferring = false ∧ b.lastHeartbeatMs = 1010 :=
    Machine.exists_reaches_of_decide _ (by decide +kernel)
  obtain ⟨b, tr, hrun, hstate, hgate, hheart⟩ := hrun
  have htime : Timely shippedConfig.watchdogTimeoutMs b.lastHeartbeatMs
      ([⟨1500, upright shippedConfig, 1500, rfl⟩, ⟨2000, upright shippedConfig, 2000, rfl⟩] :
        List (Cycle 12)) := by
    rw [hheart]
    exact ⟨by decide, by decide, trivial⟩
  obtain ⟨b', out, hrun', hon⟩ := follow_cycles hrun hstate hgate htime
  exact ⟨b, b', tr, out, hon, hrun'⟩

end RobotBrain
