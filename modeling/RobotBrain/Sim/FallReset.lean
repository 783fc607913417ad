import RobotBrain.Library.Trace
import RobotBrain.Sim.Loop

/-!
# Whether the brain notices that the simulator has put the robot back

After a fall the simulator puts the robot back into the standing pose. The brain has to forget what
its policy remembers of the fall, and is not told. It compares the projected gravity of successive
frames and takes a jump of its last component from above `-0.3` to below `-0.7` for such a reset.
The simulator looks for a fall after the physics and before it publishes, so that the pose in which
it finds the robot fallen is never published. What the brain compares is the pose published one step
earlier, in which the robot may still have been nearly upright.

## Main definitions

* `ImuLog`, `imuLoop` — the system with a record of the IMU messages published.
* `ImuLog.InOrder` — no message is lost, and each is used in a frame before the next arrives.
* `Brain.PolicyReset` — a tick has reset the policy memory.

## Main results

* `Brain.policyReset_iff` — a tick that captures a frame resets the policy memory exactly if the
  gravity has jumped.
* `reset_noticed_iff` — the first frame after a reset of the simulator resets the policy memory
  exactly if the pose published before it was tilted far enough.
-/

namespace RobotBrain

open ExtNum

variable {n : ℕ} {H D : Type*} {cfg : BrainConfig n} {env : Environment n H} {mj : Mujoco D}
  {simCfg : SimConfig}

/-! ### What a tick resets -/

/-- A tick at which the gate is open and the proprioception valid captures a frame, if the state is
active and the queue has room. -/
def Brain.Captures (b : Brain n H) (prop : Proprioception n) : Prop :=
  b.isInferring = false ∧ prop.valid = true

instance (b : Brain n H) (prop : Proprioception n) : Decidable (b.Captures prop) :=
  inferInstanceAs (Decidable (_ ∧ _))

/-- A tick has called `ResetHiddenState`, zeroed `prev_actions_` and set `last_joint_targets_` to
the default. -/
structure Brain.PolicyReset (cfg : BrainConfig n) (env : Environment n H)
    (r : Brain n H × List (Output n)) : Prop where
  outputs : [.hiddenStateReset, .prevActionsReset, .jointTargetsReset] <:+: r.2
  hiddenState : r.1.hiddenState = env.hiddenZero
  prevActions : r.1.prevActions = fun _ => fin 0
  lastJointTargets : r.1.lastJointTargets = cfg.defaultJointPositions

namespace Brain

theorem WatchdogResult.lastGravityZ {b : Brain n H} {w : Brain n H × List (Output n)}
    (h : WatchdogResult b w) : w.1.lastGravityZ = b.lastGravityZ := by
  cases h <;> rfl

theorem WatchdogResult.hiddenStateReset_notMem {b : Brain n H} {w : Brain n H × List (Output n)}
    (h : WatchdogResult b w) : Output.hiddenStateReset ∉ w.2 := by
  cases h <;> simp

/-- In a run, a tick that captures a frame resets the policy memory exactly if the gravity has
jumped. -/
theorem policyReset_iff {now : ℤ} {ok : Brain n H → List (Output n) → Event n → Prop}
    {es : List (Event n)} {b : Brain n H} {tr : List (Output n)}
    (h : (atomic cfg env now).Reaches ok es b tr) {prop : Proprioception n}
    (hcaptures : b.Captures prop) (time : ℤ) :
    PolicyReset cfg env (b.controlLoopStep cfg env time prop) ↔ b.SimulatorReset prop := by
  obtain ⟨hopen, hvalid⟩ := hcaptures
  have hs : b.step cfg env (.tick time prop) = some (b.controlLoopStep cfg env time prop) := rfl
  generalize b.controlLoopStep cfg env time prop = r at hs
  cases runStep h hs with
  | tick _ hw hr =>
    have hgravity := hw.lastGravityZ
    have hnotMem := hw.hiddenStateReset_notMem
    cases hr with
    | busy hgate => exact Bool.noConfusion (hopen.symm.trans (hw.isInferring.symm.trans hgate))
    | invalid _ hinvalid => exact Bool.noConfusion (hvalid.symm.trans hinvalid)
    | captured _ _ _ hreset =>
      cases hreset with
      | reset hjump =>
        have hjump : b.SimulatorReset prop := ⟨hgravity ▸ hjump.1, hjump.2⟩
        exact iff_of_true ⟨⟨_, _, List.append_assoc _ _ _⟩, rfl, rfl, rfl⟩ hjump
      | noReset hflat =>
        refine iff_of_false (fun hreset => ?_) fun hjump => hflat ⟨hgravity.symm ▸ hjump.1, hjump.2⟩
        have hmem : Output.hiddenStateReset ∈ _ := hreset.outputs.subset List.mem_cons_self
        simp [hnotMem] at hmem

/-- `last_gravity_z` after a call: only a tick that captures a frame stores it. -/
def nextGravityZ (b : Brain n H) : Event n → Scalar
  | .tick _ prop => if b.Captures prop then prop.gravityZ else b.lastGravityZ
  | _ => b.lastGravityZ

theorem lastGravityZ_step {now : ℤ} {ok : Brain n H → List (Output n) → Event n → Prop}
    {es : List (Event n)} {b : Brain n H} {tr : List (Output n)}
    (h : (atomic cfg env now).Reaches ok es b tr) {e : Event n} {r : Brain n H × List (Output n)}
    (hs : b.step cfg env e = some r) : r.1.lastGravityZ = b.nextGravityZ e := by
  cases runStep h hs with
  | task hr => cases hr <;> rfl
  | infer _ hr => cases hr <;> rfl
  | tick _ hw hr =>
    have hgravity := hw.lastGravityZ
    have hgate := hw.isInferring
    rw [nextGravityZ]
    cases hr with
    | busy hbusy =>
      rw [if_neg fun huses => Bool.noConfusion (huses.1.symm.trans (hgate.symm.trans hbusy))]
      exact hgravity
    | invalid _ hinvalid =>
      rw [if_neg fun huses => Bool.noConfusion (huses.2.symm.trans hinvalid)]
      exact hgravity
    | captured _ hopen hvalid hreset =>
      rw [if_pos ⟨hgate.symm.trans hopen, hvalid⟩]
      cases hreset <;> rfl

end Brain

/-! ### The messages on their way to the brain -/

/-- The IMU messages that the simulator has published, the oldest first, and whether the brain has
received one that no frame has used. -/
structure ImuLog where
  published : List Imu := []
  fresh : Bool := false

/-- The system notes an IMU message when it is published, received or used. -/
def Loop.logImu (mj : Mujoco D) (s : Loop n H D) (e : LoopEvent) (s' : Loop n H D) (log : ImuLog) :
    ImuLog :=
  match e with
  | .simStep => { log with published := log.published ++ [s'.sim.imu mj] }
  | .imu _ => { log with fresh := true }
  | .tick _ =>
    if s.brain.Captures s.ros.getLatestProprioception then { log with fresh := false } else log
  | _ => log

/-- The brain and the simulator with the record of the IMU messages. -/
def imuLoop (cfg : BrainConfig n) (env : Environment n H) (mj : Mujoco D) (simCfg : SimConfig)
    (now : ℤ) (d : D) : Machine (Loop n H D × ImuLog) LoopEvent (LoopOutput n) :=
  (loop cfg env mj simCfg now d).withRecord {} (Loop.logImu mj)

/-- No IMU message is lost, and the one before it has been used when it arrives. -/
def ImuLog.InOrder (log : ImuLog) : LoopEvent → Prop
  | .imu lost => lost = false ∧ log.fresh = false
  | _ => True

instance (log : ImuLog) : (e : LoopEvent) → Decidable (log.InOrder e)
  | .imu _ => inferInstanceAs (Decidable (_ ∧ _))
  | .task _ _ | .tick _ | .infer _ _ | .jointState _ | .command | .simStep => .isTrue trivial

/-- The number of resets before the last message. -/
def lastOrigin (past : List Imu) : ℕ :=
  (past.getLast?.map Imu.origin).getD 0

@[simp] theorem lastOrigin_concat (past : List Imu) (msg : Imu) :
    lastOrigin (past ++ [msg]) = msg.origin := by
  rw [lastOrigin, List.getLast?_concat]
  rfl

/-- `gravity_z` of a message. -/
def Imu.gravityZ (msg : Imu) : Scalar :=
  RosNode.quaternionToProjectedGravity msg.orientation (Fin.last 2)

/-- `gravity_z` of the last message, `-1` before the first. -/
def lastMessageGravityZ (past : List Imu) : Scalar :=
  (past.getLast?.map Imu.gravityZ).getD (fin (-1))

@[simp] theorem lastMessageGravityZ_concat (past : List Imu) (msg : Imu) :
    lastMessageGravityZ (past ++ [msg]) = msg.gravityZ := by
  rw [lastMessageGravityZ, List.getLast?_concat]
  rfl

/-- The orientation of the standing pose. -/
def Quaternion.identity : Quaternion := ⟨fin 1, fin 0, fin 0, fin 0⟩

/-- What the two nodes know about the messages, `received` being those that have arrived. -/
structure Loop.ImuInv (s : Loop n H D) (log : ImuLog) (received : List Imu) : Prop where
  published : log.published = received ++ s.imus
  origin : lastOrigin log.published = s.sim.resets
  /-- The first message after a reset is that of the standing pose. -/
  standing : Each (fun past msg => msg.origin ≠ lastOrigin past →
    msg.orientation = .identity) log.published
  cached : s.ros.latestGravity 2 = lastMessageGravityZ received
  /-- The last message used is the last one received or, while that is fresh, the one before. -/
  used : s.brain.lastGravityZ =
    lastMessageGravityZ (if log.fresh then received.dropLast else received)

namespace Loop.ImuInv

variable {s s' : Loop n H D} {log : ImuLog} {received : List Imu}

/-- Steps that touch none of the fields. -/
theorem congr (hI : s.ImuInv log received) (himus : s'.imus = s.imus)
    (hresets : s'.sim.resets = s.sim.resets)
    (hcached : s'.ros.latestGravity = s.ros.latestGravity)
    (hused : s'.brain.lastGravityZ = s.brain.lastGravityZ) : s'.ImuInv log received where
  published := himus ▸ hI.published
  origin := hresets ▸ hI.origin
  standing := hI.standing
  cached := hcached ▸ hI.cached
  used := hused.trans hI.used

/-- A tick that captures a frame uses the message that the node of the brain holds. -/
theorem tick (hI : s.ImuInv log received) {time : ℤ}
    (hused : s'.brain.lastGravityZ =
      s.brain.nextGravityZ (.tick time s.ros.getLatestProprioception))
    (himus : s'.imus = s.imus) (hresets : s'.sim.resets = s.sim.resets)
    (hcached : s'.ros.latestGravity = s.ros.latestGravity) :
    s'.ImuInv (logImu mj s (.tick time) s' log) received := by
  by_cases hcaptures : s.brain.Captures s.ros.getLatestProprioception
  · rw [Brain.nextGravityZ, if_pos hcaptures] at hused
    rw [logImu, if_pos hcaptures]
    exact ⟨himus ▸ hI.published, hresets ▸ hI.origin, hI.standing, hcached ▸ hI.cached,
      hused.trans hI.cached⟩
  · rw [Brain.nextGravityZ, if_neg hcaptures] at hused
    rw [logImu, if_neg hcaptures]
    exact hI.congr himus hresets hcached hused

/-- A message arrives after the one before it has been used. -/
theorem imu (hI : s.ImuInv log received) (hfresh : log.fresh = false) {msg : Imu}
    {rest : List Imu} (himus : s.imus = msg :: rest) :
    ImuInv { s with ros := s.ros.imuCallback msg, imus := rest } { log with fresh := true }
      (received ++ [msg]) where
  published := by rw [hI.published, himus, List.append_cons]
  origin := hI.origin
  standing := hI.standing
  cached := (lastMessageGravityZ_concat received msg).symm
  used := by
    have hused := hI.used
    rw [hfresh] at hused
    rw [if_pos rfl, List.dropLast_concat]
    exact hused

/-- The simulator publishes; after a fall the pose is the standing pose. -/
theorem simStep (hI : s.ImuInv log received)
    (hstanding : ∀ d, mj.orientation (SimNode.resetToStanding mj d) = .identity)
    {jointStates : List JointState} {sim : SimNode D} (hsim : s.sim.advance mj simCfg = sim) :
    ImuInv { s with sim := sim, jointStates := jointStates, imus := s.imus ++ [sim.imu mj] }
      { log with published := log.published ++ [sim.imu mj] } received where
  published := by rw [hI.published, List.append_assoc]
  origin := lastOrigin_concat _ _
  standing := by
    refine each_concat.mpr ⟨hI.standing, fun hreset => ?_⟩
    by_cases hfalls : s.sim.Falls mj simCfg
    · have hdata := SimNode.data_advance_of_falls hfalls
      rw [hsim] at hdata
      show mj.orientation sim.data = _
      rw [hdata, hstanding]
    · have hresets := (SimNode.advance_of_not_falls hfalls).2
      rw [hsim] at hresets
      exact absurd (hresets.trans hI.origin.symm) hreset
  cached := hI.cached
  used := hI.used

/-- Every step in order keeps what is known. -/
theorem step (hI : s.ImuInv log received)
    (hstanding : ∀ d, mj.orientation (SimNode.resetToStanding mj d) = .identity) {now : ℤ}
    {calls : List (Event n)} {tr : List (Output n)}
    (hbrain : (atomic cfg env now).Run calls s.brain tr) {e : LoopEvent} (hok : log.InOrder e)
    {out : List (LoopOutput n)} (hs : s.step cfg env mj simCfg e = some (s', out)) :
    ∃ received', s'.ImuInv (logImu mj s e s' log) received' := by
  cases e with
  | task t time =>
    cases Loop.stepResult hs with
    | brain hcall hr =>
      cases hcall
      exact ⟨received, hI.congr rfl rfl rfl (Brain.lastGravityZ_step hbrain hr)⟩
  | tick time =>
    cases Loop.stepResult hs with
    | brain hcall hr =>
      cases hcall
      exact ⟨received, hI.tick (Brain.lastGravityZ_step hbrain hr) rfl rfl rfl⟩
  | infer outcome time =>
    cases Loop.stepResult hs with
    | brain hcall hr =>
      cases hcall
      exact ⟨received, hI.congr rfl rfl rfl (Brain.lastGravityZ_step hbrain hr)⟩
  | jointState lost =>
    cases Loop.stepResult hs with
    | brain hcall => cases hcall
    | jointState => exact ⟨received, hI.congr rfl rfl (by cases lost <;> rfl) rfl⟩
  | imu lost =>
    obtain ⟨rfl, hfresh⟩ := hok
    cases Loop.stepResult hs with
    | brain hcall => cases hcall
    | imu himus => exact ⟨_, hI.imu hfresh himus⟩
  | command =>
    cases Loop.stepResult hs with
    | brain hcall => cases hcall
    | ignored => exact ⟨received, hI.congr rfl rfl rfl rfl⟩
    | command _ _ _ hresets => exact ⟨received, hI.congr rfl hresets rfl rfl⟩
  | simStep =>
    cases hs
    exact ⟨received, hI.simStep hstanding rfl⟩

end Loop.ImuInv

/-- In every run in order the nodes agree on the messages. -/
theorem exists_imuInv {now : ℤ} {d : D} {es : List LoopEvent} {s : Loop n H D} {log : ImuLog}
    {tr : List (LoopOutput n)}
    (hstanding : ∀ d, mj.orientation (SimNode.resetToStanding mj d) = .identity)
    (h : (imuLoop cfg env mj simCfg now d).Reaches (fun s _ e => s.2.InOrder e) es (s, log) tr) :
    ∃ received, s.ImuInv log received := by
  refine h.invariant (fun s _ => ∃ received, s.1.ImuInv s.2 received)
    ⟨[], rfl, rfl, trivial, rfl, rfl⟩ ?_
  rintro es ⟨s, log⟩ tr e r out hreach ⟨received, hI⟩ hok hs
  obtain ⟨s', out', hstep, heq⟩ := Machine.step_withRecord.mp hs
  cases heq
  obtain ⟨calls, tr', hbrain⟩ :=
    Loop.exists_run ((Machine.run_iff_exists_withRecord _ _).mpr ⟨log, hreach.run⟩)
  exact hI.step hstanding hbrain hok hstep

/-- In every run in which no IMU message is lost and each is used in a frame before the next
arrives: the first frame from a message published after a reset of the simulator resets the policy
memory if and only if a message was published before it and its `gravity_z` is above `-0.3`. -/
theorem reset_noticed_iff {now : ℤ} {d : D} {es : List LoopEvent} {s : Loop n H D} {log : ImuLog}
    {tr : List (LoopOutput n)}
    (hstanding : ∀ d, mj.orientation (SimNode.resetToStanding mj d) = .identity)
    (h : (imuLoop cfg env mj simCfg now d).Reaches (fun s _ e => s.2.InOrder e) es (s, log) tr)
    (hcaptures : s.brain.Captures s.ros.getLatestProprioception) (hfresh : log.fresh = true)
    {past : List Imu} {msg : Imu} (hlog : log.published = past ++ msg :: s.imus)
    (hreset : msg.origin ≠ lastOrigin past) (time : ℤ) :
    Brain.PolicyReset cfg env
        (s.brain.controlLoopStep cfg env time s.ros.getLatestProprioception) ↔
      ∃ prev, past.getLast? = some prev ∧ fin (-3 / 10) < prev.gravityZ := by
  obtain ⟨received, hI⟩ := exists_imuInv hstanding h
  obtain ⟨calls, tr', hbrain⟩ :=
    Loop.exists_run ((Machine.run_iff_exists_withRecord _ _).mpr ⟨log, h.run⟩)
  have hreceived : received = past ++ [msg] := by
    have hpublished := hI.published.symm.trans hlog
    rw [List.append_cons] at hpublished
    exact List.append_cancel_right hpublished
  have hused := hI.used
  have hcached := hI.cached
  rw [hfresh, if_pos rfl, hreceived, List.dropLast_concat] at hused
  rw [hreceived, lastMessageGravityZ_concat] at hcached
  have hupright : msg.orientation = .identity := each_iff_forall_eq.mp hI.standing _ _ _ hlog hreset
  have hgravity : s.ros.getLatestProprioception.gravityZ = fin (-1) := by
    show s.ros.latestGravity 2 = _
    rw [hcached, Imu.gravityZ, hupright]
    decide +kernel
  have hjump : (fin (-1) : Scalar) < fin (-7 / 10) := by decide +kernel
  rw [Brain.policyReset_iff hbrain hcaptures, Brain.SimulatorReset, hused, hgravity,
    lastMessageGravityZ, and_iff_left hjump]
  cases past.getLast? with
  | none =>
    have hlow : ¬(fin (-3 / 10) : Scalar) < fin (-1) := by decide +kernel
    exact iff_of_false hlow (by rintro ⟨prev, ⟨⟩, -⟩)
  | some prev =>
    constructor
    · intro hprev
      exact ⟨prev, rfl, hprev⟩
    · rintro ⟨prev', hprev', hgravity'⟩
      cases hprev'
      exact hgravity'

/-! ### Two falls -/

/-- An engine that counts the physics steps since the last reset. The base turns to `q`, stays up
for a control period and then drops. -/
def droppingEngine (q : Quaternion) : Mujoco ℕ where
  resetData _ := 0
  forward d := d
  step d := d + 1
  qpos d adr :=
    let pose := if d = 0 then Quaternion.identity else q
    [fin 0, fin 0, if d < 10 then fin (793 / 1000) else fin (3 / 10), pose.w, pose.x, pose.y,
      pose.z].getD adr (fin 0)
  qvel _ _ := fin 0
  setQpos d _ _ := d
  setCtrl d _ _ := d
  qposAdr i := 7 + i
  dofAdr i := 6 + i
  ctrlAdr i := i
  asin x := x

theorem orientation_resetToStanding_droppingEngine (q : Quaternion) (d : ℕ) :
    (droppingEngine q).orientation (SimNode.resetToStanding (droppingEngine q) d) = .identity :=
  rfl

/-- The shipped robot in the loop with this engine. -/
def droppingLoop (q : Quaternion) : Machine (Loop 12 ℕ ℕ × ImuLog) LoopEvent (LoopOutput 12) :=
  imuLoop shippedConfig (constantPolicy 12 (fin 0)) (droppingEngine q) {} 0 0

/-- The simulator publishes, and the brain answers with a joint command. -/
def controlCycle (now : ℤ) : List LoopEvent :=
  [.simStep, .jointState false, .imu false, .tick now, .infer .completes now, .command]

/-- The robot falls in the third step of the simulator, and the message of that step arrives. -/
def fallEvents : List LoopEvent :=
  controlCycle 20 ++ controlCycle 40 ++ [.simStep, .jointState false, .imu false]

/-- The third message is the first one after the reset, and the second one has this gravity. -/
private def seesFall (gravity : Scalar) (s : Loop 12 ℕ ℕ × ImuLog) : Bool :=
  decide (s.1.brain.Captures s.1.ros.getLatestProprioception) && s.2.fresh && s.1.imus.isEmpty &&
    decide (s.2.published.map Imu.origin = [0, 0, 1]) &&
    decide (s.2.published.map Imu.gravityZ = [fin (-1), gravity, fin (-1)])

private theorem seesFall_eq_true {gravity : Scalar} {s : Loop 12 ℕ ℕ × ImuLog}
    (h : seesFall gravity s = true) :
    s.1.brain.Captures s.1.ros.getLatestProprioception ∧ s.2.fresh = true ∧
      ∃ first prev msg, s.2.published = [first, prev] ++ msg :: s.1.imus ∧
        msg.origin ≠ lastOrigin [first, prev] ∧ prev.gravityZ = gravity := by
  simp only [seesFall, Bool.and_eq_true, decide_eq_true_eq, List.isEmpty_iff] at h
  obtain ⟨⟨⟨⟨hcaptures, hfresh⟩, himus⟩, horigin⟩, hgravity⟩ := h
  have hlen : s.2.published.length = 3 := by
    simpa using congrArg List.length horigin
  obtain ⟨first, prev, msg, hpublished⟩ := List.length_eq_three.mp hlen
  rw [hpublished] at horigin hgravity
  simp only [List.map_cons, List.map_nil, List.cons.injEq] at horigin hgravity
  refine ⟨hcaptures, hfresh, first, prev, msg, by rw [hpublished, himus]; rfl, ?_, hgravity.2.1⟩
  rw [horigin.2.2.1]
  show 1 ≠ prev.origin
  rw [horigin.2.1]
  decide

/-- A robot that has rolled over before it drops: the reset is noticed. -/
theorem reset_noticed_rolled : ∃ s log tr,
    (droppingLoop ⟨fin (3 / 5), fin (4 / 5), fin 0, fin 0⟩).Run fallEvents (s, log) tr ∧
    Brain.PolicyReset shippedConfig (constantPolicy 12 (fin 0))
      (s.brain.controlLoopStep shippedConfig (constantPolicy 12 (fin 0)) 60
        s.ros.getLatestProprioception) := by
  have hrun : ∃ s tr, (droppingLoop ⟨fin (3 / 5), fin (4 / 5), fin 0, fin 0⟩).Reaches
      (fun s _ e => s.2.InOrder e) fallEvents s tr ∧ seesFall (fin (7 / 25)) s = true :=
    Machine.exists_reaches _ (by decide +kernel)
  obtain ⟨⟨s, log⟩, tr, hrun, hs⟩ := hrun
  obtain ⟨hcaptures, hfresh, first, prev, msg, hlog, hreset, hgravity⟩ := seesFall_eq_true hs
  refine ⟨s, log, tr, hrun.run, (reset_noticed_iff (orientation_resetToStanding_droppingEngine _)
    hrun hcaptures hfresh hlog hreset 60).mpr ⟨prev, rfl, ?_⟩⟩
  rw [hgravity]
  decide +kernel

/-- A robot that drops upright: the first frame after the reset resets nothing. -/
theorem exists_reset_unnoticed : ∃ s log tr past msg,
    (droppingLoop .identity).Reaches (fun s _ e => s.2.InOrder e) fallEvents (s, log) tr ∧
    s.brain.Captures s.ros.getLatestProprioception ∧ log.fresh = true ∧
    log.published = past ++ msg :: s.imus ∧ msg.origin ≠ lastOrigin past ∧
    ¬Brain.PolicyReset shippedConfig (constantPolicy 12 (fin 0))
      (s.brain.controlLoopStep shippedConfig (constantPolicy 12 (fin 0)) 60
        s.ros.getLatestProprioception) := by
  have hrun : ∃ s tr, (droppingLoop .identity).Reaches (fun s _ e => s.2.InOrder e)
      fallEvents s tr ∧
      (seesFall (fin (-1)) s &&
        !decide (s.1.brain.SimulatorReset s.1.ros.getLatestProprioception)) = true :=
    Machine.exists_reaches _ (by decide +kernel)
  obtain ⟨⟨s, log⟩, tr, hrun, hs⟩ := hrun
  rw [Bool.and_eq_true, Bool.not_eq_true', decide_eq_false_iff_not] at hs
  obtain ⟨hsees, hflat⟩ := hs
  obtain ⟨hcaptures, hfresh, first, prev, msg, hlog, hreset, -⟩ := seesFall_eq_true hsees
  obtain ⟨calls, tr', hbrain⟩ :=
    Loop.exists_run ((Machine.run_iff_exists_withRecord _ _).mpr ⟨log, hrun.run⟩)
  exact ⟨s, log, tr, _, msg, hrun, hcaptures, hfresh, hlog, hreset,
    fun hpolicy => hflat ((Brain.policyReset_iff hbrain hcaptures 60).mp hpolicy)⟩

end RobotBrain
