import RobotBrain.Brain.Atomic
import RobotBrain.Sim.Direct
import Mathlib.Tactic.LinearCombination

/-!
# The gait clock of the brain and of the simulator

The brain and the simulator in the mode `direct_policy` build the same observation from the same
data, with one exception. The brain takes the phase of the gait from the number of frames applied
before, so that its first observation is at phase zero. The simulator counts a step before it runs
the session, so that its first observation is one control period later. The two clocks never agree.

## Main definitions

* `Brain.StandsStill` — a step of a brain that stays in `STANDING` and applies every frame.
* `appliedFrames` — the frames applied in a trace.
* `readings` — what the brain knows once it has received the messages of a step of the simulator.

## Main results

* `each_appliedFrame` — the observation of every frame of such a brain.
* `gaitPhase_shippedConfig`, `directPhase_even` — the phases, in fortieths of a turn.
* `gait_clock_ahead` — 45 components agree, the phase differs.
-/

namespace RobotBrain

open ExtNum

variable {n : ℕ} {H D L : Type*}

/-! ### The frames of a brain that stands still -/

/-- A frame that has been applied, with its observation and the actions of the policy. -/
structure AppliedFrame (n : ℕ) where
  frame : Frame n
  obs : List Scalar
  actions : Actions n

/-- The frames applied. -/
def appliedFrames (tr : List (Output n)) : List (AppliedFrame n) :=
  tr.filterMap fun
    | .applied f obs actions => some ⟨f, obs, actions⟩
    | _ => none

theorem appliedFrames_append (tr out : List (Output n)) :
    appliedFrames (tr ++ out) = appliedFrames tr ++ appliedFrames out :=
  List.filterMap_append

/-- The actions of the last frame, zeros before the first. -/
def lastJointActions (past : List (AppliedFrame n)) : Fin n → Scalar :=
  (past.getLast?.map fun x => x.actions.joint).getD fun _ => fin 0

@[simp] theorem lastJointActions_concat (past : List (AppliedFrame n)) (x : AppliedFrame n) :
    lastJointActions (past ++ [x]) = x.actions.joint := by
  rw [lastJointActions, List.getLast?_concat]
  rfl

/-- A call under which the brain stays in `STANDING`, drops no frame, completes every closure and
resets nothing. A task either leaves `STANDING` or is an emergency stop. -/
def Brain.StandsStill (b : Brain n H) : Event n → Prop
  | .task _ _ => False
  | .tick _ prop => b.isInferring = false ∧ (prop.valid = true → ¬b.SimulatorReset prop)
  | .infer outcome _ => outcome = .completes

instance (b : Brain n H) : (e : Event n) → Decidable (b.StandsStill e)
  | .task _ _ => .isFalse id
  | .tick _ _ => inferInstanceAs (Decidable (_ ∧ _))
  | .infer _ _ => inferInstanceAs (Decidable (_ = _))

/-- The velocity command in `STANDING`. -/
abbrev standingVelCmd : Velocity := ![fin (1 / 2), fin 0, fin 0]

/-- The observation of a frame, made of its proprioception and of the frames before it. -/
def AppliedFrame.Observes (cfg : BrainConfig n) (env : Environment n H)
    (past : List (AppliedFrame n)) (x : AppliedFrame n) : Prop :=
  ∃ buffer : List Scalar, buffer.length = cfg.obsDim ∧
    x.obs = buildObservation cfg env x.frame.prop standingVelCmd (lastJointActions past)
      (counterValue past.length) buffer

/-- What a brain that stands still knows about the past. -/
structure Brain.StandingInv (cfg : BrainConfig n) (env : Environment n H) (b : Brain n H)
    (frames : List (AppliedFrame n)) : Prop where
  state : b.metrics.currentState = .standing
  totalFrames : b.metrics.totalFrames = frames.length
  prevActions : b.prevActions = lastJointActions frames
  queued : ∀ f ∈ b.inferenceQueue,
    f.scaledVelCmd = standingVelCmd ∧ f.myGeneration = b.taskGeneration
  pool : ∀ buffer ∈ b.tensorPool, buffer.length = cfg.obsDim
  each : Each (AppliedFrame.Observes cfg env) frames

namespace Brain

variable {cfg : BrainConfig n} {env : Environment n H} {b : Brain n H}
  {frames : List (AppliedFrame n)}

/-- The buffer that a closure acquires has the size of an observation. -/
theorem length_acquireBuffer (hpool : ∀ buffer ∈ b.tensorPool, buffer.length = cfg.obsDim) :
    (b.acquireBuffer cfg).1.length = cfg.obsDim := by
  unfold acquireBuffer
  cases hb : b.tensorPool with
  | nil => exact List.length_replicate
  | cons buffer pool => exact hpool buffer (hb ▸ List.mem_cons_self)

theorem length_nextObservation (hpool : ∀ buffer ∈ b.tensorPool, buffer.length = cfg.obsDim)
    (f : Frame n) : (b.nextObservation cfg env f).length = cfg.obsDim :=
  (length_writeAll _ _).trans (length_acquireBuffer hpool)

theorem length_of_mem_poolAfter (hpool : ∀ buffer ∈ b.tensorPool, buffer.length = cfg.obsDim)
    {f : Frame n} {buffer : List Scalar} (h : buffer ∈ b.poolAfter cfg env f) :
    buffer.length = cfg.obsDim := by
  have hobs : (b.nextObservation cfg env f).length = cfg.obsDim := length_nextObservation hpool f
  unfold poolAfter at h
  cases hb : b.tensorPool with
  | nil => simp [hb] at h
  | cons first pool =>
    rw [hb] at h
    rcases List.mem_cons.mp h with rfl | hmem
    · exact hobs
    · exact hpool buffer (hb ▸ List.mem_cons_of_mem first hmem)

/-- The observation that a closure builds, in terms of the members it reads. -/
theorem nextObservation_eq (f : Frame n) : b.nextObservation cfg env f =
    buildObservation cfg env f.prop f.scaledVelCmd b.prevActions
      (counterValue b.metrics.totalFrames) (b.acquireBuffer cfg).1 := by
  unfold nextObservation observation acquireBuffer
  cases b.tensorPool <;> rfl

/-- In `STANDING` the watchdog changes nothing that a frame depends on. -/
theorem StandingInv.watchdog {w : Brain n H × List (Output n)} (hI : b.StandingInv cfg env frames)
    (hw : WatchdogResult b w) : w.1.StandingInv cfg env frames ∧ appliedFrames w.2 = [] ∧
      w.1.lastGravityZ = b.lastGravityZ := by
  obtain ⟨hstate, htotal, hprev, hqueued, hpool, heach⟩ := hI
  cases hw with
  | quiet => exact ⟨⟨hstate, htotal, hprev, hqueued, hpool, heach⟩, rfl, rfl⟩
  | expired => exact ⟨⟨hstate, htotal, hprev, hqueued, hpool, heach⟩, rfl, rfl⟩
  | fallback hexec => exact RobotState.noConfusion (hexec.symm.trans hstate)

/-- A tick captures a frame with the velocity command of `STANDING`, or does nothing. -/
theorem StandingInv.tick {now : ℤ} {prop : Proprioception n} {w r : Brain n H × List (Output n)}
    (hI : b.StandingInv cfg env frames) (hstill : b.StandsStill (.tick now prop))
    (hw : WatchdogResult b w) (hr : RunTick cfg env now prop w r) :
    r.1.StandingInv cfg env frames ∧ appliedFrames r.2 = [] := by
  obtain ⟨hopen, hnoReset⟩ := hstill
  obtain ⟨⟨hstate, htotal, hprev, hqueued, hpool, heach⟩, hsilent, hgravity⟩ := hI.watchdog hw
  cases hr with
  | busy hgate => exact Bool.noConfusion (hopen.symm.trans (hw.isInferring.symm.trans hgate))
  | invalid => exact ⟨⟨hstate, htotal, hprev, hqueued, hpool, heach⟩, hsilent⟩
  | captured _ _ hvalid hreset =>
    cases hreset with
    | reset h =>
      have hreset : b.SimulatorReset prop := ⟨hgravity ▸ h.1, h.2⟩
      exact absurd hreset (hnoReset hvalid)
    | noReset =>
      refine ⟨⟨hstate, htotal, hprev, ?_, hpool, heach⟩, ?_⟩
      · intro f hf
        rcases List.mem_append.mp hf with hf | hf
        · exact hqueued f hf
        · rw [List.mem_singleton] at hf
          subst hf
          exact ⟨if_pos hstate, rfl⟩
      · rw [appliedFrames_append, hsilent]
        rfl

/-- A closure that completes applies its frame. -/
theorem StandingInv.infer {now : ℤ} {outcome : Outcome} {f : Frame n}
    {r : Brain n H × List (Output n)} (hI : b.StandingInv cfg env frames)
    (hstill : b.StandsStill (.infer outcome now)) (hq : b.inferenceQueue = [f])
    (hr : InferResult cfg env f now (b.dequeue []) outcome r) :
    r.1.StandingInv cfg env (frames ++ appliedFrames r.2) := by
  obtain ⟨hstate, htotal, hprev, hqueued, hpool, heach⟩ := hI
  obtain ⟨hvel, hgen⟩ := hqueued f (hq ▸ List.mem_cons_self)
  obtain rfl : outcome = .completes := hstill
  cases hr with
  | failed h =>
    rcases h with h | h
    · cases h
    · cases h.1
  | superseded _ h => exact absurd hgen h
  | applied =>
    have hdequeued : ∀ buffer ∈ (b.dequeue []).tensorPool, buffer.length = cfg.obsDim := hpool
    refine ⟨hstate, ?_, ?_, ?_, ?_, each_concat.mpr ⟨heach, ((b.dequeue []).acquireBuffer cfg).1,
      length_acquireBuffer hdequeued, ?_⟩⟩
    · show b.metrics.totalFrames + 1 = (frames ++ [_]).length
      rw [List.length_append, List.length_singleton, htotal]
    · show _ = lastJointActions (frames ++ [_])
      rw [lastJointActions_concat]
    · intro f' hf'
      cases hf'
    · intro buffer hbuffer
      exact length_of_mem_poolAfter hdequeued hbuffer
    · show (b.dequeue []).nextObservation cfg env f = _
      rw [nextObservation_eq, hvel, ← hprev, ← htotal]
      rfl

end Brain

/-- The observation of every frame of a brain that stands still is made of the proprioception of the
frame, of the actions before it and of the number of frames before it. -/
theorem each_appliedFrame {cfg : BrainConfig n} {env : Environment n H} {now : ℤ}
    {es : List (Event n)} {b : Brain n H} {tr : List (Output n)}
    (h : (atomic cfg env now).Reaches (fun b _ e => b.StandsStill e) es b tr) :
    Each (AppliedFrame.Observes cfg env) (appliedFrames tr) := by
  have hpool : ∀ buffer ∈ (Brain.initial cfg env now).tensorPool, buffer.length = cfg.obsDim := by
    intro buffer hbuffer
    rw [List.eq_of_mem_replicate hbuffer, List.length_replicate]
  have hqueued : ∀ f ∈ (Brain.initial cfg env now).inferenceQueue,
      f.scaledVelCmd = standingVelCmd ∧ f.myGeneration = 0 := by
    intro f hf
    cases hf
  have hinv : b.StandingInv cfg env (appliedFrames tr) := by
    refine h.invariant (fun b tr => b.StandingInv cfg env (appliedFrames tr))
      ⟨rfl, rfl, rfl, hqueued, hpool, trivial⟩ ?_
    intro es b tr e b' out hreach hI hstill hs
    rw [appliedFrames_append]
    cases Brain.runStep hreach hs with
    | task => exact hstill.elim
    | tick _ hw hr =>
      obtain ⟨hI, hsilent⟩ := hI.tick hstill hw hr
      rwa [show appliedFrames out = [] from hsilent, List.append_nil]
    | infer hq hr => exact hI.infer hstill hq hr
  exact hinv.each

/-! ### The phases -/

/-- A quotient of natural numbers without its integer part. -/
theorem natCast_div_sub_floor (k : ℕ) {m : ℕ} (hm : m ≠ 0) :
    (k : ℚ) / m - ⌊(k : ℚ) / m⌋ = (k % m : ℕ) / (m : ℚ) := by
  have hm' : (m : ℚ) ≠ 0 := Nat.cast_ne_zero.mpr hm
  have hdiv : (m : ℚ) * (k / m : ℕ) + (k % m : ℕ) = k := by exact_mod_cast Nat.div_add_mod k m
  have hfloor : ⌊(k : ℚ) / m⌋ = (k / m : ℕ) := by
    rw [Rat.floor_natCast_div_natCast, Int.natCast_ediv]
  rw [hfloor, eq_div_iff hm', sub_mul, div_mul_cancel₀ _ hm', Int.cast_natCast]
  linarith

/-- At 20 ms a period of 0.8 s has forty frames. -/
theorem gaitPhase_shippedConfig (frame : ℕ) :
    gaitPhase shippedConfig frame = fin (((frame % 40 : ℕ) : ℚ) / 40) := by
  have hdt : shippedConfig.controlDt = fin (1 / 50) := by
    rw [BrainConfig.controlDt]
    norm_num [shippedConfig]
  have hperiod : shippedConfig.gaitPhasePeriod = fin (4 / 5) := rfl
  have hquotient : (frame : ℚ) * (1 / 50) / (4 / 5) = (frame : ℚ) / (40 : ℕ) := by
    push_cast
    ring
  have htruncate : truncate ((frame : ℚ) / (40 : ℕ)) = ⌊(frame : ℚ) / (40 : ℕ)⌋ :=
    if_pos (by positivity)
  have hrest := natCast_div_sub_floor frame (by norm_num : 40 ≠ 0)
  rw [gaitPhase, hdt, hperiod, fin_mul_fin, fmod_fin_fin _ (by norm_num),
    fin_div_fin _ (by norm_num), hquotient, htruncate, fin.injEq]
  push_cast at hrest ⊢
  linarith

theorem directPhase_even (k : ℕ) : directPhase {} (2 * k) = ((k % 40 : ℕ) : ℚ) / 40 := by
  have hquotient : ((2 * k : ℕ) : ℚ) * ((10 : ℤ) / 1000) / (4 / 5) = (k : ℚ) / (40 : ℕ) := by
    push_cast
    ring
  have hrest := natCast_div_sub_floor k (by norm_num : 40 ≠ 0)
  rw [directPhase, pyMod]
  dsimp only
  rw [hquotient]
  push_cast at hrest ⊢
  linarith

/-! ### The same inputs -/

/-- The proprioception of the brain once it has received the two messages that the simulator
publishes for the data `d`, before any fall. -/
def readings (mj : Mujoco D) (d : D) : Proprioception numStandardJoints :=
  let sim : SimNode D :=
    { data := d, targetPositions := standingPose, physicsEnabled := true, resets := 0 }
  (((RosNode.initial numStandardJoints).jointStateCallback (sim.jointState mj)).imuCallback
    (sim.imu mj)).getLatestProprioception

theorem readings_eq (mj : Mujoco D) (d : D) : readings mj d =
    { jointPositions := fun i => mj.qpos d (mj.qposAdr i)
      jointVelocities := fun i => mj.qvel d (mj.dofAdr i)
      angularVelocity := ![mj.qvel d 3, mj.qvel d 4, mj.qvel d 5]
      projectedGravity := RosNode.quaternionToProjectedGravity (mj.orientation d)
      valid := true } := by
  rw [readings, SimNode.jointState]
  dsimp only
  rw [RosNode.jointStateCallback_ofFn]
  rfl

/-- The formulas of the simulator for the projected gravity are those of the brain on unit
quaternions. -/
theorem Quaternion.IsUnit.projectedGravity {q : Quaternion} (hq : q.IsUnit) :
    RosNode.quaternionToProjectedGravity q =
      ![fin 2 * (-q.z * q.x + q.w * q.y), fin (-2) * (q.z * q.y + q.w * q.x),
        fin 1 - fin 2 * (q.w * q.w + q.z * q.z)] := by
  obtain ⟨w, x, y, z, rfl, hunit⟩ := hq
  have hx : 2 * (w * y - x * z) = 2 * (-z * x + w * y) := by ring
  have hy : -2 * (w * x + y * z) = -2 * (z * y + w * x) := by ring
  have hz : 2 * (x * x + y * y) - 1 = 1 - 2 * (w * w + z * z) := by linear_combination 2 * hunit
  simp only [RosNode.quaternionToProjectedGravity, fin_mul_fin, fin_sub_fin, fin_add_fin,
    neg_fin, hx, hy, hz]

/-- The first 45 components of an observation in `STANDING`. -/
def standingInputs (prop : Proprioception numStandardJoints)
    (prevActions : Fin numStandardJoints → Scalar) : List Scalar :=
  List.ofFn (fun i => prop.angularVelocity i * fin (1 / 4)) ++
  List.ofFn prop.projectedGravity ++
  [fin (1 / 2) * fin 2, fin 0 * fin 2, fin 0 * fin (1 / 4)] ++
  List.ofFn (fun i => (prop.jointPositions i - standingPose i) * fin 1) ++
  List.ofFn (fun i => prop.jointVelocities i * fin (1 / 20)) ++
  List.ofFn prevActions

theorem length_standingInputs (prop : Proprioception numStandardJoints)
    (prevActions : Fin numStandardJoints → Scalar) :
    (standingInputs prop prevActions).length = 45 := by
  simp [standingInputs]

theorem buildObservation_standing {env : Environment 12 H} {prop : Proprioception 12}
    {prevActions : Fin 12 → Scalar} {frame : ℕ} {buffer : List Scalar} {φ : ℚ}
    (hphase : gaitPhase shippedConfig frame = fin φ)
    (hbuffer : buffer.length = shippedConfig.obsDim) :
    buildObservation shippedConfig env prop standingVelCmd prevActions frame buffer =
      standingInputs prop prevActions ++ [fin (env.sinTurn φ), fin (env.cosTurn φ)] := by
  have hindices : (observationWrites shippedConfig prop standingVelCmd prevActions
      (fin (env.sinTurn φ)) (fin (env.cosTurn φ))).map Prod.fst = List.range buffer.length :=
    hbuffer ▸ rfl
  rw [buildObservation, hphase, map_fin, map_fin, writeAll_eq_map_snd hindices]
  simp only [observationWrites, List.map_append, List.map_map, List.map_cons, List.map_nil,
    Function.comp_def, standingInputs, List.ofFn_eq_map]
  rfl

theorem directObservation_eq {mj : Mujoco D} {session : PolicySession L} {d : D}
    {prevActions : Fin numStandardJoints → Scalar} {policyCounter : ℕ}
    (hunit : (mj.orientation d).IsUnit) :
    directObservation mj {} session d prevActions policyCounter =
      standingInputs (readings mj d) prevActions ++
        [fin (session.sinTurn (directPhase {} policyCounter)),
          fin (session.cosTurn (directPhase {} policyCounter))] := by
  simp only [standingInputs, readings_eq, hunit.projectedGravity]
  rfl

/-! ### The clocks -/

/-- The clocks of the frame number `k + 1` are a fortieth of a turn apart: the brain counts the
frames before it, the simulator those up to it. They differ in parity, also when the counter of the
brain has wrapped. -/
theorem phases_ne (k : ℕ) :
    (((counterValue k % 40 : ℕ) : ℚ) / 40) ≠ (((k + 1) % 40 : ℕ) : ℚ) / 40 := by
  intro h
  have hcast : ((counterValue k % 40 : ℕ) : ℚ) = (((k + 1) % 40 : ℕ) : ℚ) := by linarith
  have hnat : counterValue k % 40 = (k + 1) % 40 := by exact_mod_cast hcast
  unfold counterValue at hnat
  omega

theorem phase_mem_Ico (k : ℕ) : 0 ≤ ((k % 40 : ℕ) : ℚ) / 40 ∧ ((k % 40 : ℕ) : ℚ) / 40 < 1 := by
  have hlt : ((k % 40 : ℕ) : ℚ) < 40 := by exact_mod_cast Nat.mod_lt k (by norm_num)
  constructor
  · positivity
  · linarith

/-- Frame by frame, for the same data and the same actions before it, the observations of the brain
and of the simulator agree in all components but the two of the clock, and the phases of the clock
never agree. -/
theorem gait_clock_ahead {env : Environment 12 H} {now : ℤ} {es : List (Event 12)} {b : Brain 12 H}
    {tr : List (Output 12)} {mj : Mujoco D} {session : PolicySession L} {d : D}
    {es' : List DirectEvent} {s : DirectNode D L} {tr' : List (DirectOutput D)}
    (hbrain : (atomic shippedConfig env now).Reaches (fun b _ e => b.StandsStill e) es b tr)
    (hdirect : (directNode mj {} session d).Run es' s tr') (hup : DirectOutput.reset ∉ tr')
    {past rest : List (AppliedFrame 12)} {x : AppliedFrame 12}
    (hx : appliedFrames tr = past ++ x :: rest) {past' rest' : List (SessionRun D)}
    {x' : SessionRun D} (hx' : sessionRuns tr' = past' ++ x' :: rest')
    (hactions : past.map (fun y => y.actions.joint) = past'.map SessionRun.action)
    (hdata : x.frame.prop = readings mj x'.data) (hunit : (mj.orientation x'.data).IsUnit) :
    ∃ (inputs : List Scalar) (φ φ' : ℚ), inputs.length = 45 ∧
      x.obs = inputs ++ [fin (env.sinTurn φ), fin (env.cosTurn φ)] ∧
      x'.obs = inputs ++ [fin (session.sinTurn φ'), fin (session.cosTurn φ')] ∧
      gaitPhase shippedConfig (counterValue past.length) = fin φ ∧
      directPhase {} (2 * (past'.length + 1)) = φ' ∧
      (0 ≤ φ ∧ φ < 1) ∧ (0 ≤ φ' ∧ φ' < 1) ∧ φ ≠ φ' := by
  have hlen : past.length = past'.length := by
    have hmap := congrArg List.length hactions
    rwa [List.length_map, List.length_map] at hmap
  have hprev : lastJointActions past = lastAction past' := by
    have hlast := congrArg List.getLast? hactions
    rw [List.getLast?_map, List.getLast?_map] at hlast
    rw [lastJointActions, lastAction, hlast]
  obtain ⟨buffer, hbuffer, hobs⟩ := each_iff_forall_eq.mp (each_appliedFrame hbrain) _ _ _ hx
  have hobs' := each_iff_forall_eq.mp (DirectNode.each_sessionRun hdirect hup) _ _ _ hx'
  have hphase := gaitPhase_shippedConfig (counterValue past.length)
  rw [buildObservation_standing hphase hbuffer, hdata, hprev] at hobs
  rw [directObservation_eq hunit, directPhase_even] at hobs'
  refine ⟨_, _, _, length_standingInputs _ _, hobs, hobs', hphase, directPhase_even _,
    phase_mem_Ico _, phase_mem_Ico _, ?_⟩
  rw [← hlen]
  exact phases_ne past.length

/-! ### The first frame -/

/-- A robot that stands still upright in the standing pose. -/
def stillEngine : Mujoco Unit where
  resetData d := d
  forward d := d
  step d := d
  qpos _ adr := ([fin 0, fin 0, fin (793 / 1000), fin 1, fin 0, fin 0, fin 0] ++
    List.ofFn standingPose).getD adr (fin 0)
  qvel _ _ := fin 0
  setQpos d _ _ := d
  setCtrl d _ _ := d
  qposAdr i := 7 + i
  dofAdr i := 6 + i
  ctrlAdr i := i
  asin x := x

/-- The sine and the cosine of the first two phases, to three digits. -/
private def sinRounded (φ : ℚ) : ℚ := if φ = 0 then 0 else 156 / 1000

private def cosRounded (φ : ℚ) : ℚ := if φ = 0 then 1 else 988 / 1000

private def clockedPolicy : Environment 12 ℕ :=
  { constantPolicy 12 (fin 0) with sinTurn := sinRounded, cosTurn := cosRounded }

private def clockedSession : PolicySession ℕ where
  lstmZero := 0
  run _ calls := (fun _ => fin 0, calls + 1)
  sinTurn := sinRounded
  cosTurn := cosRounded

/-- A joint command that enables the physics, and the first two steps after it. -/
private def firstSteps : List DirectEvent :=
  [.command (List.ofFn standingPose), .step, .step]

private theorem exists_first_frame : ∃ b tr x,
    (atomic shippedConfig clockedPolicy 0).Reaches (fun b _ e => b.StandsStill e)
      (frameEvents 20 (readings stillEngine ())) b tr ∧
    appliedFrames tr = [x] ∧ x.frame.prop = readings stillEngine () := by
  have hrun : ∃ b tr, (atomic shippedConfig clockedPolicy 0).Reaches
      (fun b _ e => b.StandsStill e) (frameEvents 20 (readings stillEngine ())) b tr ∧
      ((appliedFrames tr).length == 1 && (appliedFrames tr).all fun x =>
        decide (x.frame.prop = readings stillEngine ())) = true :=
    Machine.exists_reaches _ (by decide +kernel)
  obtain ⟨b, tr, hrun, hframes⟩ := hrun
  obtain ⟨hone, hall⟩ := (Bool.and_eq_true _ _).mp hframes
  obtain ⟨x, hx⟩ := List.length_eq_one_iff.mp (eq_of_beq hone)
  rw [hx, List.all_cons, Bool.and_eq_true] at hall
  exact ⟨b, tr, x, hrun, hx, of_decide_eq_true hall.1⟩

private theorem exists_first_sessionRun : ∃ s tr x,
    (directNode stillEngine {} clockedSession ()).Run firstSteps s tr ∧
    DirectOutput.reset ∉ tr ∧ sessionRuns tr = [x] := by
  have hrun : ∃ s tr, (directNode stillEngine {} clockedSession ()).Run firstSteps s tr ∧
      ((sessionRuns tr).length == 1 && tr.length == 1) = true :=
    Machine.exists_reaches _ (by decide +kernel)
  obtain ⟨s, tr, hrun, hlen⟩ := hrun
  obtain ⟨hone, htr⟩ := (Bool.and_eq_true _ _).mp hlen
  obtain ⟨x, hx⟩ := List.length_eq_one_iff.mp (eq_of_beq hone)
  obtain ⟨o, rfl⟩ := List.length_eq_one_iff.mp (eq_of_beq htr)
  cases o with
  | inferred x' => exact ⟨s, _, x, hrun, by simp, hx⟩
  | reset => cases hx

private theorem stillEngine_isUnit : (stillEngine.orientation ()).IsUnit :=
  ⟨1, 0, 0, 0, rfl, by norm_num⟩

/-- The first frames of a robot that stands still: the clock of the brain is at zero. -/
theorem gait_clock_ahead_first : ∃ b tr x s tr' x',
    (atomic shippedConfig clockedPolicy 0).Run (frameEvents 20 (readings stillEngine ())) b tr ∧
    (directNode stillEngine {} clockedSession ()).Run firstSteps s tr' ∧
    appliedFrames tr = [x] ∧ sessionRuns tr' = [x'] ∧ x.obs.take 45 = x'.obs.take 45 := by
  obtain ⟨b, tr, x, hbrain, hx, hprop⟩ := exists_first_frame
  obtain ⟨s, tr', x', hdirect, hup, hx'⟩ := exists_first_sessionRun
  have hfirst : appliedFrames tr = [] ++ [x] := hx
  have hfirst' : sessionRuns tr' = [] ++ [x'] := hx'
  obtain ⟨inputs, φ, φ', hlen, hobs, hobs', -⟩ :=
    gait_clock_ahead hbrain hdirect hup hfirst hfirst' rfl hprop stillEngine_isUnit
  refine ⟨b, tr, x, s, tr', x', hbrain.run, hdirect, hx, hx', ?_⟩
  rw [hobs, hobs', List.take_left' hlen, List.take_left' hlen]

/-- On the same data the two first observations differ: the phases are zero and a fortieth of a
turn. -/
theorem exists_first_frames_differ : ∃ b tr x s tr' x',
    (atomic shippedConfig clockedPolicy 0).Reaches (fun b _ e => b.StandsStill e)
      (frameEvents 20 (readings stillEngine ())) b tr ∧
    (directNode stillEngine {} clockedSession ()).Run firstSteps s tr' ∧
    appliedFrames tr = [x] ∧ sessionRuns tr' = [x'] ∧
    x.frame.prop = readings stillEngine () ∧ (stillEngine.orientation ()).IsUnit ∧
    gaitPhase shippedConfig 0 = fin 0 ∧ directPhase {} 2 = 1 / 40 ∧ x.obs ≠ x'.obs := by
  obtain ⟨b, tr, x, hbrain, hx, hprop⟩ := exists_first_frame
  obtain ⟨s, tr', x', hdirect, hup, hx'⟩ := exists_first_sessionRun
  have hobs := each_appliedFrame hbrain
  have hobs' := DirectNode.each_sessionRun hdirect hup
  rw [hx] at hobs
  rw [hx'] at hobs'
  obtain ⟨buffer, hbuffer, hobs⟩ := hobs.1
  have hobs' := hobs'.1
  have hphase : gaitPhase shippedConfig 0 = fin 0 := by decide +kernel
  have hphase' : directPhase {} 2 = 1 / 40 := by decide +kernel
  refine ⟨b, tr, x, s, tr', x', hbrain, hdirect, hx, hx', hprop, stillEngine_isUnit, hphase,
    hphase', ?_⟩
  intro hsame
  have hnone : counterValue ([] : List (AppliedFrame 12)).length = 0 := rfl
  rw [hobs, hobs', hnone, buildObservation_standing hphase hbuffer,
    directObservation_eq stillEngine_isUnit] at hsame
  have hclock : [fin (sinRounded 0), fin (cosRounded 0)] =
      [fin (sinRounded (directPhase {} 2)), fin (cosRounded (directPhase {} 2))] :=
    (List.append_inj' hsame rfl).2
  rw [hphase'] at hclock
  revert hclock
  decide +kernel

end RobotBrain
