import RobotBrain.Safety.Gate
import RobotBrain.Safety.Generation
import RobotBrain.Safety.ObservationLayout

/-!
# Contamination by non-finite values

Two values of the brain feed back into later observations: `current_vel_cmd_`, which the ramp moves
towards the velocity of the task, and `prev_actions_`, which holds the output of the policy. The
guard against non-finite values protects the joint targets made from that output but not
`prev_actions_`, and a NaN passes the ramp because every comparison with it is false, while an
infinity moves it by a finite step. A gait period of zero makes the gait clock a NaN.

There are thus three accesses that can let such a value in: the lock section in which the ramp reads
the velocity of the task, the write-back of the actions and the call of `Forward`. What a task
stores and another one overwrites before the ramp reads it does no harm.

## Main definitions

* `Uncontaminated` — all observations so far and both feedback values are finite.
* `Threads.StaysFinite` — the access lets no non-finite value in.

## Main results

* `Threads.CleanInv.uncontaminated_iff` — one access.
* `uncontaminatedAlong_iff` — nothing is contaminated along a run with finite sensor values exactly
  if each of its accesses lets no non-finite value in.
* `exists_contaminated` — a policy output and a task that let a NaN in.
-/

namespace RobotBrain

open ExtNum

variable {n : ℕ} {H : Type*} {cfg : BrainConfig n} {env : Environment n H}

/-- Every observation handed to `Forward` so far is finite, and so are the two values that feed back
into the next ones. -/
structure Uncontaminated (b : Brain n H) (tr : List (Output n)) : Prop where
  prevActions : ∀ i, (b.prevActions i).IsFinite
  currentVelCmd : ∀ i, (b.currentVelCmd i).IsFinite
  observed : ∀ obs, .forwarded obs ∈ tr → ∀ x ∈ obs, x.IsFinite

/-- Nothing is contaminated in any state along a run. -/
def UncontaminatedAlong (cfg : BrainConfig n) (env : Environment n H) (now : ℤ)
    (es : List (ThreadEvent n)) : Prop :=
  ∀ es' s tr, es' <+: es → (threads cfg env now).Run es' s tr → Uncontaminated s.brain tr

/-- The sensor values that a control tick finds are finite. -/
def ThreadEvent.FiniteSensors : ThreadEvent n → Prop
  | .control prop => prop.Finite
  | _ => True

/-- The ramp finds no NaN in the velocity command. -/
def ControlPc.StaysFinite (b : Brain n H) : ControlPc n → Prop
  | .rampVelocity .. => ∀ i, b.velocityCmd i ≠ nan
  | _ => True

/-- An observation is made with a gait period that is not zero, and the actions written back are
finite. -/
def WorkerPc.StaysFinite (cfg : BrainConfig n) : WorkerPc n → Prop
  | .forward _ => cfg.gaitPhasePeriod ≠ fin 0
  | .writeBackActions _ actions _ => ∀ i, (actions.joint i).IsFinite
  | _ => True

/-- The access lets no non-finite value in. -/
def Threads.StaysFinite (cfg : BrainConfig n) (s : Threads n H) : ThreadEvent n → Prop
  | .control _ => s.control.StaysFinite s.brain
  | .worker _ _ => s.worker.StaysFinite cfg
  | _ => True

/-- The proprioception that the control thread holds. -/
def ControlPc.prop : ControlPc n → Option (Proprioception n)
  | .resetHiddenState _ _ p | .fillPrevActions _ _ p | .resetJointTargets _ _ p
  | .rampVelocity _ _ p | .snapshot _ p _ _ => some p
  | _ => none

section Instances

instance (prop : Proprioception n) : Decidable prop.Finite :=
  decidable_of_iff ((∀ i, (prop.jointPositions i).IsFinite) ∧
      (∀ i, (prop.jointVelocities i).IsFinite) ∧ (∀ i, (prop.angularVelocity i).IsFinite) ∧
      ∀ i, (prop.projectedGravity i).IsFinite)
    ⟨fun h => ⟨h.1, h.2.1, h.2.2.1, h.2.2.2⟩, fun h => ⟨h.1, h.2, h.3, h.4⟩⟩

instance : (e : ThreadEvent n) → Decidable e.FiniteSensors
  | .control prop => inferInstanceAs (Decidable prop.Finite)
  | .call _ | .rpc _ | .tick _ | .dequeue | .worker _ _ => .isTrue trivial

instance (b : Brain n H) : (pc : ControlPc n) → Decidable (pc.StaysFinite b)
  | .rampVelocity .. => inferInstanceAs (Decidable (∀ i, b.velocityCmd i ≠ nan))
  | .idle | .loadHeartbeat _ | .watchdogLoadState _ | .watchdogStoreState _
  | .watchdogZeroVelocity _ | .loadState _ | .acquireGate .. | .readProprioception ..
  | .resetHiddenState .. | .fillPrevActions .. | .resetJointTargets .. | .snapshot ..
  | .enqueue _ | .releaseGateFull | .releaseGate | .countDropped | .publishDefault =>
    .isTrue trivial

instance : (pc : WorkerPc n) → Decidable (pc.StaysFinite cfg)
  | .forward _ => inferInstanceAs (Decidable (_ ≠ _))
  | .writeBackActions _ actions _ =>
    inferInstanceAs (Decidable (∀ i, (actions.joint i).IsFinite))
  | .idle | .computeTargets .. | .checkGeneration .. | .applyRateLimit .. | .publish ..
  | .feedDog .. | .writeBackTargets .. | .countFrame .. | .countStale _ | .releaseBuffer _
  | .clearFlag => .isTrue trivial

instance (s : Threads n H) : (e : ThreadEvent n) → Decidable (s.StaysFinite cfg e)
  | .control _ => inferInstanceAs (Decidable (s.control.StaysFinite s.brain))
  | .worker _ _ => inferInstanceAs (Decidable (s.worker.StaysFinite cfg))
  | .call _ | .rpc _ | .tick _ | .dequeue => .isTrue trivial

end Instances

/-! ### The computations -/

/-- With a finite limit and a finite current velocity, the ramp gives a NaN exactly for a NaN. -/
theorem rampVelocityCommand_isFinite_iff (hramp : cfg.maxVelRamp.IsFinite) (dt : ℚ)
    {target current : Velocity} {i : Fin 3} (hcurrent : (current i).IsFinite) :
    (rampVelocityCommand cfg (fin dt) target current i).IsFinite ↔ target i ≠ nan := by
  obtain ⟨m, hm⟩ := hramp.exists_eq
  obtain ⟨c, hc⟩ := hcurrent.exists_eq
  rw [rampVelocityCommand, hm, hc, fin_mul_fin]
  exact slew_isFinite_iff _ c (target i)

/-- A finite ramped velocity gives a finite velocity command. -/
theorem scaledVelCmd_isFinite (state : RobotState) (type : TaskType) {current : Velocity}
    (hcurrent : ∀ i, (current i).IsFinite) (i : Fin 3) :
    (scaledVelCmd state type current i).IsFinite := by
  have hstand : ∀ i, (![fin (1 / 2), fin 0, fin 0] i : Scalar).IsFinite := by decide
  by_cases hstanding : state = .standing
  · rw [scaledVelCmd, if_pos hstanding]
    exact hstand i
  · obtain ⟨k, hk, -⟩ := exists_velocityScale_eq type
    rw [scaledVelCmd, if_neg hstanding, frameProfile, if_neg hstanding, hk]
    exact (hcurrent i).mul (isFinite_fin k)

/-- A finite buffer of the size of an observation. -/
structure BrainConfig.FiniteBuffer (cfg : BrainConfig n) (buffer : List Scalar) : Prop where
  length : buffer.length = cfg.obsDim
  finite : ∀ x ∈ buffer, x.IsFinite

theorem finiteBuffer_replicate (cfg : BrainConfig n) :
    cfg.FiniteBuffer (List.replicate cfg.obsDim (fin 0)) := by
  refine ⟨List.length_replicate, fun x hx => ?_⟩
  rw [List.eq_of_mem_replicate hx]
  exact isFinite_fin 0

/-- What a frame hands to the observation is finite. -/
structure Frame.Finite (f : Frame n) : Prop where
  prop : f.prop.Finite
  scaledVelCmd : ∀ i, (f.scaledVelCmd i).IsFinite

namespace Threads

/-- The buffer that a closure acquires, and those left, are finite. -/
theorem finite_acquireBuffer {b : Brain n H}
    (hpool : ∀ buffer ∈ b.tensorPool, cfg.FiniteBuffer buffer) :
    cfg.FiniteBuffer (b.acquireBuffer cfg).1 ∧
      ∀ buffer ∈ (b.acquireBuffer cfg).2.2.tensorPool, cfg.FiniteBuffer buffer := by
  unfold Brain.acquireBuffer
  split
  · exact ⟨finiteBuffer_replicate cfg, hpool⟩
  · rename_i hcons
    rw [hcons, List.forall_mem_cons] at hpool
    exact hpool

/-- If the buffer has room for the observation, that of a frame is finite exactly if the gait period
is not zero. -/
theorem nextObservation_isFinite_iff (hcfg : cfg.Finite)
    (hroom : ∀ i ∈ observationIndices n, i < cfg.obsDim) {b : Brain n H}
    (hpool : ∀ buffer ∈ b.tensorPool, cfg.FiniteBuffer buffer)
    (hprev : ∀ i, (b.prevActions i).IsFinite) {f : Frame n} (hf : f.Finite) :
    (∀ x ∈ b.nextObservation cfg env f, x.IsFinite) ↔ cfg.gaitPhasePeriod ≠ fin 0 := by
  obtain ⟨hbuffer, -⟩ := finite_acquireBuffer hpool
  have hkeep : (b.acquireBuffer cfg).2.2.prevActions = b.prevActions := by
    rw [Brain.acquireBuffer_brain]
  have hprev' : ∀ i, ((b.acquireBuffer cfg).2.2.prevActions i).IsFinite := hkeep ▸ hprev
  refine buildObservation_isFinite_iff hcfg hf.prop hf.scaledVelCmd hprev' _ hbuffer.finite ?_
  rw [hbuffer.length]
  exact hroom 45 (mem_observationIndices.mpr (Or.inr (Or.inl rfl)))

/-! ### One access -/

/-- Nothing is contaminated, the buffers are finite and of the size of an observation, and so is
what the control thread and the frames hold. -/
structure CleanInv (cfg : BrainConfig n) (s : Threads n H) (tr : List (Output n)) : Prop where
  clean : Uncontaminated s.brain tr
  pool : ∀ buffer ∈ s.brain.tensorPool, cfg.FiniteBuffer buffer
  loan : ∀ r ∈ s.worker.loan, cfg.FiniteBuffer r.obs
  sensed : ∀ prop ∈ s.control.prop, prop.Finite
  frames : ∀ f ∈ s.frames, f.Finite

/-- Outputs without an observation. -/
theorem observed_append {tr out : List (Output n)} (hout : ∀ obs, .forwarded obs ∉ out)
    (h : ∀ obs, .forwarded obs ∈ tr → ∀ x ∈ obs, x.IsFinite) :
    ∀ obs, .forwarded obs ∈ tr ++ out → ∀ x ∈ obs, x.IsFinite := by
  intro obs hmem
  rcases List.mem_append.mp hmem with hmem | hmem
  · exact h obs hmem
  · exact absurd hmem (hout obs)

theorem RpcResult.uncontaminated {now : ℤ} {b b' : Brain n H} {pc pc' : RpcPc}
    {tr out : List (Output n)} (h : RpcResult cfg env now b pc b' pc' out)
    (hI : Uncontaminated b tr) : Uncontaminated b' (tr ++ out) := by
  obtain ⟨hprev, hcurrent, hobserved⟩ := hI
  cases h
  case fillPrevActions =>
    exact ⟨fun _ => isFinite_fin 0, hcurrent, observed_append (by simp) hobserved⟩
  all_goals exact ⟨hprev, hcurrent, observed_append (by simp) hobserved⟩

/-- Of the accesses of the control thread, the ramp alone can let a value in. -/
theorem ControlResult.uncontaminated_iff {prop : Proprioception n} {b b' : Brain n H}
    {pc pc' : ControlPc n} {tr out : List (Output n)}
    (h : ControlResult cfg env prop b pc b' pc' out) (hcfg : cfg.Finite)
    (hI : Uncontaminated b tr) : Uncontaminated b' (tr ++ out) ↔ pc.StaysFinite b := by
  obtain ⟨hprev, hcurrent, hobserved⟩ := hI
  cases h
  case rampVelocity now state p =>
    have hramp (i : Fin 3) : ((b.rampVelocity cfg now).currentVelCmd i).IsFinite ↔
        b.velocityCmd i ≠ nan :=
      rampVelocityCommand_isFinite_iff hcfg.maxVelRamp (b.timeStep now) (hcurrent i)
    constructor
    · exact fun hafter i => (hramp i).mp (hafter.currentVelCmd i)
    · exact fun hstays => ⟨hprev, fun i => (hramp i).mpr (hstays i),
        observed_append (by simp) hobserved⟩
  case fillPrevActions =>
    exact iff_of_true
      ⟨fun _ => isFinite_fin 0, hcurrent, observed_append (by simp) hobserved⟩ trivial
  all_goals exact iff_of_true ⟨hprev, hcurrent, observed_append (by simp) hobserved⟩ trivial

/-- Of the accesses of the worker, the call of `Forward` and the write-back of the actions can let a
value in. -/
theorem WorkerResult.uncontaminated_iff {now : ℤ} {b b' : Brain n H} {pc pc' : WorkerPc n}
    {tr out : List (Output n)} (h : WorkerResult cfg env now b pc b' pc' out) (hcfg : cfg.Finite)
    (hroom : ∀ i ∈ observationIndices n, i < cfg.obsDim) (hI : Uncontaminated b tr)
    (hpool : ∀ buffer ∈ b.tensorPool, cfg.FiniteBuffer buffer) (hframe : ∀ f ∈ pc.frame, f.Finite) :
    Uncontaminated b' (tr ++ out) ↔ pc.StaysFinite cfg := by
  obtain ⟨hprev, hcurrent, hobserved⟩ := hI
  cases h
  case forward f | forwardThrew f =>
    have hobs : (∀ x ∈ b.nextObservation cfg env f, x.IsFinite) ↔ cfg.gaitPhasePeriod ≠ fin 0 :=
      nextObservation_isFinite_iff hcfg hroom hpool hprev (hframe f rfl)
    have hkeep : (b.acquireBuffer cfg).2.2.prevActions = b.prevActions ∧
        (b.acquireBuffer cfg).2.2.currentVelCmd = b.currentVelCmd := by
      rw [Brain.acquireBuffer_brain]
      exact ⟨rfl, rfl⟩
    constructor
    · intro hafter
      exact hobs.mp (hafter.observed _ (List.mem_append_right _ List.mem_cons_self))
    · intro hstays
      refine ⟨fun i => ?_, fun i => ?_, fun obs hmem => ?_⟩
      · exact hkeep.1 ▸ hprev i
      · exact hkeep.2 ▸ hcurrent i
      · rcases List.mem_append.mp hmem with hmem | hmem
        · exact hobserved obs hmem
        · obtain rfl := Output.forwarded.inj (List.mem_singleton.mp hmem)
          exact hobs.mpr hstays
  case writeBackActions r actions targets =>
    exact ⟨fun hafter => hafter.prevActions,
      fun hstays => ⟨hstays, hcurrent, observed_append (by simp) hobserved⟩⟩
  case releaseBuffer r =>
    refine iff_of_true ?_ trivial
    rw [Brain.releaseBuffer_eq]
    exact ⟨hprev, hcurrent, observed_append (by simp) hobserved⟩
  all_goals exact iff_of_true ⟨hprev, hcurrent, observed_append (by simp) hobserved⟩ trivial

/-- An access leaves nothing contaminated exactly if it lets no non-finite value in. -/
theorem CleanInv.uncontaminated_iff {s : Threads n H} {e : ThreadEvent n}
    {tr : List (Output n)} {r : Threads n H × List (Output n)} (hI : CleanInv cfg s tr)
    (hcfg : cfg.Finite) (hroom : ∀ i ∈ observationIndices n, i < cfg.obsDim)
    (h : StepResult cfg env s e r) :
    Uncontaminated r.1.brain (tr ++ r.2) ↔ s.StaysFinite cfg e := by
  obtain ⟨hprev, hcurrent, hobserved⟩ := hI.clean
  cases h with
  | call | tick | dequeue =>
    exact iff_of_true ⟨hprev, hcurrent, observed_append (by simp) hobserved⟩ trivial
  | rpc h => exact iff_of_true (h.uncontaminated hI.clean) trivial
  | control h => exact h.uncontaminated_iff hcfg hI.clean
  | worker h =>
    refine h.uncontaminated_iff hcfg hroom hI.clean hI.pool fun f hf => hI.frames f ?_
    exact List.mem_append_right _ (Option.mem_toList.mpr hf)

/-! ### What is in flight -/

/-- The control thread holds what it has read, and leaves the pool alone. -/
theorem ControlResult.sensed {prop : Proprioception n} {b b' : Brain n H} {pc pc' : ControlPc n}
    {out : List (Output n)} (h : ControlResult cfg env prop b pc b' pc' out) :
    b'.tensorPool = b.tensorPool ∧ ∀ p ∈ pc'.prop, p = prop ∨ p ∈ pc.prop := by
  cases h
  case simulatorReset | noReset =>
    refine ⟨rfl, ?_⟩
    rintro p ⟨⟩
    exact Or.inl rfl
  case resetHiddenState | fillPrevActions | resetJointTargets | rampVelocity =>
    exact ⟨rfl, fun p hp => Or.inr hp⟩
  all_goals
    refine ⟨rfl, ?_⟩
    rintro p ⟨⟩

/-- The worker writes a finite observation into a finite buffer and gives it back. -/
theorem WorkerResult.finiteBuffer {now : ℤ} {b b' : Brain n H} {pc pc' : WorkerPc n}
    {tr out : List (Output n)} (h : WorkerResult cfg env now b pc b' pc' out)
    (hpool : ∀ buffer ∈ b.tensorPool, cfg.FiniteBuffer buffer)
    (hloan : ∀ r ∈ pc.loan, cfg.FiniteBuffer r.obs) (hafter : Uncontaminated b' (tr ++ out)) :
    (∀ buffer ∈ b'.tensorPool, cfg.FiniteBuffer buffer) ∧
      ∀ r ∈ pc'.loan, cfg.FiniteBuffer r.obs := by
  cases h
  case forward f | forwardThrew f =>
    obtain ⟨hbuffer, hrest⟩ := finite_acquireBuffer hpool
    refine ⟨hrest, ?_⟩
    rintro r ⟨⟩
    refine ⟨(length_writeAll _ _).trans hbuffer.length, hafter.observed _ ?_⟩
    exact List.mem_append_right _ List.mem_cons_self
  case releaseBuffer r =>
    refine ⟨?_, by rintro r ⟨⟩⟩
    unfold Brain.releaseBuffer
    split
    · exact List.forall_mem_cons.mpr ⟨hloan r rfl, hpool⟩
    · exact hpool
  case clearFlag => exact ⟨hpool, by rintro r ⟨⟩⟩
  all_goals exact ⟨hpool, hloan⟩

/-- Only a snapshot makes a frame, of what the control thread holds. -/
theorem CleanInv.frames_step {s : Threads n H} {e : ThreadEvent n} {tr : List (Output n)}
    {r : Threads n H × List (Output n)} (hI : CleanInv cfg s tr) (h : StepResult cfg env s e r) :
    ∀ f ∈ r.1.frames, f.Finite := by
  intro f hf
  rcases h.frames f hf with hf | ⟨state, p, target, dt, hpc, rfl⟩
  · exact hI.frames f hf
  · exact ⟨hI.sensed p (by rw [hpc]; rfl), scaledVelCmd_isFinite _ _ hI.clean.currentVelCmd⟩

/-- An access that leaves nothing contaminated keeps the invariant. -/
theorem CleanInv.step {s : Threads n H} {e : ThreadEvent n} {tr : List (Output n)}
    {r : Threads n H × List (Output n)} (hI : CleanInv cfg s tr) (hsensors : e.FiniteSensors)
    (h : StepResult cfg env s e r) (hafter : Uncontaminated r.1.brain (tr ++ r.2)) :
    CleanInv cfg r.1 (tr ++ r.2) := by
  have hframes := hI.frames_step h
  cases h with
  | call => exact ⟨hafter, hI.pool, hI.loan, hI.sensed, hframes⟩
  | tick => exact ⟨hafter, hI.pool, hI.loan, by rintro p ⟨⟩, hframes⟩
  | dequeue => exact ⟨hafter, hI.pool, by rintro r ⟨⟩, hI.sensed, hframes⟩
  | rpc h => exact ⟨hafter, h.gate.2.2 ▸ hI.pool, hI.loan, hI.sensed, hframes⟩
  | control h =>
    obtain ⟨hpool, hsensed⟩ := h.sensed
    refine ⟨hafter, hpool ▸ hI.pool, hI.loan, fun p hp => ?_, hframes⟩
    rcases hsensed p hp with rfl | hp
    · exact hsensors
    · exact hI.sensed p hp
  | worker h =>
    obtain ⟨hpool, hloan⟩ := h.finiteBuffer hI.pool hI.loan hafter
    exact ⟨hafter, hpool, hloan, hI.sensed, hframes⟩

theorem cleanInv_initial (cfg : BrainConfig n) (env : Environment n H) (now : ℤ) :
    CleanInv cfg (Threads.rest (Brain.initial cfg env now)) [] := by
  refine ⟨⟨fun _ => isFinite_fin 0, fun _ => isFinite_fin 0, by simp⟩, fun buffer hbuffer => ?_,
    by rintro r ⟨⟩, by rintro p ⟨⟩, by rintro f ⟨⟩⟩
  rw [List.eq_of_mem_replicate hbuffer]
  exact finiteBuffer_replicate cfg

end Threads

/-- For a finite configuration with room in the buffer for every value of an observation and for
finite sensor values, whatever the velocities of the tasks and the outputs of the policy: in every
interleaving, all observations and both feedback values are finite in every state along the run
exactly if the ramp never reads a NaN from the velocity command, no closure writes back actions that
are not finite, and none makes an observation with a gait period of zero. -/
theorem uncontaminatedAlong_iff (hcfg : cfg.Finite)
    (hroom : ∀ i ∈ observationIndices n, i < cfg.obsDim) {now : ℤ}
    {es : List (ThreadEvent n)} {s : Threads n H} {tr : List (Output n)}
    (h : (threads cfg env now).Reaches (fun _ _ e => e.FiniteSensors) es s tr) :
    UncontaminatedAlong cfg env now es ↔
      (threads cfg env now).Reaches (fun s _ e => e.FiniteSensors ∧ s.StaysFinite cfg e)
        es s tr := by
  have hinit := Threads.cleanInv_initial cfg env now
  constructor
  · intro hall
    refine (h.of_forall_prefix (Threads.CleanInv cfg) (fun s tr => Uncontaminated s.brain tr)
      hinit ?_ hall).1
    intro es s tr e s' out _ hI hsensors hs hafter
    have hr := Threads.stepResult hs
    exact ⟨⟨hsensors, (hI.uncontaminated_iff hcfg hroom hr).mp hafter⟩,
      hI.step hsensors hr hafter⟩
  · intro hreach es' s' tr' hpre hrun
    have hclean : ∀ es s tr, (threads cfg env now).Reaches
        (fun s _ e => e.FiniteSensors ∧ s.StaysFinite cfg e) es s tr →
        Uncontaminated s.brain tr := by
      intro es s tr hreach
      refine (hreach.invariant (Threads.CleanInv cfg) hinit ?_).clean
      rintro es s tr e s' out _ hI ⟨hsensors, hstays⟩ hs
      have hr := Threads.stepResult hs
      exact hI.step hsensors hr ((hI.uncontaminated_iff hcfg hroom hr).mpr hstays)
    exact hreach.forall_prefix (P := fun s tr => Uncontaminated s.brain tr) hclean hpre hrun

/-- A tick and the closure of its frame. -/
private def uprightFrame (now : ℤ) : List (ThreadEvent 12) :=
  .tick now :: List.replicate 7 (.control (upright shippedConfig)) ++
    .dequeue :: List.replicate 11 (.worker false (now + 10))

/-- Two upright frames. -/
def uprightFrames : List (ThreadEvent 12) :=
  uprightFrame 20 ++ uprightFrame 40

/-- The shipped robot stays uncontaminated under a policy with finite outputs. -/
theorem uncontaminatedAlong_uprightFrames :
    UncontaminatedAlong shippedConfig (constantPolicy 12 (fin 1)) 0 uprightFrames := by
  have hcfg : shippedConfig.Finite :=
    ⟨fun _ => isFinite_fin _, trivial, trivial, trivial, by decide, trivial, trivial⟩
  have hsensors : ∃ s tr, (threads shippedConfig (constantPolicy 12 (fin 1)) 0).Reaches
      (fun _ _ e => e.FiniteSensors) uprightFrames s tr ∧ true = true :=
    Machine.exists_reaches uprightFrames (by decide +kernel)
  have hstays : ∃ s tr, (threads shippedConfig (constantPolicy 12 (fin 1)) 0).Reaches
      (fun s _ e => e.FiniteSensors ∧ s.StaysFinite shippedConfig e) uprightFrames s tr ∧
      true = true :=
    Machine.exists_reaches uprightFrames (by decide +kernel)
  obtain ⟨s, tr, hsensors, -⟩ := hsensors
  obtain ⟨s', tr', hstays, -⟩ := hstays
  obtain ⟨rfl, rfl⟩ := hsensors.unique hstays
  exact (uncontaminatedAlong_iff hcfg (by decide) hsensors).mpr hstays

/-- An observation with a NaN is handed to `Forward`. -/
private def Output.forwardsNan : Output n → Bool
  | .forwarded obs => obs.contains nan
  | _ => false

private theorem exists_forwarded_nan {tr : List (Output n)}
    (h : tr.any Output.forwardsNan = true) : ∃ obs, .forwarded obs ∈ tr ∧ nan ∈ obs := by
  obtain ⟨o, hmem, ho⟩ := List.any_eq_true.mp h
  cases o with
  | forwarded obs => exact ⟨obs, hmem, List.contains_iff_mem.mp ho⟩
  | _ => cases ho

/-- A task with a NaN velocity, and a frame after it. -/
private def nanTaskFrame : List (ThreadEvent 12) :=
  .call ⟨.navigate, fun _ => nan⟩ :: List.replicate 5 (.rpc 10) ++ uprightFrame 20

/-- A policy that returns a NaN hands it to itself with the next observation, and so does a task
with a NaN velocity. -/
theorem exists_contaminated :
    (∃ s tr obs, (threads shippedConfig (constantPolicy 12 nan) 0).Reaches
      (fun _ _ e => e.FiniteSensors) uprightFrames s tr ∧ .forwarded obs ∈ tr ∧ nan ∈ obs) ∧
    ∃ s tr obs, (threads shippedConfig (constantPolicy 12 (fin 0)) 0).Reaches
      (fun _ _ e => e.FiniteSensors) nanTaskFrame s tr ∧ .forwarded obs ∈ tr ∧ nan ∈ obs := by
  have hpolicy : ∃ s tr, (threads shippedConfig (constantPolicy 12 nan) 0).Reaches
      (fun _ _ e => e.FiniteSensors) uprightFrames s tr ∧
      tr.any Output.forwardsNan = true :=
    Machine.exists_reaches uprightFrames (by decide +kernel)
  have htask : ∃ s tr, (threads shippedConfig (constantPolicy 12 (fin 0)) 0).Reaches
      (fun _ _ e => e.FiniteSensors) nanTaskFrame s tr ∧ tr.any Output.forwardsNan = true :=
    Machine.exists_reaches nanTaskFrame (by decide +kernel)
  obtain ⟨s₁, tr₁, hrun₁, h₁⟩ := hpolicy
  obtain ⟨s₂, tr₂, hrun₂, h₂⟩ := htask
  obtain ⟨obs₁, hobs₁⟩ := exists_forwarded_nan h₁
  obtain ⟨obs₂, hobs₂⟩ := exists_forwarded_nan h₂
  exact ⟨⟨s₁, tr₁, obs₁, hrun₁, hobs₁⟩, s₂, tr₂, obs₂, hrun₂, hobs₂⟩

end RobotBrain
