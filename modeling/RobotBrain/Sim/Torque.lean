import RobotBrain.Sim.FallReset
import Mathlib.Tactic.FinCases

/-!
# What the simulator does to the physics engine

Each physics step of the simulator computes a torque for every joint from the newest targets and
the data of the engine, and limits it. The targets come from the policy and may be anything, NaN
included; the limits are written so that a NaN ends up at the upper one. To say what the engine is
given over a whole run, the engine is replaced by one that behaves in the same way and also logs its
calls.

## Main definitions

* `EngineCall`, `Mujoco.logged` — the calls of the engine, and the engine that logs them.
* `standingCalls`, `physicsStepCalls` — the calls of a reset and of a physics step.
* `DrivenWithin` — a log of resets and of physics steps with torques within limits.

## Main results

* `SimNode.torque_mem` — a torque is within the limit of its joint.
* `Loop.run_logged_iff` — the log changes no run.
* `torques_within` — every run drives the engine by resets and by physics steps in each of which all
  torques have just been set, within the limits.
-/

namespace RobotBrain

open ExtNum

variable {n : ℕ} {H D : Type*}

/-! ### The torque of a joint -/

/-- `min` takes the limit for a NaN. -/
theorem pyMin_le (l : ℚ) (tau : Scalar) : pyMin (fin l) tau ≤ fin l := by
  unfold pyMin
  split_ifs with h
  · cases tau with
    | fin x => exact fin_le_fin.mpr (fin_lt_fin.mp h).le
    | inf s => exact inf_le_fin.mpr (inf_lt_fin.mp h)
    | nan => exact absurd h (not_nan_lt _)
  · exact fin_le_fin.mpr le_rfl

/-- The limits of Python keep every value within them, a NaN and an infinite value included. -/
theorem pyMax_pyMin_mem {l : ℚ} (hl : 0 ≤ l) (tau : Scalar) :
    -fin l ≤ pyMax (-fin l) (pyMin (fin l) tau) ∧ pyMax (-fin l) (pyMin (fin l) tau) ≤ fin l := by
  have hneg : -l ≤ l := by linarith
  unfold pyMax
  split_ifs with h
  · exact ⟨fin_le_of_lt h, pyMin_le l tau⟩
  · exact ⟨fin_le_fin.mpr le_rfl, fin_le_fin.mpr hneg⟩

theorem SimNode.torque_mem {mj : Mujoco D} (s : SimNode D) (d : D) (i : Fin numStandardJoints) :
    -defaultTorqueLimits i ≤ s.torque mj d i ∧ s.torque mj d i ≤ defaultTorqueLimits i := by
  refine pyMax_pyMin_mem ?_ _
  fin_cases i <;> decide

/-! ### An engine that logs its calls -/

/-- A call that changes the data of the engine. -/
inductive EngineCall
  | resetData
  | forward
  | step
  | setQpos (adr : ℕ) (x : Scalar)
  | setCtrl (adr : ℕ) (x : Scalar)

/-- The engine that keeps a log of its calls beside its data. -/
def Mujoco.logged (mj : Mujoco D) : Mujoco (D × List EngineCall) where
  resetData x := (mj.resetData x.1, x.2 ++ [.resetData])
  forward x := (mj.forward x.1, x.2 ++ [.forward])
  step x := (mj.step x.1, x.2 ++ [.step])
  qpos x := mj.qpos x.1
  qvel x := mj.qvel x.1
  setQpos x adr v := (mj.setQpos x.1 adr v, x.2 ++ [.setQpos adr v])
  setCtrl x adr v := (mj.setCtrl x.1 adr v, x.2 ++ [.setCtrl adr v])
  qposAdr := mj.qposAdr
  dofAdr := mj.dofAdr
  ctrlAdr := mj.ctrlAdr
  asin := mj.asin

/-- The calls that put the robot in the standing pose. -/
def standingCalls (mj : Mujoco D) : List EngineCall :=
  [.resetData, .setQpos 2 (fin (793 / 1000))] ++
    (List.finRange numStandardJoints).map (fun i => .setQpos (mj.qposAdr i) (standingPose i)) ++
    [.forward]

/-- The call sets a torque of the joint within its limit. -/
def SetsTorque (mj : Mujoco D) (i : Fin numStandardJoints) (call : EngineCall) : Prop :=
  ∃ tau, call = .setCtrl (mj.ctrlAdr i) tau ∧
    -defaultTorqueLimits i ≤ tau ∧ tau ≤ defaultTorqueLimits i

/-- A log of resets to the standing pose and of physics steps, in each of which the torques of all
joints are set first, within their limits. -/
inductive DrivenWithin (mj : Mujoco D) : List EngineCall → Prop
  | nil : DrivenWithin mj []
  | stands {log : List EngineCall} (h : DrivenWithin mj log) :
      DrivenWithin mj (log ++ standingCalls mj)
  | steps {log torques : List EngineCall} (h : DrivenWithin mj log)
      (htorques : List.Forall₂ (SetsTorque mj) (List.finRange numStandardJoints) torques) :
      DrivenWithin mj (log ++ torques ++ [.step])

namespace SimNode

variable (mj : Mujoco D) (cfg : SimConfig)

/-- The node without the log. -/
def withoutLog (s : SimNode (D × List EngineCall)) : SimNode D where
  data := s.data.1
  targetPositions := s.targetPositions
  physicsEnabled := s.physicsEnabled
  resets := s.resets

private theorem foldl_setQpos (joints : List (Fin numStandardJoints)) (x : D × List EngineCall) :
    joints.foldl (fun x i => mj.logged.setQpos x (mj.qposAdr i) (standingPose i)) x =
      (joints.foldl (fun d i => mj.setQpos d (mj.qposAdr i) (standingPose i)) x.1,
        x.2 ++ joints.map fun i => .setQpos (mj.qposAdr i) (standingPose i)) := by
  induction joints generalizing x with
  | nil => rw [List.foldl_nil, List.foldl_nil, List.map_nil, List.append_nil]
  | cons i joints ih =>
    rw [List.foldl_cons, ih, List.foldl_cons, List.map_cons, List.append_cons]
    rfl

theorem resetToStanding_logged (x : D × List EngineCall) :
    resetToStanding mj.logged x = (resetToStanding mj x.1, x.2 ++ standingCalls mj) := by
  have hfold := foldl_setQpos mj (List.finRange numStandardJoints)
    (mj.logged.setQpos (mj.logged.resetData x) 2 (fin (793 / 1000)))
  unfold resetToStanding
  refine (congrArg mj.logged.forward hfold).trans (Prod.ext rfl ?_)
  simp only [Mujoco.logged, standingCalls, List.append_assoc, List.cons_append, List.nil_append]

private theorem foldl_setCtrl (s : SimNode (D × List EngineCall))
    (joints : List (Fin numStandardJoints)) (x : D × List EngineCall) :
    ∃ torques, List.Forall₂ (SetsTorque mj) joints torques ∧
      joints.foldl (fun x i => mj.logged.setCtrl x (mj.ctrlAdr i) (s.torque mj.logged x i)) x =
        (joints.foldl (fun d i => mj.setCtrl d (mj.ctrlAdr i) (s.withoutLog.torque mj d i)) x.1,
          x.2 ++ torques) := by
  induction joints generalizing x with
  | nil => exact ⟨[], .nil, Prod.ext rfl (List.append_nil _).symm⟩
  | cons i joints ih =>
    obtain ⟨torques, htorques, hfold⟩ :=
      ih (mj.logged.setCtrl x (mj.ctrlAdr i) (s.torque mj.logged x i))
    refine ⟨.setCtrl (mj.ctrlAdr i) (s.torque mj.logged x i) :: torques,
      .cons ⟨_, rfl, s.torque_mem x i⟩ htorques, ?_⟩
    rw [List.foldl_cons, hfold, List.foldl_cons, List.append_cons]
    rfl

/-- A physics step of the logged engine is one of the engine, and the log goes on as it should. -/
theorem physicsStep_logged (s : SimNode (D × List EngineCall)) (x : D × List EngineCall) :
    (s.physicsStep mj.logged x).1 = s.withoutLog.physicsStep mj x.1 ∧
      (DrivenWithin mj x.2 → DrivenWithin mj (s.physicsStep mj.logged x).2) := by
  obtain ⟨torques, htorques, hfold⟩ :=
    foldl_setCtrl mj s (List.finRange numStandardJoints) x
  have hstep := congrArg mj.logged.step hfold
  refine ⟨congrArg Prod.fst hstep, fun h => ?_⟩
  have hlog : (s.physicsStep mj.logged x).2 = x.2 ++ torques ++ [.step] := congrArg Prod.snd hstep
  rw [hlog]
  exact .steps h htorques

theorem physicsSteps_logged (s : SimNode (D × List EngineCall)) :
    (s.physicsSteps mj.logged cfg).1 = s.withoutLog.physicsSteps mj cfg ∧
      (DrivenWithin mj s.data.2 → DrivenWithin mj (s.physicsSteps mj.logged cfg).2) := by
  constructor
  · have hsemi : Function.Semiconj Prod.fst (s.physicsStep mj.logged)
        (s.withoutLog.physicsStep mj) := fun x => (s.physicsStep_logged mj x).1
    exact hsemi.iterate_right cfg.stepsPerControl s.data
  · intro h
    unfold physicsSteps
    induction cfg.stepsPerControl with
    | zero => exact h
    | succ k ih =>
      rw [Function.iterate_succ_apply']
      exact (s.physicsStep_logged mj _).2 ih

theorem advance_logged (s : SimNode (D × List EngineCall)) :
    (s.advance mj.logged cfg).withoutLog = s.withoutLog.advance mj cfg ∧
      (DrivenWithin mj s.data.2 → DrivenWithin mj (s.advance mj.logged cfg).data.2) := by
  obtain ⟨hdata, hlog⟩ := s.physicsSteps_logged mj cfg
  have hfall : DetectFall mj.logged (s.physicsSteps mj.logged cfg) ↔
      DetectFall mj (s.withoutLog.physicsSteps mj cfg) := by
    rw [← hdata]
    exact Iff.rfl
  unfold advance
  by_cases hon : s.physicsEnabled = true
  · have hon' : s.withoutLog.physicsEnabled = true := hon
    rw [if_pos hon, if_pos hon']
    dsimp only
    by_cases hd : DetectFall mj (s.withoutLog.physicsSteps mj cfg)
    · rw [if_pos (hfall.mpr hd), if_pos hd, resetToStanding_logged, hdata]
      exact ⟨rfl, fun h => (hlog h).stands⟩
    · rw [if_neg (mt hfall.mp hd), if_neg hd, ← hdata]
      exact ⟨rfl, hlog⟩
  · have hon' : ¬s.withoutLog.physicsEnabled = true := hon
    rw [if_neg hon, if_neg hon']
    exact ⟨rfl, id⟩

theorem falls_logged (s : SimNode (D × List EngineCall)) :
    s.Falls mj.logged cfg ↔ s.withoutLog.Falls mj cfg := by
  unfold Falls
  rw [← (s.physicsSteps_logged mj cfg).1]
  exact Iff.rfl

theorem cmdCallback_logged (data : List Scalar) (s : SimNode (D × List EngineCall)) :
    (s.cmdCallback data).withoutLog = s.withoutLog.cmdCallback data := by
  unfold cmdCallback
  split_ifs <;> rfl

end SimNode

/-! ### The brain and the simulator in a loop -/

namespace Loop

variable {cfg : BrainConfig n} {env : Environment n H} {mj : Mujoco D} {simCfg : SimConfig}

/-- The system without the log. -/
def withoutLog (s : Loop n H (D × List EngineCall)) : Loop n H D where
  brain := s.brain
  ros := s.ros
  sim := s.sim.withoutLog
  commands := s.commands
  jointStates := s.jointStates
  imus := s.imus

theorem step_logged (s : Loop n H (D × List EngineCall)) (e : LoopEvent) :
    s.withoutLog.step cfg env mj simCfg e =
      (s.step cfg env mj.logged simCfg e).map fun r => (r.1.withoutLog, r.2) := by
  have hbrain : ∀ call, s.withoutLog.brainStep cfg env call =
      (s.brainStep cfg env call).map fun r => (r.1.withoutLog, r.2) := fun call => by
    rw [brainStep, brainStep, Option.map_map]
    rfl
  cases e with
  | task t now => exact hbrain _
  | tick now => exact hbrain _
  | infer outcome now => exact hbrain _
  | jointState lost =>
    rcases hmsgs : s.jointStates with _ | ⟨msg, rest⟩ <;>
      simp only [step, withoutLog, hmsgs, Option.map_none, Option.map_some]
  | imu lost =>
    rcases hmsgs : s.imus with _ | ⟨msg, rest⟩ <;>
      simp only [step, withoutLog, hmsgs, Option.map_none, Option.map_some]
  | command =>
    rcases hmsgs : s.commands with _ | ⟨c, rest⟩
    · simp only [step, withoutLog, hmsgs, Option.map_none]
    · have hsim := s.sim.cmdCallback_logged c.data
      have henabled : (s.sim.cmdCallback c.data).physicsEnabled =
          (s.sim.withoutLog.cmdCallback c.data).physicsEnabled :=
        congrArg SimNode.physicsEnabled hsim
      simp only [step, withoutLog, hmsgs, Option.map_some, hsim, henabled]
      rfl
  | simStep =>
    obtain ⟨hadvance, -⟩ := s.sim.advance_logged mj simCfg
    have hfalls := propext (s.sim.falls_logged mj simCfg)
    simp only [step, withoutLog, SimNode.step, Option.map_some, ← hadvance, hfalls]
    rfl

/-- The runs of the system are those with the logged engine, on the same inputs. -/
theorem run_logged_iff {now : ℤ} {d : D} {es : List LoopEvent} {s : Loop n H D}
    {tr : List (LoopOutput n)} : (loop cfg env mj simCfg now d).Run es s tr ↔
      ∃ s', (loop cfg env mj.logged simCfg now (d, [])).Run es s' tr ∧ s'.withoutLog = s := by
  refine Machine.run_iff_exists_of_map ?_ fun s e => step_logged s e
  simp only [loop, initial, withoutLog, SimNode.initial, SimNode.withoutLog,
    SimNode.resetToStanding_logged]

/-- Only the step of the simulator calls the engine. -/
theorem data_of_step {s : Loop n H D} {e : LoopEvent} {r : Loop n H D × List (LoopOutput n)}
    (h : s.step cfg env mj simCfg e = some r) :
    r.1.sim.data = s.sim.data ∨ r.1.sim = s.sim.advance mj simCfg := by
  have hbrain : ∀ {call}, s.brainStep cfg env call = some r → r.1.sim.data = s.sim.data := by
    rintro call hr
    obtain ⟨_, -, rfl⟩ := Option.map_eq_some_iff.mp hr
    rfl
  cases e with
  | task t now => exact .inl (hbrain h)
  | tick now => exact .inl (hbrain h)
  | infer outcome now => exact .inl (hbrain h)
  | jointState lost =>
    simp only [step] at h
    split at h <;> cases h
    exact .inl rfl
  | imu lost =>
    simp only [step] at h
    split at h <;> cases h
    exact .inl rfl
  | command =>
    simp only [step] at h
    split at h <;> cases h
    refine .inl ?_
    dsimp only [SimNode.cmdCallback]
    split_ifs <;> rfl
  | simStep =>
    cases h
    exact .inr rfl

theorem drivenWithin {now : ℤ} {d : D} {es : List LoopEvent}
    {s : Loop n H (D × List EngineCall)} {tr : List (LoopOutput n)}
    (h : (loop cfg env mj.logged simCfg now (d, [])).Run es s tr) :
    DrivenWithin mj s.sim.data.2 := by
  refine h.invariant (fun s _ => DrivenWithin mj s.sim.data.2) ?_ ?_
  · show DrivenWithin mj (SimNode.resetToStanding mj.logged (d, [])).2
    rw [SimNode.resetToStanding_logged]
    exact DrivenWithin.nil.stands
  · intro es s tr e s' out _ hI _ hs
    rcases data_of_step hs with hdata | hsim
    · exact hdata ▸ hI
    · exact hsim ▸ (s.sim.advance_logged mj simCfg).2 hI

end Loop

/-- Whatever the brain publishes, the simulator drives the engine by resets to the standing pose and
by physics steps, in each of which it has just set the torques of all joints within their limits. -/
theorem torques_within {cfg : BrainConfig n} {env : Environment n H} {mj : Mujoco D}
    {simCfg : SimConfig} {now : ℤ} {d : D} {es : List LoopEvent} {s : Loop n H D}
    {tr : List (LoopOutput n)} (h : (loop cfg env mj simCfg now d).Run es s tr) :
    ∃ s', (loop cfg env mj.logged simCfg now (d, [])).Run es s' tr ∧ s'.withoutLog = s ∧
      DrivenWithin mj s'.sim.data.2 := by
  obtain ⟨s', hrun, hs⟩ := Loop.run_logged_iff.mp h
  exact ⟨s', hrun, hs, Loop.drivenWithin hrun⟩

/-- A robot that falls and is put back. -/
theorem torques_within_falling : ∃ s tr,
    (loop shippedConfig (constantPolicy 12 (fin 0)) (droppingEngine .identity) {} 0 0).Run
      fallEvents s tr ∧ s.sim.resets = 1 ∧
    ∃ s', (loop shippedConfig (constantPolicy 12 (fin 0)) (droppingEngine .identity).logged {} 0
        (0, [])).Run fallEvents s' tr ∧ s'.withoutLog = s ∧
      DrivenWithin (droppingEngine .identity) s'.sim.data.2 := by
  have hrun : ∃ s tr,
      (loop shippedConfig (constantPolicy 12 (fin 0)) (droppingEngine .identity) {} 0 0).Reaches
        (fun _ _ _ => True) fallEvents s tr ∧ s.sim.resets = 1 :=
    Machine.exists_reaches_of_decide _ (by decide +kernel)
  obtain ⟨s, tr, hrun, hresets⟩ := hrun
  exact ⟨s, tr, hrun, hresets, torques_within hrun⟩

end RobotBrain
