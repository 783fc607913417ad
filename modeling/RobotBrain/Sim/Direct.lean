import RobotBrain.Library.Trace
import RobotBrain.Sim.Node

/-!
# The simulator running the policy itself

In the mode `direct_policy` the simulator holds the ONNX session of the policy. Once a joint command
has enabled the physics, every second step builds an observation from the data of the engine, runs
the session and takes the joint targets from its output; the brain is not asked. The session is a
parameter, like the physics engine.

## Main definitions

* `PolicySession`, `DirectNode`, `DirectNode.runDirectPolicy`, `DirectNode.step`.
* `directNode` — the node as a machine.
* `sessionRuns` — the runs of the session in a trace.

## Main results

* `DirectNode.each_sessionRun` — without a fall, the observation of every run of the session is that
  of the data it finds, of the output of the run before it and of twice its number.
-/

namespace RobotBrain

open ExtNum

variable {D L : Type*}

/-- The ONNX session with a recurrent state of type `L`, hidden and cell state together, and the
sine and cosine of `2π` times their argument. -/
structure PolicySession (L : Type*) where
  /-- `lstm_hidden` and `lstm_cell`, all zeros. -/
  lstmZero : L
  /-- `policy_sess.run`: the action for an observation, and the next recurrent state. -/
  run : List Scalar → L → (Fin numStandardJoints → Scalar) × L
  sinTurn : ℚ → ℚ
  cosTurn : ℚ → ℚ

/-- The members of `MuJoCoSimNode` that change in the mode `direct_policy`. -/
structure DirectNode (D L : Type*) extends SimNode D where
  prevActions : Fin numStandardJoints → Scalar
  policyCounter : ℕ
  lstm : L

/-- A run of the session: the data of the engine that it finds, the observation and the action. -/
structure SessionRun (D : Type*) where
  data : D
  obs : List Scalar
  action : Fin numStandardJoints → Scalar

/-- The observable actions of the node. -/
inductive DirectOutput (D : Type*)
  | inferred (x : SessionRun D)
  /-- The node has put the robot back after a fall. -/
  | reset

/-- The inputs of the node. -/
inductive DirectEvent
  /-- A joint command arrives. -/
  | command (data : List Scalar)
  /-- The timer of the node fires. -/
  | step

/-- The runs of the session. -/
def sessionRuns (tr : List (DirectOutput D)) : List (SessionRun D) :=
  tr.filterMap fun
    | .inferred x => some x
    | .reset => none

theorem sessionRuns_append (tr out : List (DirectOutput D)) :
    sessionRuns (tr ++ out) = sessionRuns tr ++ sessionRuns out :=
  List.filterMap_append

/-- The operator `%` of Python on numbers: the remainder has the sign of the divisor. -/
def pyMod (x y : ℚ) : ℚ :=
  x - y * ⌊x / y⌋

/-- `phase` of `_run_direct_policy`. -/
def directPhase (cfg : SimConfig) (policyCounter : ℕ) : ℚ :=
  let simTime := policyCounter * ((cfg.controlRateMs : ℚ) / 1000)
  pyMod simTime (4 / 5) / (4 / 5)

/-- `obs` of `_run_direct_policy`. -/
def directObservation (mj : Mujoco D) (cfg : SimConfig) (session : PolicySession L) (data : D)
    (prevActions : Fin numStandardJoints → Scalar) (policyCounter : ℕ) : List Scalar :=
  let (qw, qx, qy, qz) := (mj.qpos data 3, mj.qpos data 4, mj.qpos data 5, mj.qpos data 6)
  let phase := directPhase cfg policyCounter
  [mj.qvel data 3 * fin (1 / 4), mj.qvel data 4 * fin (1 / 4), mj.qvel data 5 * fin (1 / 4),
    fin 2 * (-qz * qx + qw * qy),
    fin (-2) * (qz * qy + qw * qx),
    fin 1 - fin 2 * (qw * qw + qz * qz),
    fin (1 / 2) * fin 2, fin 0 * fin 2, fin 0 * fin (1 / 4)] ++
  List.ofFn (fun i => (mj.qpos data (mj.qposAdr i) - standingPose i) * fin 1) ++
  List.ofFn (fun i => mj.qvel data (mj.dofAdr i) * fin (1 / 20)) ++
  List.ofFn prevActions ++
  [fin (session.sinTurn phase), fin (session.cosTurn phase)]

namespace DirectNode

section Definitions

variable (mj : Mujoco D) (cfg : SimConfig) (session : PolicySession L)

/-- The node after its constructor, where the engine starts with the data `d`. -/
def initial (d : D) : DirectNode D L where
  toSimNode := SimNode.initial mj d
  prevActions := fun _ => fin 0
  policyCounter := 0
  lstm := session.lstmZero

/-- `MuJoCoSimNode._run_direct_policy`. -/
def runDirectPolicy (s : DirectNode D L) : DirectNode D L × SessionRun D :=
  let obs := directObservation mj cfg session s.data s.prevActions s.policyCounter
  let (action, lstm) := session.run obs s.lstm
  ({ s with
      targetPositions := fun i => action i * fin (1 / 4) + standingPose i
      prevActions := action
      lstm := lstm }, ⟨s.data, obs, action⟩)

/-- The part of `MuJoCoSimNode._step` between the count and the physics. -/
def policyStep (s : DirectNode D L) : DirectNode D L × List (DirectOutput D) :=
  let s := { s with policyCounter := s.policyCounter + 1 }
  if s.policyCounter % 2 = 0 then
    let (s, x) := s.runDirectPolicy mj cfg session
    (s, [.inferred x])
  else (s, [])

/-- `MuJoCoSimNode._step` before the publications. After a fall the physics stays enabled and the
count goes on. -/
def advance (s : DirectNode D L) : DirectNode D L × List (DirectOutput D) :=
  if s.physicsEnabled then
    let (s, out) := s.policyStep mj cfg session
    let d := s.physicsSteps mj cfg
    if SimNode.DetectFall mj d then
      ({ s with
          data := SimNode.resetToStanding mj d
          resets := s.resets + 1
          targetPositions := standingPose
          lstm := session.lstmZero
          prevActions := fun _ => fin 0 }, out ++ [.reset])
    else ({ s with data := d }, out)
  else (s, [])

/-- One input. -/
def step (s : DirectNode D L) : DirectEvent → Option (DirectNode D L × List (DirectOutput D))
  | .command data => some ({ s with toSimNode := s.toSimNode.cmdCallback data }, [])
  | .step => some (s.advance mj cfg session)

end Definitions

end DirectNode

/-- The simulator in the mode `direct_policy`, its engine starting with the data `d`. -/
def directNode (mj : Mujoco D) (cfg : SimConfig) (session : PolicySession L) (d : D) :
    Machine (DirectNode D L) DirectEvent (DirectOutput D) where
  init := DirectNode.initial mj session d
  step s e := s.step mj cfg session e

/-- The output of the last run of the session, zeros before the first. -/
def lastAction (past : List (SessionRun D)) : Fin numStandardJoints → Scalar :=
  (past.getLast?.map SessionRun.action).getD fun _ => fin 0

@[simp] theorem lastAction_concat (past : List (SessionRun D)) (x : SessionRun D) :
    lastAction (past ++ [x]) = x.action := by
  rw [lastAction, List.getLast?_concat]
  rfl

namespace DirectNode

variable {mj : Mujoco D} {cfg : SimConfig} {session : PolicySession L} {s : DirectNode D L}

/-- What the node knows about the past while the robot has not fallen. -/
structure DirectInv (mj : Mujoco D) (cfg : SimConfig) (session : PolicySession L)
    (s : DirectNode D L) (runs : List (SessionRun D)) : Prop where
  /-- Every second step runs the session. -/
  counter : s.policyCounter / 2 = runs.length
  prevActions : s.prevActions = lastAction runs
  each : Each (fun past x => x.obs =
    directObservation mj cfg session x.data (lastAction past) (2 * (past.length + 1))) runs

theorem DirectInv.congr {s' : DirectNode D L} {runs : List (SessionRun D)}
    (h : DirectInv mj cfg session s runs) (hcounter : s'.policyCounter = s.policyCounter)
    (hprev : s'.prevActions = s.prevActions) : DirectInv mj cfg session s' runs :=
  ⟨hcounter ▸ h.counter, hprev.trans h.prevActions, h.each⟩

/-- The count is even when the session runs, so it is twice the number of the run. -/
theorem DirectInv.policyStep {runs : List (SessionRun D)} (h : DirectInv mj cfg session s runs) :
    DirectInv mj cfg session (s.policyStep mj cfg session).1
      (runs ++ sessionRuns (s.policyStep mj cfg session).2) := by
  have hcounter := h.counter
  by_cases heven : (s.policyCounter + 1) % 2 = 0
  · have htwice : s.policyCounter + 1 = 2 * (runs.length + 1) := by omega
    rw [DirectNode.policyStep, if_pos heven]
    refine ⟨?_, ?_, each_concat.mpr ⟨h.each, ?_⟩⟩
    · show (s.policyCounter + 1) / 2 = (runs ++ [_]).length
      rw [List.length_append, List.length_singleton]
      omega
    · show _ = lastAction (runs ++ [_])
      rw [lastAction_concat]
      rfl
    · show directObservation mj cfg session s.data s.prevActions (s.policyCounter + 1) = _
      rw [h.prevActions, htwice]
  · rw [DirectNode.policyStep, if_neg heven]
    refine ⟨?_, ?_, ?_⟩
    · show (s.policyCounter + 1) / 2 = (runs ++ []).length
      rw [List.append_nil]
      omega
    · exact h.prevActions.trans (congrArg lastAction (List.append_nil runs).symm)
    · exact (List.append_nil runs).symm ▸ h.each

theorem DirectInv.advance {runs : List (SessionRun D)} (h : DirectInv mj cfg session s runs)
    (hup : DirectOutput.reset ∉ (s.advance mj cfg session).2) :
    DirectInv mj cfg session (s.advance mj cfg session).1
      (runs ++ sessionRuns (s.advance mj cfg session).2) := by
  have hpolicy := h.policyStep
  unfold DirectNode.advance at hup ⊢
  by_cases hon : s.physicsEnabled = true
  · rw [if_pos hon] at hup ⊢
    dsimp only at hup ⊢
    split_ifs at hup ⊢
    · exact absurd (List.mem_append_right _ (List.mem_singleton_self _)) hup
    · exact hpolicy.congr rfl rfl
  · rw [if_neg hon] at hup ⊢
    rw [sessionRuns, List.filterMap_nil, List.append_nil]
    exact h

/-- In a run without a fall, every observation is made of the data that the session finds, of the
action before it and of an even count, twice the number of the run. -/
theorem each_sessionRun {d : D} {es : List DirectEvent} {tr : List (DirectOutput D)}
    (h : (directNode mj cfg session d).Run es s tr) (hup : DirectOutput.reset ∉ tr) :
    Each (fun past x => x.obs =
      directObservation mj cfg session x.data (lastAction past) (2 * (past.length + 1)))
      (sessionRuns tr) := by
  have hinit : DirectInv mj cfg session (initial mj session d) [] :=
    ⟨Nat.zero_div 2, rfl, trivial⟩
  have hinv : DirectOutput.reset ∉ tr → DirectInv mj cfg session s (sessionRuns tr) := by
    refine h.invariant (fun s tr => DirectOutput.reset ∉ tr →
      DirectInv mj cfg session s (sessionRuns tr)) (fun _ => hinit) ?_
    intro es s tr e s' out _ hI _ hs hup
    rw [List.mem_append, not_or] at hup
    have hI := hI hup.1
    rw [sessionRuns_append]
    cases e with
    | command data =>
      cases hs
      rw [sessionRuns, sessionRuns, List.filterMap_nil, List.append_nil]
      exact hI.congr rfl rfl
    | step =>
      have hr : s.advance mj cfg session = (s', out) := Option.some.inj hs
      have hadvance := hI.advance
      rw [hr] at hadvance
      exact hadvance hup.2
  exact (hinv hup).each

end DirectNode

end RobotBrain
