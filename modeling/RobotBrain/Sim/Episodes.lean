import RobotBrain.Sim.Direct
import RobotBrain.Sim.FallReset
import Mathlib.Data.List.TakeWhile

/-!
# The simulator running the policy itself, across falls

In the mode `direct_policy` the robot is put back after a fall and the policy goes on: its recurrent
state and the previous action start again from zeros, while the count that drives the gait clock
does not. The constructor enables the physics for this mode and disables it again at its end, so
that also in this mode nothing happens before a joint command.

## Main definitions

* `DirectEvent.enables`, `activeSteps` — the commands that enable the physics, and the steps of the
  simulator after the first of them.
* `episode` — the runs of the session since the last fall.
* `PolicySession.memory` — the recurrent state that these runs leave.

## Main results

* `direct_episodes` — the observation and the action of every run of the session, in any run of the
  node, and the number of these runs.
-/

namespace RobotBrain

open ExtNum

variable {D L : Type*}

/-! ### Steps that count -/

/-- A joint command with a target for every joint. -/
def DirectEvent.enables : DirectEvent → Bool
  | .command data => decide (data.length = numStandardJoints)
  | .step => false

/-- A step of the simulator. -/
def DirectEvent.isStep : DirectEvent → Bool
  | .command _ => false
  | .step => true

/-- The number of steps of the simulator after the first command that enables the physics. -/
def activeSteps (es : List DirectEvent) : ℕ :=
  (es.dropWhile fun e => !e.enables).countP DirectEvent.isStep

private theorem dropWhile_eq_nil_iff (es : List DirectEvent) :
    (es.dropWhile fun e => !e.enables) = [] ↔ es.any DirectEvent.enables = false := by
  rw [List.dropWhile_eq_nil_iff, List.any_eq_false]
  simp only [Bool.not_eq_true', Bool.not_eq_true]

theorem activeSteps_concat (es : List DirectEvent) (e : DirectEvent) :
    activeSteps (es ++ [e]) =
      activeSteps es + if es.any DirectEvent.enables && e.isStep then 1 else 0 := by
  rw [activeSteps, List.dropWhile_append]
  cases hany : es.any DirectEvent.enables with
  | false =>
    have hnil := (dropWhile_eq_nil_iff es).mpr hany
    have he : e.enables = true → e.isStep = false := by
      cases e with
      | command data => exact fun _ => rfl
      | step => exact fun h => absurd h Bool.false_ne_true
    rw [activeSteps, hnil]
    cases h : e.enables <;> simp [h, he]
  | true =>
    have hne : (es.dropWhile fun e => !e.enables) ≠ [] := fun hnil => by
      rw [dropWhile_eq_nil_iff, hany] at hnil
      exact Bool.noConfusion hnil
    rw [if_neg (by rwa [List.isEmpty_iff]), List.countP_append, List.countP_singleton, activeSteps,
      Bool.true_and]

/-! ### The runs since the last fall -/

/-- The runs since the last fall, after one more output. -/
def episodeStep (runs : List (SessionRun D)) : DirectOutput D → List (SessionRun D)
  | .inferred x => runs ++ [x]
  | .reset => []

/-- The runs of the session since the last fall. -/
def episode (tr : List (DirectOutput D)) : List (SessionRun D) :=
  tr.foldl episodeStep []

theorem episode_concat (tr : List (DirectOutput D)) (o : DirectOutput D) :
    episode (tr ++ [o]) = episodeStep (episode tr) o :=
  List.foldl_concat ..

/-- The recurrent state after runs of the session from zeros. -/
def PolicySession.memory (session : PolicySession L) (runs : List (SessionRun D)) : L :=
  runs.foldl (fun lstm x => (session.run x.obs lstm).2) session.lstmZero

theorem PolicySession.memory_concat (session : PolicySession L) (runs : List (SessionRun D))
    (x : SessionRun D) :
    session.memory (runs ++ [x]) = (session.run x.obs (session.memory runs)).2 :=
  List.foldl_concat ..

/-- A run of the session observes the data that it finds, the last action since the last fall and
twice its number among all runs, and answers from the recurrent state of the runs since the last
fall. -/
def FollowsPolicy (mj : Mujoco D) (cfg : SimConfig) (session : PolicySession L)
    (past : List (DirectOutput D)) (o : DirectOutput D) : Prop :=
  ∀ x, o = .inferred x →
    x.obs = directObservation mj cfg session x.data (lastAction (episode past))
      (2 * ((sessionRuns past).length + 1)) ∧
    x.action = (session.run x.obs (session.memory (episode past))).1

namespace DirectNode

variable {mj : Mujoco D} {cfg : SimConfig} {session : PolicySession L} {s : DirectNode D L}

/-- What the node knows about the past after some active steps. -/
structure EpisodeInv (mj : Mujoco D) (cfg : SimConfig) (session : PolicySession L)
    (s : DirectNode D L) (steps : ℕ) (tr : List (DirectOutput D)) : Prop where
  counter : s.policyCounter = steps
  /-- Every second step runs the session. -/
  runs : (sessionRuns tr).length = steps / 2
  prevActions : s.prevActions = lastAction (episode tr)
  lstm : s.lstm = session.memory (episode tr)
  each : Each (FollowsPolicy mj cfg session) tr

variable {steps : ℕ} {tr : List (DirectOutput D)}

theorem EpisodeInv.congr {s' : DirectNode D L} (h : EpisodeInv mj cfg session s steps tr)
    (hcounter : s'.policyCounter = s.policyCounter) (hprev : s'.prevActions = s.prevActions)
    (hlstm : s'.lstm = s.lstm) : EpisodeInv mj cfg session s' steps tr :=
  ⟨hcounter.trans h.counter, h.runs, hprev.trans h.prevActions, hlstm.trans h.lstm, h.each⟩

/-- The count is even when the session runs, so it is twice the number of the run. -/
theorem EpisodeInv.policyStep (h : EpisodeInv mj cfg session s steps tr) :
    EpisodeInv mj cfg session (s.policyStep mj cfg session).1 (steps + 1)
      (tr ++ (s.policyStep mj cfg session).2) := by
  have hruns := h.runs
  have hcounter := h.counter
  by_cases heven : (s.policyCounter + 1) % 2 = 0
  · have htwice : s.policyCounter + 1 = 2 * ((sessionRuns tr).length + 1) := by omega
    rw [DirectNode.policyStep, if_pos heven]
    dsimp only
    refine ⟨congrArg (· + 1) hcounter, ?_, ?_, ?_, each_concat.mpr ⟨h.each, ?_⟩⟩
    · rw [sessionRuns_append, List.length_append]
      show (sessionRuns tr).length + 1 = _
      omega
    · rw [episode_concat, episodeStep, lastAction_concat]
      rfl
    · rw [episode_concat, episodeStep, PolicySession.memory_concat, ← h.lstm]
      rfl
    · rintro x hx
      obtain rfl := (DirectOutput.inferred.inj hx).symm
      rw [← h.prevActions, ← htwice, ← h.lstm]
      exact ⟨rfl, rfl⟩
  · rw [DirectNode.policyStep, if_neg heven]
    dsimp only
    rw [List.append_nil]
    exact ⟨congrArg (· + 1) hcounter, by omega, h.prevActions, h.lstm, h.each⟩

/-- A fall clears what the policy remembers. -/
theorem EpisodeInv.reset {s' : DirectNode D L} (h : EpisodeInv mj cfg session s steps tr)
    (hcounter : s'.policyCounter = s.policyCounter) (hprev : s'.prevActions = fun _ => fin 0)
    (hlstm : s'.lstm = session.lstmZero) :
    EpisodeInv mj cfg session s' steps (tr ++ [.reset]) := by
  have hepisode : episode (tr ++ [.reset]) = [] := episode_concat tr .reset
  refine ⟨hcounter.trans h.counter, ?_, ?_, ?_, each_concat.mpr ⟨h.each, ?_⟩⟩
  · rw [sessionRuns_append]
    exact (congrArg List.length (List.append_nil _)).trans h.runs
  · rw [hepisode, hprev]
    rfl
  · rw [hepisode, hlstm]
    rfl
  · rintro x hx
    cases hx

theorem EpisodeInv.advance (h : EpisodeInv mj cfg session s steps tr) :
    EpisodeInv mj cfg session (s.advance mj cfg session).1
      (steps + if s.physicsEnabled then 1 else 0) (tr ++ (s.advance mj cfg session).2) := by
  have hpolicy := h.policyStep
  unfold DirectNode.advance
  by_cases hon : s.physicsEnabled = true
  · rw [if_pos hon, if_pos hon]
    dsimp only
    split_ifs
    · rw [← List.append_assoc]
      exact hpolicy.reset rfl rfl rfl
    · exact hpolicy.congr rfl rfl rfl
  · rw [if_neg hon, if_neg hon]
    dsimp only
    rwa [List.append_nil]

theorem physicsEnabled_advance :
    (s.advance mj cfg session).1.physicsEnabled = s.physicsEnabled := by
  have hpolicy : (s.policyStep mj cfg session).1.physicsEnabled = s.physicsEnabled := by
    unfold DirectNode.policyStep
    dsimp only
    split_ifs <;> rfl
  unfold DirectNode.advance
  by_cases hon : s.physicsEnabled = true
  · rw [if_pos hon]
    dsimp only
    split_ifs <;> exact hpolicy
  · rw [if_neg hon]

/-- A command enables the physics, and nothing disables it. -/
theorem physicsEnabled_of_step {e : DirectEvent} {s' : DirectNode D L} {out : List (DirectOutput D)}
    (h : s.step mj cfg session e = some (s', out)) :
    s'.physicsEnabled = (s.physicsEnabled || e.enables) := by
  cases e with
  | command data =>
    cases h
    dsimp only [SimNode.cmdCallback, DirectEvent.enables]
    split_ifs with hlen <;> simp [hlen]
  | step =>
    have hs : (s.advance mj cfg session).1 = s' := congrArg Prod.fst (Option.some.inj h)
    rw [← hs, DirectEvent.enables, Bool.or_false, physicsEnabled_advance]

end DirectNode

/-- In every run of the node, the session runs in every second step after the first command that
enables the physics. It observes the last action and answers from the recurrent state since the last
fall, and the clock of its observation counts from the beginning. -/
theorem direct_episodes {mj : Mujoco D} {cfg : SimConfig} {session : PolicySession L} {d : D}
    {es : List DirectEvent} {s : DirectNode D L} {tr : List (DirectOutput D)}
    (h : (directNode mj cfg session d).Run es s tr) :
    Each (FollowsPolicy mj cfg session) tr ∧ (sessionRuns tr).length = activeSteps es / 2 := by
  have hinv : s.physicsEnabled = es.any DirectEvent.enables ∧
      DirectNode.EpisodeInv mj cfg session s (activeSteps es) tr := by
    induction h with
    | init => exact ⟨rfl, rfl, rfl, rfl, rfl, trivial⟩
    | @step es s tr e s' out _ _ hs ih =>
      obtain ⟨henabled, hinv⟩ := ih
      refine ⟨?_, ?_⟩
      · rw [DirectNode.physicsEnabled_of_step hs, henabled, List.any_append, List.any_cons,
          List.any_nil, Bool.or_false]
      · rw [activeSteps_concat, ← henabled]
        cases e with
        | command data =>
          cases hs
          rw [List.append_nil, DirectEvent.isStep, Bool.and_false]
          exact hinv.congr rfl rfl rfl
        | step =>
          have hadvance : s.advance mj cfg session = (s', out) := Option.some.inj hs
          have hstep := hinv.advance
          rwa [hadvance, ← Bool.and_true s.physicsEnabled] at hstep
  exact ⟨hinv.2.each, hinv.2.runs⟩

/-- A session that counts its runs. -/
private def countingSession : PolicySession ℕ where
  lstmZero := 0
  run _ lstm := (fun _ => fin lstm, lstm + 1)
  sinTurn x := x
  cosTurn x := x

/-- A command, and four steps of the simulator. -/
private def commandAndSteps : List DirectEvent :=
  .command (List.replicate 12 (fin 0)) :: List.replicate 4 .step

/-- The robot falls after the first run of the session. -/
theorem direct_episodes_falling : ∃ s tr,
    (directNode (droppingEngine .identity) {} countingSession 0).Run commandAndSteps s tr ∧
      0 < s.resets ∧
      Each (FollowsPolicy (droppingEngine .identity) {} countingSession) tr ∧
      (sessionRuns tr).length = activeSteps commandAndSteps / 2 := by
  have hrun : ∃ s tr, (directNode (droppingEngine .identity) {} countingSession 0).Reaches
      (fun _ _ _ => True) commandAndSteps s tr ∧ 0 < s.resets :=
    Machine.exists_reaches_of_decide _ (by decide +kernel)
  obtain ⟨s, tr, hrun, hresets⟩ := hrun
  exact ⟨s, tr, hrun, hresets, direct_episodes hrun⟩

end RobotBrain
