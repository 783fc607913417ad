import RobotBrain.Brain.Atomic
import RobotBrain.Library.Trace

/-!
# The memory of the policy

The policy remembers through two values: the recurrent state inside the policy model, which
`Forward` replaces, and `prev_actions_`, which an inference closure writes back after publishing.
They are meant to hold the frames applied since the last reset, and they do in every run in which
each closure either publishes its frame or fails inside `Forward`. A frame that has been superseded,
or an exception between `Forward` and the write-back, advances the recurrent state alone.

## Main definitions

* `appliedHiddenState`, `appliedActions` — the two values, from the outputs of a run.
* `MemoryCoherent` — the program holds these values.
* `Brain.MemoryKept` — the closure that a step runs publishes its frame or fails inside `Forward`.

## Main results

* `memoryCoherentAlong_iff_kept` — the memory is coherent along a run whose closures are of this
  kind, and along no other if the policy never leaves its recurrent state unchanged.
* `exists_not_memoryCoherent` — a superseded frame that leaves its trace after an emergency stop.
-/

namespace RobotBrain

open ExtNum

variable {n : ℕ} {H : Type*} {cfg : BrainConfig n} {env : Environment n H}

/-- The effect of an output on the recurrent state of a policy that remembers applied frames. -/
def Output.nextHiddenState (env : Environment n H) (h : H) : Output n → H
  | .hiddenStateReset => env.hiddenZero
  | .applied _ obs _ => (env.forward obs h).2
  | _ => h

/-- The recurrent state after `Forward` on the observations of the frames applied since the last
reset. -/
def appliedHiddenState (env : Environment n H) (tr : List (Output n)) : H :=
  tr.foldl (Output.nextHiddenState env) env.hiddenZero

/-- The actions that an output makes the latest. -/
def Output.latestActions : Output n → Option (Fin n → Scalar)
  | .prevActionsReset => some fun _ => fin 0
  | .applied _ _ actions => some actions.joint
  | _ => none

/-- The actions of the last frame applied since the last reset, zeros if there is none. -/
def appliedActions (tr : List (Output n)) : Fin n → Scalar :=
  (latest Output.latestActions tr).getD fun _ => fin 0

/-- The memory of the policy is that of the frames applied since the last reset. -/
structure MemoryCoherent (env : Environment n H) (b : Brain n H) (tr : List (Output n)) : Prop where
  hiddenState : b.hiddenState = appliedHiddenState env tr
  prevActions : b.prevActions = appliedActions tr

/-- The memory is coherent in every state along a run in which no frame is in flight. -/
def MemoryCoherentAlong (cfg : BrainConfig n) (env : Environment n H) (now : ℤ)
    (es : List (Event n)) : Prop :=
  ∀ es' b tr, es' <+: es → (atomic cfg env now).Run es' b tr → b.inferenceQueue = [] →
    MemoryCoherent env b tr

/-- If the step runs a closure, then the closure fails inside `Forward`, or it runs to its end and
its frame has not been superseded. -/
def Brain.MemoryKept (b : Brain n H) : Event n → Prop
  | .infer outcome _ =>
    outcome = .forwardThrows ∨
      outcome = .completes ∧ ∀ f ∈ b.inferenceQueue.head?, f.myGeneration = b.taskGeneration
  | _ => True

instance (b : Brain n H) : (e : Event n) → Decidable (b.MemoryKept e)
  | .infer _ _ => inferInstanceAs (Decidable (_ ∨ _))
  | .task _ _ | .tick _ _ => .isTrue trivial

namespace MemoryCoherent

variable {b b' : Brain n H} {tr out : List (Output n)}

theorem append (h : MemoryCoherent env b tr)
    (hhidden : b'.hiddenState = out.foldl (Output.nextHiddenState env) b.hiddenState)
    (hprev : b'.prevActions = (latest Output.latestActions out).getD b.prevActions) :
    MemoryCoherent env b' (tr ++ out) := by
  constructor
  · rw [hhidden, h.hiddenState, appliedHiddenState, appliedHiddenState, List.foldl_append]
  · rw [hprev, h.prevActions, appliedActions, appliedActions, getD_latest_append]

theorem watchdog {w : Brain n H × List (Output n)} (h : MemoryCoherent env b tr)
    (hw : Brain.WatchdogResult b w) : MemoryCoherent env w.1 (tr ++ w.2) := by
  cases hw <;> exact h.append rfl rfl

theorem reset {prop : Proprioception n} {r : Brain n H × List (Output n)}
    (h : MemoryCoherent env b tr) (hr : Brain.ResetResult cfg env prop b r) :
    MemoryCoherent env r.1 (tr ++ r.2) := by
  cases hr <;> exact h.append rfl rfl

theorem tick {now : ℤ} {prop : Proprioception n} {w r : Brain n H × List (Output n)}
    (h : MemoryCoherent env w.1 (tr ++ w.2)) (hr : Brain.RunTick cfg env now prop w r) :
    MemoryCoherent env r.1 (tr ++ r.2) := by
  have hinferring : MemoryCoherent env (w.1.setInferring true) (tr ++ w.2) :=
    ⟨h.hiddenState, h.prevActions⟩
  cases hr with
  | busy | invalid => exact ⟨h.hiddenState, h.prevActions⟩
  | captured _ _ _ hr =>
    simp only [← List.append_assoc]
    exact (hinferring.reset hr).append rfl rfl

/-- A step that runs no other closures than those of `Brain.MemoryKept` keeps the memory
coherent. -/
theorem step {e : Event n} {r : Brain n H × List (Output n)} (h : MemoryCoherent env b tr)
    (hkept : b.MemoryKept e) (hr : Brain.RunStep cfg env b e r) :
    MemoryCoherent env r.1 (tr ++ r.2) := by
  cases hr with
  | task hr => cases hr <;> exact h.append rfl rfl
  | tick _ hw hr => exact (h.watchdog hw).tick hr
  | @infer _ _ f _ hq hr =>
    have hcurrent : ∀ {outcome}, b.MemoryKept (.infer outcome 0) → outcome ≠ .forwardThrows →
        outcome = .completes ∧ f.myGeneration = b.taskGeneration := by
      rintro outcome (hthrows | ⟨hcompletes, hgen⟩) hne
      · exact absurd hthrows hne
      · exact ⟨hcompletes, hgen f (by rw [hq]; rfl)⟩
    cases hr with
    | forwardThrew => exact h.append rfl rfl
    | applied => exact h.append rfl rfl
    | failed hout =>
      rcases hout with rfl | ⟨rfl, -⟩ <;> cases (hcurrent hkept (by simp)).1
    | superseded hout hgen =>
      rcases hout with rfl | rfl <;> exact absurd (hcurrent hkept (by simp)).2 hgen

/-- A closure that leaves the memory coherent although it is not of the kind of `Brain.MemoryKept`
has left the recurrent state unchanged. -/
theorem kept_of_infer {f : Frame n} {outcome : Outcome} {now : ℤ}
    {r : Brain n H × List (Output n)} (h : MemoryCoherent env b tr)
    (hmoves : ∀ obs h, (env.forward obs h).2 ≠ h) (hq : b.inferenceQueue = [f])
    (hr : Brain.InferResult cfg env f now (b.dequeue []) outcome r)
    (hafter : MemoryCoherent env r.1 (tr ++ r.2)) : b.MemoryKept (.infer outcome now) := by
  cases hr with
  | forwardThrew => exact Or.inl rfl
  | applied hgen =>
    refine Or.inr ⟨rfl, fun g hg => ?_⟩
    rw [hq] at hg
    obtain rfl : f = g := Option.some.inj hg
    exact hgen
  | failed | superseded =>
    have hsame := hafter.hiddenState
    rw [appliedHiddenState, List.foldl_append, ← appliedHiddenState, ← h.hiddenState] at hsame
    exact absurd hsame (hmoves _ _)

end MemoryCoherent

/-- The runs whose closures publish their frames or fail inside `Forward`. -/
abbrev KeptRun (cfg : BrainConfig n) (env : Environment n H) (now : ℤ) :
    List (Event n) → Brain n H → List (Output n) → Prop :=
  (atomic cfg env now).Reaches fun b _ e => b.MemoryKept e

theorem memoryCoherent_of_keptRun {now : ℤ} {es : List (Event n)} {b : Brain n H}
    {tr : List (Output n)} (h : KeptRun cfg env now es b tr) : MemoryCoherent env b tr := by
  refine h.invariant (MemoryCoherent env) ⟨rfl, rfl⟩ ?_
  intro es b tr e b' out hreach hb hkept hs
  exact hb.step hkept (Brain.runStep hreach hs)

/-- In a run in which every closure publishes its frame or fails inside `Forward`, the memory of the
policy is that of the frames applied since the last reset whenever no frame is in flight. If the
policy never leaves its recurrent state unchanged, these are the only runs of which this is true. -/
theorem memoryCoherentAlong_iff_kept {now : ℤ} {es : List (Event n)} {b : Brain n H}
    {tr : List (Output n)} (h : (atomic cfg env now).Run es b tr) :
    (KeptRun cfg env now es b tr → MemoryCoherentAlong cfg env now es) ∧
      ((∀ obs h, (env.forward obs h).2 ≠ h) → MemoryCoherentAlong cfg env now es →
        KeptRun cfg env now es b tr) := by
  constructor
  · intro hkept es' b' tr' hpre hrun _
    exact hkept.forall_prefix (fun _ _ _ => memoryCoherent_of_keptRun) hpre hrun
  · intro hmoves hall
    refine (h.of_forall_prefix (MemoryCoherent env)
      (fun b tr => b.inferenceQueue = [] → MemoryCoherent env b tr) ⟨rfl, rfl⟩ ?_ hall).1
    intro es b tr e b' out hreach hb _ hs hafter
    have hr := Brain.runStep hreach hs
    suffices hkept : b.MemoryKept e from ⟨hkept, hb.step hkept hr⟩
    cases hr with
    | task | tick => trivial
    | infer hq hr =>
      -- no frame is in flight after the closure, so the property speaks of the state it leaves
      exact hb.kept_of_infer hmoves hq hr (hafter hr.inferenceQueue)

/-- An applied frame, an emergency stop and another frame. -/
def framesAroundStop : List (Event 12) :=
  frameEvents 20 (upright shippedConfig) ++ .task stopTask 30 ::
    frameEvents 40 (upright shippedConfig)

theorem memoryCoherentAlong_framesAroundStop :
    MemoryCoherentAlong shippedConfig (constantPolicy 12 (fin 1)) 0 framesAroundStop := by
  have hrun : ∃ b tr, KeptRun shippedConfig (constantPolicy 12 (fin 1)) 0 framesAroundStop b tr ∧
      true = true := Machine.exists_reaches framesAroundStop (by decide +kernel)
  obtain ⟨b, tr, hrun, -⟩ := hrun
  exact (memoryCoherentAlong_iff_kept hrun.run).1 hrun

/-- A frame captured before an emergency stop and executed after it is discarded, but the recurrent
state is no longer the one that the stop has left. -/
theorem exists_not_memoryCoherent :
    ∃ es b tr, (atomic shippedConfig (constantPolicy 12 (fin 1)) 0).Run es b tr ∧
      b.inferenceQueue = [] ∧ ¬MemoryCoherent (constantPolicy 12 (fin 1)) b tr := by
  have hrun : ∃ b tr, (atomic shippedConfig (constantPolicy 12 (fin 1)) 0).Run
      [.tick 20 (upright shippedConfig), .task stopTask 25, .infer .completes 30] b tr ∧
      (b.inferenceQueue.isEmpty &&
        !decide (b.hiddenState = appliedHiddenState (constantPolicy 12 (fin 1)) tr)) = true :=
    Machine.exists_reaches _ (by decide +kernel)
  obtain ⟨b, tr, hrun, hp⟩ := hrun
  simp only [Bool.and_eq_true, List.isEmpty_iff, Bool.not_eq_true', decide_eq_false_iff_not] at hp
  exact ⟨_, b, tr, hrun, hp.1, fun h => hp.2 h.hiddenState⟩

end RobotBrain
