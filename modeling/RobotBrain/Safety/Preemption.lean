import RobotBrain.Safety.Generation
import RobotBrain.Library.Trace

/-!
# Preemption of inference results

A task supersedes the frames captured before it by incrementing the task generation, which an
inference closure compares with that of its frame before it publishes. The comparison and the
publication are separate accesses: a task that increments the generation in between does not stop
the closure, and an emergency stop may even publish the default pose first. As long as no increment
falls there, no joint command is published from a frame that has been superseded.

## Main definitions

* `Preempted` — no generation announced before a command is newer than the frame of the command.
* `Threads.CheckHolds` — the step does not increment the generation between check and publication.

## Main results

* `each_preempted` — preemption in every interleaving whose steps are of this kind.
* `exists_published_after_stop` — an interleaving in which a command of an older frame follows the
  default pose of an emergency stop.
-/

namespace RobotBrain

open ExtNum

variable {n : ℕ} {H : Type*} {cfg : BrainConfig n} {env : Environment n H}

/-- The generation that an output announces: `ProcessRobotTask` has incremented it, or publishes the
default pose on an emergency stop. -/
def Output.generation : Output n → Option ℕ
  | .generationIncremented tasks => some tasks
  | .published _ (.emergencyStop tasks) => some tasks
  | _ => none

/-- A command computed from a frame is published only if no generation announced before is newer
than that of the frame. -/
def Preempted (past : List (Output n)) : Output n → Prop
  | .published _ (.inference f) => ∀ o ∈ past, ∀ g ∈ o.generation, g ≤ f.tasksBefore
  | _ => True

instance (past : List (Output n)) : (o : Output n) → Decidable (Preempted past o)
  | .published _ (.inference f) =>
    inferInstanceAs (Decidable (∀ o ∈ past, ∀ g ∈ o.generation, g ≤ f.tasksBefore))
  | .published _ (.emergencyStop _) | .published _ .inactive | .captured _ | .commandWritten _
  | .generationIncremented _ | .taskReturned _ | .heartbeatExpired | .lowered | .hiddenStateReset
  | .prevActionsReset | .jointTargetsReset | .forwarded _ | .applied _ _ _ | .discarded _ =>
    .isTrue trivial

/-- The next access of the RPC thread increments the generation. -/
def RpcPc.increments : RpcPc → Bool
  | .incrementGeneration _ => true
  | _ => false

namespace Threads

/-- The generation is not incremented while the worker is between its check and the publication, and
when the worker checks a frame fewer than `2^64` tasks have arrived since its capture. -/
def CheckHolds (s : Threads n H) : ThreadEvent n → Prop
  | .rpc _ => s.rpc.increments = true → s.worker.checked = none
  | .worker _ _ => ∀ f ∈ s.worker.checking,
    s.brain.history.tasks.length < f.tasksBefore + 2 ^ 64
  | _ => True

instance (s : Threads n H) : (e : ThreadEvent n) → Decidable (s.CheckHolds e)
  | .rpc _ => inferInstanceAs (Decidable (_ → _))
  | .worker _ _ => inferInstanceAs (Decidable (∀ f ∈ s.worker.checking, _))
  | .call _ | .tick _ | .control _ | .dequeue => .isTrue trivial

/-! ### The generations announced by an access -/

/-- The RPC thread announces no generation beyond the number of tasks, and publishes nothing from a
frame. -/
private theorem RpcResult.announces {now : ℤ} {b b' : Brain n H} {pc pc' : RpcPc}
    {out : List (Output n)} (h : RpcResult cfg env now b pc b' pc' out) :
    (∀ o ∈ out, ∀ g ∈ o.generation, g ≤ b'.history.tasks.length) ∧
      ∀ past, Each (fun past' => Preempted (past ++ past')) out := by
  cases h <;> simp [Output.generation, Preempted, Brain.incrementGeneration]

/-- The control thread announces no generation and publishes nothing from a frame. -/
private theorem ControlResult.announces {prop : Proprioception n} {b b' : Brain n H}
    {pc pc' : ControlPc n} {out : List (Output n)}
    (h : ControlResult cfg env prop b pc b' pc' out) :
    (∀ o ∈ out, o.generation = none) ∧
      ∀ past, Each (fun past' => Preempted (past ++ past')) out := by
  cases h <;> simp [Output.generation, Preempted]

/-- The worker announces no generation. It checks a frame whose generation is the current one, and
publishes from a checked frame only. -/
private theorem WorkerResult.announces {now : ℤ} {b b' : Brain n H} {pc pc' : WorkerPc n}
    {out : List (Output n)} (h : WorkerResult cfg env now b pc b' pc' out) :
    (∀ f ∈ pc'.checked, f ∈ pc.checked ∨
        f ∈ pc.checking ∧ f ∈ pc.frame ∧ f.myGeneration = b.taskGeneration) ∧
      (∀ o ∈ out, o.generation = none) ∧
      ∀ past, (∀ f ∈ pc.checked, ∀ o ∈ past, ∀ g ∈ o.generation, g ≤ f.tasksBefore) →
        Each (fun past' => Preempted (past ++ past')) out := by
  cases h
  case checkPassed r actions targets hgen =>
    refine ⟨?_, by simp, fun past _ => trivial⟩
    rintro f ⟨⟩
    exact Or.inr ⟨rfl, rfl, hgen⟩
  case applyRateLimit => exact ⟨fun f hf => Or.inl hf, by simp, fun past _ => trivial⟩
  case publish r actions targets =>
    refine ⟨by rintro f ⟨⟩, by simp [Output.generation], fun past hpast => ⟨?_, trivial⟩⟩
    show Preempted (past ++ []) _
    rw [List.append_nil]
    exact hpast r.frame rfl
  all_goals exact ⟨by rintro f ⟨⟩, by simp [Output.generation], fun past _ => by simp [Preempted]⟩

/-! ### Preemption along a run -/

/-- A checked frame has the current generation, no generation announced is beyond it, and every
command published so far was preempted by none. -/
structure PreemptInv (s : Threads n H) (tr : List (Output n)) : Prop where
  checked : ∀ f ∈ s.worker.checked, f.tasksBefore = s.brain.history.tasks.length
  announced : ∀ o ∈ tr, ∀ g ∈ o.generation, g ≤ s.brain.history.tasks.length
  preempted : Each Preempted tr

/-- The invariant after a step, from what the step does to the checked frame and what it emits. -/
private theorem PreemptInv.append {s : Threads n H} {tr out : List (Output n)} (h : PreemptInv s tr)
    {s' : Threads n H} (hchecked : ∀ f ∈ s'.worker.checked,
      f.tasksBefore = s'.brain.history.tasks.length)
    (hle : s.brain.history.tasks.length ≤ s'.brain.history.tasks.length)
    (hout : ∀ o ∈ out, ∀ g ∈ o.generation, g ≤ s'.brain.history.tasks.length)
    (heach : Each (fun past => Preempted (tr ++ past)) out) : PreemptInv s' (tr ++ out) := by
  refine ⟨hchecked, fun o ho g hg => ?_, each_append.mpr ⟨h.preempted, heach⟩⟩
  rcases List.mem_append.mp ho with ho | ho
  · exact (h.announced o ho g hg).trans hle
  · exact hout o ho g hg

private theorem PreemptInv.step {s : Threads n H} {tr : List (Output n)} {e : ThreadEvent n}
    {r : Threads n H × List (Output n)} (h : PreemptInv s tr) (hgen : s.GenerationInv)
    (hholds : s.CheckHolds e) (hr : StepResult cfg env s e r) : PreemptInv r.1 (tr ++ r.2) := by
  cases hr with
  | call => exact h.append h.checked le_rfl (by simp [Output.generation]) (by simp [Preempted])
  | tick => exact h.append h.checked le_rfl (by simp) (by simp)
  | @rpc now b pc out hr =>
    have hannounces := hr.announces
    obtain ⟨-, ⟨htasks, -⟩ | ⟨t, hpc, htasks, -⟩⟩ := hr.generation
    · refine h.append ?_ (by rw [htasks]) hannounces.1 (hannounces.2 tr)
      rw [htasks]
      exact h.checked
    · -- no frame is checked while the generation is incremented
      have hnone : s.worker.checked = none := hholds (by rw [hpc]; rfl)
      refine h.append ?_ ?_ hannounces.1 (hannounces.2 tr)
      · rw [hnone]
        rintro f ⟨⟩
      · rw [htasks, List.length_append]
        exact Nat.le_add_right _ _
  | control hr =>
    have hannounces := hr.announces
    have htasks := hr.generation.1
    refine h.append ?_ (by rw [htasks]) ?_ (hannounces.2 tr)
    · rw [htasks]
      exact h.checked
    · intro o ho g hg
      rw [hannounces.1 o ho] at hg
      cases hg
  | dequeue => exact h.append (by rintro f ⟨⟩) le_rfl (by simp) (by simp)
  | worker hr =>
    obtain ⟨hchecked, hnone, heach⟩ := hr.announces
    have hhistory := hr.generation.1
    refine h.append (fun f hf => ?_) (by rw [hhistory]) ?_ (heach tr fun f hf o ho g hg => ?_)
    · rw [hhistory]
      rcases hchecked f hf with hf | ⟨hcheck, hframe, heq⟩
      · exact h.checked f hf
      · -- the check compares the generations of the two counts
        have hmem : f ∈ s.frames := List.mem_append_right _ (Option.mem_toList.mpr hframe)
        obtain ⟨hle, hmine⟩ := hgen.frame f hmem
        refine eq_of_ofNat_eq hle (hholds f hcheck) ?_
        rw [← hmine, heq, hgen.brain]
    · intro o ho g hg
      rw [hnone o ho] at hg
      cases hg
    · rw [h.checked f hf]
      exact h.announced o ho g hg

end Threads

/-- In every interleaving in which the generation is never incremented between the check of a
closure and its publication, and no frame is checked after `2^64` tasks: whenever a joint command
computed from a frame is published, no generation newer than that of the frame has been announced
before, neither by an increment nor by the default pose of an emergency stop. -/
theorem each_preempted {now : ℤ} {es : List (ThreadEvent n)} {s : Threads n H}
    {tr : List (Output n)}
    (h : (threads cfg env now).Reaches (fun s _ e => s.CheckHolds e) es s tr) :
    Each Preempted tr := by
  have hinit : Threads.PreemptInv (Threads.rest (Brain.initial cfg env now)) [] :=
    ⟨by rintro f ⟨⟩, by simp, trivial⟩
  refine (h.invariant Threads.PreemptInv hinit ?_).preempted
  intro es s tr e s' out hreach hI hholds hs
  exact hI.step (Threads.generationInv_of_reaches hreach) hholds (Threads.stepResult hs)

/-- A frame captured and checked, with the publication outstanding. -/
private def checkedFrame : List (ThreadEvent 12) :=
  .tick 20 :: List.replicate 7 (.control (upright shippedConfig)) ++
    .dequeue :: List.replicate 3 (.worker false 30)

/-- A whole call of `ProcessRobotTask` for an emergency stop. -/
private def stopCall : List (ThreadEvent 12) :=
  .call stopTask :: List.replicate 9 (.rpc 35)

/-- An emergency stop that arrives after the publication meets the condition. -/
theorem each_preempted_stopAfter :
    ∃ s tr, (threads shippedConfig (constantPolicy 12 (fin 1)) 0).Run
        (checkedFrame ++ List.replicate 2 (.worker false 30) ++ stopCall) s tr ∧
      (commands tr).length = 2 ∧ Each Preempted tr := by
  have hrun : ∃ s tr, (threads shippedConfig (constantPolicy 12 (fin 1)) 0).Reaches
      (fun s _ e => s.CheckHolds e)
      (checkedFrame ++ List.replicate 2 (.worker false 30) ++ stopCall) s tr ∧
      (commands tr).length = 2 :=
    Machine.exists_reaches_of_decide _ (by decide +kernel)
  obtain ⟨s, tr, hrun, hlen⟩ := hrun
  exact ⟨s, tr, hrun.run, hlen, each_preempted hrun⟩

/-- An emergency stop that runs between the check and the publication: the command of the older
frame follows the default pose. -/
theorem exists_published_after_stop :
    ∃ s tr, (threads shippedConfig (constantPolicy 12 (fin 1)) 0).Run
        (checkedFrame ++ stopCall ++ List.replicate 2 (.worker false 40)) s tr ∧
      ¬Each Preempted tr := by
  have hrun : ∃ s tr, (threads shippedConfig (constantPolicy 12 (fin 1)) 0).Run
      (checkedFrame ++ stopCall ++ List.replicate 2 (.worker false 40)) s tr ∧
      (!decide (Each Preempted tr)) = true :=
    Machine.exists_reaches _ (by decide +kernel)
  obtain ⟨s, tr, hrun, hnot⟩ := hrun
  exact ⟨s, tr, hrun, by simpa using hnot⟩

end RobotBrain
