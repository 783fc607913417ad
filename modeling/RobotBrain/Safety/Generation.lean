import RobotBrain.Brain.Threads

/-!
# Task generations

The task generation counts the tasks modulo `2^64`. A frame carries the generation that its tick
has read, and the worker compares it with the current one. Unless `2^64` tasks arrive while the
frame is in flight, the two are equal exactly if no task has incremented the generation since.

## Main definitions

* `Threads.frames` — the frames that the threads and the queue hold.
* `Threads.GenerationInv` — the generations are the counts of tasks.

## Main results

* `Threads.StepResult.frames`, `Threads.StepResult.tasks` — where frames and tasks come from.
* `Threads.generationInv_of_reaches` — the invariant holds in every interleaving.
* `eq_of_ofNat_eq` — equal generations are equal counts.
-/

namespace RobotBrain

variable {n : ℕ} {H : Type*} {cfg : BrainConfig n} {env : Environment n H}

/-- Counts that are less than `2^64` apart are equal if their generations are. -/
theorem eq_of_ofNat_eq {a b : ℕ} (hle : a ≤ b) (hlt : b < a + 2 ^ 64)
    (h : UInt64.ofNat a = UInt64.ofNat b) : a = b := by
  have hmod := congrArg UInt64.toNat h
  rw [UInt64.toNat_ofNat', UInt64.toNat_ofNat'] at hmod
  omega

/-- The frame that the control thread is about to enqueue. -/
def ControlPc.frame : ControlPc n → Option (Frame n)
  | .enqueue f => some f
  | _ => none

/-- The frame whose closure the worker runs. -/
def WorkerPc.frame : WorkerPc n → Option (Frame n)
  | .idle | .clearFlag => none
  | .forward f => some f
  | .computeTargets r _ | .checkGeneration r _ _ | .applyRateLimit r _ _ | .publish r _ _
  | .feedDog r _ _ | .writeBackActions r _ _ | .writeBackTargets r _ _ | .countFrame r _
  | .countStale r | .releaseBuffer r => some r.frame

/-- The frame whose generation the worker is about to check. -/
def WorkerPc.checking : WorkerPc n → Option (Frame n)
  | .checkGeneration r _ _ => some r.frame
  | _ => none

/-- The frame whose generation the worker has checked and whose command it has not published. -/
def WorkerPc.checked : WorkerPc n → Option (Frame n)
  | .applyRateLimit r _ _ | .publish r _ _ => some r.frame
  | _ => none

namespace Threads

/-- The frames that have been built and not finished. -/
def frames (s : Threads n H) : List (Frame n) :=
  s.control.frame.toList ++ s.brain.inferenceQueue ++ s.worker.frame.toList

theorem frame_of_checked {pc : WorkerPc n} {f : Frame n} (hf : f ∈ pc.checked) :
    f ∈ pc.frame := by
  cases pc <;> cases hf <;> rfl

/-- The task generation is the number of tasks, and so is that of a frame at its capture. -/
structure GenerationInv (s : Threads n H) : Prop where
  brain : s.brain.taskGeneration = UInt64.ofNat s.brain.history.tasks.length
  frame : ∀ f ∈ s.frames, f.tasksBefore ≤ s.brain.history.tasks.length ∧
    f.myGeneration = UInt64.ofNat f.tasksBefore

/-! ### Who writes the generation -/

/-- The RPC thread leaves the queue alone and counts a task only when it increments the
generation. -/
theorem RpcResult.generation {now : ℤ} {b b' : Brain n H} {pc pc' : RpcPc}
    {out : List (Output n)} (h : RpcResult cfg env now b pc b' pc' out) :
    b'.inferenceQueue = b.inferenceQueue ∧
      (b'.history.tasks = b.history.tasks ∧ b'.taskGeneration = b.taskGeneration ∨
        ∃ t, pc = .incrementGeneration t ∧ b'.history.tasks = b.history.tasks ++ [t] ∧
          b'.taskGeneration = b.taskGeneration + 1) := by
  cases h
  case incrementGeneration t => exact ⟨rfl, Or.inr ⟨t, rfl, rfl, rfl⟩⟩
  all_goals exact ⟨rfl, Or.inl ⟨rfl, rfl⟩⟩

/-- The control thread counts no task, and the only frames it makes are snapshots. -/
theorem ControlResult.generation {prop : Proprioception n} {b b' : Brain n H}
    {pc pc' : ControlPc n} {out : List (Output n)}
    (h : ControlResult cfg env prop b pc b' pc' out) :
    b'.history.tasks = b.history.tasks ∧ b'.taskGeneration = b.taskGeneration ∧
      ∀ f ∈ pc'.frame.toList ++ b'.inferenceQueue, f ∈ pc.frame.toList ++ b.inferenceQueue ∨
        ∃ state p target dt, pc = .snapshot state p target dt ∧
          f = b.snapshot state p target dt := by
  cases h
  case snapshot state p target dt =>
    refine ⟨rfl, rfl, fun f hf => ?_⟩
    rcases List.mem_cons.mp hf with rfl | hf
    · exact Or.inr ⟨state, p, target, dt, rfl, rfl⟩
    · exact Or.inl hf
  case enqueued f hroom =>
    refine ⟨rfl, rfl, fun g hg => Or.inl ?_⟩
    change g ∈ b.inferenceQueue ++ [f] at hg
    rcases List.mem_append.mp hg with hg | hg
    · exact List.mem_append_right _ hg
    · exact List.mem_append_left _ hg
  case full f hfull => exact ⟨rfl, rfl, fun g hg => Or.inl (List.mem_cons_of_mem _ hg)⟩
  all_goals exact ⟨rfl, rfl, fun f hf => Or.inl hf⟩

/-- The worker counts no task, leaves the queue alone and keeps its frame or drops it. -/
theorem WorkerResult.generation {now : ℤ} {b b' : Brain n H} {pc pc' : WorkerPc n}
    {out : List (Output n)} (h : WorkerResult cfg env now b pc b' pc' out) :
    b'.history = b.history ∧ b'.taskGeneration = b.taskGeneration ∧
      b'.inferenceQueue = b.inferenceQueue ∧ ∀ f ∈ pc'.frame, f ∈ pc.frame := by
  cases h
  case forward f | forwardThrew f =>
    rw [Brain.acquireBuffer_brain]
    exact ⟨rfl, rfl, rfl, fun g hg => hg⟩
  case releaseBuffer r =>
    rw [Brain.releaseBuffer_eq]
    exact ⟨rfl, rfl, rfl, by rintro g ⟨⟩⟩
  case clearFlag => exact ⟨rfl, rfl, rfl, by rintro g ⟨⟩⟩
  all_goals exact ⟨rfl, rfl, rfl, fun g hg => hg⟩

/-- A frame that the threads or the queue hold after a step was held before, or the control thread
has just built it. -/
theorem StepResult.frames {s : Threads n H} {e : ThreadEvent n}
    {r : Threads n H × List (Output n)} (h : StepResult cfg env s e r) :
    ∀ f ∈ r.1.frames, f ∈ s.frames ∨ ∃ state p target dt,
      s.control = .snapshot state p target dt ∧ f = s.brain.snapshot state p target dt := by
  intro f hf
  cases h with
  | call => exact Or.inl hf
  | tick hpc =>
    rw [Threads.frames, hpc]
    exact Or.inl hf
  | rpc h =>
    rw [Threads.frames, h.generation.1] at hf
    exact Or.inl hf
  | control h =>
    rcases List.mem_append.mp hf with hf | hf
    · exact (h.generation.2.2 f hf).imp_left (List.mem_append_left _)
    · exact Or.inl (List.mem_append_right _ hf)
  | @dequeue g q hpc hq =>
    left
    rw [Threads.frames, hq, hpc]
    simp only [Threads.frames, Brain.dequeue, WorkerPc.frame, Option.toList_some, List.mem_append,
      List.mem_singleton] at hf
    simp only [WorkerPc.frame, Option.toList_none, List.append_nil, List.mem_append, List.mem_cons]
    tauto
  | worker h =>
    obtain ⟨-, -, hqueue, hframes⟩ := h.generation
    left
    rw [Threads.frames, hqueue] at hf
    rcases List.mem_append.mp hf with hf | hf
    · exact List.mem_append_left _ hf
    · exact List.mem_append_right _
        (Option.mem_toList.mpr (hframes f (Option.mem_toList.mp hf)))

/-- A step counts at most one task, and increments the generation with it. -/
theorem StepResult.tasks {s : Threads n H} {e : ThreadEvent n}
    {r : Threads n H × List (Output n)} (h : StepResult cfg env s e r) :
    r.1.brain.history.tasks = s.brain.history.tasks ∧
        r.1.brain.taskGeneration = s.brain.taskGeneration ∨
      ∃ t, s.rpc = .incrementGeneration t ∧
        r.1.brain.history.tasks = s.brain.history.tasks ++ [t] ∧
          r.1.brain.taskGeneration = s.brain.taskGeneration + 1 := by
  cases h with
  | call | tick | dequeue => exact Or.inl ⟨rfl, rfl⟩
  | rpc h => exact h.generation.2
  | control h => exact Or.inl ⟨h.generation.1, h.generation.2.1⟩
  | worker h => exact Or.inl ⟨congrArg History.tasks h.generation.1, h.generation.2.1⟩

/-! ### The invariant -/

theorem GenerationInv.step {s : Threads n H} {e : ThreadEvent n}
    {r : Threads n H × List (Output n)} (hI : s.GenerationInv) (h : StepResult cfg env s e r) :
    r.1.GenerationInv := by
  obtain ⟨hbrain, hframe⟩ := hI
  -- a frame that has just been built has the generation of now
  have hcount : ∀ f ∈ r.1.frames, f.tasksBefore ≤ s.brain.history.tasks.length ∧
      f.myGeneration = UInt64.ofNat f.tasksBefore := by
    intro f hf
    rcases h.frames f hf with hf | ⟨state, p, target, dt, -, rfl⟩
    · exact hframe f hf
    · exact ⟨le_rfl, hbrain⟩
  rcases h.tasks with ⟨htasks, hgen⟩ | ⟨t, -, htasks, hgen⟩
  · refine ⟨by rw [htasks, hgen, hbrain], ?_⟩
    rw [htasks]
    exact hcount
  · refine ⟨?_, fun f hf => ?_⟩
    · rw [htasks, hgen, hbrain, List.length_append, List.length_singleton, UInt64.ofNat_add]
      rfl
    · obtain ⟨hle, heq⟩ := hcount f hf
      rw [htasks, List.length_append]
      exact ⟨Nat.le_add_right_of_le hle, heq⟩

theorem generationInv_of_reaches {now : ℤ}
    {ok : Threads n H → List (Output n) → ThreadEvent n → Prop} {es : List (ThreadEvent n)}
    {s : Threads n H} {tr : List (Output n)} (h : (threads cfg env now).Reaches ok es s tr) :
    s.GenerationInv := by
  refine h.invariant (fun s _ => s.GenerationInv) ⟨rfl, by rintro f ⟨⟩⟩ ?_
  intro es s tr e s' out _ hI _ hs
  exact hI.step (stepResult hs)

end Threads

end RobotBrain
