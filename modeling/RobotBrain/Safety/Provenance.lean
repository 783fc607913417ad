import RobotBrain.Safety.Generation
import RobotBrain.Rpc.Metrics

/-!
# Where joint commands come from

Two threads publish joint commands: the worker, once it has checked the generation of its frame, and
the RPC thread in an emergency stop. The stream of commands that leaves the brain is a merge of two
ordered streams without repetition: frames in the order of their capture, each at most once and
written back before the next one is published, and one default pose for each emergency stop. The
third place of the source that publishes, for the states `IDLE` and `ERROR`, is never reached.

## Main definitions

* `framesCaptured`, `framesPublished`, `framesApplied`, `stopsPublished` — parts of a trace.
* `stopIndices` — the positions of the emergency stops among the tasks.
* `WorkerPc.writingBack`, `RpcPc.owes` — what is published or counted and not yet followed up.

## Main results

* `command_stream` — the stream of commands in every interleaving.
-/

namespace RobotBrain

variable {n : ℕ} {H : Type*} {cfg : BrainConfig n} {env : Environment n H}

/-! ### Parts of a trace -/

/-- The frames enqueued, in order. -/
def framesCaptured (tr : List (Output n)) : List (Frame n) :=
  tr.filterMap fun
    | .captured f => some f
    | _ => none

/-- The frames whose commands have been published, in order. -/
def framesPublished (tr : List (Output n)) : List (Frame n) :=
  tr.filterMap fun
    | .published _ (.inference f) => some f
    | _ => none

/-- The frames that have been written back and counted, in order. -/
def framesApplied (tr : List (Output n)) : List (Frame n) :=
  tr.filterMap fun
    | .applied f _ _ => some f
    | _ => none

/-- The emergency stops that have published the default pose, by the number of their task. -/
def stopsPublished (tr : List (Output n)) : List ℕ :=
  tr.filterMap fun
    | .published _ (.emergencyStop tasks) => some tasks
    | _ => none

@[simp] theorem framesCaptured_append (tr out : List (Output n)) :
    framesCaptured (tr ++ out) = framesCaptured tr ++ framesCaptured out :=
  List.filterMap_append

@[simp] theorem framesPublished_append (tr out : List (Output n)) :
    framesPublished (tr ++ out) = framesPublished tr ++ framesPublished out :=
  List.filterMap_append

@[simp] theorem framesApplied_append (tr out : List (Output n)) :
    framesApplied (tr ++ out) = framesApplied tr ++ framesApplied out :=
  List.filterMap_append

@[simp] theorem stopsPublished_append (tr out : List (Output n)) :
    stopsPublished (tr ++ out) = stopsPublished tr ++ stopsPublished out :=
  List.filterMap_append

/-- The emergency stops among the tasks, by their number from one. -/
def stopIndices (tasks : List Task) : List ℕ :=
  tasks.zipIdx.filterMap fun p => if p.1.type = .emergencyStop then some (p.2 + 1) else none

theorem stopIndices_concat (tasks : List Task) (t : Task) : stopIndices (tasks ++ [t]) =
    stopIndices tasks ++ if t.type = .emergencyStop then [tasks.length + 1] else [] := by
  rw [stopIndices, List.zipIdx_append, List.filterMap_append]
  refine congrArg _ ?_
  rw [List.zipIdx_singleton, List.filterMap_cons, List.filterMap_nil]
  split_ifs <;> simp

/-! ### The order of the frames -/

/-- The frame that has been published and not yet counted. -/
def WorkerPc.writingBack : WorkerPc n → Option (Frame n)
  | .feedDog r _ _ | .writeBackActions r _ _ | .writeBackTargets r _ _ | .countFrame r _ =>
    some r.frame
  | _ => none

/-- The frame of the worker, once it may have been published. -/
def WorkerPc.concluding : WorkerPc n → Option (Frame n)
  | .releaseBuffer r => some r.frame
  | pc => pc.writingBack

/-- The frames captured are those of the closures that have ended, of the one that runs and of those
queued; those published are among the first and the one that runs, in the same order. -/
structure Threads.OrderInv (s : Threads n H) (tr : List (Output n)) : Prop where
  order : ∃ done : List (Frame n),
    framesCaptured tr = done ++ s.worker.frame.toList ++ s.brain.inferenceQueue ∧
      (framesPublished tr).Sublist (done ++ s.worker.concluding.toList)
  applied : framesPublished tr = framesApplied tr ++ s.worker.writingBack.toList

namespace Threads

theorem RpcResult.stream {now : ℤ} {b b' : Brain n H} {pc pc' : RpcPc} {out : List (Output n)}
    (h : RpcResult cfg env now b pc b' pc' out) :
    framesCaptured out = [] ∧ framesPublished out = [] ∧ framesApplied out = [] := by
  cases h <;> exact ⟨rfl, rfl, rfl⟩

/-- The control thread only adds frames to the queue. -/
theorem ControlResult.stream {prop : Proprioception n} {b b' : Brain n H} {pc pc' : ControlPc n}
    {out : List (Output n)} (h : ControlResult cfg env prop b pc b' pc' out) :
    b'.inferenceQueue = b.inferenceQueue ++ framesCaptured out ∧ framesPublished out = [] ∧
      framesApplied out = [] := by
  cases h
  case enqueued f hroom => exact ⟨rfl, rfl, rfl⟩
  all_goals exact ⟨(List.append_nil _).symm, rfl, rfl⟩

/-- An access of the worker: it keeps its frame and publishes nothing new, publishes it, or is done
with it. -/
theorem WorkerResult.stream {now : ℤ} {b b' : Brain n H} {pc pc' : WorkerPc n}
    {out : List (Output n)} (h : WorkerResult cfg env now b pc b' pc' out) :
    b'.inferenceQueue = b.inferenceQueue ∧ framesCaptured out = [] ∧
      pc.writingBack.toList ++ framesPublished out =
        framesApplied out ++ pc'.writingBack.toList ∧
      (pc'.frame = pc.frame ∧
          (pc.concluding.toList ++ framesPublished out).Sublist pc'.concluding.toList ∨
        framesPublished out = [] ∧ pc'.frame = none ∧ pc.concluding = pc.frame ∧
          pc'.concluding = none) := by
  cases h
  case forward f | forwardThrew f =>
    have hqueue : (b.acquireBuffer cfg).2.2.inferenceQueue = b.inferenceQueue := by
      rw [Brain.acquireBuffer_brain]
    exact ⟨hqueue, rfl, rfl, Or.inl ⟨rfl, List.nil_sublist _⟩⟩
  case releaseBuffer r =>
    have hqueue : (b.releaseBuffer r.obs r.pooled).inferenceQueue = b.inferenceQueue := by
      rw [Brain.releaseBuffer_eq]
    exact ⟨hqueue, rfl, rfl, Or.inr ⟨rfl, rfl, rfl, rfl⟩⟩
  case publish | feedDog | writeBackActions | writeBackTargets | countFrame =>
    exact ⟨rfl, rfl, rfl, Or.inl ⟨rfl, List.Sublist.refl _⟩⟩
  all_goals exact ⟨rfl, rfl, rfl, Or.inl ⟨rfl, List.nil_sublist _⟩⟩

/-- An access of another thread enqueues what it captures. -/
theorem OrderInv.of_worker_eq {s s' : Threads n H} {tr out : List (Output n)} (hI : OrderInv s tr)
    (hworker : s'.worker = s.worker)
    (hqueue : s'.brain.inferenceQueue = s.brain.inferenceQueue ++ framesCaptured out)
    (hpublished : framesPublished out = []) (happlied : framesApplied out = []) :
    OrderInv s' (tr ++ out) := by
  obtain ⟨⟨done, hcap, hpub⟩, happ⟩ := hI
  refine ⟨⟨done, ?_, ?_⟩, ?_⟩
  · rw [framesCaptured_append, hcap, hworker, hqueue, List.append_assoc _ _ (framesCaptured out)]
  · rw [framesPublished_append, hpublished, List.append_nil, hworker]
    exact hpub
  · rw [framesPublished_append, framesApplied_append, hpublished, happlied, List.append_nil,
      List.append_nil, hworker]
    exact happ

theorem StepResult.orderInv {s : Threads n H} {tr : List (Output n)} {e : ThreadEvent n}
    {r : Threads n H × List (Output n)} (h : StepResult cfg env s e r) (hI : OrderInv s tr) :
    OrderInv r.1 (tr ++ r.2) := by
  cases h with
  | call | tick => exact hI.of_worker_eq rfl (List.append_nil _).symm rfl rfl
  | rpc h =>
    obtain ⟨hcaptured, hpublished, happlied⟩ := h.stream
    refine hI.of_worker_eq rfl ?_ hpublished happlied
    rw [hcaptured, List.append_nil]
    exact h.generation.1
  | control h =>
    obtain ⟨hqueue, hpublished, happlied⟩ := h.stream
    exact hI.of_worker_eq rfl hqueue hpublished happlied
  | @dequeue f q hpc hq =>
    obtain ⟨⟨done, hcap, hpub⟩, happ⟩ := hI
    rw [hpc, hq] at hcap
    rw [hpc] at hpub happ
    refine ⟨⟨done, ?_, ?_⟩, ?_⟩
    · rw [List.append_nil, hcap]
      exact List.append_assoc done [] (f :: q) |>.trans (List.append_assoc done [f] q).symm
    · rw [List.append_nil]
      exact hpub
    · rw [List.append_nil]
      exact happ
  | worker h =>
    obtain ⟨⟨done, hcap, hpub⟩, happ⟩ := hI
    obtain ⟨hqueue, hcaptured, hbalance, hframe⟩ := h.stream
    refine ⟨?_, ?_⟩
    · rcases hframe with ⟨hsame, hsub⟩ | ⟨hnone, hgone, hwas, hconcluded⟩
      · refine ⟨done, ?_, ?_⟩
        · rw [framesCaptured_append, hcaptured, List.append_nil, hcap, hsame, hqueue]
        · rw [framesPublished_append]
          refine (hpub.append_right _).trans ?_
          rw [List.append_assoc]
          exact hsub.append_left done
      · -- the frame of the closure that ends joins those that are done
        refine ⟨done ++ s.worker.frame.toList, ?_, ?_⟩
        · rw [framesCaptured_append, hcaptured, List.append_nil, hcap, hgone, hqueue]
          exact congrArg (· ++ _) (List.append_nil _).symm
        · rw [framesPublished_append, hnone, List.append_nil, hconcluded, ← hwas]
          exact hpub.trans (List.sublist_append_left _ _)
    · rw [framesPublished_append, framesApplied_append, happ, List.append_assoc, hbalance,
        List.append_assoc]

theorem orderInv_of_run {start : ℤ} {es : List (ThreadEvent n)} {s : Threads n H}
    {tr : List (Output n)} (h : (threads cfg env start).Run es s tr) : OrderInv s tr := by
  refine h.invariant OrderInv ⟨⟨[], rfl, List.Sublist.refl _⟩, rfl⟩ ?_
  intro es s tr e s' out _ hI _ hs
  exact (stepResult hs).orderInv hI

end Threads

/-! ### The stops -/

/-- The emergency stop that the RPC thread has counted, and whose default pose it has not
published. -/
def RpcPc.owes : RpcPc → Bool
  | .storeGeneration t _ | .storeTaskType t | .storeState t => t.type = .emergencyStop
  | .fillPrevActions _ | .resetHiddenState _ | .resetJointTargets _ | .publishDefault _ => true
  | .idle | .incrementGeneration _ | .feedDog _ => false

/-- Each emergency stop counted has published the default pose, but for the one being processed; and
the control thread never does. -/
structure Threads.StopsInv (cfg : BrainConfig n) (s : Threads n H) (tr : List (Output n)) :
    Prop where
  stops : stopIndices s.brain.history.tasks =
    stopsPublished tr ++ if s.rpc.owes then [s.brain.history.tasks.length] else []
  active : s.control ≠ .publishDefault
  source : ∀ c ∈ commands tr, (∃ tasks, c = (cfg.defaultJointPositions, .emergencyStop tasks)) ∨
    ∃ f, c.2 = .inference f

namespace Threads

theorem RpcResult.stops {now : ℤ} {b b' : Brain n H} {pc pc' : RpcPc} {out : List (Output n)}
    (h : RpcResult cfg env now b pc b' pc' out) {past : List ℕ}
    (hstops : stopIndices b.history.tasks =
      past ++ if pc.owes then [b.history.tasks.length] else []) :
    stopIndices b'.history.tasks =
        past ++ stopsPublished out ++ (if pc'.owes then [b'.history.tasks.length] else []) ∧
      ∀ c ∈ commands out, ∃ tasks, c = (cfg.defaultJointPositions, .emergencyStop tasks) := by
  have hsame {tasks : List ℕ} (heq : stopIndices b.history.tasks = past ++ tasks) :
      stopIndices b.history.tasks = past ++ [] ++ tasks := by
    rwa [List.append_nil]
  cases h
  case incrementGeneration t =>
    have hpast : stopIndices b.history.tasks = past := hstops.trans (List.append_nil _)
    refine ⟨?_, by simp [commands]⟩
    show stopIndices (b.history.tasks ++ [t]) = past ++ [] ++ _
    rw [stopIndices_concat, hpast, List.append_nil]
    simp [RpcPc.owes, Brain.incrementGeneration]
  case storeStateStop t ht =>
    simp only [RpcPc.owes, ht, decide_true, if_true] at hstops
    exact ⟨hsame hstops, by simp [commands]⟩
  case storeStateMotion t ht =>
    simp only [RpcPc.owes, ht, decide_false, Bool.false_eq_true, if_false] at hstops
    exact ⟨hsame hstops, by simp [commands]⟩
  case publishDefault t =>
    exact ⟨hstops.trans (List.append_nil _).symm, by simp [commands]⟩
  all_goals exact ⟨hsame hstops, by simp [commands]⟩

theorem ControlResult.stops {prop : Proprioception n} {b b' : Brain n H} {pc pc' : ControlPc n}
    {out : List (Output n)} (h : ControlResult cfg env prop b pc b' pc' out)
    (hactive : b.metrics.currentState = .executing ∨ b.metrics.currentState = .standing)
    (hpc : pc ≠ .publishDefault) :
    stopsPublished out = [] ∧ commands out = [] ∧ pc' ≠ .publishDefault := by
  cases h
  case loadInactive now hinactive => exact absurd hactive hinactive
  case publishDefault => exact absurd rfl hpc
  all_goals exact ⟨rfl, rfl, by simp⟩

theorem WorkerResult.stops {now : ℤ} {b b' : Brain n H} {pc pc' : WorkerPc n}
    {out : List (Output n)} (h : WorkerResult cfg env now b pc b' pc' out) :
    stopsPublished out = [] ∧ ∀ c ∈ commands out, ∃ f, c.2 = .inference f := by
  cases h
  case publish r actions targets =>
    refine ⟨rfl, fun c hc => ⟨r.frame, ?_⟩⟩
    rw [List.mem_singleton.mp hc]
  all_goals exact ⟨rfl, by simp [commands]⟩

theorem stopsInv_of_run {start : ℤ} {es : List (ThreadEvent n)} {s : Threads n H}
    {tr : List (Output n)} (h : (threads cfg env start).Run es s tr) : StopsInv cfg s tr := by
  refine h.invariant (StopsInv cfg)
    ⟨rfl, by simp [threads, rest], by simp [commands]⟩ ?_
  intro es s tr e s' out hrun hI _ hs
  obtain ⟨hstops, hcontrol, hsource⟩ := hI
  have hquiet {c : (Fin n → Scalar) × Source n} (hout : commands out = [])
      (hc : c ∈ commands (tr ++ out)) : c ∈ commands tr := by
    rwa [commands_append, hout, List.append_nil] at hc
  cases stepResult hs with
  | call hpc =>
    rw [hpc] at hstops
    refine ⟨?_, hcontrol, fun c hc => hsource c (hquiet rfl hc)⟩
    rw [stopsPublished_append]
    exact hstops.trans (congrArg (· ++ []) (List.append_nil _).symm)
  | tick hpc =>
    rw [List.append_nil]
    exact ⟨hstops, by simp, hsource⟩
  | dequeue =>
    rw [List.append_nil]
    exact ⟨hstops, hcontrol, hsource⟩
  | rpc h =>
    obtain ⟨hstops', hout⟩ := h.stops hstops
    refine ⟨?_, hcontrol, fun c hc => ?_⟩
    · rw [stopsPublished_append]
      exact hstops'
    · rw [commands_append, List.mem_append] at hc
      exact hc.elim (hsource c) fun hc => Or.inl (hout c hc)
  | control h =>
    obtain ⟨hnone, hout, hpc⟩ := h.stops (metricsInv_of_reaches hrun).active hcontrol
    refine ⟨?_, hpc, fun c hc => hsource c (hquiet hout hc)⟩
    rw [stopsPublished_append, hnone, List.append_nil, h.generation.1]
    exact hstops
  | worker h =>
    obtain ⟨hnone, hout⟩ := h.stops
    refine ⟨?_, hcontrol, fun c hc => ?_⟩
    · rw [stopsPublished_append, hnone, List.append_nil, h.generation.1]
      exact hstops
    · rw [commands_append, List.mem_append] at hc
      exact hc.elim (hsource c) fun hc => Or.inr (hout c hc)

end Threads

/-- In every interleaving of the three threads, the joint commands published are default poses of
emergency stops and commands of frames, and nothing else. The frames are published in the order of
their capture, each at most once, and each is written back and counted before the next one is
published. Each emergency stop counted has published exactly one default pose, in order, but for the
one that the RPC thread is processing. -/
theorem command_stream {start : ℤ} {es : List (ThreadEvent n)} {s : Threads n H}
    {tr : List (Output n)} (h : (threads cfg env start).Run es s tr) :
    (∀ c ∈ commands tr, (∃ tasks, c = (cfg.defaultJointPositions, .emergencyStop tasks)) ∨
        ∃ f, c.2 = .inference f) ∧
      (framesPublished tr).Sublist (framesCaptured tr) ∧
      framesPublished tr = framesApplied tr ++ s.worker.writingBack.toList ∧
      stopIndices s.brain.history.tasks =
        stopsPublished tr ++ if s.rpc.owes then [s.brain.history.tasks.length] else [] := by
  obtain ⟨⟨done, hcaptured, hpublished⟩, happlied⟩ := Threads.orderInv_of_run h
  have hstops := Threads.stopsInv_of_run h
  refine ⟨hstops.source, ?_, happlied, hstops.stops⟩
  -- the frame that may have been published is the one that the worker holds
  have hframe : s.worker.concluding.toList.Sublist s.worker.frame.toList := by
    cases s.worker <;> first | exact List.Sublist.refl _ | exact List.nil_sublist _
  rw [hcaptured]
  exact (hpublished.trans (hframe.append_left done)).trans (List.sublist_append_left _ _)

/-- A frame that is published and an emergency stop under way: one command of each kind. -/
theorem command_stream_stop :
    ∃ s tr, (threads shippedConfig (constantPolicy 12 (.fin 0)) 1000).Run
        (.tick 1020 :: List.replicate 7 (.control (upright shippedConfig)) ++
          .dequeue :: List.replicate 7 (.worker false 1030) ++
          .call stopTask :: List.replicate 8 (.rpc 1040)) s tr ∧
      (framesPublished tr).length = 1 ∧ (framesApplied tr).length = 0 ∧ stopsPublished tr = [1] ∧
      framesPublished tr = s.worker.writingBack.toList := by
  have hrun : ∃ s tr, (threads shippedConfig (constantPolicy 12 (.fin 0)) 1000).Run
      (.tick 1020 :: List.replicate 7 (.control (upright shippedConfig)) ++
        .dequeue :: List.replicate 7 (.worker false 1030) ++
        .call stopTask :: List.replicate 8 (.rpc 1040)) s tr ∧
      (framesPublished tr).length = 1 ∧ (framesApplied tr).length = 0 ∧ stopsPublished tr = [1] :=
    Machine.exists_reaches_of_decide _ (by decide +kernel)
  obtain ⟨s, tr, hrun, hpublished, happlied, hstops⟩ := hrun
  have hframes := (command_stream hrun).2.2.1
  rw [List.eq_nil_of_length_eq_zero happlied, List.nil_append] at hframes
  exact ⟨s, tr, hrun, hpublished, happlied, hstops, hframes⟩

end RobotBrain
