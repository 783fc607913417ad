import RobotBrain.Rpc.Status
import RobotBrain.Safety.Generation

/-!
# The metrics of a task

`ProcessRobotTask` increments the generation and then stores generation, task type and state in the
metrics, one after another. Between two calls the metrics are those of the last task, except that
the watchdog may have stored `STANDING` since, which is the only state that the control thread
stores.

## Main definitions

* `Threads.Current` — the metrics are those of the last of the tasks.
* `Threads.MetricsInv` — what the metrics say at each access of `ProcessRobotTask`.

## Main results

* `Threads.tasks_eq_returned` — the tasks that have been counted are those that have returned and
  the one being processed.
* `Threads.metricsInv_of_reaches` — the invariant holds in every interleaving.
-/

namespace RobotBrain

variable {n : ℕ} {H : Type*} {cfg : BrainConfig n} {env : Environment n H}

/-- The type of the last task. -/
def lastType (tasks : List Task) : TaskType :=
  (tasks.getLast?.map Task.type).getD .taskUnknown

/-- There is no task, or the last one is an emergency stop. -/
def Calm (tasks : List Task) : Prop :=
  ∀ t ∈ tasks.getLast?, t.type = .emergencyStop

theorem lastType_concat (tasks : List Task) (t : Task) : lastType (tasks ++ [t]) = t.type := by
  rw [lastType, List.getLast?_concat]
  rfl

theorem calm_concat {tasks : List Task} {t : Task} :
    Calm (tasks ++ [t]) ↔ t.type = .emergencyStop := by
  rw [Calm, List.getLast?_concat]
  constructor
  · exact fun h => h t rfl
  · rintro h t' ⟨⟩
    exact h

/-- The task that the RPC thread has counted and whose call has not returned. -/
def RpcPc.counted : RpcPc → Option Task
  | .idle | .incrementGeneration _ => none
  | .storeGeneration t _ | .storeTaskType t | .storeState t | .fillPrevActions t
  | .resetHiddenState t | .resetJointTargets t | .publishDefault t | .feedDog t => some t

namespace Threads

/-- An access of the RPC thread counts the task it processes or returns it. -/
private theorem RpcResult.returned {now : ℤ} {b b' : Brain n H} {pc pc' : RpcPc}
    {out : List (Output n)} (h : RpcResult cfg env now b pc b' pc' out) {past : List Task}
    (htasks : b.history.tasks = past ++ pc.counted.toList) :
    b'.history.tasks = past ++ returnedTasks out ++ pc'.counted.toList := by
  cases h
  case incrementGeneration t =>
    have hpast : b.history.tasks = past := htasks.trans (List.append_nil _)
    rw [← hpast]
    exact congrArg (· ++ [t]) (List.append_nil _).symm
  case feedDog t => exact htasks.trans (List.append_nil _).symm
  all_goals exact htasks.trans (congrArg (· ++ _) (List.append_nil _).symm)

private theorem ControlResult.returned {prop : Proprioception n} {b b' : Brain n H}
    {pc pc' : ControlPc n} {out : List (Output n)}
    (h : ControlResult cfg env prop b pc b' pc' out) : returnedTasks out = [] := by
  cases h <;> rfl

private theorem WorkerResult.returned {now : ℤ} {b b' : Brain n H} {pc pc' : WorkerPc n}
    {out : List (Output n)} (h : WorkerResult cfg env now b pc b' pc' out) :
    returnedTasks out = [] := by
  cases h <;> rfl

/-- Every task that has been counted is one whose call has returned or the one being processed. -/
theorem tasks_eq_returned {now : ℤ}
    {ok : Threads n H → List (Output n) → ThreadEvent n → Prop} {es : List (ThreadEvent n)}
    {s : Threads n H} {tr : List (Output n)} (h : (threads cfg env now).Reaches ok es s tr) :
    s.brain.history.tasks = returnedTasks tr ++ s.rpc.counted.toList := by
  refine h.invariant (fun s tr =>
    s.brain.history.tasks = returnedTasks tr ++ s.rpc.counted.toList) rfl ?_
  intro es s tr e s' out _ hI _ hs
  rw [returnedTasks_append]
  cases stepResult hs with
  | call hpc =>
    rw [hpc] at hI
    exact hI.trans (congrArg (· ++ _) (List.append_nil _).symm)
  | rpc hr => exact hr.returned hI
  | tick | dequeue => exact hI.trans (congrArg (· ++ _) (List.append_nil _).symm)
  | control hr =>
    rw [hr.returned, List.append_nil]
    exact hr.generation.1.trans hI
  | worker hr =>
    rw [hr.returned, List.append_nil]
    exact (congrArg History.tasks hr.generation.1).trans hI

/-- The metrics are those of the last of the tasks. -/
structure Current (b : Brain n H) : Prop where
  generation : b.metrics.currentGeneration = b.taskGeneration
  type : b.metrics.currentTaskType = lastType b.history.tasks
  calm : Calm b.history.tasks → b.metrics.currentState = .standing

/-- What the metrics say at each access of the RPC thread: those of the task that has been counted
are stored one after another. -/
def Storing (b : Brain n H) : RpcPc → Prop
  | .storeGeneration t gen => (∃ tasks, b.history.tasks = tasks ++ [t]) ∧ gen = b.taskGeneration
  | .storeTaskType t => (∃ tasks, b.history.tasks = tasks ++ [t]) ∧
    b.metrics.currentGeneration = b.taskGeneration
  | .storeState t => (∃ tasks, b.history.tasks = tasks ++ [t]) ∧
    b.metrics.currentGeneration = b.taskGeneration ∧ b.metrics.currentTaskType = t.type
  | _ => Current b

/-- The state is one of two, and the metrics are current unless the RPC thread stores a task. -/
structure MetricsInv (s : Threads n H) : Prop where
  active : s.brain.metrics.currentState = .executing ∨ s.brain.metrics.currentState = .standing
  storing : Storing s.brain s.rpc

/-- Accesses that store no metric of a task, and no state but `STANDING`, keep what the metrics
say. -/
private theorem Storing.congr {b b' : Brain n H} {pc : RpcPc} (h : Storing b pc)
    (htasks : b'.history.tasks = b.history.tasks) (hgen : b'.taskGeneration = b.taskGeneration)
    (hcurrent : b'.metrics.currentGeneration = b.metrics.currentGeneration)
    (htype : b'.metrics.currentTaskType = b.metrics.currentTaskType)
    (hstate : b'.metrics.currentState = b.metrics.currentState ∨
      b'.metrics.currentState = .standing) : Storing b' pc := by
  have hkeep (hb : Current b) : Current b' := by
    refine ⟨by rw [hcurrent, hgen, hb.generation], by rw [htype, htasks, hb.type], fun hcalm => ?_⟩
    rcases hstate with hstate | hstate
    · rw [hstate]
      exact hb.calm (htasks ▸ hcalm)
    · exact hstate
  cases pc
  case storeGeneration | storeTaskType | storeState =>
    simpa only [Storing, htasks, hgen, hcurrent, htype] using h
  all_goals exact hkeep h

/-- The control thread stores no metric of a task, and no state but `STANDING`. -/
private theorem ControlResult.metrics {prop : Proprioception n} {b b' : Brain n H}
    {pc pc' : ControlPc n} {out : List (Output n)}
    (h : ControlResult cfg env prop b pc b' pc' out) :
    b'.metrics.currentGeneration = b.metrics.currentGeneration ∧
      b'.metrics.currentTaskType = b.metrics.currentTaskType ∧
      (b'.metrics.currentState = b.metrics.currentState ∨
        b'.metrics.currentState = .standing) := by
  cases h
  case watchdogStoreState => exact ⟨rfl, rfl, Or.inr rfl⟩
  all_goals exact ⟨rfl, rfl, Or.inl rfl⟩

/-- The worker stores no metric of a task. -/
private theorem WorkerResult.metrics {now : ℤ} {b b' : Brain n H} {pc pc' : WorkerPc n}
    {out : List (Output n)} (h : WorkerResult cfg env now b pc b' pc' out) :
    b'.metrics.currentGeneration = b.metrics.currentGeneration ∧
      b'.metrics.currentTaskType = b.metrics.currentTaskType ∧
      b'.metrics.currentState = b.metrics.currentState := by
  cases h
  case forward | forwardThrew =>
    rw [Brain.acquireBuffer_brain]
    exact ⟨rfl, rfl, rfl⟩
  case releaseBuffer =>
    rw [Brain.releaseBuffer_eq]
    exact ⟨rfl, rfl, rfl⟩
  all_goals exact ⟨rfl, rfl, rfl⟩

private theorem MetricsInv.rpc {s : Threads n H} (h : s.MetricsInv) {now : ℤ} {b : Brain n H}
    {pc : RpcPc} {out : List (Output n)} (hr : RpcResult cfg env now s.brain s.rpc b pc out) :
    MetricsInv { s with brain := b, rpc := pc } := by
  obtain ⟨b₀, rpc, control, worker⟩ := s
  obtain ⟨hactive, hstoring⟩ := h
  cases hr
  case incrementGeneration t => exact ⟨hactive, ⟨_, rfl⟩, rfl⟩
  case storeGeneration t gen => exact ⟨hactive, hstoring.1, hstoring.2⟩
  case storeTaskType t => exact ⟨hactive, hstoring.1, hstoring.2, rfl⟩
  case storeStateStop t ht | storeStateMotion t ht =>
    -- the last store of the task
    obtain ⟨⟨tasks, htasks⟩, hgen, htype⟩ := hstoring
    refine ⟨t.state_active, hgen, ?_, fun hcalm => ?_⟩
    · show b₀.metrics.currentTaskType = lastType b₀.history.tasks
      rw [htasks, lastType_concat]
      exact htype
    · change Calm b₀.history.tasks at hcalm
      rw [htasks, calm_concat] at hcalm
      exact if_pos hcalm
  all_goals exact ⟨hactive, hstoring.generation, hstoring.type, hstoring.calm⟩

private theorem MetricsInv.step {s : Threads n H} {e : ThreadEvent n}
    {r : Threads n H × List (Output n)} (h : s.MetricsInv) (hr : StepResult cfg env s e r) :
    r.1.MetricsInv := by
  cases hr with
  | call hpc =>
    have hstoring := h.storing
    rw [hpc] at hstoring
    exact ⟨h.active, hstoring.generation, hstoring.type, hstoring.calm⟩
  | rpc hr => exact h.rpc hr
  | tick => exact ⟨h.active, h.storing⟩
  | control hr =>
    obtain ⟨hgen, htype, hstate⟩ := hr.metrics
    refine ⟨?_, h.storing.congr hr.generation.1 hr.generation.2.1 hgen htype hstate⟩
    rcases hstate with hstate | hstate
    · exact hstate ▸ h.active
    · exact Or.inr hstate
  | dequeue => exact ⟨h.active, h.storing.congr rfl rfl rfl rfl (Or.inl rfl)⟩
  | worker hr =>
    obtain ⟨hgen, htype, hstate⟩ := hr.metrics
    have htasks := congrArg History.tasks hr.generation.1
    exact ⟨hstate ▸ h.active,
      h.storing.congr htasks hr.generation.2.1 hgen htype (Or.inl hstate)⟩

theorem metricsInv_of_reaches {now : ℤ}
    {ok : Threads n H → List (Output n) → ThreadEvent n → Prop} {es : List (ThreadEvent n)}
    {s : Threads n H} {tr : List (Output n)} (h : (threads cfg env now).Reaches ok es s tr) :
    s.MetricsInv := by
  refine h.invariant (fun s _ => s.MetricsInv) ?_ ?_
  · exact ⟨Or.inr rfl, rfl, rfl, fun _ => rfl⟩
  · intro es s tr e s' out _ hI _ hs
    exact hI.step (stepResult hs)

/-- The control thread and the worker return no task and leave the RPC thread alone. -/
theorem StepResult.of_not_rpc {s : Threads n H} {e : ThreadEvent n}
    {r : Threads n H × List (Output n)} (h : StepResult cfg env s e r) (he : e.isRpc = false) :
    r.1.rpc = s.rpc ∧ returnedTasks r.2 = [] := by
  cases h with
  | call | rpc => cases he
  | tick | dequeue => exact ⟨rfl, rfl⟩
  | control hr => exact ⟨rfl, hr.returned⟩
  | worker hr => exact ⟨rfl, hr.returned⟩

end Threads

end RobotBrain
