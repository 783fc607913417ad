import RobotBrain.Brain.Threads
import RobotBrain.Rpc.Session

/-!
# Status messages

`HandleRpcs` handles the events of the completion queue one after another on its own thread. A
handler runs to its end before the next event is taken: `ProcessRobotTask`, which is a sequence of
accesses, and `BuildStatusMessage`, which loads one metric after another. Both are interleaved with
the accesses of the control thread and of the worker.

The machine below joins the sessions of the server and the threads of the brain. The queue thread
takes the outputs of a handler as its work, in order.

## Main definitions

* `RobotStatus`, `StatusField.load` — the message and the loads of `BuildStatusMessage`.
* `QueuePc` — what the queue thread is doing.
* `statusServer` — the machine.

## Main results

* `StatusServer.stepResult` — what a step can do.
* `StatusServer.exists_run` — the threads in the machine are in a state of the threads alone.
-/

namespace RobotBrain

open ExtNum

variable {n : ℕ} {H : Type*}

/-- `Robot::RobotStatus`, without the two strings, which are never set. -/
structure RobotStatus where
  state : RobotState := .idle
  taskType : TaskType := .taskUnknown
  taskGeneration : UInt64 := 0
  totalFrames : UInt64 := 0
  droppedFrames : UInt64 := 0
  staleFrames : UInt64 := 0
  lastInferenceMs : Scalar := fin 0
  avgInferenceMs : Scalar := fin 0
  jointTargets : List Scalar := []
  jointPositions : List Scalar := []
  velocityCmd : Velocity := fun _ => fin 0
  timestampMs : ℤ := 0
  jitterMs : Fin 4 → Scalar := fun _ => fin 0

/-- What `BuildStatusMessage` reads besides the metrics and the velocity: the two durations, the
values of the ROS node, unless it is null, and the clock. -/
structure StatusReadings where
  lastInferenceMs : Scalar
  avgInferenceMs : Scalar
  ros : Option (List Scalar × List Scalar × (Fin 4 → Scalar))
  timestampMs : ℤ

/-- The loads of `BuildStatusMessage`. -/
inductive StatusField
  | state
  | taskType
  | taskGeneration
  | totalFrames
  | droppedFrames
  | staleFrames
  | lastInferenceMs
  | avgInferenceMs
  | ros
  | velocityCmd
  | timestampMs
  deriving DecidableEq

namespace StatusField

/-- The loads in the order of the source. -/
def order : List StatusField :=
  [state, taskType, taskGeneration, totalFrames, droppedFrames, staleFrames, lastInferenceMs,
    avgInferenceMs, ros, velocityCmd, timestampMs]

theorem mem_order (f : StatusField) : f ∈ order := by
  cases f <;> decide

/-- One load, and the setter that it feeds. -/
def load (b : Brain n H) (readings : StatusReadings) (msg : RobotStatus) :
    StatusField → RobotStatus
  | state => { msg with state := b.metrics.currentState }
  | taskType => { msg with taskType := b.metrics.currentTaskType }
  | taskGeneration => { msg with taskGeneration := b.metrics.currentGeneration }
  | totalFrames => { msg with totalFrames := UInt64.ofNat b.metrics.totalFrames }
  | droppedFrames => { msg with droppedFrames := UInt64.ofNat b.metrics.droppedFrames }
  | staleFrames => { msg with staleFrames := UInt64.ofNat b.metrics.staleFrames }
  | lastInferenceMs => { msg with lastInferenceMs := readings.lastInferenceMs }
  | avgInferenceMs => { msg with avgInferenceMs := readings.avgInferenceMs }
  | ros =>
    match readings.ros with
    | some (targets, positions, jitter) =>
      { msg with jointTargets := targets, jointPositions := positions, jitterMs := jitter }
    | none => msg
  | velocityCmd => { msg with velocityCmd := b.currentVelCmd }
  | timestampMs => { msg with timestampMs := readings.timestampMs }

end StatusField

/-- The next thing that the queue thread does, with the outputs of the handler that are left. -/
inductive QueuePc
  /-- The next output of the handler; `Next` when there is none. -/
  | handling (todo : List ServerOutput)
  /-- An access of `ProcessRobotTask`. -/
  | processing (todo : List ServerOutput)
  /-- A load of `BuildStatusMessage`, and `writer_.Write` after the last one. -/
  | building (session : ℕ) (fields : List StatusField) (msg : RobotStatus)
      (todo : List ServerOutput)

/-- The sessions, the shared state with the program counters, and the queue thread. The program
counter of `ProcessRobotTask` is the one in `threads`. -/
structure StatusServer (n : ℕ) (H : Type*) where
  server : Server
  threads : Threads n H
  queue : QueuePc

/-- The inputs of the machine. -/
inductive StatusEvent (n : ℕ)
  /-- `Next` delivers a tag. -/
  | next (tag : Tag) (ok : Bool) (request : Task)
  /-- The server is shut down. -/
  | shutdown
  /-- The queue thread moves, with the clock and what a load reads. -/
  | queue (now : ℤ) (readings : StatusReadings)
  /-- The control thread or the worker moves. -/
  | thread (e : ThreadEvent n)

/-- The observable actions of the machine. -/
inductive StatusOutput
  /-- `ProcessRobotTask` has returned. -/
  | processed (t : Task)
  /-- A status message is written to the stream of a session. -/
  | status (session : ℕ) (msg : RobotStatus)

/-- The tasks whose calls have returned. -/
def returnedTasks (out : List (Output n)) : List Task :=
  out.filterMap fun
    | .taskReturned t => some t
    | _ => none

/-- The queue thread makes the accesses of the RPC thread and no others. -/
def ThreadEvent.isRpc : ThreadEvent n → Bool
  | .call _ | .rpc _ => true
  | _ => false

namespace StatusServer

/-- The state and the outputs after a step. -/
abbrev Next (n : ℕ) (H : Type*) := Option (StatusServer n H × List StatusOutput)

variable (cfg : BrainConfig n) (env : Environment n H)

/-- An access of the threads, with what the queue thread does after it. -/
def threadStep (e : ThreadEvent n) (queue : RpcPc → QueuePc) (s : StatusServer n H) : Next n H :=
  (s.threads.step cfg env e).map fun r =>
    ({ s with threads := r.1, queue := queue r.1.rpc }, (returnedTasks r.2).map .processed)

/-- The queue thread during and after the accesses of `ProcessRobotTask`. -/
def afterAccess (todo : List ServerOutput) : RpcPc → QueuePc
  | .idle => .handling todo
  | _ => .processing todo

/-- The next step of the queue thread. -/
def queueStep (now : ℤ) (readings : StatusReadings) (s : StatusServer n H) : Next n H :=
  match s.queue with
  | .handling [] => none
  | .handling (.processed _ t :: todo) =>
    s.threadStep cfg env (.call t) fun _ => .processing todo
  | .handling (.written id :: todo) =>
    some ({ s with queue := .building id StatusField.order {} todo }, [])
  | .handling (_ :: todo) => some ({ s with queue := .handling todo }, [])
  | .processing todo => s.threadStep cfg env (.rpc now) (afterAccess todo)
  | .building id (f :: fields) msg todo =>
    some ({ s with queue := .building id fields (f.load s.threads.brain readings msg) todo }, [])
  | .building id [] msg todo => some ({ s with queue := .handling todo }, [.status id msg])

/-- One step. -/
def step (s : StatusServer n H) : StatusEvent n → Next n H
  | .next tag ok request =>
    match s.queue with
    | .handling [] => (s.server.step (.next tag ok request)).map fun r =>
      ({ s with server := r.1, queue := .handling r.2 }, [])
    | _ => none
  | .shutdown => (s.server.step .shutdown).map fun r => ({ s with server := r.1 }, [])
  | .queue now readings => s.queueStep cfg env now readings
  | .thread e => if e.isRpc then none else s.threadStep cfg env e fun _ => s.queue

/-! ### What one step can do -/

/-- The results of a step. -/
inductive StepResult (s : StatusServer n H) :
    StatusEvent n → StatusServer n H × List StatusOutput → Prop
  | delivered {tag : Tag} {ok : Bool} {request : Task} {r : Server × List ServerOutput}
      (hqueue : s.queue = .handling []) (hs : s.server.step (.next tag ok request) = some r) :
      StepResult s (.next tag ok request) ({ s with server := r.1, queue := .handling r.2 }, [])
  | shutdown {r : Server × List ServerOutput} (hs : s.server.step .shutdown = some r) :
      StepResult s .shutdown ({ s with server := r.1 }, [])
  | called {now : ℤ} {readings : StatusReadings} {id : ℕ} {t : Task} {todo : List ServerOutput}
      {r : Threads n H × List (Output n)} (hqueue : s.queue = .handling (.processed id t :: todo))
      (hs : s.threads.step cfg env (.call t) = some r) :
      StepResult s (.queue now readings)
        ({ s with threads := r.1, queue := .processing todo }, (returnedTasks r.2).map .processed)
  | accessed {now : ℤ} {readings : StatusReadings} {todo : List ServerOutput}
      {r : Threads n H × List (Output n)} (hqueue : s.queue = .processing todo)
      (hs : s.threads.step cfg env (.rpc now) = some r) :
      StepResult s (.queue now readings)
        ({ s with threads := r.1, queue := afterAccess todo r.1.rpc },
          (returnedTasks r.2).map .processed)
  | began {now : ℤ} {readings : StatusReadings} {id : ℕ} {todo : List ServerOutput}
      (hqueue : s.queue = .handling (.written id :: todo)) : StepResult s (.queue now readings)
        ({ s with queue := .building id StatusField.order {} todo }, [])
  | skipped {now : ℤ} {readings : StatusReadings} {o : ServerOutput} {todo : List ServerOutput}
      (hqueue : s.queue = .handling (o :: todo)) :
      StepResult s (.queue now readings) ({ s with queue := .handling todo }, [])
  | loaded {now : ℤ} {readings : StatusReadings} {id : ℕ} {f : StatusField}
      {fields : List StatusField} {msg : RobotStatus} {todo : List ServerOutput}
      (hqueue : s.queue = .building id (f :: fields) msg todo) : StepResult s (.queue now readings)
        ({ s with queue := .building id fields (f.load s.threads.brain readings msg) todo }, [])
  | wrote {now : ℤ} {readings : StatusReadings} {id : ℕ} {msg : RobotStatus}
      {todo : List ServerOutput} (hqueue : s.queue = .building id [] msg todo) :
      StepResult s (.queue now readings) ({ s with queue := .handling todo }, [.status id msg])
  | moved {e : ThreadEvent n} {r : Threads n H × List (Output n)} (he : e.isRpc = false)
      (hs : s.threads.step cfg env e = some r) : StepResult s (.thread e)
        ({ s with threads := r.1 }, (returnedTasks r.2).map .processed)

variable {cfg env}

theorem threadStep_eq_some {e : ThreadEvent n} {queue : RpcPc → QueuePc} {s : StatusServer n H}
    {r : StatusServer n H × List StatusOutput} : s.threadStep cfg env e queue = some r ↔
      ∃ r', s.threads.step cfg env e = some r' ∧
        r = ({ s with threads := r'.1, queue := queue r'.1.rpc },
          (returnedTasks r'.2).map .processed) := by
  rw [threadStep, Option.map_eq_some_iff]
  simp only [eq_comm]

private theorem queueResult {now : ℤ} {readings : StatusReadings} {s : StatusServer n H}
    {r : StatusServer n H × List StatusOutput} (h : s.queueStep cfg env now readings = some r) :
    StepResult cfg env s (.queue now readings) r := by
  unfold queueStep at h
  split at h
  case h_1 => cases h
  case h_2 id t todo hqueue =>
    obtain ⟨r', hs, rfl⟩ := threadStep_eq_some.mp h
    exact .called hqueue hs
  case h_3 id todo hqueue =>
    cases h
    exact .began hqueue
  case h_4 o todo _ _ hqueue =>
    cases h
    exact .skipped hqueue
  case h_5 todo hqueue =>
    obtain ⟨r', hs, rfl⟩ := threadStep_eq_some.mp h
    exact .accessed hqueue hs
  case h_6 id f fields msg todo hqueue =>
    cases h
    exact .loaded hqueue
  case h_7 id msg todo hqueue =>
    cases h
    exact .wrote hqueue

theorem stepResult {s : StatusServer n H} {e : StatusEvent n}
    {r : StatusServer n H × List StatusOutput} (h : s.step cfg env e = some r) :
    StepResult cfg env s e r := by
  cases e with
  | next tag ok request =>
    simp only [step] at h
    split at h
    case h_1 hqueue =>
      obtain ⟨r', hs, rfl⟩ := Option.map_eq_some_iff.mp h
      exact .delivered hqueue hs
    case h_2 => cases h
  | shutdown =>
    simp only [step] at h
    obtain ⟨r', hs, rfl⟩ := Option.map_eq_some_iff.mp h
    exact .shutdown hs
  | queue now readings => exact queueResult h
  | thread e =>
    simp only [step] at h
    split_ifs at h with he
    obtain ⟨r', hs, rfl⟩ := threadStep_eq_some.mp h
    exact .moved (Bool.eq_false_iff.mpr he) hs

end StatusServer

/-- The server with the threads of the brain as a machine, started at the time `now`. -/
def statusServer (cfg : BrainConfig n) (env : Environment n H) (now : ℤ) :
    Machine (StatusServer n H) (StatusEvent n) StatusOutput where
  init := ⟨Server.initial, Threads.rest (Brain.initial cfg env now), .handling []⟩
  step s e := s.step cfg env e

/-- The requests that have been processed. -/
def requests (tr : List StatusOutput) : List Task :=
  tr.filterMap fun
    | .processed t => some t
    | .status _ _ => none

/-- The status messages of a stream. -/
def messages (session : ℕ) (tr : List StatusOutput) : List RobotStatus :=
  tr.filterMap fun
    | .processed _ => none
    | .status id msg => if id = session then some msg else none

theorem returnedTasks_append (tr out : List (Output n)) :
    returnedTasks (tr ++ out) = returnedTasks tr ++ returnedTasks out :=
  List.filterMap_append

theorem requests_append (tr out : List StatusOutput) :
    requests (tr ++ out) = requests tr ++ requests out :=
  List.filterMap_append

@[simp] theorem requests_map_processed (tasks : List Task) :
    requests (tasks.map .processed) = tasks := by
  induction tasks with
  | nil => rfl
  | cons t tasks ih => exact congrArg (t :: ·) ih

namespace StatusServer

variable {cfg : BrainConfig n} {env : Environment n H}

/-- The steps of the threads in a run form a run of the threads alone, in which the calls of the
requests return. -/
theorem exists_run {now : ℤ} {ok : StatusServer n H → List StatusOutput → StatusEvent n → Prop}
    {es : List (StatusEvent n)} {s : StatusServer n H} {tr : List StatusOutput}
    (h : (statusServer cfg env now).Reaches ok es s tr) :
    ∃ moves out, (RobotBrain.threads cfg env now).Run moves s.threads out ∧
      requests tr = returnedTasks out := by
  refine h.invariant (fun s tr => ∃ moves out,
    (RobotBrain.threads cfg env now).Run moves s.threads out ∧ requests tr = returnedTasks out)
    ⟨[], [], .init, rfl⟩ ?_
  rintro es s tr e s' out _ ⟨moves, past, hrun, hrequests⟩ _ hs
  have hmoved {e : ThreadEvent n} {r : Threads n H × List (Output n)}
      (hs : s.threads.step cfg env e = some r) : ∃ moves out,
      (RobotBrain.threads cfg env now).Run moves r.1 out ∧
        requests (tr ++ (returnedTasks r.2).map .processed) = returnedTasks out := by
    refine ⟨moves ++ [e], past ++ r.2, hrun.step trivial hs, ?_⟩
    rw [requests_append, requests_map_processed, hrequests, returnedTasks_append]
  cases stepResult hs with
  | called _ hstep => exact hmoved hstep
  | accessed _ hstep => exact hmoved hstep
  | moved _ hstep => exact hmoved hstep
  | wrote hqueue =>
    refine ⟨moves, past, hrun, ?_⟩
    rw [requests_append, hrequests]
    exact List.append_nil _
  | _ =>
    rw [List.append_nil]
    exact ⟨moves, past, hrun, hrequests⟩

end StatusServer

end RobotBrain
