import RobotBrain.Brain.Threads

/-!
# Leaving the program

`main` keeps the `RosNode` and runs a `GrpcServer`, which owns the `AIBrain`. When `Run` is left,
the server is destroyed, and with it the brain: first the body of each destructor, then the data
members in reverse order of declaration. A `ThreadPool` joins its workers when it is destroyed. The
node is destroyed at the end of `main`, and only its destructor stops the realtime thread, which
calls `ControlLoopStep` through the function that the constructor of the brain has registered.

The machine adds the main thread and the loop of the realtime thread to the threads of
`RobotBrain.Brain.Threads`, and splits the first access of a closure, which borrows a buffer, writes
the observation and calls the policy. The storage of a member that has been destroyed keeps its last
value here: the outputs say when a thread reaches for it.

## Main definitions

* `BrainMember`, `ServerMember`, `teardownActions` — what the main thread does after `Run`.
* `Teardown`, `TeardownEvent`, `TeardownOutput`, `teardown` — the machine.

## Main results

* `Teardown.stepResult` — what a step can do.
* `Teardown.exists_run_threads` — until `Run` is left the machine is that of the threads.
* `Teardown.ended_of_run` — when `main` returns the other threads have ended.
-/

namespace RobotBrain

variable {n : ℕ} {H : Type*}

/-- The data members of `AIBrain`. -/
inductive BrainMember
  | inferencePool | rosBody | policyModel
  | numJoints | obsDim | actionScale | defaultJointPositions | maxJointVelocity
  | jointPositionLimit | angVelScale | dofPosScale | dofVelScale | cmdScale | gaitPhasePeriod
  | controlDt | maxVelRamp | fallGravityThreshold | fallDebounceFrames | fallDebounceCount
  | currentVelCmd
  | tensorPool
  | lastHeartbeatMs | watchdogTimeoutMs
  | isInferring | taskGeneration
  | cmdMtx | currentTaskId | currentCommand | currentTaskType | velocityCmd
  | prevActions | lastJointTargets | lastControlMs
  | metrics
  deriving DecidableEq

/-- The data members of `AIBrain` in order of declaration. -/
def BrainMember.declared : List BrainMember :=
  [.inferencePool, .rosBody, .policyModel,
    .numJoints, .obsDim, .actionScale, .defaultJointPositions, .maxJointVelocity,
    .jointPositionLimit, .angVelScale, .dofPosScale, .dofVelScale, .cmdScale, .gaitPhasePeriod,
    .controlDt, .maxVelRamp, .fallGravityThreshold, .fallDebounceFrames, .fallDebounceCount,
    .currentVelCmd,
    .tensorPool,
    .lastHeartbeatMs, .watchdogTimeoutMs,
    .isInferring, .taskGeneration,
    .cmdMtx, .currentTaskId, .currentCommand, .currentTaskType, .velocityCmd,
    .prevActions, .lastJointTargets, .lastControlMs,
    .metrics]

/-- The data members of `GrpcServer`. -/
inductive ServerMember
  | cq | pimpl | server | pool | brain | rosNode
  deriving DecidableEq

/-- The data members of `GrpcServer` in order of declaration. -/
def ServerMember.declared : List ServerMember :=
  [.cq, .pimpl, .server, .pool, .brain, .rosNode]

/-- The steps of the main thread after `GrpcServer::Run`. -/
inductive TeardownAction
  /-- The body of `GrpcServer::~GrpcServer`: the server and the completion queue are shut down. -/
  | serverBody
  | destroyServerMember (m : ServerMember)
  /-- The body of `AIBrain::~AIBrain`. -/
  | brainBody
  | destroyBrainMember (m : BrainMember)
  /-- `ThreadPool::shutdown` of the inference pool sets `stop_` and notifies the worker. -/
  | stopPool
  /-- `ThreadPool::shutdown` joins the worker. -/
  | joinPool
  /-- `rclcpp::shutdown()`, and the thread of the executor is joined. -/
  | shutdownRos
  /-- `RosNode::~RosNode` clears `rt_running_`. -/
  | stopRealtime
  /-- `RosNode::~RosNode` joins the realtime thread. -/
  | joinRealtime
  deriving DecidableEq

/-- The destruction of a data member of `AIBrain`. -/
def BrainMember.teardown : BrainMember → List TeardownAction
  | .inferencePool => [.stopPool, .joinPool, .destroyBrainMember .inferencePool]
  | m => [.destroyBrainMember m]

/-- The destruction of a data member of `GrpcServer`. -/
def ServerMember.teardown : ServerMember → List TeardownAction
  | .brain => .brainBody :: BrainMember.declared.reverse.flatMap BrainMember.teardown ++
      [.destroyServerMember .brain]
  | m => [.destroyServerMember m]

/-- What the main thread does after `GrpcServer::Run`, to the end of `main`. -/
def teardownActions : List TeardownAction :=
  .serverBody :: ServerMember.declared.reverse.flatMap ServerMember.teardown ++
    [.shutdownRos, .stopRealtime, .joinRealtime]

/-- Where the realtime thread is in its loop. -/
inductive RealtimePc
  /-- It loads `rt_running_`. -/
  | check
  /-- It is in `clock_nanosleep`. -/
  | sleep
  /-- It has woken up and will call `brain_tick_cb_`. -/
  | woken
  /-- It is in `ControlLoopStep`. -/
  | tick
  | stopped
  deriving DecidableEq

/-- How far a closure has come in its first access. -/
inductive ForwardStage
  | entered
  /-- `tensor_pool_->Acquire()` has returned. -/
  | acquired
  /-- `BuildObservation` has returned. -/
  | observed
  deriving DecidableEq

/-- The threads, with the main thread and the loop of the realtime thread. -/
structure Teardown (n : ℕ) (H : Type*) where
  threads : Threads n H
  stage : ForwardStage
  realtime : RealtimePc
  /-- `rt_running_`. -/
  rtRunning : Bool
  /-- `stop_` of the inference pool. -/
  stop : Bool
  /-- The worker has left its loop. -/
  exited : Bool
  /-- What the main thread has left to do, `none` while it is in `GrpcServer::Run`. -/
  main : Option (List TeardownAction)

/-- The inputs: which thread moves. -/
inductive TeardownEvent (n : ℕ)
  /-- `Run` enters `ProcessRobotTask`. -/
  | call (t : Task)
  /-- The next access of `ProcessRobotTask`. -/
  | rpc (now : ℤ)
  /-- `Run` is left, between two calls or by an exception. -/
  | leave
  /-- The next step of the main thread after `Run`. -/
  | main
  /-- The next step of the loop of the realtime thread. -/
  | realtime (now : ℤ)
  /-- The next access of the realtime thread in `ControlLoopStep`. -/
  | control (prop : Proprioception n)
  | dequeue
  | worker (throws : Bool) (now : ℤ)
  /-- The worker leaves its loop. -/
  | exit

/-- What is recorded of a run. -/
inductive TeardownOutput
  /-- `AIBrain::~AIBrain` begins. -/
  | destructorBegun
  | destroyed (m : BrainMember)
  /-- `ControlLoopStep` begins. -/
  | tickBegun
  /-- A closure uses a member. -/
  | used (m : BrainMember)
  deriving DecidableEq

/-- The members with a destructor of their own that the next access of a closure uses. -/
def WorkerPc.members : WorkerPc n → ForwardStage → List BrainMember
  | .forward _, .entered => [.tensorPool]
  | .forward _, .acquired => [.defaultJointPositions, .prevActions]
  | .forward _, .observed => [.policyModel]
  | .computeTargets .., _ => [.defaultJointPositions]
  | .applyRateLimit .., _ => [.lastJointTargets]
  | .writeBackActions .., _ => [.prevActions]
  | .writeBackTargets .., _ => [.lastJointTargets]
  | .releaseBuffer r, _ => if r.pooled then [.tensorPool] else []
  | _, _ => []

/-- `AIBrain::~AIBrain` stores the state. -/
def Brain.storeIdle (b : Brain n H) : Brain n H :=
  { b with metrics := { b.metrics with currentState := .idle } }

namespace Teardown

/-- The state and the outputs after a step. -/
abbrev Next (n : ℕ) (H : Type*) := Option (Teardown n H × List TeardownOutput)

variable (cfg : BrainConfig n) (env : Environment n H)

/-- An access of one of the threads, with what it records. -/
def access (s : Teardown n H) (e : ThreadEvent n) (out : List TeardownOutput) : Next n H :=
  (s.threads.step cfg env e).map fun r => ({ s with threads := r.1 }, out)

/-- A step of the main thread: the head of what it has left to do. -/
def mainStep (s : Teardown n H) (rest : List TeardownAction) : TeardownAction → Next n H
  | .serverBody | .destroyServerMember _ | .shutdownRos => some ({ s with main := some rest }, [])
  | .brainBody =>
    some ({ s with
      threads := { s.threads with brain := s.threads.brain.storeIdle }
      main := some rest }, [.destructorBegun])
  | .destroyBrainMember m => some ({ s with main := some rest }, [.destroyed m])
  | .stopPool => some ({ s with stop := true, main := some rest }, [])
  | .joinPool => if s.exited then some ({ s with main := some rest }, []) else none
  | .stopRealtime => some ({ s with rtRunning := false, main := some rest }, [])
  | .joinRealtime =>
    if s.realtime = .stopped then some ({ s with main := some rest }, []) else none

/-- A step of the loop of the realtime thread. -/
def realtimeStep (now : ℤ) (s : Teardown n H) : Next n H :=
  match s.realtime with
  | .check => some ({ s with realtime := if s.rtRunning then .sleep else .stopped }, [])
  | .sleep => some ({ s with realtime := .woken }, [])
  | .woken => { s with realtime := .tick }.access cfg env (.tick now) [.tickBegun]
  | .tick =>
    match s.threads.control with
    | .idle => some ({ s with realtime := .check }, [])
    | _ => none
  | .stopped => none

/-- The next access of the worker in a closure. -/
def workerStep (throws : Bool) (now : ℤ) (s : Teardown n H) : Next n H :=
  let out := (s.threads.worker.members s.stage).map TeardownOutput.used
  match s.threads.worker, s.stage with
  | .forward _, .entered => some ({ s with stage := .acquired }, out)
  | .forward _, .acquired => some ({ s with stage := .observed }, out)
  | _, _ => s.access cfg env (.worker throws now) out

/-- One step of one thread. -/
def step (s : Teardown n H) : TeardownEvent n → Next n H
  | .call t => if s.main.isNone then s.access cfg env (.call t) [] else none
  | .rpc now => if s.main.isNone then s.access cfg env (.rpc now) [] else none
  | .leave =>
    if s.main.isNone then
      some ({ s with
        threads := { s.threads with rpc := .idle }
        main := some teardownActions }, [])
    else none
  | .main =>
    match s.main with
    | some (a :: rest) => s.mainStep rest a
    | _ => none
  | .realtime now => s.realtimeStep cfg env now
  | .control prop => s.access cfg env (.control prop) []
  | .dequeue =>
    if s.exited then none else { s with stage := .entered }.access cfg env .dequeue []
  | .worker throws now => s.workerStep cfg env throws now
  | .exit =>
    match s.threads.worker, s.threads.brain.inferenceQueue with
    | .idle, [] => if s.stop then some ({ s with exited := true }, []) else none
    | _, _ => none

/-! ### What one step can do -/

section Results

/-- The results of a step of the main thread. -/
inductive MainResult (s : Teardown n H) (rest : List TeardownAction) :
    TeardownAction → Teardown n H × List TeardownOutput → Prop
  | serverBody : MainResult s rest .serverBody ({ s with main := some rest }, [])
  | destroyServerMember (m : ServerMember) :
      MainResult s rest (.destroyServerMember m) ({ s with main := some rest }, [])
  | brainBody : MainResult s rest .brainBody
      ({ s with
        threads := { s.threads with brain := s.threads.brain.storeIdle }
        main := some rest }, [.destructorBegun])
  | destroyBrainMember (m : BrainMember) :
      MainResult s rest (.destroyBrainMember m) ({ s with main := some rest }, [.destroyed m])
  | stopPool : MainResult s rest .stopPool ({ s with stop := true, main := some rest }, [])
  | joinPool (hexited : s.exited = true) :
      MainResult s rest .joinPool ({ s with main := some rest }, [])
  | shutdownRos : MainResult s rest .shutdownRos ({ s with main := some rest }, [])
  | stopRealtime :
      MainResult s rest .stopRealtime ({ s with rtRunning := false, main := some rest }, [])
  | joinRealtime (hstopped : s.realtime = .stopped) :
      MainResult s rest .joinRealtime ({ s with main := some rest }, [])

/-- The results of a step, by the thread that moves. -/
inductive StepResult (s : Teardown n H) :
    TeardownEvent n → Teardown n H × List TeardownOutput → Prop
  | call {t : Task} {r : Threads n H × List (Output n)} (hmain : s.main = none)
      (h : s.threads.step cfg env (.call t) = some r) :
      StepResult s (.call t) ({ s with threads := r.1 }, [])
  | rpc {now : ℤ} {r : Threads n H × List (Output n)} (hmain : s.main = none)
      (h : s.threads.step cfg env (.rpc now) = some r) :
      StepResult s (.rpc now) ({ s with threads := r.1 }, [])
  | leave (hmain : s.main = none) : StepResult s .leave
      ({ s with threads := { s.threads with rpc := .idle }, main := some teardownActions }, [])
  | main {a : TeardownAction} {rest : List TeardownAction}
      {r : Teardown n H × List TeardownOutput} (hmain : s.main = some (a :: rest))
      (h : MainResult s rest a r) : StepResult s .main r
  | check {now : ℤ} (hpc : s.realtime = .check) : StepResult s (.realtime now)
      ({ s with realtime := if s.rtRunning then .sleep else .stopped }, [])
  | wake {now : ℤ} (hpc : s.realtime = .sleep) :
      StepResult s (.realtime now) ({ s with realtime := .woken }, [])
  | beginTick {now : ℤ} {r : Threads n H × List (Output n)} (hpc : s.realtime = .woken)
      (h : s.threads.step cfg env (.tick now) = some r) :
      StepResult s (.realtime now) ({ s with realtime := .tick, threads := r.1 }, [.tickBegun])
  | endTick {now : ℤ} (hpc : s.realtime = .tick) :
      StepResult s (.realtime now) ({ s with realtime := .check }, [])
  | control {prop : Proprioception n} {r : Threads n H × List (Output n)}
      (h : s.threads.step cfg env (.control prop) = some r) :
      StepResult s (.control prop) ({ s with threads := r.1 }, [])
  | dequeue {r : Threads n H × List (Output n)} (hexited : s.exited = false)
      (h : s.threads.step cfg env .dequeue = some r) :
      StepResult s .dequeue ({ s with stage := .entered, threads := r.1 }, [])
  | acquire {throws : Bool} {now : ℤ} {f : Frame n} (hpc : s.threads.worker = .forward f)
      (hstage : s.stage = .entered) : StepResult s (.worker throws now)
      ({ s with stage := .acquired }, [.used .tensorPool])
  | observe {throws : Bool} {now : ℤ} {f : Frame n} (hpc : s.threads.worker = .forward f)
      (hstage : s.stage = .acquired) : StepResult s (.worker throws now)
      ({ s with stage := .observed }, [.used .defaultJointPositions, .used .prevActions])
  | worker {throws : Bool} {now : ℤ} {r : Threads n H × List (Output n)}
      (hstage : ∀ f, s.threads.worker = .forward f → s.stage = .observed)
      (h : s.threads.step cfg env (.worker throws now) = some r) :
      StepResult s (.worker throws now)
        ({ s with threads := r.1 }, (s.threads.worker.members s.stage).map .used)
  | exit (hpc : s.threads.worker = .idle) (hqueue : s.threads.brain.inferenceQueue = [])
      (hstop : s.stop = true) : StepResult s .exit ({ s with exited := true }, [])

variable {cfg env} {s : Teardown n H}

theorem access_eq_some {e : ThreadEvent n} {out : List TeardownOutput}
    {r : Teardown n H × List TeardownOutput} : s.access cfg env e out = some r ↔
      ∃ r', s.threads.step cfg env e = some r' ∧ ({ s with threads := r'.1 }, out) = r := by
  rw [access, Option.map_eq_some_iff]

private theorem mainResult {rest : List TeardownAction} {a : TeardownAction}
    {r : Teardown n H × List TeardownOutput} (h : s.mainStep rest a = some r) :
    MainResult s rest a r := by
  cases a with
  | joinPool =>
    simp only [mainStep] at h
    split_ifs at h with hexited
    obtain rfl := Option.some.inj h
    exact .joinPool hexited
  | joinRealtime =>
    simp only [mainStep] at h
    split_ifs at h with hstopped
    obtain rfl := Option.some.inj h
    exact .joinRealtime hstopped
  | serverBody => cases h; exact .serverBody
  | destroyServerMember m => cases h; exact .destroyServerMember m
  | brainBody => cases h; exact .brainBody
  | destroyBrainMember m => cases h; exact .destroyBrainMember m
  | stopPool => cases h; exact .stopPool
  | shutdownRos => cases h; exact .shutdownRos
  | stopRealtime => cases h; exact .stopRealtime

private theorem realtimeResult {now : ℤ} {r : Teardown n H × List TeardownOutput}
    (h : s.realtimeStep cfg env now = some r) : StepResult cfg env s (.realtime now) r := by
  unfold realtimeStep at h
  split at h
  case h_1 hpc =>
    obtain rfl := Option.some.inj h
    exact .check hpc
  case h_2 hpc =>
    obtain rfl := Option.some.inj h
    exact .wake hpc
  case h_3 hpc =>
    obtain ⟨r', hstep, rfl⟩ := access_eq_some.mp h
    exact .beginTick hpc hstep
  case h_4 hpc =>
    split at h <;> cases h
    exact .endTick hpc
  case h_5 => cases h

private theorem closureResult {throws : Bool} {now : ℤ} {r : Teardown n H × List TeardownOutput}
    (h : s.workerStep cfg env throws now = some r) :
    StepResult cfg env s (.worker throws now) r := by
  unfold workerStep at h
  split at h
  case h_1 f hpc hstage =>
    obtain rfl := Option.some.inj h
    rw [hpc, hstage]
    exact .acquire hpc hstage
  case h_2 f hpc hstage =>
    obtain rfl := Option.some.inj h
    rw [hpc, hstage]
    exact .observe hpc hstage
  case h_3 hentered hacquired =>
    obtain ⟨r', hstep, rfl⟩ := access_eq_some.mp h
    refine .worker (fun f hpc => ?_) hstep
    cases hstage : s.stage with
    | entered => exact absurd hstage (hentered f hpc)
    | acquired => exact absurd hstage (hacquired f hpc)
    | observed => rfl

theorem stepResult {e : TeardownEvent n} {r : Teardown n H × List TeardownOutput}
    (h : s.step cfg env e = some r) : StepResult cfg env s e r := by
  cases e with
  | call t =>
    simp only [step] at h
    split_ifs at h with hmain
    obtain ⟨r', hstep, rfl⟩ := access_eq_some.mp h
    exact .call (Option.isNone_iff_eq_none.mp hmain) hstep
  | rpc now =>
    simp only [step] at h
    split_ifs at h with hmain
    obtain ⟨r', hstep, rfl⟩ := access_eq_some.mp h
    exact .rpc (Option.isNone_iff_eq_none.mp hmain) hstep
  | leave =>
    simp only [step] at h
    split_ifs at h with hmain
    obtain rfl := Option.some.inj h
    exact .leave (Option.isNone_iff_eq_none.mp hmain)
  | main =>
    simp only [step] at h
    split at h
    · exact .main ‹_› (mainResult h)
    · cases h
  | realtime now => exact realtimeResult h
  | control prop =>
    obtain ⟨r', hstep, rfl⟩ := access_eq_some.mp h
    exact .control hstep
  | dequeue =>
    simp only [step] at h
    split_ifs at h with hexited
    obtain ⟨r', hstep, rfl⟩ := access_eq_some.mp h
    exact .dequeue (Bool.eq_false_iff.mpr hexited) hstep
  | worker throws now => exact closureResult h
  | exit =>
    simp only [step] at h
    split at h
    · split_ifs at h with hstop
      obtain rfl := Option.some.inj h
      exact .exit ‹_› ‹_› hstop
    · cases h

end Results

end Teardown

/-- The program from the construction of the brain at the time `now` to the end of `main`. -/
def teardown (cfg : BrainConfig n) (env : Environment n H) (now : ℤ) :
    Machine (Teardown n H) (TeardownEvent n) TeardownOutput where
  init := ⟨Threads.rest (Brain.initial cfg env now), .entered, .check, true, false, false, none⟩
  step s e := s.step cfg env e

namespace Teardown

variable {cfg : BrainConfig n} {env : Environment n H} {now : ℤ} {es : List (TeardownEvent n)}
  {s : Teardown n H} {tr : List TeardownOutput}

/-- A step of the main thread shortens the sequence and neither ends nor moves another thread. -/
theorem MainResult.main {rest : List TeardownAction} {a : TeardownAction}
    {r : Teardown n H × List TeardownOutput} (h : MainResult s rest a r) :
    r.1.main = some rest ∧ r.1.exited = s.exited ∧ r.1.realtime = s.realtime := by
  cases h <;> exact ⟨rfl, rfl, rfl⟩

/-- As long as `GrpcServer::Run` is not left, the threads are in a state of the machine
`RobotBrain.threads`. -/
theorem exists_run_threads (h : (teardown cfg env now).Run es s tr) (hmain : s.main = none) :
    ∃ ks out, (RobotBrain.threads cfg env now).Run ks s.threads out := by
  refine h.invariant (fun s _ => s.main = none →
    ∃ ks out, (RobotBrain.threads cfg env now).Run ks s.threads out)
    (fun _ => ⟨[], [], .init⟩) (fun {es s tr e s' out} _ hI _ hs hnone => ?_) hmain
  have haccess (hmain : s.main = none) {e : ThreadEvent n} {r : Threads n H × List (Output n)}
      (hstep : s.threads.step cfg env e = some r) :
      ∃ ks out, (RobotBrain.threads cfg env now).Run ks r.1 out := by
    obtain ⟨ks, out, hrun⟩ := hI hmain
    exact ⟨ks ++ [e], out ++ r.2, hrun.step trivial hstep⟩
  cases stepResult hs with
  | call hmain hstep | rpc hmain hstep => exact haccess hmain hstep
  | leave => cases hnone
  | main _ hstep =>
    rw [hstep.main.1] at hnone
    cases hnone
  | beginTick _ hstep | control hstep | dequeue _ hstep | worker _ hstep =>
    exact haccess hnone hstep
  | check | wake | endTick | acquire | observe | exit => exact hI hnone

/-- The threads that the main thread does not join any more have ended. -/
def Joined (s : Teardown n H) : Prop :=
  ∀ rest, s.main = some rest →
    (.joinPool ∈ rest ∨ s.exited = true) ∧ (.joinRealtime ∈ rest ∨ s.realtime = .stopped)

theorem Joined.mainStep (hI : s.Joined) {rest : List TeardownAction} {a : TeardownAction}
    {r : Teardown n H × List TeardownOutput} (hmain : s.main = some (a :: rest))
    (h : MainResult s rest a r) : r.1.Joined := by
  intro rest' hrest
  obtain ⟨hmain', hexited, hrealtime⟩ := h.main
  obtain rfl : rest = rest' := Option.some.inj (hmain'.symm.trans hrest)
  rw [hexited, hrealtime]
  obtain ⟨hpool, hrt⟩ := hI _ hmain
  constructor
  · rcases hpool with hmem | hexited
    · rcases List.mem_cons.mp hmem with rfl | hmem
      · cases h with
        | joinPool hended => exact Or.inr hended
      · exact Or.inl hmem
    · exact Or.inr hexited
  · rcases hrt with hmem | hstopped
    · rcases List.mem_cons.mp hmem with rfl | hmem
      · cases h with
        | joinRealtime hended => exact Or.inr hended
      · exact Or.inl hmem
    · exact Or.inr hstopped

/-- The realtime thread may move as long as it has not stopped. -/
theorem Joined.realtime (hI : s.Joined) (hpc : s.realtime ≠ .stopped) {t : Threads n H}
    {pc : RealtimePc} : ({ s with realtime := pc, threads := t } : Teardown n H).Joined := by
  intro rest hrest
  obtain ⟨hpool, hrt⟩ := hI rest hrest
  exact ⟨hpool, Or.inl (hrt.resolve_right hpc)⟩

theorem Joined.step (hI : s.Joined) {e : TeardownEvent n}
    {r : Teardown n H × List TeardownOutput} (h : StepResult cfg env s e r) : r.1.Joined := by
  cases h with
  | call | rpc | control | dequeue | acquire | observe | worker => exact hI
  | leave =>
    intro rest hrest
    obtain rfl := Option.some.inj hrest
    exact ⟨Or.inl (by decide), Or.inl (by decide)⟩
  | main hmain h => exact hI.mainStep hmain h
  | check hpc | wake hpc | beginTick hpc | endTick hpc =>
    exact hI.realtime (by rw [hpc]; decide)
  | exit => exact fun rest hrest => ⟨Or.inr rfl, (hI rest hrest).2⟩

/-- When `main` returns, the worker of the inference pool and the realtime thread have ended. -/
theorem ended_of_run (h : (teardown cfg env now).Run es s tr) (hmain : s.main = some []) :
    s.exited = true ∧ s.realtime = .stopped := by
  have hjoined : s.Joined :=
    h.invariant (fun s _ => s.Joined) (fun _ hrest => nomatch hrest)
      fun _ hI _ hs => hI.step (stepResult hs)
  obtain ⟨hpool, hrt⟩ := hjoined [] hmain
  exact ⟨hpool.resolve_left List.not_mem_nil, hrt.resolve_left List.not_mem_nil⟩

end Teardown

end RobotBrain
