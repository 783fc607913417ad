import RobotBrain.Brain.Atomic

/-!
# The three threads of the brain, interleaved

The machine whose steps are the elementary accesses of `RobotBrain.Brain.State`: the RPC thread in
`ProcessRobotTask`, the control thread in `ControlLoopStep`, and the worker of the inference pool in
a closure. Each thread has a program counter that names its next access and carries its local
variables; an input names the thread to move. `HandleRpcs` polls the completion queue on one thread,
one thread drives the control loop and the pool has one worker, so that each function runs at most
once at a time.

## Main definitions

* `RpcPc`, `ControlPc`, `WorkerPc` — the program counters.
* `Threads`, `ThreadEvent`, `threads` — the machine.

## Main results

* `Threads.stepResult` — what a step can do, by thread and access.
-/

namespace RobotBrain

open ExtNum

variable {n : ℕ} {H : Type*}

/-- The next access of the RPC thread in `ProcessRobotTask`. -/
inductive RpcPc
  | idle
  | incrementGeneration (t : Task)
  | storeGeneration (t : Task) (gen : UInt64)
  | storeTaskType (t : Task)
  | storeState (t : Task)
  | fillPrevActions (t : Task)
  | resetHiddenState (t : Task)
  | resetJointTargets (t : Task)
  | publishDefault (t : Task)
  | feedDog (t : Task)

/-- The next access of the control thread in `ControlLoopStep`. -/
inductive ControlPc (n : ℕ)
  | idle
  | loadHeartbeat (now : ℤ)
  | watchdogLoadState (now : ℤ)
  | watchdogStoreState (now : ℤ)
  | watchdogZeroVelocity (now : ℤ)
  | loadState (now : ℤ)
  | acquireGate (now : ℤ) (state : RobotState)
  | readProprioception (now : ℤ) (state : RobotState)
  | resetHiddenState (now : ℤ) (state : RobotState) (prop : Proprioception n)
  | fillPrevActions (now : ℤ) (state : RobotState) (prop : Proprioception n)
  | resetJointTargets (now : ℤ) (state : RobotState) (prop : Proprioception n)
  | rampVelocity (now : ℤ) (state : RobotState) (prop : Proprioception n)
  | snapshot (state : RobotState) (prop : Proprioception n) (target : Velocity) (dt : ℚ)
  | enqueue (f : Frame n)
  | releaseGateFull
  | releaseGate
  | countDropped
  | publishDefault

/-- The locals of a running inference closure: its frame, and the loan from the buffer pool, which
holds the observation. -/
structure Inference (n : ℕ) where
  frame : Frame n
  obs : List Scalar
  pooled : Bool

/-- The next access of the worker in an inference closure. -/
inductive WorkerPc (n : ℕ)
  | idle
  | forward (f : Frame n)
  | computeTargets (r : Inference n) (actions : Actions n)
  | checkGeneration (r : Inference n) (actions : Actions n) (targets : Fin n → Scalar)
  | applyRateLimit (r : Inference n) (actions : Actions n) (targets : Fin n → Scalar)
  | publish (r : Inference n) (actions : Actions n) (targets : Fin n → Scalar)
  | feedDog (r : Inference n) (actions : Actions n) (targets : Fin n → Scalar)
  | writeBackActions (r : Inference n) (actions : Actions n) (targets : Fin n → Scalar)
  | writeBackTargets (r : Inference n) (actions : Actions n) (targets : Fin n → Scalar)
  | countFrame (r : Inference n) (actions : Actions n)
  | countStale (r : Inference n)
  | releaseBuffer (r : Inference n)
  | clearFlag

/-- The shared state and the program counters. -/
structure Threads (n : ℕ) (H : Type*) where
  brain : Brain n H
  rpc : RpcPc
  control : ControlPc n
  worker : WorkerPc n

/-- The inputs of the threads: which one moves, with what it reads from outside. -/
inductive ThreadEvent (n : ℕ)
  /-- The RPC thread enters `ProcessRobotTask` and stores the command. -/
  | call (t : Task)
  /-- The next access of the RPC thread; `now` is the clock. -/
  | rpc (now : ℤ)
  /-- The control thread enters `ControlLoopStep` and reads the clock. -/
  | tick (now : ℤ)
  /-- The next access of the control thread; `prop` is the latest proprioception. -/
  | control (prop : Proprioception n)
  /-- The worker takes the closure at the head of the queue. -/
  | dequeue
  /-- The next access of the worker; `throws` says whether the call throws, `now` is the clock. -/
  | worker (throws : Bool) (now : ℤ)

namespace Threads

/-- The state and the outputs after a step. -/
abbrev Next (n : ℕ) (H : Type*) := Option (Threads n H × List (Output n))

variable (cfg : BrainConfig n) (env : Environment n H)

/-- The next access of the RPC thread. -/
def rpcStep (now : ℤ) (s : Threads n H) : Next n H :=
  let b := s.brain
  match s.rpc with
  | .idle => none
  | .incrementGeneration t =>
    let b := b.incrementGeneration t
    some ({ s with brain := b, rpc := .storeGeneration t b.taskGeneration },
      [.generationIncremented b.history.tasks.length])
  | .storeGeneration t gen =>
    some ({ s with brain := b.storeGeneration gen, rpc := .storeTaskType t }, [])
  | .storeTaskType t =>
    some ({ s with brain := b.storeTaskType t.type, rpc := .storeState t }, [])
  | .storeState t =>
    let next := if t.type = .emergencyStop then .fillPrevActions t else .feedDog t
    some ({ s with brain := b.storeTaskState t, rpc := next }, [])
  | .fillPrevActions t =>
    some ({ s with brain := b.fillPrevActions, rpc := .resetHiddenState t }, [.prevActionsReset])
  | .resetHiddenState t =>
    some ({ s with brain := b.resetHiddenState env, rpc := .resetJointTargets t },
      [.hiddenStateReset])
  | .resetJointTargets t =>
    some ({ s with brain := b.resetJointTargets cfg, rpc := .publishDefault t },
      [.jointTargetsReset])
  | .publishDefault t =>
    some ({ s with rpc := .feedDog t },
      [.published cfg.defaultJointPositions (.emergencyStop b.history.tasks.length)])
  | .feedDog t => some ({ s with brain := b.feedDog now, rpc := .idle }, [.taskReturned t])

/-- The next access of the control thread. -/
def controlStep (prop : Proprioception n) (s : Threads n H) : Next n H :=
  let b := s.brain
  match s.control with
  | .idle => none
  | .loadHeartbeat now =>
    if b.HeartbeatExpired cfg now then
      some ({ s with brain := b.noteExpiry, control := .watchdogLoadState now },
        [.heartbeatExpired])
    else some ({ s with control := .loadState now }, [])
  | .watchdogLoadState now =>
    let next : ControlPc n :=
      if b.metrics.currentState = .executing then .watchdogStoreState now else .loadState now
    some ({ s with control := next }, [])
  | .watchdogStoreState now =>
    some ({ s with brain := b.lowerToStanding, control := .watchdogZeroVelocity now }, [.lowered])
  | .watchdogZeroVelocity now =>
    some ({ s with brain := b.zeroVelocity, control := .loadState now }, [])
  | .loadState now =>
    let state := b.metrics.currentState
    let next : ControlPc n :=
      if state = .executing ∨ state = .standing then .acquireGate now state else .publishDefault
    some ({ s with control := next }, [])
  | .acquireGate now state =>
    if b.isInferring then some ({ s with control := .countDropped }, [])
    else
      some ({ s with brain := b.setInferring true, control := .readProprioception now state }, [])
  | .readProprioception now state =>
    if prop.valid then
      let next : ControlPc n :=
        if b.SimulatorReset prop then .resetHiddenState now state prop
        else .rampVelocity now state prop
      some ({ s with brain := b.storeGravity prop, control := next }, [])
    else some ({ s with control := .releaseGate }, [])
  | .resetHiddenState now state prop =>
    some ({ s with brain := b.resetHiddenState env, control := .fillPrevActions now state prop },
      [.hiddenStateReset])
  | .fillPrevActions now state prop =>
    some ({ s with brain := b.fillPrevActions, control := .resetJointTargets now state prop },
      [.prevActionsReset])
  | .resetJointTargets now state prop =>
    some ({ s with brain := b.resetJointTargets cfg, control := .rampVelocity now state prop },
      [.jointTargetsReset])
  | .rampVelocity now state prop =>
    let next := .snapshot state prop b.velocityCmd (b.timeStep now)
    some ({ s with brain := b.rampVelocity cfg now, control := next }, [])
  | .snapshot state prop target dt =>
    some ({ s with control := .enqueue (b.snapshot state prop target dt) }, [])
  | .enqueue f =>
    if b.inferenceQueue.length < Brain.maxQueue then
      some ({ s with brain := b.enqueue f, control := .idle }, [.captured f])
    else some ({ s with control := .releaseGateFull }, [])
  | .releaseGateFull =>
    some ({ s with brain := b.setInferring false, control := .countDropped }, [])
  | .releaseGate => some ({ s with brain := b.setInferring false, control := .idle }, [])
  | .countDropped => some ({ s with brain := b.countDropped, control := .idle }, [])
  | .publishDefault =>
    some ({ s with control := .idle }, [.published cfg.defaultJointPositions .inactive])

/-- The next access of the worker. -/
def workerStep (throws : Bool) (now : ℤ) (s : Threads n H) : Next n H :=
  let b := s.brain
  match s.worker with
  | .idle => none
  | .forward f =>
    let (buffer, pooled, b) := b.acquireBuffer cfg
    let obs := b.observation cfg env f buffer
    let r : Inference n := ⟨f, obs, pooled⟩
    if throws then some ({ s with brain := b, worker := .releaseBuffer r }, [.forwarded obs])
    else
      let (actions, h) := env.forward obs b.hiddenState
      some ({ s with brain := b.storeHiddenState h, worker := .computeTargets r actions },
        [.forwarded obs])
  | .computeTargets r actions =>
    let next : WorkerPc n :=
      if throws then .releaseBuffer r
      else .checkGeneration r actions (jointTargets cfg r.frame.profile actions)
    some ({ s with worker := next }, [])
  | .checkGeneration r actions targets =>
    let next : WorkerPc n :=
      if r.frame.myGeneration = b.taskGeneration then .applyRateLimit r actions targets
      else .countStale r
    some ({ s with worker := next }, [])
  | .applyRateLimit r actions targets =>
    let targets := RobotBrain.applyRateLimit cfg b.lastJointTargets targets
    some ({ s with worker := .publish r actions targets }, [])
  | .publish r actions targets =>
    if throws then some ({ s with worker := .releaseBuffer r }, [])
    else some ({ s with worker := .feedDog r actions targets },
      [.published targets (.inference r.frame)])
  | .feedDog r actions targets =>
    some ({ s with brain := b.feedDog now, worker := .writeBackActions r actions targets }, [])
  | .writeBackActions r actions targets =>
    some ({ s with
      brain := b.writeBackActions actions
      worker := .writeBackTargets r actions targets }, [])
  | .writeBackTargets r actions targets =>
    some ({ s with brain := b.writeBackTargets targets, worker := .countFrame r actions }, [])
  | .countFrame r actions =>
    some ({ s with brain := b.countFrame, worker := .releaseBuffer r },
      [.applied r.frame r.obs actions])
  | .countStale r =>
    some ({ s with brain := b.countStale, worker := .releaseBuffer r }, [.discarded r.frame])
  | .releaseBuffer r =>
    some ({ s with brain := b.releaseBuffer r.obs r.pooled, worker := .clearFlag }, [])
  | .clearFlag => some ({ s with brain := b.setInferring false, worker := .idle }, [])

/-- One access of one thread. -/
def step (s : Threads n H) : ThreadEvent n → Next n H
  | .call t =>
    match s.rpc with
    | .idle =>
      some ({ s with brain := s.brain.writeCommand t, rpc := .incrementGeneration t },
        [.commandWritten t])
    | _ => none
  | .rpc now => s.rpcStep cfg env now
  | .tick now =>
    match s.control with
    | .idle => some ({ s with control := .loadHeartbeat now }, [])
    | _ => none
  | .control prop => s.controlStep cfg env prop
  | .dequeue =>
    match s.worker, s.brain.inferenceQueue with
    | .idle, f :: q => some ({ s with brain := s.brain.dequeue q, worker := .forward f }, [])
    | _, _ => none
  | .worker throws now => s.workerStep cfg env throws now

/-- The threads between two calls. -/
def rest (b : Brain n H) : Threads n H := ⟨b, .idle, .idle, .idle⟩

/-! ### What one access can do -/

section Results

variable (cfg : BrainConfig n) (env : Environment n H)

/-- The accesses of the RPC thread: the state before, the program counter, and what they become. -/
inductive RpcResult (now : ℤ) (b : Brain n H) :
    RpcPc → Brain n H → RpcPc → List (Output n) → Prop
  | incrementGeneration (t : Task) : RpcResult now b (.incrementGeneration t)
      (b.incrementGeneration t) (.storeGeneration t (b.taskGeneration + 1))
      [.generationIncremented (b.history.tasks ++ [t]).length]
  | storeGeneration (t : Task) (gen : UInt64) : RpcResult now b (.storeGeneration t gen)
      (b.storeGeneration gen) (.storeTaskType t) []
  | storeTaskType (t : Task) : RpcResult now b (.storeTaskType t)
      (b.storeTaskType t.type) (.storeState t) []
  | storeStateStop (t : Task) (ht : t.type = .emergencyStop) : RpcResult now b (.storeState t)
      (b.storeTaskState t) (.fillPrevActions t) []
  | storeStateMotion (t : Task) (ht : t.type ≠ .emergencyStop) : RpcResult now b (.storeState t)
      (b.storeTaskState t) (.feedDog t) []
  | fillPrevActions (t : Task) : RpcResult now b (.fillPrevActions t)
      b.fillPrevActions (.resetHiddenState t) [.prevActionsReset]
  | resetHiddenState (t : Task) : RpcResult now b (.resetHiddenState t)
      (b.resetHiddenState env) (.resetJointTargets t) [.hiddenStateReset]
  | resetJointTargets (t : Task) : RpcResult now b (.resetJointTargets t)
      (b.resetJointTargets cfg) (.publishDefault t) [.jointTargetsReset]
  | publishDefault (t : Task) : RpcResult now b (.publishDefault t) b (.feedDog t)
      [.published cfg.defaultJointPositions (.emergencyStop b.history.tasks.length)]
  | feedDog (t : Task) : RpcResult now b (.feedDog t) (b.feedDog now) .idle [.taskReturned t]

/-- The accesses of the control thread. -/
inductive ControlResult (prop : Proprioception n) (b : Brain n H) :
    ControlPc n → Brain n H → ControlPc n → List (Output n) → Prop
  | heartbeatExpired (now : ℤ) (h : b.HeartbeatExpired cfg now) :
      ControlResult prop b (.loadHeartbeat now)
        b.noteExpiry (.watchdogLoadState now) [.heartbeatExpired]
  | heartbeatFresh (now : ℤ) (h : ¬b.HeartbeatExpired cfg now) :
      ControlResult prop b (.loadHeartbeat now) b (.loadState now) []
  | watchdogExecuting (now : ℤ) (h : b.metrics.currentState = .executing) :
      ControlResult prop b (.watchdogLoadState now) b (.watchdogStoreState now) []
  | watchdogOther (now : ℤ) (h : b.metrics.currentState ≠ .executing) :
      ControlResult prop b (.watchdogLoadState now) b (.loadState now) []
  | watchdogStoreState (now : ℤ) : ControlResult prop b (.watchdogStoreState now)
      b.lowerToStanding (.watchdogZeroVelocity now) [.lowered]
  | watchdogZeroVelocity (now : ℤ) : ControlResult prop b (.watchdogZeroVelocity now)
      b.zeroVelocity (.loadState now) []
  | loadActive (now : ℤ)
      (h : b.metrics.currentState = .executing ∨ b.metrics.currentState = .standing) :
      ControlResult prop b (.loadState now) b (.acquireGate now b.metrics.currentState) []
  | loadInactive (now : ℤ)
      (h : ¬(b.metrics.currentState = .executing ∨ b.metrics.currentState = .standing)) :
      ControlResult prop b (.loadState now) b .publishDefault []
  | gateBusy (now : ℤ) (state : RobotState) (h : b.isInferring = true) :
      ControlResult prop b (.acquireGate now state) b .countDropped []
  | gateOpen (now : ℤ) (state : RobotState) (h : b.isInferring = false) :
      ControlResult prop b (.acquireGate now state)
        (b.setInferring true) (.readProprioception now state) []
  | simulatorReset (now : ℤ) (state : RobotState) (hvalid : prop.valid = true)
      (h : b.SimulatorReset prop) : ControlResult prop b (.readProprioception now state)
        (b.storeGravity prop) (.resetHiddenState now state prop) []
  | noReset (now : ℤ) (state : RobotState) (hvalid : prop.valid = true)
      (h : ¬b.SimulatorReset prop) : ControlResult prop b (.readProprioception now state)
        (b.storeGravity prop) (.rampVelocity now state prop) []
  | invalid (now : ℤ) (state : RobotState) (hvalid : prop.valid = false) :
      ControlResult prop b (.readProprioception now state) b .releaseGate []
  | resetHiddenState (now : ℤ) (state : RobotState) (p : Proprioception n) :
      ControlResult prop b (.resetHiddenState now state p)
        (b.resetHiddenState env) (.fillPrevActions now state p) [.hiddenStateReset]
  | fillPrevActions (now : ℤ) (state : RobotState) (p : Proprioception n) :
      ControlResult prop b (.fillPrevActions now state p)
        b.fillPrevActions (.resetJointTargets now state p) [.prevActionsReset]
  | resetJointTargets (now : ℤ) (state : RobotState) (p : Proprioception n) :
      ControlResult prop b (.resetJointTargets now state p)
        (b.resetJointTargets cfg) (.rampVelocity now state p) [.jointTargetsReset]
  | rampVelocity (now : ℤ) (state : RobotState) (p : Proprioception n) :
      ControlResult prop b (.rampVelocity now state p)
        (b.rampVelocity cfg now) (.snapshot state p b.velocityCmd (b.timeStep now)) []
  | snapshot (state : RobotState) (p : Proprioception n) (target : Velocity) (dt : ℚ) :
      ControlResult prop b (.snapshot state p target dt)
        b (.enqueue (b.snapshot state p target dt)) []
  | enqueued (f : Frame n) (h : b.inferenceQueue.length < Brain.maxQueue) :
      ControlResult prop b (.enqueue f) (b.enqueue f) .idle [.captured f]
  | full (f : Frame n) (h : Brain.maxQueue ≤ b.inferenceQueue.length) :
      ControlResult prop b (.enqueue f) b .releaseGateFull []
  | releaseGateFull : ControlResult prop b .releaseGateFull (b.setInferring false) .countDropped []
  | releaseGate : ControlResult prop b .releaseGate (b.setInferring false) .idle []
  | countDropped : ControlResult prop b .countDropped b.countDropped .idle []
  | publishDefault : ControlResult prop b .publishDefault
      b .idle [.published cfg.defaultJointPositions .inactive]

/-- The accesses of the worker. -/
inductive WorkerResult (now : ℤ) (b : Brain n H) :
    WorkerPc n → Brain n H → WorkerPc n → List (Output n) → Prop
  | forwardThrew (f : Frame n) : WorkerResult now b (.forward f) (b.acquireBuffer cfg).2.2
      (.releaseBuffer ⟨f, b.nextObservation cfg env f, (b.acquireBuffer cfg).2.1⟩)
      [.forwarded (b.nextObservation cfg env f)]
  | forward (f : Frame n) : WorkerResult now b (.forward f)
      ((b.acquireBuffer cfg).2.2.storeHiddenState (b.nextHiddenState cfg env f))
      (.computeTargets ⟨f, b.nextObservation cfg env f, (b.acquireBuffer cfg).2.1⟩
        (b.nextActions cfg env f))
      [.forwarded (b.nextObservation cfg env f)]
  | targetsThrew (r : Inference n) (actions : Actions n) :
      WorkerResult now b (.computeTargets r actions) b (.releaseBuffer r) []
  | computeTargets (r : Inference n) (actions : Actions n) :
      WorkerResult now b (.computeTargets r actions)
        b (.checkGeneration r actions (jointTargets cfg r.frame.profile actions)) []
  | checkPassed (r : Inference n) (actions : Actions n) (targets : Fin n → Scalar)
      (h : r.frame.myGeneration = b.taskGeneration) :
      WorkerResult now b (.checkGeneration r actions targets)
        b (.applyRateLimit r actions targets) []
  | checkFailed (r : Inference n) (actions : Actions n) (targets : Fin n → Scalar)
      (h : r.frame.myGeneration ≠ b.taskGeneration) :
      WorkerResult now b (.checkGeneration r actions targets) b (.countStale r) []
  | applyRateLimit (r : Inference n) (actions : Actions n) (targets : Fin n → Scalar) :
      WorkerResult now b (.applyRateLimit r actions targets)
        b (.publish r actions (RobotBrain.applyRateLimit cfg b.lastJointTargets targets)) []
  | publishThrew (r : Inference n) (actions : Actions n) (targets : Fin n → Scalar) :
      WorkerResult now b (.publish r actions targets) b (.releaseBuffer r) []
  | publish (r : Inference n) (actions : Actions n) (targets : Fin n → Scalar) :
      WorkerResult now b (.publish r actions targets)
        b (.feedDog r actions targets) [.published targets (.inference r.frame)]
  | feedDog (r : Inference n) (actions : Actions n) (targets : Fin n → Scalar) :
      WorkerResult now b (.feedDog r actions targets)
        (b.feedDog now) (.writeBackActions r actions targets) []
  | writeBackActions (r : Inference n) (actions : Actions n) (targets : Fin n → Scalar) :
      WorkerResult now b (.writeBackActions r actions targets)
        (b.writeBackActions actions) (.writeBackTargets r actions targets) []
  | writeBackTargets (r : Inference n) (actions : Actions n) (targets : Fin n → Scalar) :
      WorkerResult now b (.writeBackTargets r actions targets)
        (b.writeBackTargets targets) (.countFrame r actions) []
  | countFrame (r : Inference n) (actions : Actions n) :
      WorkerResult now b (.countFrame r actions)
        b.countFrame (.releaseBuffer r) [.applied r.frame r.obs actions]
  | countStale (r : Inference n) : WorkerResult now b (.countStale r)
      b.countStale (.releaseBuffer r) [.discarded r.frame]
  | releaseBuffer (r : Inference n) : WorkerResult now b (.releaseBuffer r)
      (b.releaseBuffer r.obs r.pooled) .clearFlag []
  | clearFlag : WorkerResult now b .clearFlag (b.setInferring false) .idle []

/-- The results of a step, by the thread that moves. -/
inductive StepResult (s : Threads n H) :
    ThreadEvent n → Threads n H × List (Output n) → Prop
  | call {t : Task} (hpc : s.rpc = .idle) : StepResult s (.call t)
      ({ s with brain := s.brain.writeCommand t, rpc := .incrementGeneration t },
        [.commandWritten t])
  | rpc {now : ℤ} {b : Brain n H} {pc : RpcPc} {out : List (Output n)}
      (h : RpcResult cfg env now s.brain s.rpc b pc out) :
      StepResult s (.rpc now) ({ s with brain := b, rpc := pc }, out)
  | tick {now : ℤ} (hpc : s.control = .idle) : StepResult s (.tick now)
      ({ s with control := .loadHeartbeat now }, [])
  | control {prop : Proprioception n} {b : Brain n H} {pc : ControlPc n} {out : List (Output n)}
      (h : ControlResult cfg env prop s.brain s.control b pc out) :
      StepResult s (.control prop) ({ s with brain := b, control := pc }, out)
  | dequeue {f : Frame n} {q : List (Frame n)} (hpc : s.worker = .idle)
      (hq : s.brain.inferenceQueue = f :: q) : StepResult s .dequeue
      ({ s with brain := s.brain.dequeue q, worker := .forward f }, [])
  | worker {throws : Bool} {now : ℤ} {b : Brain n H} {pc : WorkerPc n} {out : List (Output n)}
      (h : WorkerResult cfg env now s.brain s.worker b pc out) :
      StepResult s (.worker throws now) ({ s with brain := b, worker := pc }, out)

variable {cfg env}

private theorem rpcResult {now : ℤ} {s : Threads n H} {r : Threads n H × List (Output n)}
    (h : s.rpcStep cfg env now = some r) : StepResult cfg env s (.rpc now) r := by
  obtain ⟨b, pc, control, worker⟩ := s
  cases pc with
  | idle => cases h
  | storeState t =>
    simp only [rpcStep] at h
    split_ifs at h with ht
    · cases h
      exact .rpc (.storeStateStop t ht)
    · cases h
      exact .rpc (.storeStateMotion t ht)
  | incrementGeneration => cases h; exact .rpc (.incrementGeneration _)
  | storeGeneration => cases h; exact .rpc (.storeGeneration _ _)
  | storeTaskType => cases h; exact .rpc (.storeTaskType _)
  | fillPrevActions => cases h; exact .rpc (.fillPrevActions _)
  | resetHiddenState => cases h; exact .rpc (.resetHiddenState _)
  | resetJointTargets => cases h; exact .rpc (.resetJointTargets _)
  | publishDefault => cases h; exact .rpc (.publishDefault _)
  | feedDog => cases h; exact .rpc (.feedDog _)

private theorem controlResult {prop : Proprioception n} {s : Threads n H}
    {r : Threads n H × List (Output n)} (h : s.controlStep cfg env prop = some r) :
    StepResult cfg env s (.control prop) r := by
  obtain ⟨b, rpc, pc, worker⟩ := s
  cases pc with
  | idle => cases h
  | loadHeartbeat now =>
    simp only [controlStep] at h
    split_ifs at h with hexp <;> cases h
    · exact .control (.heartbeatExpired now hexp)
    · exact .control (.heartbeatFresh now hexp)
  | watchdogLoadState now =>
    simp only [controlStep] at h
    split_ifs at h with hstate <;> cases h
    · exact .control (.watchdogExecuting now hstate)
    · exact .control (.watchdogOther now hstate)
  | loadState now =>
    simp only [controlStep] at h
    split_ifs at h with hstate <;> cases h
    · exact .control (.loadActive now hstate)
    · exact .control (.loadInactive now hstate)
  | acquireGate now state =>
    simp only [controlStep] at h
    split_ifs at h with hgate <;> cases h
    · exact .control (.gateBusy now state hgate)
    · exact .control (.gateOpen now state (Bool.eq_false_iff.mpr hgate))
  | readProprioception now state =>
    simp only [controlStep] at h
    split_ifs at h with hvalid hreset <;> cases h
    · exact .control (.simulatorReset now state hvalid hreset)
    · exact .control (.noReset now state hvalid hreset)
    · exact .control (.invalid now state (Bool.eq_false_iff.mpr hvalid))
  | enqueue f =>
    simp only [controlStep] at h
    split_ifs at h with hroom <;> cases h
    · exact .control (.enqueued f hroom)
    · exact .control (.full f (not_lt.mp hroom))
  | watchdogStoreState => cases h; exact .control (.watchdogStoreState _)
  | watchdogZeroVelocity => cases h; exact .control (.watchdogZeroVelocity _)
  | resetHiddenState => cases h; exact .control (.resetHiddenState _ _ _)
  | fillPrevActions => cases h; exact .control (.fillPrevActions _ _ _)
  | resetJointTargets => cases h; exact .control (.resetJointTargets _ _ _)
  | rampVelocity => cases h; exact .control (.rampVelocity _ _ _)
  | snapshot => cases h; exact .control (.snapshot _ _ _ _)
  | releaseGateFull => cases h; exact .control .releaseGateFull
  | releaseGate => cases h; exact .control .releaseGate
  | countDropped => cases h; exact .control .countDropped
  | publishDefault => cases h; exact .control .publishDefault

private theorem workerResult {throws : Bool} {now : ℤ} {s : Threads n H}
    {r : Threads n H × List (Output n)} (h : s.workerStep cfg env throws now = some r) :
    StepResult cfg env s (.worker throws now) r := by
  obtain ⟨b, rpc, control, pc⟩ := s
  cases pc with
  | idle => cases h
  | forward f =>
    simp only [workerStep] at h
    split_ifs at h <;> cases h
    · exact .worker (.forwardThrew f)
    · have hhidden : (b.acquireBuffer cfg).2.2.hiddenState = b.hiddenState := by
        rw [Brain.acquireBuffer_brain]
      simp only [hhidden]
      exact .worker (.forward f)
  | computeTargets r actions =>
    simp only [workerStep] at h
    split_ifs at h <;> cases h
    · exact .worker (.targetsThrew r actions)
    · exact .worker (.computeTargets r actions)
  | checkGeneration r actions targets =>
    simp only [workerStep] at h
    split_ifs at h with hgen <;> cases h
    · exact .worker (.checkPassed r actions targets hgen)
    · exact .worker (.checkFailed r actions targets hgen)
  | publish r actions targets =>
    simp only [workerStep] at h
    split_ifs at h <;> cases h
    · exact .worker (.publishThrew r actions targets)
    · exact .worker (.publish r actions targets)
  | applyRateLimit => cases h; exact .worker (.applyRateLimit _ _ _)
  | feedDog => cases h; exact .worker (.feedDog _ _ _)
  | writeBackActions => cases h; exact .worker (.writeBackActions _ _ _)
  | writeBackTargets => cases h; exact .worker (.writeBackTargets _ _ _)
  | countFrame => cases h; exact .worker (.countFrame _ _)
  | countStale => cases h; exact .worker (.countStale _)
  | releaseBuffer => cases h; exact .worker (.releaseBuffer _)
  | clearFlag => cases h; exact .worker .clearFlag

theorem stepResult {s : Threads n H} {e : ThreadEvent n} {r : Threads n H × List (Output n)}
    (h : s.step cfg env e = some r) : StepResult cfg env s e r := by
  cases e with
  | call t =>
    cases hpc : s.rpc <;> simp only [step, hpc, reduceCtorEq, Option.some.injEq] at h
    subst h
    exact .call hpc
  | rpc now => exact rpcResult h
  | tick now =>
    cases hpc : s.control <;> simp only [step, hpc, reduceCtorEq, Option.some.injEq] at h
    subst h
    exact .tick hpc
  | control prop => exact controlResult h
  | dequeue =>
    simp only [step] at h
    split at h <;> cases h
    exact .dequeue ‹_› ‹_›
  | worker throws now => exact workerResult h

end Results

end Threads

/-- The three threads as a machine, started at the time `now`. -/
def threads (cfg : BrainConfig n) (env : Environment n H) (now : ℤ) :
    Machine (Threads n H) (ThreadEvent n) (Output n) where
  init := Threads.rest (Brain.initial cfg env now)
  step s e := s.step cfg env e

end RobotBrain
