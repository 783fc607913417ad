import RobotBrain.Infra.BufferPool
import RobotBrain.Infra.QueueDiscipline
import RobotBrain.Safety.Gate

/-!
# The brain with its pools

In the machine `RobotBrain.threads` the inference pool is a queue and the buffer pool a stack, each
accessed in one step. Here the threads of the brain work with the pools themselves: `enqueue` takes
the mutex and notifies, the worker of the pool locks, sleeps and wakes up around the closures that
it runs, and a closure borrows a buffer at an address and gives it back.

## Main definitions

* `Pooled`, `PooledEvent`, `pooled` — the machine.
* `Pooled.PoolsInv` — how the pools and the threads fit together.

## Main results

* `Pooled.stepResult` — what a step can do.
* `Pooled.exists_run_inferencePool`, `Pooled.exists_run_tensorPool` — each pool goes through a run
  of its own machine.
* `Pooled.poolsInv_of_run` — the invariant holds in every run.
-/

namespace RobotBrain

open ExtNum

variable {n : ℕ} {H : Type*}

/-- The access is one to a pool. -/
def Threads.usesPool (s : Threads n H) : ThreadEvent n → Bool
  | .call _ | .rpc _ | .tick _ => false
  | .control _ =>
    match s.control with
    | .enqueue _ => true
    | _ => false
  | .dequeue => true
  | .worker _ _ =>
    match s.worker with
    | .forward _ | .releaseBuffer _ => true
    | _ => false

/-- The threads when `Forward` has thrown or returned. -/
def Threads.forwarded (env : Environment n H) (throws : Bool) (r : Inference n) (s : Threads n H) :
    Threads n H :=
  if throws then { s with worker := .releaseBuffer r }
  else
    let (actions, h) := env.forward r.obs s.brain.hiddenState
    { s with brain := s.brain.storeHiddenState h, worker := .computeTargets r actions }

/-- The threads of the brain with its pools. What the brain in `threads` has in their place is never
accessed. -/
structure Pooled (n : ℕ) (H : Type*) where
  threads : Threads n H
  inferencePool : ThreadPool 1
  /-- The frames of the closures that `enqueue` has been called with, by the number of the call. -/
  closures : List (Frame n)
  tensorPool : BufferPool Scalar
  /-- `obs_buffer` of the running closure: the address of the buffer that it has borrowed. -/
  obsBuffer : ℕ

/-- The inputs of the threads and the pools. -/
inductive PooledEvent (n : ℕ)
  /-- An access of a thread that is none to a pool. -/
  | access (e : ThreadEvent n)
  /-- The control thread calls `enqueue`; the worker that its `notify_one` wakes up, if any. -/
  | enqueue (wakes : Option (Fin 1))
  /-- The next step of the worker in the loop of the pool. -/
  | pool
  /-- The worker wakes up without a notification. -/
  | spurious
  /-- The closure runs to the end of `Forward`, which may throw; `fresh` is the address that the
  allocator has for a new buffer, should one be needed. -/
  | forward (throws : Bool) (fresh : ℕ)
  /-- The closure lets go of its buffer. -/
  | releaseBuffer

namespace Pooled

/-- The state and the outputs after a step. -/
abbrev Next (n : ℕ) (H : Type*) := Option (Pooled n H × List (Output n))

/-- The control thread moves on. -/
def setControl (pc : ControlPc n) (s : Pooled n H) : Pooled n H :=
  { s with threads := { s.threads with control := pc } }

/-- The closure moves on, or one begins. -/
def setWorker (pc : WorkerPc n) (s : Pooled n H) : Pooled n H :=
  { s with threads := { s.threads with worker := pc } }

variable (cfg : BrainConfig n) (env : Environment n H)

/-- `inference_pool_->enqueue`, called with the closure of a frame. -/
def enqueue (wakes : Option (Fin 1)) (s : Pooled n H) : Next n H :=
  match s.threads.control with
  | .enqueue f =>
    (s.inferencePool.enqueue Brain.maxQueue wakes).map fun r =>
      let s := { s with inferencePool := r.1, closures := s.closures ++ [f] }
      match r.2 with
      | [.accepted _] => (s.setControl .idle, [.captured f])
      | _ => (s.setControl .releaseGateFull, [])
  | _ => none

/-- The worker in the loop of the pool. It moves on when the closure that it runs has returned,
which lets no exception out. -/
def poolStep (s : Pooled n H) : Next n H :=
  match s.threads.worker with
  | .idle =>
    (s.inferencePool.workerStep 0 false).bind fun r =>
      let s' := { s with inferencePool := r.1 }
      match r.2 with
      | [.taken _ task] => s.closures[task]?.map fun f => (s'.setWorker (.forward f), [])
      | _ => some (s', [])
  | _ => none

/-- `tensor_pool_->Acquire()`, `BuildObservation` into the buffer, and `Forward`. -/
def forward (throws : Bool) (fresh : ℕ) (s : Pooled n H) : Next n H :=
  match s.threads.worker with
  | .forward f =>
    (s.tensorPool.acquire (fin 0) fresh).bind fun r =>
      match r.2 with
      | [.lent loan] =>
        let obs := s.threads.brain.observation cfg env f loan.buffer.data
        (r.1.write loan.buffer.address obs).map fun w =>
          ({ s with
              threads := s.threads.forwarded env throws ⟨f, obs, loan.pooled⟩
              tensorPool := w.1
              obsBuffer := loan.buffer.address }, [.forwarded obs])
      | _ => none
  | _ => none

/-- `obs_buffer` is destroyed, which runs its deleter. -/
def releaseBuffer (s : Pooled n H) : Next n H :=
  match s.threads.worker with
  | .releaseBuffer _ =>
    (s.tensorPool.giveBack s.obsBuffer).map fun r =>
      ({ s with tensorPool := r.1 }.setWorker .clearFlag, [])
  | _ => none

/-- One step of a thread. -/
def step (s : Pooled n H) : PooledEvent n → Next n H
  | .access e =>
    if s.threads.usesPool e then none
    else (s.threads.step cfg env e).map fun r => ({ s with threads := r.1 }, r.2)
  | .enqueue wakes => s.enqueue wakes
  | .pool => s.poolStep
  | .spurious =>
    (s.inferencePool.step Brain.maxQueue (.spurious 0)).map fun r =>
      ({ s with inferencePool := r.1 }, [])
  | .forward throws fresh => s.forward cfg env throws fresh
  | .releaseBuffer => s.releaseBuffer

/-- The state after the constructor of the brain; the buffers have the addresses 0, 1 and 2. -/
def initial (now : ℤ) : Pooled n H where
  threads := Threads.rest (Brain.initial cfg env now)
  inferencePool := .initial 1
  closures := []
  tensorPool := .initial (fin 0) [0, 1, 2] cfg.obsDim
  obsBuffer := 0

/-! ### What one step can do -/

section Results

/-- The results of a step. -/
inductive StepResult (s : Pooled n H) : PooledEvent n → Pooled n H × List (Output n) → Prop
  | access {e : ThreadEvent n} {r : Threads n H × List (Output n)}
      (hfree : s.threads.usesPool e = false) (h : s.threads.step cfg env e = some r) :
      StepResult s (.access e) ({ s with threads := r.1 }, r.2)
  | accepted {wakes : Option (Fin 1)} {f : Frame n} {p : ThreadPool 1}
      (hpc : s.threads.control = .enqueue f) (hroom : s.inferencePool.tasks.length < Brain.maxQueue)
      (h : s.inferencePool.step Brain.maxQueue (.enqueue wakes) =
        some (p, [.accepted s.inferencePool.calls]))
      (hnotify : s.inferencePool.emplace.notifyOne wakes = some p) :
      StepResult s (.enqueue wakes)
        ({ s with inferencePool := p, closures := s.closures ++ [f] }.setControl .idle,
          [.captured f])
  | rejected {wakes : Option (Fin 1)} {f : Frame n} (hpc : s.threads.control = .enqueue f)
      (hfull : Brain.maxQueue ≤ s.inferencePool.tasks.length)
      (h : s.inferencePool.step Brain.maxQueue (.enqueue wakes) =
        some (s.inferencePool.refuse, [.rejected s.inferencePool.calls])) :
      StepResult s (.enqueue wakes)
        ({ s with
            inferencePool := s.inferencePool.refuse
            closures := s.closures ++ [f] }.setControl .releaseGateFull, [])
  | taken {task : ℕ} {rest : List ℕ} {f : Frame n} {p : ThreadPool 1}
      (hpc : s.threads.worker = .idle) (htasks : s.inferencePool.tasks = task :: rest)
      (h : s.inferencePool.step Brain.maxQueue (.worker 0 false) = some (p, [.taken 0 task]))
      (hp : p = { s.inferencePool with tasks := rest }.unlock.setWorker 0 (.running task))
      (hf : s.closures[task]? = some f) :
      StepResult s .pool ({ s with inferencePool := p }.setWorker (.forward f), [])
  | moved {p : ThreadPool 1} {out : List (PoolOutput 1)} (hpc : s.threads.worker = .idle)
      (h : s.inferencePool.step Brain.maxQueue (.worker 0 false) = some (p, out))
      (htasks : p.tasks = s.inferencePool.tasks) (hcalls : p.calls = s.inferencePool.calls) :
      StepResult s .pool ({ s with inferencePool := p }, [])
  | spurious (hwaiting : s.inferencePool.workers 0 = .waiting)
      (h : s.inferencePool.step Brain.maxQueue (.spurious 0) =
        some (s.inferencePool.setWorker 0 .notified, [])) :
      StepResult s .spurious
        ({ s with inferencePool := s.inferencePool.setWorker 0 .notified }, [])
  | forward {throws : Bool} {fresh : ℕ} {f : Frame n} {p q : BufferPool Scalar}
      {loan : Loan Scalar} {obs : List Scalar} {out : List (PoolAction Scalar)}
      (hpc : s.threads.worker = .forward f)
      (hacquire : s.tensorPool.step (fin 0) (.acquire fresh) = some (p, [.lent loan]))
      (hobs : obs = s.threads.brain.observation cfg env f loan.buffer.data)
      (hwrite : p.step (fin 0) (.write loan.buffer.address obs) = some (q, out)) :
      StepResult s (.forward throws fresh)
        ({ s with
            threads := s.threads.forwarded env throws ⟨f, obs, loan.pooled⟩
            tensorPool := q
            obsBuffer := loan.buffer.address }, [.forwarded obs])
  | releaseBuffer {r : Inference n} {p : BufferPool Scalar} {out : List (PoolAction Scalar)}
      (hpc : s.threads.worker = .releaseBuffer r)
      (h : s.tensorPool.step (fin 0) (.giveBack s.obsBuffer) = some (p, out)) :
      StepResult s .releaseBuffer ({ s with tensorPool := p }.setWorker .clearFlag, [])

variable {cfg env} {s : Pooled n H}

private theorem enqueueResult {wakes : Option (Fin 1)} {r : Pooled n H × List (Output n)}
    (h : s.enqueue wakes = some r) : StepResult cfg env s (.enqueue wakes) r := by
  unfold enqueue at h
  split at h
  next f hpc =>
    obtain ⟨⟨p, out⟩, hs, rfl⟩ := Option.map_eq_some_iff.mp h
    have hresult : ThreadPool.StepResult Brain.maxQueue s.inferencePool (.enqueue wakes) (p, out) :=
      ThreadPool.stepResult hs
    cases hresult with
    | rejected _ hfull => exact .rejected hpc hfull hs
    | accepted _ hroom hnotify => exact .accepted hpc hroom hs hnotify
  next => cases h

private theorem poolResult {r : Pooled n H × List (Output n)} (h : s.poolStep = some r) :
    StepResult cfg env s .pool r := by
  unfold poolStep at h
  split at h
  next hpc =>
    obtain ⟨⟨p, out⟩, hs, hr⟩ := Option.bind_eq_some_iff.mp h
    have hresult :
        ThreadPool.StepResult Brain.maxQueue s.inferencePool (.worker 0 false) (p, out) :=
      ThreadPool.stepResult hs
    cases hresult with
    | worker _ hworker =>
      cases hworker
      case take task rest htasks hawake =>
        obtain ⟨f, hf, rfl⟩ := Option.map_eq_some_iff.mp hr
        exact .taken hpc htasks hs rfl hf
      all_goals
        cases hr
        exact .moved hpc hs rfl rfl
  next => cases h

theorem stepResult {e : PooledEvent n} {r : Pooled n H × List (Output n)}
    (h : s.step cfg env e = some r) : StepResult cfg env s e r := by
  cases e with
  | access e =>
    simp only [step] at h
    split_ifs at h with hfree
    obtain ⟨r', hs, rfl⟩ := Option.map_eq_some_iff.mp h
    exact .access (Bool.eq_false_iff.mpr hfree) hs
  | enqueue wakes => exact enqueueResult h
  | pool => exact poolResult h
  | spurious =>
    obtain ⟨⟨p, out⟩, hs, rfl⟩ := Option.map_eq_some_iff.mp h
    cases ThreadPool.stepResult hs with
    | spurious hwaiting => exact .spurious hwaiting hs
  | forward throws fresh =>
    simp only [step, forward] at h
    split at h
    next f hpc =>
      obtain ⟨⟨p, out⟩, hs, hr⟩ := Option.bind_eq_some_iff.mp h
      dsimp only at hr
      split at hr
      next loan =>
        obtain ⟨⟨q, out⟩, hw, rfl⟩ := Option.map_eq_some_iff.mp hr
        exact .forward hpc hs rfl hw
      next => cases hr
    next => cases h
  | releaseBuffer =>
    simp only [step, releaseBuffer] at h
    split at h
    next r hpc =>
      obtain ⟨⟨p, out⟩, hs, rfl⟩ := Option.map_eq_some_iff.mp h
      exact .releaseBuffer hpc hs
    next => cases h

end Results

end Pooled

/-- The brain with its pools as a machine, started at the time `now`. -/
def pooled (cfg : BrainConfig n) (env : Environment n H) (now : ℤ) :
    Machine (Pooled n H) (PooledEvent n) (Output n) where
  init := Pooled.initial cfg env now
  step s e := s.step cfg env e

namespace Pooled

variable {cfg : BrainConfig n} {env : Environment n H} {now : ℤ} {es : List (PooledEvent n)}
  {s : Pooled n H} {tr : List (Output n)}

/-! ### The pools go through runs of their own -/

theorem exists_run_inferencePool (h : (pooled cfg env now).Run es s tr) :
    ∃ ks out, (threadPool 1 Brain.maxQueue).Run ks s.inferencePool out := by
  refine h.invariant
    (fun s _ => ∃ ks out, (threadPool 1 Brain.maxQueue).Run ks s.inferencePool out)
    ⟨[], [], .init⟩ ?_
  rintro es s tr e s' out - ⟨ks, out', hrun⟩ - hs
  have hpool {k : PoolEvent 1} {p : ThreadPool 1} {out : List (PoolOutput 1)}
      (h : s.inferencePool.step Brain.maxQueue k = some (p, out)) :
      ∃ ks out, (threadPool 1 Brain.maxQueue).Run ks p out :=
    ⟨_, _, hrun.step trivial h⟩
  cases stepResult hs with
  | access | forward | releaseBuffer => exact ⟨ks, out', hrun⟩
  | accepted _ _ h | rejected _ _ h | taken _ _ h | moved _ h | spurious _ h => exact hpool h

theorem exists_run_tensorPool (h : (pooled cfg env now).Run es s tr) :
    ∃ ks out, (bufferPool (fin 0) [0, 1, 2] cfg.obsDim).Run ks s.tensorPool out := by
  refine h.invariant
    (fun s _ => ∃ ks out, (bufferPool (fin 0) [0, 1, 2] cfg.obsDim).Run ks s.tensorPool out)
    ⟨[], [], .init⟩ ?_
  rintro es s tr e s' out - ⟨ks, out', hrun⟩ - hs
  have hpool {ks : List (PoolCall Scalar)} {q p : BufferPool Scalar}
      {out out' : List (PoolAction Scalar)} {k : PoolCall Scalar}
      (hrun : (bufferPool (fin 0) [0, 1, 2] cfg.obsDim).Run ks q out')
      (h : q.step (fin 0) k = some (p, out)) :
      (bufferPool (fin 0) [0, 1, 2] cfg.obsDim).Run (ks ++ [k]) p (out' ++ out) :=
    hrun.step trivial h
  cases stepResult hs with
  | access | accepted | rejected | taken | moved | spurious => exact ⟨ks, out', hrun⟩
  | forward _ hacquire _ hwrite => exact ⟨_, _, hpool (hpool hrun hacquire) hwrite⟩
  | releaseBuffer _ h => exact ⟨_, _, hpool hrun h⟩

/-! ### How the pools and the threads fit together -/

/-- Every call of `enqueue` has left a closure; while a closure runs, the worker of the pool runs
its task; and the buffer that the closure has borrowed, which holds its observation, is the only
one on loan. -/
structure PoolsInv (s : Pooled n H) : Prop where
  calls : s.closures.length = s.inferencePool.calls
  busy : s.threads.worker.running = true → ∃ task, s.inferencePool.workers 0 = .running task
  loans : s.tensorPool.loans =
    s.threads.worker.loan.toList.map fun r => ⟨⟨s.obsBuffer, r.obs⟩, r.pooled⟩

/-- An access that is none to a pool neither starts a closure nor touches its loan. -/
theorem worker_of_access {t : Threads n H} {e : ThreadEvent n} {r : Threads n H × List (Output n)}
    (hfree : t.usesPool e = false) (h : t.step cfg env e = some r) :
    (r.1.worker.running = true → t.worker.running = true) ∧ r.1.worker.loan = t.worker.loan := by
  cases Threads.stepResult h with
  | call | rpc | tick | control => exact ⟨id, rfl⟩
  | dequeue => cases hfree
  | worker hresult =>
    refine ⟨fun _ => hresult.gate.1, ?_⟩
    obtain ⟨b, rpc, control, pc⟩ := t
    cases hresult
    case forward | forwardThrew | releaseBuffer => cases hfree
    all_goals rfl

theorem loan_forwarded (env : Environment n H) (throws : Bool) (r : Inference n)
    (t : Threads n H) : (t.forwarded env throws r).worker.loan = some r := by
  cases throws <;> rfl

/-- A closure borrows a buffer, writes its observation into it, and holds the only loan. -/
theorem loans_forward {p q r : BufferPool Scalar} {fresh : ℕ} {loan : Loan Scalar}
    {obs : List Scalar} {out : List (PoolAction Scalar)} (hnone : p.loans = [])
    (hacquire : p.step (fin 0) (.acquire fresh) = some (q, [.lent loan]))
    (hwrite : q.step (fin 0) (.write loan.buffer.address obs) = some (r, out)) :
    r.loans = [⟨⟨loan.buffer.address, obs⟩, loan.pooled⟩] := by
  have hloans : q.loans = [loan] := by
    cases BufferPool.stepResult hacquire <;> exact congrArg (_ :: ·) hnone
  cases BufferPool.stepResult hwrite with
  | written =>
    rw [hloans, List.map_singleton, Loan.write, if_pos rfl]

/-- The only loan ends. -/
theorem loans_giveBack {p q : BufferPool Scalar} {loan : Loan Scalar}
    {out : List (PoolAction Scalar)} (hone : p.loans = [loan])
    (h : p.step (fin 0) (.giveBack loan.buffer.address) = some (q, out)) : q.loans = [] := by
  generalize he : (.giveBack loan.buffer.address : PoolCall Scalar) = e at h
  cases BufferPool.stepResult h with
  | lent | temporary | written => cases he
  | @returned before after loan' hloans | @freed before after loan' hloans =>
    rw [hone] at hloans
    rcases List.singleton_eq_append_iff.mp hloans with ⟨rfl, hafter⟩ | ⟨-, hafter⟩
    · exact (List.cons.inj hafter).2
    · cases hafter

theorem PoolsInv.step (hI : s.PoolsInv) {e : PooledEvent n} {r : Pooled n H × List (Output n)}
    (h : StepResult cfg env s e r) : r.1.PoolsInv := by
  obtain ⟨hcalls, hbusy, hloans⟩ := hI
  cases h with
  | access hfree h =>
    obtain ⟨hrunning, hloan⟩ := worker_of_access hfree h
    exact ⟨hcalls, fun hr => hbusy (hrunning hr), hloans.trans (by rw [hloan])⟩
  | accepted hpc hroom h hnotify =>
    have hlength : ∀ f : Frame n, (s.closures ++ [f]).length = s.inferencePool.calls + 1 :=
      fun f => List.length_append.trans (congrArg (· + 1) hcalls)
    rcases ThreadPool.notifyOne_cases hnotify with rfl | ⟨i, hwaiting, rfl⟩
    · exact ⟨hlength _, hbusy, hloans⟩
    · refine ⟨hlength _, fun hr => ?_, hloans⟩
      obtain ⟨task, htask⟩ := hbusy hr
      rw [Subsingleton.elim i 0] at hwaiting
      cases htask.symm.trans hwaiting
  | rejected => exact ⟨List.length_append.trans (congrArg (· + 1) hcalls), hbusy, hloans⟩
  | taken hpc _ _ hp =>
    rw [hpc] at hloans
    subst hp
    exact ⟨hcalls, fun _ => ⟨_, ThreadPool.setWorker_workers_self ..⟩, hloans⟩
  | moved hpc _ _ hp =>
    refine ⟨hcalls.trans hp.symm, fun hr => ?_, hloans⟩
    have hrunning : s.threads.worker.running = true := hr
    rw [hpc] at hrunning
    cases hrunning
  | spurious hwaiting =>
    refine ⟨hcalls, fun hr => ?_, hloans⟩
    obtain ⟨task, htask⟩ := hbusy hr
    cases htask.symm.trans hwaiting
  | @forward throws fresh f p q loan obs out hpc hacquire _ hwrite =>
    rw [hpc] at hloans hbusy
    refine ⟨hcalls, fun _ => hbusy rfl, ?_⟩
    rw [loan_forwarded]
    exact loans_forward hloans hacquire hwrite
  | releaseBuffer hpc h =>
    rw [hpc] at hloans hbusy
    exact ⟨hcalls, fun _ => hbusy rfl, loans_giveBack hloans h⟩

theorem poolsInv_of_run (h : (pooled cfg env now).Run es s tr) : s.PoolsInv := by
  refine h.invariant (fun s _ => s.PoolsInv) ⟨rfl, fun hr => (by cases hr), rfl⟩ ?_
  intro es s tr e s' out _ hI _ hs
  exact hI.step (stepResult hs)

/-- The tasks in the queue of the pool have closures. -/
theorem exists_closure (h : (pooled cfg env now).Run es s tr) {task : ℕ}
    (htask : task ∈ s.inferencePool.tasks) : ∃ f, s.closures[task]? = some f := by
  obtain ⟨ks, out, hrun⟩ := exists_run_inferencePool h
  have hQ := ThreadPool.queueInv_of_reaches hrun
  have hmem : task ∈ accepted out := hQ.fifo ▸ List.mem_append_right _ htask
  have hlt : task < s.closures.length := by
    rw [(poolsInv_of_run h).calls]
    exact hQ.numbered task (List.mem_append_left _ hmem)
  exact ⟨_, List.getElem?_eq_getElem hlt⟩

end Pooled

end RobotBrain
