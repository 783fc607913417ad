import RobotBrain.Brain.Pools

/-!
# The brain does not see its pools

With its pools the brain does what it does with a queue and a stack: the machine `pooled` has the
same traces as `threads`. A state of it stands for the threads with the closures of the tasks in the
queue and the contents of the buffers in the pool; what the worker of the pool does between its
closures is not seen, except for the step in which it takes a task. The other way round, each access
of the threads is one of `pooled`, or some steps of the worker of the pool.

## Main definitions

* `Pooled.abstract` — the threads that a state stands for.
* `Pooled.Prompt` — the worker of the pool is at the top of its loop or in a closure.

## Main results

* `Pooled.exists_run_threads`, `Pooled.exists_run_pooled` — the two directions.
* `pooled_traces_iff` — the traces are the same.
-/

namespace RobotBrain

open ExtNum

variable {n : ℕ} {H : Type*} {cfg : BrainConfig n} {env : Environment n H}

/-- The threads with other contents of the queue and of the buffer pool. -/
def Threads.withPools (queue : List (Frame n)) (buffers : List (List Scalar)) (t : Threads n H) :
    Threads n H :=
  { t with brain := { t.brain with inferenceQueue := queue, tensorPool := buffers } }

/-- An access that is none to a pool does not depend on the pools. -/
theorem Threads.step_withPools {t : Threads n H} {e : ThreadEvent n}
    (hfree : t.usesPool e = false) (queue : List (Frame n)) (buffers : List (List Scalar)) :
    (t.withPools queue buffers).step cfg env e =
      (t.step cfg env e).map fun r => (r.1.withPools queue buffers, r.2) := by
  obtain ⟨b, rpc, control, worker⟩ := t
  cases e with
  | call task => cases rpc <;> rfl
  | rpc now => cases rpc <;> rfl
  | tick now => cases control <;> rfl
  | dequeue => cases hfree
  | control prop =>
    cases control
    case enqueue => cases hfree
    case loadHeartbeat now =>
      show ite (b.HeartbeatExpired cfg now) _ _ =
        Option.map _ (ite (b.HeartbeatExpired cfg now) _ _)
      split_ifs <;> rfl
    case acquireGate =>
      show ite (b.isInferring = true) _ _ = Option.map _ (ite (b.isInferring = true) _ _)
      split_ifs <;> rfl
    case readProprioception =>
      show ite (prop.valid = true) _ _ = Option.map _ (ite (prop.valid = true) _ _)
      by_cases hvalid : prop.valid = true
      · rw [if_pos hvalid, if_pos hvalid]
        rfl
      · rw [if_neg hvalid, if_neg hvalid]
        rfl
    all_goals rfl
  | worker throws now =>
    cases worker
    case forward | releaseBuffer => cases hfree
    case publish => cases throws <;> rfl
    all_goals rfl

namespace Pooled

variable {now : ℤ} {es : List (PooledEvent n)} {s : Pooled n H} {tr : List (Output n)}

/-- The frames of the closures in the queue. -/
def queue (s : Pooled n H) : List (Frame n) :=
  s.inferencePool.tasks.filterMap (s.closures[·]?)

/-- The contents of the buffers in the pool. -/
def buffers (s : Pooled n H) : List (List Scalar) :=
  s.tensorPool.pool.map Buffer.data

/-- The threads that a state stands for. -/
def abstract (s : Pooled n H) : Threads n H :=
  s.threads.withPools s.queue s.buffers

theorem abstract_of_queue {q : List (Frame n)} (hq : s.queue = q) :
    s.abstract = s.threads.withPools q s.buffers :=
  congrArg (s.threads.withPools · s.buffers) hq

theorem length_queue (h : (pooled cfg env now).Run es s tr) :
    s.queue.length = s.inferencePool.tasks.length := by
  refine List.filterMap_length_eq_length.mpr fun task htask => ?_
  obtain ⟨f, hf⟩ := exists_closure h htask
  rw [hf]
  rfl

/-- Another call of `enqueue` leaves the closures of the tasks in the queue as they are. -/
theorem filterMap_append_closure (h : (pooled cfg env now).Run es s tr) (f : Frame n) :
    s.inferencePool.tasks.filterMap ((s.closures ++ [f])[·]?) = s.queue := by
  refine List.filterMap_congr fun task htask => ?_
  obtain ⟨g, hg⟩ := exists_closure h htask
  rw [hg]
  exact List.getElem?_append_left (List.getElem?_eq_some_iff.mp hg).1 ▸ hg

/-- The closure of an accepted call is the last one in the queue. -/
theorem filterMap_emplace (h : (pooled cfg env now).Run es s tr) (f : Frame n) :
    s.inferencePool.emplace.tasks.filterMap ((s.closures ++ [f])[·]?) = s.queue ++ [f] := by
  have hlast : (s.closures ++ [f])[s.inferencePool.calls]? = some f := by
    rw [← (poolsInv_of_run h).calls, List.getElem?_concat_length]
  rw [ThreadPool.emplace, List.filterMap_append, filterMap_append_closure h, List.filterMap_cons,
    hlast, List.filterMap_nil]

/-! ### The threads do nothing else -/

/-- The brain's model of the buffer pool lends the same buffer. -/
theorem acquireBuffer_abstract (h : (pooled cfg env now).Run es s tr) {fresh : ℕ}
    {loan : Loan Scalar} {p : BufferPool Scalar}
    (hacquire : s.tensorPool.step (fin 0) (.acquire fresh) = some (p, [.lent loan])) :
    s.abstract.brain.acquireBuffer cfg = (loan.buffer.data, loan.pooled,
      { s.abstract.brain with tensorPool := p.pool.map Buffer.data }) := by
  obtain ⟨ks, out, hrun⟩ := exists_run_tensorPool h
  have hI := BufferPool.conserved_of_reaches (by decide) hrun
  obtain ⟨loan', hr, hdata, hpooled, hpool⟩ := BufferPool.acquire_tensorPool
    (b := s.abstract.brain) rfl hI.elementSize hacquire
  cases hr
  rw [← hdata, ← hpooled, ← hpool]
  unfold Brain.acquireBuffer
  split <;> rfl

/-- The pool finds the loan of the closure. -/
theorem find?_loan (h : (pooled cfg env now).Run es s tr) {r : Inference n}
    (hpc : s.threads.worker = .releaseBuffer r) :
    s.tensorPool.alive = true ∧ (s.tensorPool.loans.find? fun l => l.buffer.address = s.obsBuffer) =
      some ⟨⟨s.obsBuffer, r.obs⟩, r.pooled⟩ := by
  obtain ⟨ks, acts, hrun⟩ := exists_run_tensorPool h
  have hI := BufferPool.conserved_of_reaches (by decide) hrun
  have hmem : ⟨⟨s.obsBuffer, r.obs⟩, r.pooled⟩ ∈ s.tensorPool.loans := by
    rw [(poolsInv_of_run h).loans, hpc]
    exact List.mem_cons_self
  exact ⟨hI.alive, hI.find?_eq hmem⟩

/-- The brain's model of the buffer pool takes the same buffer back. -/
theorem releaseBuffer_abstract (h : (pooled cfg env now).Run es s tr) {r : Inference n}
    (hpc : s.threads.worker = .releaseBuffer r) {p : BufferPool Scalar}
    {out : List (PoolAction Scalar)}
    (hs : s.tensorPool.step (fin 0) (.giveBack s.obsBuffer) = some (p, out)) :
    s.abstract.brain.releaseBuffer r.obs r.pooled =
      { s.abstract.brain with tensorPool := p.pool.map Buffer.data } := by
  obtain ⟨halive, hfind⟩ := find?_loan h hpc
  let loan : Loan Scalar := ⟨⟨s.obsBuffer, r.obs⟩, r.pooled⟩
  have hgive : s.tensorPool.giveBack loan.buffer.address = some (p, out) := hs
  have hpool : (s.abstract.brain.releaseBuffer r.obs r.pooled).tensorPool =
      p.pool.map Buffer.data :=
    BufferPool.giveBack_tensorPool (b := s.abstract.brain) rfl halive hfind hgive
  rw [← hpool]
  unfold Brain.releaseBuffer
  split <;> rfl

/-- Writing to a buffer on loan does not change the buffers in the pool. -/
theorem pool_write {p q : BufferPool Scalar} {address : ℕ} {data : List Scalar}
    {out : List (PoolAction Scalar)} (h : p.step (fin 0) (.write address data) = some (q, out)) :
    q.pool = p.pool := by
  cases BufferPool.stepResult h
  rfl

/-- The access of the threads that an input of `pooled` is, apart from the steps of the worker of
the pool. -/
def IsAccess : PooledEvent n → ThreadEvent n → Prop
  | .access e, e' => e' = e
  | .enqueue _, .control _ => True
  | .forward throws _, .worker throws' _ => throws' = throws
  | .releaseBuffer, .worker _ _ => True
  | _, _ => False

/-- The threads take the same step. -/
theorem step_abstract (h : (pooled cfg env now).Run es s tr) {e : PooledEvent n}
    {r : Pooled n H × List (Output n)} (hr : StepResult cfg env s e r) {e' : ThreadEvent n}
    (he : IsAccess e e') : s.abstract.step cfg env e' = some (r.1.abstract, r.2) := by
  cases hr with
  | @access e r hfree hs =>
    obtain rfl : e' = e := he
    rw [abstract, Threads.step_withPools hfree, hs]
    rfl
  | @accepted wakes f p hpc hroom _ hnotify =>
    have htasks : p.tasks = s.inferencePool.emplace.tasks := by
      rcases ThreadPool.notifyOne_cases hnotify with rfl | ⟨i, -, rfl⟩ <;> rfl
    have hqueue : queue ({ s with
        inferencePool := p, closures := s.closures ++ [f] }.setControl .idle) = s.queue ++ [f] :=
      (congrArg (List.filterMap _) htasks).trans (filterMap_emplace h f)
    have hlen : s.abstract.brain.inferenceQueue.length < Brain.maxQueue :=
      (length_queue h).trans_lt hroom
    cases e' with
    | control prop =>
      simp only [Threads.step, Threads.controlStep, show s.abstract.control = .enqueue f from hpc,
        if_pos hlen, abstract_of_queue hqueue]
      rfl
    | call | rpc | tick | dequeue | worker => exact he.elim
  | @rejected wakes f hpc hfull =>
    have hqueue : queue ({ s with
        inferencePool := s.inferencePool.refuse
        closures := s.closures ++ [f] }.setControl .releaseGateFull) = s.queue :=
      filterMap_append_closure h f
    have hlen : ¬s.abstract.brain.inferenceQueue.length < Brain.maxQueue :=
      not_lt.mpr (hfull.trans_eq (length_queue h).symm)
    cases e' with
    | control prop =>
      simp only [Threads.step, Threads.controlStep, show s.abstract.control = .enqueue f from hpc,
        if_neg hlen, abstract_of_queue hqueue]
      rfl
    | call | rpc | tick | dequeue | worker => exact he.elim
  | taken | moved | spurious => exact he.elim
  | @forward throws fresh f p q loan obs out hpc hacquire hobs hwrite =>
    subst hobs
    cases e' with
    | worker throws' clock =>
      obtain rfl : throws' = throws := he
      simp only [Threads.step, Threads.workerStep, show s.abstract.worker = .forward f from hpc,
        acquireBuffer_abstract h hacquire, ← pool_write hwrite]
      cases throws' <;> rfl
    | call | rpc | tick | dequeue | control => exact he.elim
  | @releaseBuffer r p out hpc hs =>
    cases e' with
    | worker throws clock =>
      simp only [Threads.step, Threads.workerStep,
        show s.abstract.worker = .releaseBuffer r from hpc, releaseBuffer_abstract h hpc hs]
      rfl
    | call | rpc | tick | dequeue | control => exact he.elim

/-- A step of the worker in its loop is not seen, or is the one in which it takes a closure. -/
theorem pool_abstract {r : Pooled n H × List (Output n)} (hr : StepResult cfg env s .pool r) :
    r.2 = [] ∧ (r.1.abstract = s.abstract ∨
      s.abstract.step cfg env .dequeue = some (r.1.abstract, [])) := by
  cases hr with
  | @taken task rest f p hpc htasks _ hp hf =>
    subst hp
    have hqueue : s.queue = f :: rest.filterMap (s.closures[·]?) := by
      rw [queue, htasks, List.filterMap_cons, hf]
    refine ⟨rfl, Or.inr ?_⟩
    simp only [Threads.step, show s.abstract.worker = .idle from hpc,
      show s.abstract.brain.inferenceQueue = _ from hqueue]
    rfl
  | @moved p out _ _ htasks =>
    have hqueue : queue { s with inferencePool := p } = s.queue :=
      congrArg (List.filterMap _) htasks
    exact ⟨rfl, Or.inl (abstract_of_queue hqueue)⟩

/-- The threads take the same step, or none if only the worker of the pool has moved. -/
theorem leads_abstract (h : (pooled cfg env now).Run es s tr) {e : PooledEvent n}
    {r : Pooled n H × List (Output n)} (hr : StepResult cfg env s e r) :
    (RobotBrain.threads cfg env now).Leads s.abstract r.1.abstract r.2 := by
  have haccess {k : ThreadEvent n} (he : IsAccess e k) :
      (RobotBrain.threads cfg env now).Leads s.abstract r.1.abstract r.2 :=
    Machine.leads_of_step (e := k) (step_abstract h hr he)
  cases e with
  | access e => exact haccess (k := e) rfl
  | enqueue => exact haccess (k := .control (upright cfg)) trivial
  | forward throws => exact haccess (k := .worker throws 0) rfl
  | releaseBuffer => exact haccess (k := .worker false 0) trivial
  | spurious =>
    cases hr
    exact ⟨[], rfl⟩
  | pool =>
    obtain ⟨hout, hsame | hdequeue⟩ := pool_abstract hr
    · rw [hout, hsame]
      exact ⟨[], rfl⟩
    · rw [hout]
      exact Machine.leads_of_step (e := ThreadEvent.dequeue) hdequeue

theorem exists_run_threads (h : (pooled cfg env now).Run es s tr) :
    ∃ ks, (RobotBrain.threads cfg env now).Run ks s.abstract tr := by
  induction h with
  | init => exact ⟨[], .init⟩
  | step h _ hs ih =>
    obtain ⟨ks, hrun⟩ := ih
    obtain ⟨ks', hfollow⟩ := leads_abstract h (stepResult hs)
    exact ⟨ks ++ ks', hrun.follow hfollow⟩

/-! ### The threads do all of it -/

/-- The mutex of the inference pool is free, and its worker is at the top of its loop when no
closure runs. -/
structure Prompt (s : Pooled n H) : Prop where
  mutex : s.inferencePool.mutex = none
  ready : s.threads.worker = .idle → s.inferencePool.workers 0 = .ready

/-- A step of the worker of the pool that takes no task. -/
theorem leads_of_silent (hpc : s.threads.worker = .idle) {p : ThreadPool 1}
    {out : List (PoolOutput 1)} (hs : s.inferencePool.workerStep 0 false = some (p, out))
    (hout : ∀ i task, out ≠ [.taken i task]) :
    (pooled cfg env now).Leads s { s with inferencePool := p } [] := by
  refine Machine.leads_of_step (e := .pool) ?_
  show s.poolStep = _
  simp only [poolStep, hpc, hs, Option.bind_some]

/-- When a closure has returned, the worker sets its promise and goes back to the top of its
loop. -/
theorem exists_prompt_of_returned (h : (pooled cfg env now).Run es s tr)
    (hpc : s.threads.worker = .idle) (hmutex : s.inferencePool.mutex = none) {task : ℕ}
    (htask : s.inferencePool.workers 0 = .running task) :
    ∃ s', (pooled cfg env now).Leads s s' [] ∧ s'.Prompt ∧ s'.abstract = s.abstract := by
  obtain ⟨ks, out, hrun⟩ := exists_run_inferencePool h
  have hpending : s.inferencePool.promises task = .pending :=
    (ThreadPool.queueInv_of_reaches hrun).pending_of_held (congrArg PoolWorker.task htask)
  obtain ⟨p, hran, hsettled⟩ := ThreadPool.workerSteps_settle htask hpending false
  have hfirst : (pooled cfg env now).Leads s { s with inferencePool := p } [] :=
    leads_of_silent hpc hran fun i task h => (by cases h)
  let p' := (s.inferencePool.setPromise task (.ofOutcome false)).setWorker 0 .ready
  have hsecond : (pooled cfg env now).Leads { s with inferencePool := p }
      { s with inferencePool := p' } [] :=
    leads_of_silent (s := { s with inferencePool := p }) hpc hsettled fun i task h => (by cases h)
  refine ⟨_, hfirst.trans hsecond, ⟨hmutex, fun _ => ?_⟩, rfl⟩
  exact ThreadPool.setWorker_workers_self ..

/-- The worker at the top of its loop takes the first task of the queue. -/
theorem exists_prompt_of_queue (h : (pooled cfg env now).Run es s tr) (hP : s.Prompt)
    (hpc : s.threads.worker = .idle) {f : Frame n} {q : List (Frame n)}
    (hqueue : s.queue = f :: q) :
    ∃ s', (pooled cfg env now).Leads s s' [] ∧ s'.Prompt ∧
      s'.abstract =
        { s.abstract with brain := s.abstract.brain.dequeue q, worker := .forward f } := by
  cases htasks : s.inferencePool.tasks with
  | nil =>
    rw [queue, htasks] at hqueue
    cases hqueue
  | cons task rest =>
    obtain ⟨g, hg⟩ := exists_closure h (htasks ▸ List.mem_cons_self)
    rw [queue, htasks, List.filterMap_cons, hg] at hqueue
    obtain ⟨rfl, rfl⟩ := List.cons.inj hqueue
    obtain ⟨p₁, p₂, hlock, hfound, htake⟩ :=
      ThreadPool.workerSteps_take hP.mutex (hP.ready hpc) htasks false
    have hfirst : (pooled cfg env now).Leads s { s with inferencePool := p₁ } [] :=
      leads_of_silent hpc hlock fun i task h => (by cases h)
    have hsecond : (pooled cfg env now).Leads { s with inferencePool := p₁ }
        { s with inferencePool := p₂ } [] :=
      leads_of_silent (s := { s with inferencePool := p₁ }) hpc hfound fun i task h => (by cases h)
    let p₃ := { s.inferencePool with tasks := rest }.setWorker 0 (.running task)
    have hthird : (pooled cfg env now).Leads { s with inferencePool := p₂ }
        ({ s with inferencePool := p₃ }.setWorker (.forward g)) [] := by
      refine Machine.leads_of_step (e := .pool) ?_
      show Pooled.poolStep _ = _
      simp only [poolStep, hpc, htake, hg, Option.bind_some, Option.map_some]
      rfl
    exact ⟨_, hfirst.trans (hsecond.trans hthird), ⟨hP.mutex, fun h => (by cases h)⟩, rfl⟩

/-- A full pool of buffers lends one of them. -/
theorem exists_acquire (h : (pooled cfg env now).Run es s tr) (hnone : s.tensorPool.loans = []) :
    ∃ p loan, s.tensorPool.step (fin 0) (.acquire 0) = some (p, [.lent loan]) ∧
      loan ∈ p.loans := by
  obtain ⟨ks, out, hrun⟩ := exists_run_tensorPool h
  have hlength := (BufferPool.conserved_of_reaches (by decide) hrun).owned.length_eq
  rw [BufferPool.owned, BufferPool.ownedLoans, hnone] at hlength
  cases hpool : s.tensorPool.pool with
  | nil =>
    rw [hpool] at hlength
    cases hlength
  | cons buffer rest =>
    refine ⟨{ s.tensorPool with pool := rest }.lend ⟨buffer, true⟩, ⟨buffer, true⟩, ?_,
      List.mem_cons_self⟩
    simp only [BufferPool.step, BufferPool.acquire, hpool]

/-- The worker of the pool does not sleep. -/
theorem Prompt.workers_ne_waiting (hP : s.Prompt) (hI : s.PoolsInv) :
    s.inferencePool.workers 0 ≠ .waiting := by
  intro hwaiting
  cases hpc : s.threads.worker with
  | idle => cases (hP.ready hpc).symm.trans hwaiting
  | _ =>
    obtain ⟨task, htask⟩ := hI.busy (hpc ▸ rfl)
    cases htask.symm.trans hwaiting

/-- If the mutex is free, the control thread can call `enqueue`, which moves only a worker that
sleeps. -/
theorem exists_enqueue {f : Frame n} (hpc : s.threads.control = .enqueue f)
    (hfree : s.inferencePool.mutex = none) : ∃ wakes, ∃ r : Pooled n H × List (Output n),
      s.enqueue wakes = some r ∧ r.1.inferencePool.mutex = none ∧
      (s.inferencePool.workers 0 ≠ .waiting →
        r.1.inferencePool.workers = s.inferencePool.workers) ∧
      r.1.threads.worker = s.threads.worker := by
  by_cases hfull : Brain.maxQueue ≤ s.inferencePool.tasks.length
  · have hs : s.inferencePool.enqueue Brain.maxQueue none =
        some (s.inferencePool.refuse, [.rejected s.inferencePool.calls]) := by
      simp only [ThreadPool.enqueue, hfree, if_pos hfull, if_true]
    let s' := { s with inferencePool := s.inferencePool.refuse, closures := s.closures ++ [f] }
    refine ⟨none, (s'.setControl .releaseGateFull, []), ?_, hfree, fun _ => rfl, rfl⟩
    simp only [enqueue, hpc, hs, Option.map_some]
    rfl
  obtain ⟨wakes, p, hnotify, hmutex, hworkers⟩ : ∃ wakes p,
      s.inferencePool.emplace.notifyOne wakes = some p ∧ p.mutex = none ∧
        (s.inferencePool.workers 0 ≠ .waiting → p.workers = s.inferencePool.workers) := by
    by_cases hwaiting : s.inferencePool.workers 0 = .waiting
    · exact ⟨some 0, _, if_pos hwaiting, hfree, absurd hwaiting⟩
    · refine ⟨none, _, if_pos fun i => ?_, hfree, fun _ => rfl⟩
      rwa [Subsingleton.elim i 0]
  have hs : s.inferencePool.enqueue Brain.maxQueue wakes =
      some (p, [.accepted s.inferencePool.calls]) := by
    simp only [ThreadPool.enqueue, hfree, if_neg hfull, hnotify, Option.map_some]
  let s' := { s with inferencePool := p, closures := s.closures ++ [f] }
  refine ⟨wakes, (s'.setControl .idle, [.captured f]), ?_, hmutex, hworkers, rfl⟩
  simp only [enqueue, hpc, hs, Option.map_some]
  rfl

/-- The closure can run to the end of `Forward`. -/
theorem exists_forward (h : (pooled cfg env now).Run es s tr) {f : Frame n}
    (hpc : s.threads.worker = .forward f) (throws : Bool) :
    ∃ r, s.forward cfg env throws 0 = some r ∧ r.1.inferencePool = s.inferencePool ∧
      r.1.threads.worker ≠ .idle := by
  have hloans := (poolsInv_of_run h).loans
  rw [hpc] at hloans
  obtain ⟨p, loan, hacquire, hmem⟩ := exists_acquire h hloans
  have hacquire' : s.tensorPool.acquire (fin 0) 0 = some (p, [.lent loan]) := hacquire
  have hwrite (obs : List Scalar) : p.write loan.buffer.address obs = some
      ({ p with loans := p.loans.map (Loan.write loan.buffer.address obs) },
        [.written loan.buffer.address obs]) :=
    if_pos ⟨loan, hmem, rfl⟩
  simp only [forward, hpc, hacquire', hwrite, Option.bind_some, Option.map_some]
  refine ⟨_, rfl, rfl, fun hidle => ?_⟩
  cases throws <;> cases hidle

/-- The closure can let go of its buffer. -/
theorem exists_releaseBuffer (h : (pooled cfg env now).Run es s tr) {r : Inference n}
    (hpc : s.threads.worker = .releaseBuffer r) :
    ∃ r' : Pooled n H × List (Output n), s.releaseBuffer = some r' ∧
      r'.1.inferencePool = s.inferencePool ∧ r'.1.threads.worker ≠ .idle := by
  obtain ⟨-, hfind⟩ := find?_loan h hpc
  obtain ⟨q, hs⟩ : ∃ q, s.tensorPool.giveBack s.obsBuffer = some q := by
    simp only [BufferPool.giveBack, hfind]
    split_ifs <;> exact ⟨_, rfl⟩
  simp only [releaseBuffer, hpc, hs, Option.map_some]
  exact ⟨_, rfl, rfl, fun hidle => (by cases hidle)⟩

/-- A closure that has not returned leaves the worker of the pool alone. -/
theorem Prompt.of_running {s' : Pooled n H} (hP : s.Prompt)
    (hpool : s'.inferencePool = s.inferencePool) (hpc : s'.threads.worker ≠ .idle) : s'.Prompt :=
  ⟨hpool ▸ hP.mutex, fun hidle => absurd hidle hpc⟩

/-- Each access of the threads is one of `pooled`, or some steps of the worker of the pool. -/
theorem exists_prompt_step (h : (pooled cfg env now).Run es s tr) (hP : s.Prompt)
    {e : ThreadEvent n} {t : Threads n H} {out : List (Output n)}
    (hs : s.abstract.step cfg env e = some (t, out)) :
    ∃ s', (pooled cfg env now).Leads s s' out ∧ s'.Prompt ∧ s'.abstract = t := by
  have hI := poolsInv_of_run h
  have hsame {k : PooledEvent n} {r : Pooled n H × List (Output n)} (hk : IsAccess k e)
      (hr : s.step cfg env k = some r) :
      (pooled cfg env now).Leads s r.1 out ∧ r.1.abstract = t := by
    have heq := Option.some.inj ((step_abstract h (stepResult hr) hk).symm.trans hs)
    cases heq
    exact ⟨Machine.leads_of_step (e := k) hr, rfl⟩
  cases hfree : s.threads.usesPool e with
  | false =>
    obtain ⟨r, hr, -⟩ := Option.map_eq_some_iff.mp
      ((Threads.step_withPools hfree s.queue s.buffers).symm.trans hs)
    have hstep : s.step cfg env (.access e) = some ({ s with threads := r.1 }, r.2) := by
      simp only [step, hfree, Bool.false_eq_true, if_false, hr, Option.map_some]
    obtain ⟨hleads, habs⟩ := hsame (k := .access e) rfl hstep
    by_cases hreturned : r.1.worker = .idle ∧ s.threads.worker.running = true
    · obtain ⟨task, htask⟩ := hI.busy hreturned.2
      have hrun := h.step (e := PooledEvent.access e) trivial hstep
      obtain ⟨s', hleads', hP', habs'⟩ := exists_prompt_of_returned
        (s := { s with threads := r.1 }) hrun hreturned.1 hP.mutex htask
      exact ⟨s', hleads.trans_silent hleads', hP', habs'.trans habs⟩
    · refine ⟨_, hleads, ⟨hP.mutex, fun hidle => hP.ready ?_⟩, habs⟩
      cases hpc : s.threads.worker with
      | idle => rfl
      | _ => exact absurd ⟨hidle, hpc ▸ rfl⟩ hreturned
  | true =>
    cases e with
    | call | rpc | tick => cases hfree
    | control prop =>
      obtain ⟨f, hpc⟩ : ∃ f, s.threads.control = .enqueue f := by
        simp only [Threads.usesPool] at hfree
        split at hfree
        · exact ⟨_, ‹_›⟩
        · cases hfree
      obtain ⟨wakes, r, hr, hmutex, hworkers, hworker⟩ := exists_enqueue hpc hP.mutex
      obtain ⟨hleads, habs⟩ := hsame (k := .enqueue wakes) trivial hr
      refine ⟨r.1, hleads, ⟨hmutex, fun hidle => ?_⟩, habs⟩
      rw [hworkers (hP.workers_ne_waiting hI)]
      exact hP.ready (hworker ▸ hidle)
    | dequeue =>
      cases Threads.stepResult hs with
      | dequeue hpc hq => exact exists_prompt_of_queue h hP hpc hq
    | worker throws clock =>
      obtain ⟨f, hpc⟩ | ⟨r, hpc⟩ : (∃ f, s.threads.worker = .forward f) ∨
          ∃ r, s.threads.worker = .releaseBuffer r := by
        simp only [Threads.usesPool] at hfree
        split at hfree
        · exact Or.inl ⟨_, ‹_›⟩
        · exact Or.inr ⟨_, ‹_›⟩
        · cases hfree
      · obtain ⟨r, hr, hpool, hrunning⟩ := exists_forward h hpc throws
        obtain ⟨hleads, habs⟩ := hsame (k := .forward throws 0) rfl hr
        exact ⟨r.1, hleads, hP.of_running hpool hrunning, habs⟩
      · obtain ⟨r, hr, hpool, hrunning⟩ := exists_releaseBuffer h hpc
        obtain ⟨hleads, habs⟩ := hsame (k := .releaseBuffer) trivial hr
        exact ⟨r.1, hleads, hP.of_running hpool hrunning, habs⟩

theorem exists_run_pooled {ks : List (ThreadEvent n)} {t : Threads n H}
    (h : (RobotBrain.threads cfg env now).Run ks t tr) :
    ∃ es s, (pooled cfg env now).Run es s tr ∧ s.Prompt ∧ s.abstract = t := by
  induction h with
  | init => exact ⟨[], _, .init, ⟨rfl, fun _ => rfl⟩, rfl⟩
  | step _ _ hs ih =>
    obtain ⟨es, s, hrun, hP, rfl⟩ := ih
    obtain ⟨s', ⟨es', hfollow⟩, hP', habs⟩ := exists_prompt_step hrun hP hs
    exact ⟨es ++ es', s', hrun.follow hfollow, hP', habs⟩

end Pooled

/-- What can be seen of the brain with the thread pool and the buffer pool, under all interleavings
of the threads with the loop of the pool's worker, is exactly what can be seen of the threads when
the pools are a queue and a stack. -/
theorem pooled_traces_iff (cfg : BrainConfig n) (env : Environment n H) (now : ℤ)
    (tr : List (Output n)) :
    (∃ es s, (pooled cfg env now).Run es s tr) ↔ ∃ es s, (threads cfg env now).Run es s tr := by
  constructor
  · rintro ⟨es, s, h⟩
    obtain ⟨ks, hrun⟩ := Pooled.exists_run_threads h
    exact ⟨ks, _, hrun⟩
  · rintro ⟨es, t, h⟩
    obtain ⟨ks, s, hrun, -, -⟩ := Pooled.exists_run_pooled h
    exact ⟨ks, s, hrun⟩

end RobotBrain
