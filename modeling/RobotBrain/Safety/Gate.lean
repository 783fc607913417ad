import RobotBrain.Brain.Threads

/-!
# One frame in flight

The flag `is_inferring_` is a gate that the control thread takes and that the control thread or the
worker gives back. Its holders are the control thread between the successful exchange and the end of
its critical part, and each closure that is queued or runs. In every interleaving there is exactly
one holder while the flag is set and none while it is not, so that the queue and the buffer pool,
which are larger than one, are never exhausted. Every way out of a closure passes through the access
that clears the flag.

## Main definitions

* `ControlPc.holdsGate`, `Threads.inFlight` — the holders of the gate.
* `Threads.GateInv` — the flag counts them, and the buffer pool misses what is on loan.
* `Threads.drain` — the worker alone, until it has nothing to do.

## Main results

* `Threads.gateInv_of_reaches` — the invariant holds in every interleaving.
* `Threads.isInferring_drain` — the worker alone opens the gate, whatever throws.
-/

namespace RobotBrain

variable {n : ℕ} {H : Type*} {cfg : BrainConfig n} {env : Environment n H}

/-- The control thread is between a successful `compare_exchange` and the end of its critical
part. -/
def ControlPc.holdsGate : ControlPc n → Bool
  | .readProprioception .. | .resetHiddenState .. | .fillPrevActions .. | .resetJointTargets ..
  | .rampVelocity .. | .snapshot .. | .enqueue _ | .releaseGateFull | .releaseGate => true
  | _ => false

/-- The worker is in a closure and has not cleared the flag. -/
def WorkerPc.running : WorkerPc n → Bool
  | .idle => false
  | _ => true

/-- The loan that the worker holds from the buffer pool. -/
def WorkerPc.loan : WorkerPc n → Option (Inference n)
  | .idle | .forward _ | .clearFlag => none
  | .computeTargets r _ | .checkGeneration r _ _ | .applyRateLimit r _ _ | .publish r _ _
  | .feedDog r _ _ | .writeBackActions r _ _ | .writeBackTargets r _ _ | .countFrame r _
  | .countStale r | .releaseBuffer r => some r

/-- The accesses that the worker has left in its closure, at most. -/
def WorkerPc.remaining : WorkerPc n → ℕ
  | .idle => 0
  | .clearFlag => 1
  | .releaseBuffer _ => 2
  | .countFrame .. | .countStale _ => 3
  | .writeBackTargets .. => 4
  | .writeBackActions .. => 5
  | .feedDog .. => 6
  | .publish .. => 7
  | .applyRateLimit .. => 8
  | .checkGeneration .. => 9
  | .computeTargets .. => 10
  | .forward _ => 11

/-- The number of moves of the worker for one closure, at most. -/
def closureMoves : ℕ := 12

namespace Threads

/-- The closures that are queued or have not yet cleared the flag. -/
def inFlight (s : Threads n H) : ℕ :=
  s.brain.inferenceQueue.length + s.worker.running.toNat

/-- The flag counts the holders of the gate, and what the buffer pool misses is on loan. -/
structure GateInv (s : Threads n H) : Prop where
  gate : s.control.holdsGate.toNat + s.inFlight = s.brain.isInferring.toNat
  pool : s.brain.tensorPool.length + s.worker.loan.toList.length = 3
  pooled : ∀ r ∈ s.worker.loan, r.pooled = true
  room : s.control ≠ .releaseGateFull

/-! ### Who writes the flag, the queue and the pool -/

theorem RpcResult.gate {now : ℤ} {b b' : Brain n H} {pc pc' : RpcPc} {out : List (Output n)}
    (h : RpcResult cfg env now b pc b' pc' out) :
    b'.isInferring = b.isInferring ∧ b'.inferenceQueue = b.inferenceQueue ∧
      b'.tensorPool = b.tensorPool := by
  cases h <;> exact ⟨rfl, rfl, rfl⟩

/-- The control thread takes the gate when it is open, hands it to the closure that it enqueues or
gives it back; it does not find the queue full. -/
theorem ControlResult.gate {prop : Proprioception n} {b b' : Brain n H} {pc pc' : ControlPc n}
    {out : List (Output n)} (h : ControlResult cfg env prop b pc b' pc' out) {running : ℕ}
    (hgate : pc.holdsGate.toNat + (b.inferenceQueue.length + running) = b.isInferring.toNat)
    (hroom : pc ≠ .releaseGateFull) :
    pc'.holdsGate.toNat + (b'.inferenceQueue.length + running) = b'.isInferring.toNat ∧
      b'.tensorPool = b.tensorPool ∧ pc' ≠ .releaseGateFull := by
  have hone : b.isInferring.toNat ≤ 1 := Bool.toNat_le b.isInferring
  cases h
  case gateOpen now state hopen =>
    rw [hopen] at hgate
    refine ⟨?_, rfl, nofun⟩
    simp only [ControlPc.holdsGate, Bool.toNat_true, Bool.toNat_false] at hgate ⊢
    show 1 + (b.inferenceQueue.length + running) = 1
    omega
  case enqueued f hlen =>
    refine ⟨?_, rfl, nofun⟩
    show 0 + ((b.inferenceQueue ++ [f]).length + running) = b.isInferring.toNat
    rw [List.length_append, List.length_singleton, ← hgate]
    simp only [ControlPc.holdsGate, Bool.toNat_true]
    omega
  case full f hfull =>
    have hempty : b.inferenceQueue.length = 0 := by
      simp only [ControlPc.holdsGate, Bool.toNat_true] at hgate
      omega
    rw [hempty] at hfull
    exact absurd hfull (Nat.not_succ_le_zero 9)
  case releaseGateFull => exact absurd rfl hroom
  case releaseGate =>
    refine ⟨?_, rfl, nofun⟩
    simp only [ControlPc.holdsGate, Bool.toNat_true] at hgate
    show 0 + (b.inferenceQueue.length + running) = 0
    omega
  all_goals exact ⟨hgate, rfl, nofun⟩

/-- The worker leaves the queue alone and clears the flag only at the end of a closure, and each of
its accesses brings that end closer. -/
theorem WorkerResult.gate {now : ℤ} {b b' : Brain n H} {pc pc' : WorkerPc n}
    {out : List (Output n)} (h : WorkerResult cfg env now b pc b' pc' out) :
    pc.running = true ∧ b'.inferenceQueue = b.inferenceQueue ∧ pc'.remaining < pc.remaining ∧
      (pc'.running = true ∧ b'.isInferring = b.isInferring ∨
        pc' = .idle ∧ b'.isInferring = false) := by
  cases h
  case forward f | forwardThrew f =>
    rw [Brain.acquireBuffer_brain]
    exact ⟨rfl, rfl, by simp [WorkerPc.remaining], Or.inl ⟨rfl, rfl⟩⟩
  case releaseBuffer r =>
    rw [Brain.releaseBuffer_eq]
    exact ⟨rfl, rfl, by simp [WorkerPc.remaining], Or.inl ⟨rfl, rfl⟩⟩
  case clearFlag => exact ⟨rfl, rfl, by simp [WorkerPc.remaining], Or.inr ⟨rfl, rfl⟩⟩
  all_goals exact ⟨rfl, rfl, by simp [WorkerPc.remaining], Or.inl ⟨rfl, rfl⟩⟩

/-- The worker takes a buffer of the pool on loan and gives it back. -/
theorem WorkerResult.pool {now : ℤ} {b b' : Brain n H} {pc pc' : WorkerPc n}
    {out : List (Output n)} (h : WorkerResult cfg env now b pc b' pc' out)
    (hpool : b.tensorPool.length + pc.loan.toList.length = 3)
    (hpooled : ∀ r ∈ pc.loan, r.pooled = true) :
    b'.tensorPool.length + pc'.loan.toList.length = 3 ∧ ∀ r ∈ pc'.loan, r.pooled = true := by
  cases h
  case forward f | forwardThrew f =>
    -- the pool is full, since the worker holds no loan
    obtain ⟨buffer, pool, hcons⟩ : ∃ buffer pool, b.tensorPool = buffer :: pool := by
      cases hnil : b.tensorPool with
      | nil =>
        rw [hnil] at hpool
        cases hpool
      | cons buffer pool => exact ⟨buffer, pool, rfl⟩
    have hlen : pool.length + 1 = 3 := by
      rw [hcons] at hpool
      exact hpool
    simp only [Brain.acquireBuffer, hcons]
    refine ⟨hlen, ?_⟩
    rintro r ⟨⟩
    rfl
  case releaseBuffer r =>
    have hr : r.pooled = true := hpooled r rfl
    rw [Brain.releaseBuffer, if_pos hr]
    exact ⟨hpool, by rintro r ⟨⟩⟩
  case clearFlag => exact ⟨hpool, by rintro r ⟨⟩⟩
  all_goals exact ⟨hpool, hpooled⟩

/-! ### The invariant -/

theorem GateInv.step {s : Threads n H} {e : ThreadEvent n} {r : Threads n H × List (Output n)}
    (hI : s.GateInv) (h : StepResult cfg env s e r) : r.1.GateInv := by
  obtain ⟨hgate, hpool, hpooled, hroom⟩ := hI
  cases h with
  | call => exact ⟨hgate, hpool, hpooled, hroom⟩
  | rpc h =>
    obtain ⟨hflag, hqueue, hbuffers⟩ := h.gate
    refine ⟨?_, ?_, hpooled, hroom⟩
    · rw [inFlight, hflag, hqueue]
      exact hgate
    · rw [hbuffers]
      exact hpool
  | tick hpc =>
    rw [hpc] at hgate
    exact ⟨hgate, hpool, hpooled, nofun⟩
  | control h =>
    obtain ⟨hgate', hbuffers, hroom'⟩ := h.gate hgate hroom
    refine ⟨hgate', ?_, hpooled, hroom'⟩
    rw [hbuffers]
    exact hpool
  | @dequeue f q hpc hq =>
    rw [hpc] at hpool
    refine ⟨?_, hpool, by rintro r ⟨⟩, hroom⟩
    rw [inFlight, hq, hpc] at hgate
    exact hgate
  | worker h =>
    obtain ⟨hbusy, hqueue, -, hflag⟩ := h.gate
    obtain ⟨hpool', hpooled'⟩ := h.pool hpool hpooled
    refine ⟨?_, hpool', hpooled', hroom⟩
    have hone : s.brain.isInferring.toNat ≤ 1 := Bool.toNat_le _
    rw [inFlight, hbusy] at hgate
    rcases hflag with ⟨hbusy', hflag⟩ | ⟨hidle, hflag⟩
    · rw [inFlight, hqueue, hbusy', hflag]
      exact hgate
    · rw [inFlight, hqueue, hidle, hflag]
      simp only [WorkerPc.running, Bool.toNat_true, Bool.toNat_false] at hgate ⊢
      omega

theorem gateInv_of_reaches {now : ℤ} {ok : Threads n H → List (Output n) → ThreadEvent n → Prop}
    {es : List (ThreadEvent n)} {s : Threads n H} {tr : List (Output n)}
    (h : (threads cfg env now).Reaches ok es s tr) : s.GateInv := by
  refine h.invariant (fun s _ => s.GateInv) ⟨rfl, rfl, by rintro r ⟨⟩, nofun⟩ ?_
  intro es s tr e s' out _ hI _ hs
  exact hI.step (stepResult hs)

/-! ### The end of a closure -/

/-- The next move of the worker: to take a closure, or its next access. -/
def workerEvent (s : Threads n H) (throws : Bool) (now : ℤ) : ThreadEvent n :=
  match s.worker with
  | .idle => .dequeue
  | _ => .worker throws now

/-- The worker alone, until it has nothing to do; the choices say for each of its moves whether the
call throws, and the clock. -/
def drain (cfg : BrainConfig n) (env : Environment n H) :
    List (Bool × ℤ) → Threads n H → Threads n H
  | [], s => s
  | (throws, now) :: choices, s =>
    match s.step cfg env (s.workerEvent throws now) with
    | none => s
    | some (s', _) => drain cfg env choices s'

/-- The moves of the worker that are left, at most, if nothing more is enqueued. -/
def pending (s : Threads n H) : ℕ :=
  closureMoves * s.brain.inferenceQueue.length + s.worker.remaining

theorem GateInv.inFlight_le_one {s : Threads n H} (hI : s.GateInv) : s.inFlight ≤ 1 := by
  have hgate := hI.gate
  have hone : s.brain.isInferring.toNat ≤ 1 := Bool.toNat_le _
  omega

theorem GateInv.open_of_inFlight {s : Threads n H} (hI : s.GateInv)
    (hholds : s.control.holdsGate = false) (hflight : s.inFlight = 0) :
    s.brain.isInferring = false := by
  have hgate := hI.gate
  rw [hholds, hflight] at hgate
  exact Bool.toNat_eq_zero.mp hgate.symm

theorem inFlight_le_pending (s : Threads n H) : s.inFlight ≤ s.pending := by
  have hworker : s.worker.running.toNat ≤ s.worker.remaining := by
    cases s.worker <;> simp [WorkerPc.running, WorkerPc.remaining]
  rw [inFlight, pending, closureMoves]
  omega

theorem GateInv.pending_le {s : Threads n H} (hI : s.GateInv) : s.pending ≤ closureMoves := by
  have hone := hI.inFlight_le_one
  rw [inFlight] at hone
  rw [pending, closureMoves]
  by_cases hidle : s.worker = .idle
  · rw [hidle] at hone ⊢
    simp only [WorkerPc.running, WorkerPc.remaining, Bool.toNat_false] at hone ⊢
    omega
  · have hrunning : s.worker.running = true := by
      cases hpc : s.worker <;> first | rfl | exact absurd hpc hidle
    have hremaining : s.worker.remaining ≤ 11 := by
      cases s.worker <;> simp [WorkerPc.remaining]
    rw [hrunning, Bool.toNat_true] at hone
    omega

/-- A move of the worker brings the end of its work closer and leaves the other threads alone. -/
theorem StepResult.pending_lt {s : Threads n H} {throws : Bool} {now : ℤ}
    {r : Threads n H × List (Output n)}
    (h : StepResult cfg env s (s.workerEvent throws now) r) :
    r.1.control = s.control ∧ r.1.pending < s.pending := by
  generalize he : s.workerEvent throws now = e at h
  cases h with
  | @dequeue f q hpc hq =>
    refine ⟨rfl, ?_⟩
    rw [pending, pending, hq, hpc, List.length_cons, Nat.mul_succ]
    show closureMoves * q.length + 11 < _
    rw [closureMoves]
    omega
  | worker h =>
    obtain ⟨-, hqueue, hlt, -⟩ := h.gate
    refine ⟨rfl, ?_⟩
    rw [pending, pending, hqueue]
    exact Nat.add_lt_add_left hlt _
  | call | rpc | tick | control => cases hpc : s.worker <;> simp [workerEvent, hpc] at he

/-- The worker stops only when no closure is queued or running. -/
theorem inFlight_of_step_eq_none {s : Threads n H} {throws : Bool} {now : ℤ}
    (h : s.step cfg env (s.workerEvent throws now) = none) : s.inFlight = 0 := by
  cases hpc : s.worker with
  | idle =>
    rw [inFlight, hpc]
    cases hq : s.brain.inferenceQueue with
    | nil => rfl
    | cons f q => simp [workerEvent, step, hpc, hq] at h
  | forward => cases throws <;> simp [workerEvent, step, workerStep, hpc] at h
  | publish => cases throws <;> simp [workerEvent, step, workerStep, hpc] at h
  | _ => simp [workerEvent, step, workerStep, hpc] at h

/-- The worker alone takes the system to a state that the interleavings reach. -/
theorem leads_drain {start : ℤ} (choices : List (Bool × ℤ)) (s : Threads n H) :
    ∃ out, (threads cfg env start).Leads s (s.drain cfg env choices) out := by
  induction choices generalizing s with
  | nil => exact ⟨[], [], rfl⟩
  | cons choice choices ih =>
    obtain ⟨throws, now⟩ := choice
    unfold drain
    cases hs : s.step cfg env (s.workerEvent throws now) with
    | none => exact ⟨[], [], rfl⟩
    | some r =>
      obtain ⟨out, hleads⟩ := ih r.1
      have hmove : (threads cfg env start).Leads s r.1 r.2 :=
        ⟨[s.workerEvent throws now], by simp [Machine.follow, threads, hs]⟩
      exact ⟨r.2 ++ out, hmove.trans hleads⟩

/-- From a state in which the control thread does not hold the gate, the worker alone opens it,
whatever its calls throw. -/
theorem isInferring_drain {s : Threads n H} (hI : s.GateInv) (hholds : s.control.holdsGate = false)
    {choices : List (Bool × ℤ)} (hlen : s.pending ≤ choices.length) :
    (s.drain cfg env choices).brain.isInferring = false := by
  induction choices generalizing s with
  | nil =>
    have hflight := s.inFlight_le_pending
    rw [List.length_nil] at hlen
    exact hI.open_of_inFlight hholds (by omega)
  | cons choice choices ih =>
    obtain ⟨throws, now⟩ := choice
    unfold drain
    cases hs : s.step cfg env (s.workerEvent throws now) with
    | none => exact hI.open_of_inFlight hholds (inFlight_of_step_eq_none hs)
    | some r =>
      have hr := stepResult hs
      obtain ⟨hcontrol, hlt⟩ := hr.pending_lt
      rw [List.length_cons] at hlen
      refine ih (hI.step hr) ?_ (by omega)
      rw [hcontrol]
      exact hholds

end Threads

/-- In every interleaving `is_inferring_` is set exactly while the control thread is between its
successful exchange and the end of its critical part or one closure is queued or has not cleared the
flag, never both. So at most one closure is queued, none while another runs, the queue of the
inference pool has room for every frame, the buffer pool has a buffer for every closure, a tick that
finds the proprioception invalid leaves the gate open, one that finds no closure in flight acquires
it, and within `closureMoves` moves of the worker it is open, whatever its calls throw. -/
theorem single_frame_in_flight {start : ℤ} {es : List (ThreadEvent n)} {s : Threads n H}
    {tr : List (Output n)} (h : (threads cfg env start).Run es s tr) :
    (s.brain.isInferring = true ↔ s.control.holdsGate = true ∨ s.inFlight = 1) ∧
      ¬(s.control.holdsGate = true ∧ s.inFlight ≠ 0) ∧ s.inFlight ≤ 1 ∧
      s.brain.inferenceQueue.length ≤ 1 ∧
      (∀ f, s.control = .enqueue f → s.brain.inferenceQueue.length < Brain.maxQueue) ∧
      s.control ≠ .releaseGateFull ∧
      (∀ f, s.worker = .forward f → (s.brain.acquireBuffer cfg).2.1 = true) ∧
      (s.control = .releaseGate → ∀ prop, ∃ s', s.step cfg env (.control prop) = some (s', []) ∧
        s'.control = .idle ∧ s'.inFlight = 0 ∧ s'.brain.isInferring = false) ∧
      (∀ now state prop, s.control = .acquireGate now state → s.inFlight = 0 →
        s.step cfg env (.control prop) = some ({ s with
          brain := s.brain.setInferring true
          control := .readProprioception now state }, [])) ∧
      (s.control.holdsGate = false → ∀ choices : List (Bool × ℤ), closureMoves ≤ choices.length →
        (∃ out, (threads cfg env start).Leads s (s.drain cfg env choices) out) ∧
          (s.drain cfg env choices).brain.isInferring = false) := by
  have hI := Threads.gateInv_of_reaches h
  have hgate := hI.gate
  have hone := hI.inFlight_le_one
  have hflag : s.brain.isInferring.toNat ≤ 1 := Bool.toNat_le _
  have hqueue : s.brain.inferenceQueue.length ≤ s.inFlight := Nat.le_add_right _ _
  have hholds : s.control.holdsGate = true ↔ s.control.holdsGate.toNat = 1 :=
    Bool.toNat_eq_one.symm
  refine ⟨?_, ?_, hone, hqueue.trans hone, ?_, hI.room, ?_, ?_, ?_, ?_⟩
  · rw [hholds, ← Bool.toNat_eq_one]
    omega
  · rw [hholds]
    omega
  · intro f hpc
    rw [Brain.maxQueue]
    omega
  · intro f hpc
    have hpool := hI.pool
    rw [hpc] at hpool
    cases hbuffers : s.brain.tensorPool with
    | nil =>
      rw [hbuffers] at hpool
      cases hpool
    | cons buffer pool => simp only [Brain.acquireBuffer, hbuffers]
  · intro hpc prop
    refine ⟨{ s with brain := s.brain.setInferring false, control := .idle }, ?_, rfl, ?_, rfl⟩
    · simp only [Threads.step, Threads.controlStep, hpc]
    · rw [hpc] at hgate
      simp only [ControlPc.holdsGate, Bool.toNat_true] at hgate
      show s.inFlight = 0
      omega
  · intro now state prop hpc hflight
    have hopen : s.brain.isInferring = false :=
      hI.open_of_inFlight (by rw [hpc]; rfl) hflight
    simp only [Threads.step, Threads.controlStep, hpc, hopen, Bool.false_eq_true, if_false]
  · intro hfree choices hlen
    exact ⟨Threads.leads_drain choices s,
      Threads.isInferring_drain hI hfree (hI.pending_le.trans hlen)⟩

theorem single_frame_in_flight_shipped :
    ∃ s tr, (threads shippedConfig (constantPolicy 12 (.fin 0)) 0).Run
        (.tick 20 :: List.replicate 7 (.control (upright shippedConfig)) ++
          [.dequeue, .worker false 30]) s tr ∧
      s.brain.isInferring = true ∧ s.control.holdsGate = false ∧ s.inFlight = 1 ∧
      (s.drain shippedConfig (constantPolicy 12 (.fin 0))
        (List.replicate 12 (true, 40))).brain.isInferring = false := by
  have hrun : ∃ s tr, (threads shippedConfig (constantPolicy 12 (.fin 0)) 0).Run
      (.tick 20 :: List.replicate 7 (.control (upright shippedConfig)) ++
        [.dequeue, .worker false 30]) s tr ∧
      (s.brain.isInferring && !s.control.holdsGate) = true :=
    Machine.exists_reaches _ (by decide +kernel)
  obtain ⟨s, tr, hrun, hs⟩ := hrun
  obtain ⟨hflag, hfree⟩ := (Bool.and_eq_true _ _).mp hs
  rw [Bool.not_eq_true'] at hfree
  obtain ⟨hiff, -, -, -, -, -, -, -, -, hdrain⟩ := single_frame_in_flight hrun
  have hflight : s.inFlight = 1 := by
    rcases hiff.mp hflag with hholds | hflight
    · rw [hfree] at hholds
      cases hholds
    · exact hflight
  have hopen := (hdrain hfree (List.replicate 12 (true, 40)) (by simp [closureMoves])).2
  exact ⟨s, tr, hrun, hflag, hfree, hflight, hopen⟩

end RobotBrain
