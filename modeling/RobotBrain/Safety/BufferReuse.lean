import RobotBrain.Safety.Gate
import RobotBrain.Safety.ObservationLayout

/-!
# The reuse of buffers cannot be observed

An observation is written into a buffer of the pool, which still holds an observation of an earlier
frame. `BuildObservation` writes the same indices for every frame. Where it writes, the earlier
values are gone, and elsewhere no frame has ever written, so that the policy sees what it would see
of a new buffer. The assumption is that `Forward` only reads the buffer it is given, as the
`forward` of `Environment` does.

## Main definitions

* `BrainConfig.Clean` — a buffer that differs from a new one at the written indices only.

## Main results

* `writeAll_congr` — the result of writes depends on the buffer at the other indices only.
* `buffer_reuse` — every observation is the one that a new buffer would hold.
-/

namespace RobotBrain

open ExtNum

variable {n : ℕ} {H : Type*} {cfg : BrainConfig n} {env : Environment n H}

/-- Two buffers of one length that differ only where a value is written end up the same. -/
theorem writeAll_congr {writes : List (ℕ × Scalar)} {buffer buffer' : List Scalar}
    (hlen : buffer.length = buffer'.length)
    (h : ∀ i ∉ writes.map Prod.fst, buffer[i]? = buffer'[i]?) :
    writeAll writes buffer = writeAll writes buffer' := by
  induction writes generalizing buffer buffer' with
  | nil => exact List.ext_getElem? fun i => h i List.not_mem_nil
  | cons w writes ih =>
    refine ih (by simpa using hlen) fun i hi => ?_
    show (buffer.set w.1 w.2)[i]? = (buffer'.set w.1 w.2)[i]?
    by_cases hw : w.1 = i
    · rw [hw, List.getElem?_set_self', List.getElem?_set_self']
      by_cases hbound : i < buffer.length
      · rw [List.getElem?_eq_getElem hbound, List.getElem?_eq_getElem (hlen ▸ hbound)]
        rfl
      · rw [List.getElem?_eq_none (not_lt.mp hbound),
          List.getElem?_eq_none (hlen ▸ not_lt.mp hbound)]
    · rw [List.getElem?_set_ne hw, List.getElem?_set_ne hw]
      refine h i fun hmem => ?_
      rcases List.mem_cons.mp hmem with hmem | hmem
      · exact hw hmem.symm
      · exact hi hmem

/-- A buffer of `obs_dim` values that holds zeros at the indices that no observation writes. -/
structure BrainConfig.Clean (cfg : BrainConfig n) (buffer : List Scalar) : Prop where
  length : buffer.length = cfg.obsDim
  unwritten : ∀ i ∉ observationIndices n,
    buffer[i]? = (List.replicate cfg.obsDim (fin 0 : Scalar))[i]?

theorem clean_replicate (cfg : BrainConfig n) :
    cfg.Clean (List.replicate cfg.obsDim (fin 0)) :=
  ⟨List.length_replicate, fun _ _ => rfl⟩

section Build

variable {buffer : List Scalar} (hclean : cfg.Clean buffer) (prop : Proprioception n)
  (velCmd : Velocity) (prevActions : Fin n → Scalar) (frame : ℕ)

include hclean

/-- An observation leaves the other indices alone. -/
theorem BrainConfig.Clean.buildObservation :
    cfg.Clean (buildObservation cfg env prop velCmd prevActions frame buffer) := by
  refine ⟨(length_writeAll _ _).trans hclean.length, fun i hi => ?_⟩
  rw [RobotBrain.buildObservation, getElem?_writeAll_of_notMem]
  · exact hclean.unwritten i hi
  · rw [map_fst_observationWrites]
    exact hi

/-- The observation is that of a new buffer. -/
theorem BrainConfig.Clean.buildObservation_eq :
    RobotBrain.buildObservation cfg env prop velCmd prevActions frame buffer =
      RobotBrain.buildObservation cfg env prop velCmd prevActions frame
        (List.replicate cfg.obsDim (fin 0)) := by
  refine writeAll_congr (hclean.length.trans List.length_replicate.symm) fun i hi => ?_
  rw [map_fst_observationWrites] at hi
  exact hclean.unwritten i hi

end Build

namespace Threads

/-- The buffers of the pool and the one on loan are clean. -/
structure BuffersInv (cfg : BrainConfig n) (s : Threads n H) : Prop where
  pool : ∀ buffer ∈ s.brain.tensorPool, cfg.Clean buffer
  loan : ∀ r ∈ s.worker.loan, cfg.Clean r.obs

theorem ControlResult.tensorPool {prop : Proprioception n} {b b' : Brain n H}
    {pc pc' : ControlPc n} {out : List (Output n)}
    (h : ControlResult cfg env prop b pc b' pc' out) : b'.tensorPool = b.tensorPool := by
  cases h <;> rfl

/-- The buffer that a closure acquires, and those left, are clean. -/
theorem clean_acquireBuffer {b : Brain n H} (hpool : ∀ buffer ∈ b.tensorPool, cfg.Clean buffer) :
    cfg.Clean (b.acquireBuffer cfg).1 ∧
      ∀ buffer ∈ (b.acquireBuffer cfg).2.2.tensorPool, cfg.Clean buffer := by
  unfold Brain.acquireBuffer
  split
  · exact ⟨clean_replicate cfg, hpool⟩
  · rename_i hcons
    rw [hcons, List.forall_mem_cons] at hpool
    exact hpool

/-- The worker writes an observation into a clean buffer and gives it back. -/
theorem WorkerResult.clean {now : ℤ} {b b' : Brain n H} {pc pc' : WorkerPc n}
    {out : List (Output n)} (h : WorkerResult cfg env now b pc b' pc' out)
    (hpool : ∀ buffer ∈ b.tensorPool, cfg.Clean buffer)
    (hloan : ∀ r ∈ pc.loan, cfg.Clean r.obs) :
    (∀ buffer ∈ b'.tensorPool, cfg.Clean buffer) ∧ ∀ r ∈ pc'.loan, cfg.Clean r.obs := by
  cases h
  case forward f | forwardThrew f =>
    obtain ⟨hbuffer, hrest⟩ := clean_acquireBuffer hpool
    refine ⟨hrest, ?_⟩
    rintro r ⟨⟩
    exact hbuffer.buildObservation _ _ _ _
  case releaseBuffer r =>
    refine ⟨?_, by rintro r ⟨⟩⟩
    unfold Brain.releaseBuffer
    split
    · exact List.forall_mem_cons.mpr ⟨hloan r rfl, hpool⟩
    · exact hpool
  case clearFlag => exact ⟨hpool, by rintro r ⟨⟩⟩
  all_goals exact ⟨hpool, hloan⟩

theorem BuffersInv.step {s : Threads n H} {e : ThreadEvent n} {r : Threads n H × List (Output n)}
    (hI : BuffersInv cfg s) (h : StepResult cfg env s e r) : BuffersInv cfg r.1 := by
  obtain ⟨hpool, hloan⟩ := hI
  cases h with
  | call | tick => exact ⟨hpool, hloan⟩
  | rpc h => exact ⟨h.gate.2.2 ▸ hpool, hloan⟩
  | control h => exact ⟨h.tensorPool ▸ hpool, hloan⟩
  | dequeue => exact ⟨hpool, by rintro r ⟨⟩⟩
  | worker h =>
    obtain ⟨hpool', hloan'⟩ := h.clean hpool hloan
    exact ⟨hpool', hloan'⟩

theorem buffersInv_of_reaches {start : ℤ}
    {ok : Threads n H → List (Output n) → ThreadEvent n → Prop} {es : List (ThreadEvent n)}
    {s : Threads n H} {tr : List (Output n)} (h : (threads cfg env start).Reaches ok es s tr) :
    s.BuffersInv cfg := by
  refine h.invariant (fun s _ => s.BuffersInv cfg) ⟨fun buffer hbuffer => ?_, ?_⟩
    fun _ hI _ hs => hI.step (stepResult hs)
  · rw [List.eq_of_mem_replicate hbuffer]
    exact clean_replicate cfg
  · rintro r ⟨⟩

/-- The observation that a closure builds. -/
theorem BuffersInv.nextObservation {s : Threads n H} (hI : s.BuffersInv cfg) (f : Frame n) :
    s.brain.nextObservation cfg env f =
      buildObservation cfg env f.prop f.scaledVelCmd s.brain.prevActions
        (counterValue s.brain.metrics.totalFrames) (List.replicate cfg.obsDim (fin 0)) := by
  rw [← (clean_acquireBuffer hI.pool).1.buildObservation_eq]
  unfold Brain.nextObservation Brain.acquireBuffer
  split <;> rfl

end Threads

/-- In every interleaving, whatever the frames before it, the observation that a closure hands to
the policy is the one that it would build in a new buffer. -/
theorem buffer_reuse {start : ℤ} {es : List (ThreadEvent n)} {s : Threads n H}
    {tr : List (Output n)} (h : (threads cfg env start).Run es s tr) {f : Frame n}
    (hpc : s.worker = .forward f) (throws : Bool) (now : ℤ) :
    ∃ s', s.step cfg env (.worker throws now) = some (s',
      [.forwarded (buildObservation cfg env f.prop f.scaledVelCmd s.brain.prevActions
        (counterValue s.brain.metrics.totalFrames) (List.replicate cfg.obsDim (fin 0)))]) := by
  rw [← (Threads.buffersInv_of_reaches h).nextObservation]
  obtain ⟨b, rpc, control, worker⟩ := s
  obtain rfl : worker = .forward f := hpc
  cases throws with
  | true => exact ⟨_, rfl⟩
  | false => exact ⟨_, rfl⟩

/-- Two frames, up to the closure of the second. -/
private def secondFrame : List (ThreadEvent 12) :=
  .tick 20 :: List.replicate 7 (.control (upright shippedConfig)) ++
    .dequeue :: List.replicate 11 (.worker false 30) ++
    .tick 40 :: List.replicate 7 (.control (upright shippedConfig)) ++ [.dequeue]

/-- The second frame under a policy that returns NaN. -/
theorem buffer_reuse_second :
    ∃ (s s' : Threads 12 ℕ) (tr : List (Output 12)) (f : Frame 12),
      (threads shippedConfig (constantPolicy 12 nan) 0).Run secondFrame s tr ∧
      s.worker = .forward f ∧ s.brain.metrics.totalFrames = 1 ∧
      s.step shippedConfig (constantPolicy 12 nan) (.worker false 50) = some (s',
        [.forwarded (buildObservation shippedConfig (constantPolicy 12 nan) f.prop f.scaledVelCmd
          s.brain.prevActions (counterValue s.brain.metrics.totalFrames)
          (List.replicate shippedConfig.obsDim (fin 0)))]) := by
  have hrun : ∃ (s : Threads 12 ℕ) (tr : List (Output 12)),
      (threads shippedConfig (constantPolicy 12 nan) 0).Run secondFrame s tr ∧
      s.worker.remaining = 11 ∧ s.brain.metrics.totalFrames = 1 :=
    Machine.exists_reaches_of_decide _ (by decide +kernel)
  obtain ⟨s, tr, hrun, hremaining, hframes⟩ := hrun
  obtain ⟨f, hpc⟩ : ∃ f, s.worker = .forward f := by
    cases hpc : s.worker with
    | forward f => exact ⟨f, rfl⟩
    | _ => simp [hpc, WorkerPc.remaining] at hremaining
  obtain ⟨s', hstep⟩ := buffer_reuse hrun hpc false 50
  exact ⟨s, s', tr, f, hrun, hpc, hframes, hstep⟩

end RobotBrain
