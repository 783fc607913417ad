import RobotBrain.Safety.Generation
import RobotBrain.Brain.Refinement
import RobotBrain.Library.Trace

/-!
# Frames in flight across a fallback

When the heartbeat is too old the watchdog stores `STANDING` and zeroes the velocity command. Unlike
a task it does not increment the task generation. The frame whose slowness has made the heartbeat
expire is still in flight then, and unless a task arrives it is not superseded: when its inference
ends it is published. So the fallback is final for the frames captured before it exactly as long as
no closure completes a frame of `EXECUTING`, under the generation of its capture, in `STANDING`.

## Main definitions

* `LoweredSince` — the watchdog has stored `STANDING` since a frame was captured.
* `FallbackFinal` — no command of a frame of `EXECUTING` is published after that.
* `Brain.CompletesInState` — the condition on the steps.
* `Brain.CompletesInTime` — the generation has not come round while a frame was in flight.

## Main results

* `each_fallbackFinal_iff` — along a run the two agree.
* `exists_published_after_fallback` — a slow inference that is published after the fallback.
-/

namespace RobotBrain

open ExtNum

variable {n : ℕ} {H : Type*} {cfg : BrainConfig n} {env : Environment n H}

/-- The watchdog has stored `STANDING` since the frame was captured. -/
def LoweredSince (f : Frame n) (tr : List (Output n)) : Prop :=
  ∃ before since, tr = before ++ .captured f :: since ∧ .lowered ∈ since

/-- A command computed from a frame of `EXECUTING` is published only if the watchdog has not stored
`STANDING` since the frame was captured. -/
def FallbackFinal (past : List (Output n)) : Output n → Prop
  | .published _ (.inference f) => f.state = .executing → ¬LoweredSince f past
  | _ => True

section LoweredSince

variable {f : Frame n} {tr out : List (Output n)}

theorem loweredSince_append : LoweredSince f (tr ++ out) ↔
    LoweredSince f tr ∨ .captured f ∈ tr ∧ .lowered ∈ out ∨ LoweredSince f out := by
  constructor
  · rintro ⟨before, since, heq, hmem⟩
    rcases List.append_eq_append_iff.mp heq with ⟨mid, rfl, rfl⟩ | ⟨mid, rfl, hmid⟩
    · exact Or.inr (Or.inr ⟨mid, since, rfl, hmem⟩)
    · cases mid with
      | nil => exact Or.inr (Or.inr ⟨[], since, hmid.symm, hmem⟩)
      | cons o mid =>
        obtain ⟨rfl, rfl⟩ := List.cons.inj hmid
        rcases List.mem_append.mp hmem with hmem | hmem
        · exact Or.inl ⟨before, mid, rfl, hmem⟩
        · exact Or.inr (Or.inl ⟨by simp, hmem⟩)
  · rintro (⟨before, since, rfl, hmem⟩ | ⟨hcap, hmem⟩ | ⟨before, since, rfl, hmem⟩)
    · exact ⟨before, since ++ out, by simp, List.mem_append_left _ hmem⟩
    · obtain ⟨before, since, rfl⟩ := List.append_of_mem hcap
      exact ⟨before, since ++ out, by simp, List.mem_append_right _ hmem⟩
    · exact ⟨tr ++ before, since, by simp, hmem⟩

/-- Outputs of other kinds do not matter. -/
theorem loweredSince_append_of_notMem (hout : .lowered ∉ out) :
    LoweredSince f (tr ++ out) ↔ LoweredSince f tr := by
  have hnone : ¬LoweredSince f out := by
    rintro ⟨before, since, rfl, hmem⟩
    exact hout (by simp [hmem])
  rw [loweredSince_append]
  tauto

end LoweredSince

namespace Brain

/-- When a closure completes a frame, fewer than `2^64` tasks have arrived since its capture. -/
def CompletesInTime (b : Brain n H) : Event n → Prop
  | .infer .completes _ =>
    ∀ f ∈ b.inferenceQueue, b.history.tasks.length < f.tasksBefore + 2 ^ 64
  | _ => True

/-- A closure that completes a frame captured in `EXECUTING` under the current generation finds the
state `EXECUTING`. -/
def CompletesInState (b : Brain n H) : Event n → Prop
  | .infer .completes _ => ∀ f ∈ b.inferenceQueue, f.state = .executing →
    f.myGeneration = b.taskGeneration → b.metrics.currentState = .executing
  | _ => True

instance (b : Brain n H) : (e : Event n) → Decidable (b.CompletesInTime e)
  | .infer .completes _ => inferInstanceAs (Decidable (∀ f ∈ b.inferenceQueue, _))
  | .infer .forwardThrows _ | .infer .targetsThrow _ | .infer .publishThrows _ | .task _ _
  | .tick _ _ => .isTrue trivial

instance (b : Brain n H) : (e : Event n) → Decidable (b.CompletesInState e)
  | .infer .completes _ => inferInstanceAs (Decidable (∀ f ∈ b.inferenceQueue, _ → _))
  | .infer .forwardThrows _ | .infer .targetsThrow _ | .infer .publishThrows _ | .task _ _
  | .tick _ _ => .isTrue trivial

/-! ### The generation between calls -/

/-- In a run of whole calls the generations count the tasks. -/
theorem generation_of_reaches {now : ℤ} {ok : Brain n H → List (Output n) → Event n → Prop}
    {es : List (Event n)} {b : Brain n H} {tr : List (Output n)}
    (h : (atomic cfg env now).Reaches ok es b tr) :
    b.taskGeneration = UInt64.ofNat b.history.tasks.length ∧
      ∀ f ∈ b.inferenceQueue, f.tasksBefore ≤ b.history.tasks.length ∧
        f.myGeneration = UInt64.ofNat f.tasksBefore := by
  obtain ⟨es', hrun⟩ := exists_threads_run h.run
  have hgen := Threads.generationInv_of_reaches hrun
  refine ⟨hgen.brain, fun f hf => hgen.frame f ?_⟩
  exact List.mem_append_left _ (List.mem_append_right _ hf)

/-- Unless `2^64` tasks have arrived since its capture, a frame has the current generation exactly
if no task has arrived since. -/
theorem myGeneration_eq_iff {now : ℤ} {ok : Brain n H → List (Output n) → Event n → Prop}
    {es : List (Event n)} {b : Brain n H} {tr : List (Output n)}
    (h : (atomic cfg env now).Reaches ok es b tr) {f : Frame n} (hf : f ∈ b.inferenceQueue)
    (hbound : b.history.tasks.length < f.tasksBefore + 2 ^ 64) :
    f.myGeneration = b.taskGeneration ↔ f.tasksBefore = b.history.tasks.length := by
  obtain ⟨hgen, hframes⟩ := generation_of_reaches h
  obtain ⟨hle, hframe⟩ := hframes f hf
  rw [hgen, hframe]
  exact ⟨eq_of_ofNat_eq hle hbound, congrArg UInt64.ofNat⟩

/-! ### The state that a frame in flight meets -/

/-- A frame of `EXECUTING` that the watchdog has overtaken is older than a task, or the state is no
longer `EXECUTING`; one in flight that neither the watchdog nor a task has overtaken finds it. -/
structure FinalInv (b : Brain n H) (tr : List (Output n)) : Prop where
  seen : ∀ f ∈ b.inferenceQueue, .captured f ∈ tr
  bound : ∀ f, .captured f ∈ tr → f.tasksBefore ≤ b.history.tasks.length
  lowered : ∀ f, f.state = .executing → LoweredSince f tr →
    f.tasksBefore < b.history.tasks.length ∨ b.metrics.currentState ≠ .executing
  kept : ∀ f ∈ b.inferenceQueue, f.state = .executing →
    f.tasksBefore = b.history.tasks.length → ¬LoweredSince f tr →
    b.metrics.currentState = .executing

section Steps

variable {b b' : Brain n H} {tr out : List (Output n)}

/-- Steps that capture nothing and change neither the tasks nor the state keep the invariant. -/
theorem FinalInv.frame (hI : b.FinalInv tr) (hqueue : ∀ f ∈ b'.inferenceQueue, f ∈ b.inferenceQueue)
    (htasks : b'.history.tasks = b.history.tasks)
    (hstate : b'.metrics.currentState = b.metrics.currentState) (hlowered : .lowered ∉ out)
    (hcaptured : ∀ f, .captured f ∉ out) : b'.FinalInv (tr ++ out) where
  seen f hf := List.mem_append_left _ (hI.seen f (hqueue f hf))
  bound f hf := by
    rw [htasks]
    exact hI.bound f ((List.mem_append.mp hf).resolve_right (hcaptured f))
  lowered f hf hsince := by
    rw [htasks, hstate]
    exact hI.lowered f hf ((loweredSince_append_of_notMem hlowered).mp hsince)
  kept f hf hexec heq hsince := by
    rw [htasks] at heq
    rw [hstate]
    exact hI.kept f (hqueue f hf) hexec heq
      fun h => hsince ((loweredSince_append_of_notMem hlowered).mpr h)

/-- A task overtakes every frame. -/
theorem FinalInv.task (hI : b.FinalInv tr) (hqueue : b'.inferenceQueue = b.inferenceQueue)
    {t : Task} (htasks : b'.history.tasks = b.history.tasks ++ [t])
    (hcaptured : ∀ f, .captured f ∉ out) : b'.FinalInv (tr ++ out) := by
  have hlen : b'.history.tasks.length = b.history.tasks.length + 1 := by
    rw [htasks, List.length_append, List.length_singleton]
  have hbound (f : Frame n) (hf : .captured f ∈ tr ++ out) :
      f.tasksBefore ≤ b.history.tasks.length :=
    hI.bound f ((List.mem_append.mp hf).resolve_right (hcaptured f))
  refine ⟨fun f hf => List.mem_append_left _ (hI.seen f (hqueue ▸ hf)), ?_, ?_, ?_⟩
  · intro f hf
    have hle := hbound f hf
    omega
  · intro f _ hsince
    obtain ⟨before, since, heq, -⟩ := hsince
    have hle := hbound f (by rw [heq]; simp)
    left
    omega
  · intro f hf _ heq _
    have hle := hbound f (List.mem_append_left _ (hI.seen f (hqueue ▸ hf)))
    omega

/-- The watchdog overtakes every frame when it stores `STANDING`. -/
theorem FinalInv.watchdog (hI : b.FinalInv tr) {w : Brain n H × List (Output n)}
    (hw : WatchdogResult b w) : w.1.FinalInv (tr ++ w.2) := by
  cases hw with
  | quiet => exact hI.frame (fun _ hf => hf) rfl rfl (by simp) (by simp)
  | expired => exact hI.frame (fun _ hf => hf) rfl rfl (by simp) (by simp)
  | fallback =>
    refine ⟨fun f hf => List.mem_append_left _ (hI.seen f hf), ?_, ?_, ?_⟩
    · intro f hf
      exact hI.bound f (by simpa using hf)
    · intro f _ _
      exact Or.inr nofun
    · intro f hf _ _ hsince
      refine absurd (loweredSince_append.mpr (Or.inr (Or.inl ⟨hI.seen f hf, ?_⟩))) hsince
      exact List.mem_cons_of_mem _ List.mem_cons_self

/-- A frame of `EXECUTING` is captured in `EXECUTING`. -/
theorem FinalInv.capture (hI : b.FinalInv tr) {f : Frame n}
    (hqueue : b'.inferenceQueue = b.inferenceQueue ++ [f])
    (htasks : b'.history.tasks = b.history.tasks)
    (hstate : b'.metrics.currentState = b.metrics.currentState)
    (hcount : f.tasksBefore = b.history.tasks.length)
    (hf : f.state = b.metrics.currentState) : b'.FinalInv (tr ++ [.captured f]) := by
  have hsame (g : Frame n) : LoweredSince g (tr ++ [.captured f]) ↔ LoweredSince g tr :=
    loweredSince_append_of_notMem (by simp)
  refine ⟨?_, ?_, ?_, ?_⟩
  · intro g hg
    rw [hqueue] at hg
    rcases List.mem_append.mp hg with hg | hg
    · exact List.mem_append_left _ (hI.seen g hg)
    · rw [List.mem_singleton.mp hg]
      simp
  · intro g hg
    rw [htasks]
    rcases List.mem_append.mp hg with hg | hg
    · exact hI.bound g hg
    · cases List.mem_singleton.mp hg
      exact hcount.le
  · intro g hg hsince
    rw [htasks, hstate]
    exact hI.lowered g hg ((hsame g).mp hsince)
  · intro g hg hexec heq hsince
    rw [hstate]
    rw [hqueue] at hg
    rw [htasks] at heq
    rcases List.mem_append.mp hg with hg | hg
    · exact hI.kept g hg hexec heq fun h => hsince ((hsame g).mpr h)
    · rw [← hf, ← List.mem_singleton.mp hg]
      exact hexec

theorem FinalInv.reset (hI : b.FinalInv tr) {prop : Proprioception n}
    {r : Brain n H × List (Output n)} (hr : ResetResult cfg env prop (b.setInferring true) r) :
    r.1.FinalInv (tr ++ r.2) ∧ r.1.metrics.currentState = b.metrics.currentState := by
  refine ⟨hI.frame ?_ ?_ ?_ ?_ ?_, congrArg Metrics.currentState hr.metrics⟩
  · rw [hr.inferenceQueue]
    exact fun _ hf => hf
  all_goals cases hr <;> simp <;> rfl

theorem FinalInv.tick (hI : b.FinalInv tr) {now : ℤ} {prop : Proprioception n}
    {w r : Brain n H × List (Output n)} (hw : WatchdogResult b w)
    (h : RunTick cfg env now prop w r) : r.1.FinalInv (tr ++ r.2) := by
  have hwatched := hI.watchdog hw
  cases h with
  | busy | invalid => exact ⟨hwatched.seen, hwatched.bound, hwatched.lowered, hwatched.kept⟩
  | captured _ _ _ hr =>
    obtain ⟨hreset, hstate⟩ := hwatched.reset hr
    simp only [← List.append_assoc]
    refine hreset.capture rfl rfl rfl rfl ?_
    exact hstate.symm

theorem FinalInv.step (hI : b.FinalInv tr) {e : Event n} {r : Brain n H × List (Output n)}
    (h : RunStep cfg env b e r) : r.1.FinalInv (tr ++ r.2) := by
  cases h with
  | task h => cases h <;> exact hI.task rfl rfl (by simp)
  | tick _ hw h => exact hI.tick hw h
  | infer hq h =>
    refine hI.frame ?_ ?_ ?_ ?_ ?_
    · rw [h.inferenceQueue]
      rintro f ⟨⟩
    all_goals cases h <;> simp <;> rfl

theorem finalInv_of_reaches {now : ℤ} {ok : Brain n H → List (Output n) → Event n → Prop}
    {es : List (Event n)} (h : (atomic cfg env now).Reaches ok es b tr) : b.FinalInv tr := by
  have hinit : (Brain.initial cfg env now).FinalInv [] := by
    refine ⟨by rintro f ⟨⟩, by rintro f ⟨⟩, ?_, by rintro f ⟨⟩⟩
    rintro f - ⟨before, since, heq, -⟩
    exact absurd heq (by simp)
  refine h.invariant (fun b tr => b.FinalInv tr) hinit ?_
  intro es b tr e b' out hreach hI _ hs
  exact hI.step (runStep hreach hs)

/-- A frame in flight under the current generation finds the state `EXECUTING` exactly if the
watchdog has not overtaken it. -/
theorem FinalInv.currentState_iff {now : ℤ} {ok : Brain n H → List (Output n) → Event n → Prop}
    {es : List (Event n)} (h : (atomic cfg env now).Reaches ok es b tr) {f : Frame n}
    (hf : f ∈ b.inferenceQueue) (hexec : f.state = .executing)
    (hbound : b.history.tasks.length < f.tasksBefore + 2 ^ 64)
    (hgen : f.myGeneration = b.taskGeneration) :
    b.metrics.currentState = .executing ↔ ¬LoweredSince f tr := by
  have hI := finalInv_of_reaches h
  -- no task has arrived since the capture
  have hcount : f.tasksBefore = b.history.tasks.length := (myGeneration_eq_iff h hf hbound).mp hgen
  refine ⟨fun hstate hlowered => ?_, hI.kept f hf hexec hcount⟩
  rcases hI.lowered f hexec hlowered with hlt | hne
  · omega
  · exact hne hstate

/-- The outputs of a task and of a tick satisfy any property that concerns published frames only. -/
theorem RunStep.fallbackFinal {e : Event n} {r : Brain n H × List (Output n)}
    (h : RunStep cfg env b e r) (he : ∀ outcome now, e ≠ .infer outcome now) :
    Each (fun past => FallbackFinal (tr ++ past)) r.2 := by
  cases h with
  | task h => cases h <;> simp [FallbackFinal]
  | tick _ hw h =>
    cases h with
    | busy | invalid => cases hw <;> simp [FallbackFinal]
    | captured _ _ _ hr => cases hw <;> cases hr <;> simp [FallbackFinal]
  | infer => exact absurd rfl (he _ _)

end Steps

end Brain

/-- In every run whose closures complete no frame after `2^64` tasks: no command of a frame captured
in `EXECUTING` is published after a later fallback of the watchdog if and only if every closure that
completes such a frame under the current generation finds the state `EXECUTING`. -/
theorem each_fallbackFinal_iff {now : ℤ} {es : List (Event n)} {b : Brain n H}
    {tr : List (Output n)}
    (h : (atomic cfg env now).Reaches (fun b _ e => b.CompletesInTime e) es b tr) :
    Each FallbackFinal tr ↔
      (atomic cfg env now).Reaches (fun b _ e => b.CompletesInState e) es b tr := by
  refine (h.each_iff ?_).symm
  intro es b tr e b' out hreach htime hs
  have hstep := Brain.runStep hreach hs
  cases e with
  | task | tick => exact iff_of_true trivial (hstep.fallbackFinal nofun)
  | infer outcome now =>
    cases hstep with
    | @infer _ _ f _ hq hr =>
      have hmem : f ∈ b.inferenceQueue := by
        rw [hq]
        exact List.mem_singleton_self f
      cases hr with
      | forwardThrew => exact iff_of_true trivial (by simp [FallbackFinal])
      | failed hout =>
        refine iff_of_true ?_ (by simp [FallbackFinal])
        rcases hout with rfl | ⟨rfl, -⟩ <;> trivial
      | superseded hout hgen =>
        refine iff_of_true ?_ (by simp [FallbackFinal])
        rcases hout with rfl | rfl
        · intro g hg _ heq
          rw [hq, List.mem_singleton] at hg
          subst hg
          exact absurd heq hgen
        · trivial
      | applied hgen =>
        have hsince :
            LoweredSince f (tr ++ [.forwarded ((b.dequeue []).nextObservation cfg env f)]) ↔
              LoweredSince f tr := loweredSince_append_of_notMem (by simp)
        have heach : Each (fun past => FallbackFinal (tr ++ past))
            [.forwarded ((b.dequeue []).nextObservation cfg env f),
              .published ((b.dequeue []).nextTargets cfg env f) (.inference f),
              .applied f ((b.dequeue []).nextObservation cfg env f)
                ((b.dequeue []).nextActions cfg env f)] ↔
            (f.state = .executing → ¬LoweredSince f tr) := by
          rw [← hsince]
          simp [FallbackFinal]
        have hstate (hexec : f.state = .executing) :
            b.metrics.currentState = .executing ↔ ¬LoweredSince f tr :=
          Brain.FinalInv.currentState_iff hreach hmem hexec (htime f hmem) hgen
        rw [heach]
        constructor
        · exact fun hholds hexec => (hstate hexec).mp (hholds f hmem hexec hgen)
        · intro hfinal g hg hexec _
          rw [hq, List.mem_singleton] at hg
          subst hg
          exact (hstate hexec).mpr (hfinal hexec)

/-- A task that drives the robot forward. -/
private def forwardTask : Task := ⟨.navigate, ![fin (1 / 2), fin 0, fin 0]⟩

/-- A frame of a task that is applied before the watchdog expires, and one that the tick with the
fallback captures. -/
private def frameThenFallback : List (Event 12) :=
  .task forwardTask 10 :: frameEvents 20 (upright shippedConfig) ++
    frameEvents 600 (upright shippedConfig)

theorem each_fallbackFinal_frame :
    ∃ b tr, (atomic shippedConfig (constantPolicy 12 (fin 1)) 0).Run frameThenFallback b tr ∧
      b.history.lowered = some 1 ∧ (commands tr).length = 2 ∧ Each FallbackFinal tr := by
  have htime : ∃ b tr, (atomic shippedConfig (constantPolicy 12 (fin 1)) 0).Reaches
      (fun b _ e => b.CompletesInTime e) frameThenFallback b tr ∧
      b.history.lowered = some 1 ∧ (commands tr).length = 2 :=
    Machine.exists_reaches_of_decide _ (by decide +kernel)
  have hstate : ∃ b tr, (atomic shippedConfig (constantPolicy 12 (fin 1)) 0).Reaches
      (fun b _ e => b.CompletesInState e) frameThenFallback b tr ∧ true = true :=
    Machine.exists_reaches _ (by decide +kernel)
  obtain ⟨b, tr, htime, hlowered, hlen⟩ := htime
  obtain ⟨b', tr', hstate, -⟩ := hstate
  obtain ⟨rfl, rfl⟩ := htime.unique hstate
  exact ⟨b, tr, htime.run, hlowered, hlen, (each_fallbackFinal_iff htime).mpr hstate⟩

deriving instance DecidableEq for Frame

/-- The trace ends with the publication of a frame of `EXECUTING` that was captured before a
fallback. -/
private def publishesOvertaken : List (Output 12) → Bool
  | [_, _, _, .captured f, _, .lowered, _, .published _ (.inference g), _] =>
    decide (f = g ∧ g.state = .executing)
  | _ => false

private theorem not_each_of_publishesOvertaken {tr : List (Output 12)}
    (h : publishesOvertaken tr = true) : ¬Each FallbackFinal tr := by
  unfold publishesOvertaken at h
  split at h
  · rename_i o₁ o₂ o₃ f o₄ o₅ targets g o₆
    obtain ⟨rfl, hexec⟩ := of_decide_eq_true h
    rw [each_iff_forall_eq]
    intro hall
    refine hall [o₁, o₂, o₃, .captured f, o₄, .lowered, o₅] (.published targets (.inference f))
      [o₆] rfl hexec ?_
    exact ⟨[o₁, o₂, o₃], [o₄, .lowered, o₅], rfl, by simp⟩
  · cases h

/-- The watchdog expires while the inference of a frame of a task is running; the inference ends and
its command is published, in `STANDING`. -/
theorem exists_published_after_fallback :
    ∃ b tr, (atomic shippedConfig (constantPolicy 12 (fin 1)) 0).Run
        [.task forwardTask 10, .tick 20 (upright shippedConfig), .tick 600 (upright shippedConfig),
          .infer .completes 620] b tr ∧
      b.metrics.currentState = .standing ∧ ¬Each FallbackFinal tr := by
  have hrun : ∃ b tr, (atomic shippedConfig (constantPolicy 12 (fin 1)) 0).Run
      [.task forwardTask 10, .tick 20 (upright shippedConfig), .tick 600 (upright shippedConfig),
        .infer .completes 620] b tr ∧
      b.metrics.currentState = .standing ∧ publishesOvertaken tr = true :=
    Machine.exists_reaches_of_decide _ (by decide +kernel)
  obtain ⟨b, tr, hrun, hstate, hover⟩ := hrun
  exact ⟨b, tr, hrun, hstate, not_each_of_publishesOvertaken hover⟩

end RobotBrain
