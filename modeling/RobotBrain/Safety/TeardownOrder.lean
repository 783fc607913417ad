import RobotBrain.Brain.Teardown
import RobotBrain.Library.Trace
import RobotBrain.Safety.Gate

/-!
# The order of the teardown

While the brain is being destroyed, no tick of the control loop should begin, and no inference
closure should use a member that has been destroyed. The code waits for neither: the realtime thread
is stopped by the destructor of the node, and `inference_pool_`, which joins the worker, is declared
first and therefore destroyed last.

The order is kept by the runs in which the realtime thread does not wake up after `~AIBrain` has
begun and the worker is done before the members that its closures use are destroyed. Among the runs
to the end of `main` in which no closure throws, it is kept by no others.

## Main definitions

* `TicksInTime`, `UsedInTime`, `TeardownOrder` — the order.
* `Teardown.WillUse` — a closure that is queued or runs has a use of the member before it.
* `Teardown.InOrder` — the condition on the steps.

## Main results

* `teardown_order` — the condition suffices, and it is necessary in complete runs.
-/

namespace RobotBrain

variable {n : ℕ} {H : Type*}

/-- The members on which the order is stated. -/
def closureMembers : List BrainMember :=
  [.policyModel, .tensorPool, .defaultJointPositions, .prevActions]

/-- No `ControlLoopStep` begins after `~AIBrain` has begun. -/
def TicksInTime (tr : List TeardownOutput) : Prop :=
  NotAfter .destructorBegun .tickBegun tr

/-- No closure uses the member after it has been destroyed. -/
def UsedInTime (m : BrainMember) (tr : List TeardownOutput) : Prop :=
  NotAfter (.destroyed m) (.used m) tr

/-- The order of the teardown. -/
def TeardownOrder (tr : List TeardownOutput) : Prop :=
  TicksInTime tr ∧ ∀ m ∈ closureMembers, UsedInTime m tr

instance (tr : List TeardownOutput) : Decidable (TicksInTime tr) :=
  inferInstanceAs (Decidable (NotAfter _ _ _))

instance (m : BrainMember) (tr : List TeardownOutput) : Decidable (UsedInTime m tr) :=
  inferInstanceAs (Decidable (NotAfter _ _ _))

/-- What a closure uses after its generation has matched. -/
def Brain.membersAfterCheck (f : Frame n) (b : Brain n H) : List BrainMember :=
  if f.myGeneration = b.taskGeneration then [.lastJointTargets, .prevActions, .lastJointTargets]
  else []

/-- The end of a loan from the pool uses the pool. -/
def loanMembers (pooled : Bool) : List BrainMember :=
  if pooled then [.tensorPool] else []

/-- The members that the rest of a closure uses if nothing in it throws. -/
def WorkerPc.membersLeft (cfg : BrainConfig n) (b : Brain n H) :
    WorkerPc n → ForwardStage → List BrainMember
  | .idle, _ | .clearFlag, _ => []
  | .forward f, stage =>
    let observed := .policyModel :: .defaultJointPositions ::
      (b.membersAfterCheck f ++ loanMembers (b.acquireBuffer cfg).2.1)
    match stage with
    | .entered => .tensorPool :: .defaultJointPositions :: .prevActions :: observed
    | .acquired => .defaultJointPositions :: .prevActions :: observed
    | .observed => observed
  | .computeTargets r _, _ =>
    .defaultJointPositions :: (b.membersAfterCheck r.frame ++ loanMembers r.pooled)
  | .checkGeneration r _ _, _ => b.membersAfterCheck r.frame ++ loanMembers r.pooled
  | .applyRateLimit r _ _, _ =>
    [.lastJointTargets, .prevActions, .lastJointTargets] ++ loanMembers r.pooled
  | .publish r _ _, _ | .feedDog r _ _, _ | .writeBackActions r _ _, _ =>
    [.prevActions, .lastJointTargets] ++ loanMembers r.pooled
  | .writeBackTargets r _ _, _ => .lastJointTargets :: loanMembers r.pooled
  | .countFrame r _, _ | .countStale r, _ | .releaseBuffer r, _ => loanMembers r.pooled

/-- The next access of the control thread hands a closure to the pool. -/
def ControlPc.enqueues : ControlPc n → Bool
  | .enqueue _ => true
  | _ => false

/-- The call that the event makes throws. -/
def TeardownEvent.Throws : TeardownEvent n → Prop
  | .worker throws _ => throws = true
  | _ => False

namespace Teardown

/-- A closure that is queued or runs will use the member, if nothing in it throws. -/
def WillUse (cfg : BrainConfig n) (s : Teardown n H) (m : BrainMember) : Prop :=
  s.exited = false ∧ (s.threads.brain.inferenceQueue ≠ [] ∨
    m ∈ s.threads.worker.membersLeft cfg s.threads.brain s.stage)

/-- The event is the given step of the main thread. -/
def Performs (s : Teardown n H) (a : TeardownAction) : TeardownEvent n → Prop
  | .main => s.main.bind List.head? = some a
  | _ => False

/-- The event is a wake-up of the realtime thread. -/
def Wakes (s : Teardown n H) : TeardownEvent n → Prop
  | .realtime _ => s.realtime = .sleep
  | _ => False

/-- The event puts a closure into the queue. -/
def Admits (s : Teardown n H) : TeardownEvent n → Prop
  | .control _ => s.threads.control.enqueues = true ∧
    s.threads.brain.inferenceQueue.length < Brain.maxQueue
  | _ => False

/-- The realtime thread is not about to call when `~AIBrain` begins and does not wake up after. -/
def WakesInTime (s : Teardown n H) (tr : List TeardownOutput) (e : TeardownEvent n) : Prop :=
  (s.Performs .brainBody e → s.realtime ≠ .woken) ∧ (s.Wakes e → .destructorBegun ∉ tr)

/-- No closure has a use of the member before it when it is destroyed, and none that the worker
will take is queued after. -/
def ClosesInTime (cfg : BrainConfig n) (m : BrainMember) (s : Teardown n H)
    (tr : List TeardownOutput) (e : TeardownEvent n) : Prop :=
  (s.Performs (.destroyBrainMember m) e → ¬ s.WillUse cfg m) ∧
    (s.Admits e → .destroyed m ∈ tr → s.exited = true)

/-- The condition on the steps of a run. -/
def InOrder (cfg : BrainConfig n) (s : Teardown n H) (tr : List TeardownOutput)
    (e : TeardownEvent n) : Prop :=
  s.WakesInTime tr e ∧ ∀ m ∈ closureMembers, s.ClosesInTime cfg m tr e

section Decidable

variable (cfg : BrainConfig n) (s : Teardown n H)

instance (m : BrainMember) : Decidable (s.WillUse cfg m) :=
  inferInstanceAs (Decidable (_ ∧ (¬ _ ∨ _)))

instance (a : TeardownAction) : ∀ e, Decidable (s.Performs a e)
  | .main => inferInstanceAs (Decidable (_ = _))
  | .call _ | .rpc _ | .leave | .realtime _ | .control _ | .dequeue | .worker _ _ | .exit =>
    isFalse id

instance : ∀ e, Decidable (s.Wakes e)
  | .realtime _ => inferInstanceAs (Decidable (_ = _))
  | .call _ | .rpc _ | .leave | .main | .control _ | .dequeue | .worker _ _ | .exit => isFalse id

instance : ∀ e, Decidable (s.Admits e)
  | .control _ => inferInstanceAs (Decidable (_ ∧ _))
  | .call _ | .rpc _ | .leave | .main | .realtime _ | .dequeue | .worker _ _ | .exit => isFalse id

instance (tr : List TeardownOutput) (e : TeardownEvent n) : Decidable (s.InOrder cfg tr e) :=
  inferInstanceAs (Decidable (((_ → _) ∧ (_ → _)) ∧ ∀ m ∈ closureMembers, (_ → ¬ _) ∧ (_ → _ → _)))

end Decidable

/-! ### Uses of a closure -/

variable {cfg : BrainConfig n} {env : Environment n H}

theorem acquireBuffer_pooled (b : Brain n H) :
    (b.acquireBuffer cfg).2.1 = !b.tensorPool.isEmpty := by
  unfold Brain.acquireBuffer
  cases b.tensorPool <;> rfl

/-- What a closure will use depends on the generation and on the pool. -/
theorem membersLeft_congr {b b' : Brain n H} (hgen : b'.taskGeneration = b.taskGeneration)
    (hpool : b'.tensorPool = b.tensorPool) (pc : WorkerPc n) (stage : ForwardStage) :
    pc.membersLeft cfg b' stage = pc.membersLeft cfg b stage := by
  cases pc <;> simp only [WorkerPc.membersLeft, Brain.membersAfterCheck, acquireBuffer_pooled,
    hgen, hpool]

/-- A closure in the queue will use every member of the order. -/
theorem mem_membersLeft_entered {m : BrainMember} (hm : m ∈ closureMembers) (b : Brain n H)
    (f : Frame n) : m ∈ (WorkerPc.forward f).membersLeft cfg b .entered := by
  simp only [closureMembers, List.mem_cons, List.not_mem_nil, or_false] at hm
  rcases hm with rfl | rfl | rfl | rfl <;> simp [WorkerPc.membersLeft]

theorem taskGeneration_acquireBuffer (b : Brain n H) :
    (b.acquireBuffer cfg).2.2.taskGeneration = b.taskGeneration := by
  unfold Brain.acquireBuffer
  cases b.tensorPool <;> rfl

/-- After `Forward` the generation is the one before it. -/
theorem membersAfterCheck_forward (b : Brain n H) (h : H) (f : Frame n) :
    ((b.acquireBuffer cfg).2.2.storeHiddenState h).membersAfterCheck f = b.membersAfterCheck f := by
  rw [Brain.membersAfterCheck, Brain.membersAfterCheck, Brain.storeHiddenState,
    taskGeneration_acquireBuffer]

/-- An access and the rest of a closure use nothing that the closure would not use. -/
theorem members_subset {now : ℤ} {b b' : Brain n H} {pc pc' : WorkerPc n} {out : List (Output n)}
    {stage : ForwardStage} (h : Threads.WorkerResult cfg env now b pc b' pc' out)
    (hstage : ∀ f, pc = .forward f → stage = .observed) :
    pc.members stage ++ pc'.membersLeft cfg b' stage ⊆ pc.membersLeft cfg b stage := by
  cases h with
  | forwardThrew f =>
    obtain rfl := hstage f rfl
    exact List.cons_subset_cons _ (List.subset_cons_of_subset _ (List.subset_append_right _ _))
  | forward f =>
    obtain rfl := hstage f rfl
    simp only [WorkerPc.membersLeft, membersAfterCheck_forward]
    exact List.Subset.refl _
  | targetsThrew r actions =>
    exact List.cons_subset_cons _ (List.subset_append_right _ _)
  | checkPassed r actions targets hgen | checkFailed r actions targets hgen =>
    simp only [WorkerPc.membersLeft, Brain.membersAfterCheck, hgen, if_true, if_false]
    exact List.Subset.refl _
  | publishThrew r actions targets => exact List.subset_append_right _ _
  | releaseBuffer r =>
    rw [WorkerPc.membersLeft, List.append_nil]
    exact List.Subset.refl _
  | computeTargets | applyRateLimit | publish | feedDog | writeBackActions | writeBackTargets
  | countFrame | countStale | clearFlag => exact List.Subset.refl _

/-- If nothing throws, every use of the closure is one of the access or of the rest. -/
theorem subset_members {t : Threads n H} {now : ℤ} {r : Threads n H × List (Output n)}
    {stage : ForwardStage} (hstage : ∀ f, t.worker = .forward f → stage = .observed)
    (h : t.workerStep cfg env false now = some r) :
    t.worker.membersLeft cfg t.brain stage ⊆
      t.worker.members stage ++ r.1.worker.membersLeft cfg r.1.brain stage := by
  obtain ⟨b, rpc, control, pc⟩ := t
  cases pc with
  | idle => cases h
  | forward f =>
    obtain rfl := hstage f rfl
    obtain rfl := Option.some.inj h
    show _ ⊆ .policyModel :: .defaultJointPositions ::
      (((b.acquireBuffer cfg).2.2.storeHiddenState _).membersAfterCheck f ++
        loanMembers (b.acquireBuffer cfg).2.1)
    rw [membersAfterCheck_forward]
    exact List.Subset.refl _
  | checkGeneration r actions targets =>
    simp only [Threads.workerStep] at h
    split_ifs at h with hgen <;> cases h <;>
      simp only [WorkerPc.membersLeft, Brain.membersAfterCheck, hgen, if_true, if_false] <;>
      exact List.Subset.refl _
  | releaseBuffer r =>
    cases h
    exact List.subset_append_left _ _
  | computeTargets | applyRateLimit | publish | feedDog | writeBackActions | writeBackTargets
  | countFrame | countStale | clearFlag =>
    cases h
    exact List.Subset.refl _

/-- What an access of the control thread leaves unchanged, and when the queue grows. -/
theorem ControlResult.queue {prop : Proprioception n} {b b' : Brain n H} {pc pc' : ControlPc n}
    {out : List (Output n)} (h : Threads.ControlResult cfg env prop b pc b' pc' out) :
    b'.taskGeneration = b.taskGeneration ∧ b'.tensorPool = b.tensorPool ∧
      if pc.enqueues = true ∧ b.inferenceQueue.length < Brain.maxQueue then b'.inferenceQueue ≠ []
      else b'.inferenceQueue = b.inferenceQueue := by
  cases h with
  | enqueued f hroom =>
    rw [if_pos ⟨rfl, hroom⟩]
    exact ⟨rfl, rfl, List.append_ne_nil_of_right_ne_nil _ (List.cons_ne_nil _ _)⟩
  | full f hfull =>
    rw [if_neg fun h => absurd h.2 hfull.not_gt]
    exact ⟨rfl, rfl, rfl⟩
  | _ => exact ⟨rfl, rfl, rfl⟩

/-! ### What a step does to the uses ahead -/

variable {s s' : Teardown n H} {e : TeardownEvent n} {r : Teardown n H × List TeardownOutput}
  {m : BrainMember} {tr : List TeardownOutput}

theorem performs_main {a a' : TeardownAction} {rest : List TeardownAction}
    (hmain : s.main = some (a :: rest)) : s.Performs a' .main ↔ a = a' := by
  show s.main.bind List.head? = some a' ↔ a = a'
  rw [hmain]
  exact Option.some_inj

/-- A step of the main thread is made after `Run`, and it neither queues a closure nor throws. -/
theorem Performs.main {a : TeardownAction} (h : s.Performs a e) :
    s.main ≠ none ∧ ¬ s.Admits e ∧ ¬ e.Throws := by
  cases e with
  | main =>
    refine ⟨fun hnone => ?_, id, id⟩
    rw [Performs, hnone] at h
    cases h
  | _ => cases h

theorem willUse_congr (hexited : s'.exited = s.exited)
    (hworker : s'.threads.worker = s.threads.worker) (hstage : s'.stage = s.stage)
    (hqueue : s'.threads.brain.inferenceQueue = s.threads.brain.inferenceQueue)
    (hgen : s'.threads.brain.taskGeneration = s.threads.brain.taskGeneration)
    (hpool : s'.threads.brain.tensorPool = s.threads.brain.tensorPool) :
    s'.WillUse cfg m ↔ s.WillUse cfg m := by
  rw [WillUse, WillUse, hexited, hworker, hstage, hqueue, membersLeft_congr hgen hpool]

/-- The step of the main thread that destroys a member is the only one to record that, and no step
of the main thread uses a member. -/
theorem StepResult.destroyed (h : StepResult cfg env s e r) :
    (.destroyed m ∈ r.2 ↔ s.Performs (.destroyBrainMember m) e) ∧
      (.destroyed m ∈ r.2 → .used m ∉ r.2) := by
  cases h with
  | main hmain h =>
    rw [performs_main hmain]
    cases h <;> simp [eq_comm]
  | _ => simp [Performs]

theorem MainResult.not_mem_used {rest : List TeardownAction} {a : TeardownAction}
    (h : MainResult s rest a r) : .used m ∉ r.2 := by
  cases h <;> simp

/-- The main thread leaves the uses that the closures have before them alone. -/
theorem MainResult.willUse {rest : List TeardownAction} {a : TeardownAction}
    (h : MainResult s rest a r) : r.1.WillUse cfg m ↔ s.WillUse cfg m := by
  cases h <;> exact willUse_congr rfl rfl rfl rfl rfl rfl

/-- A use that is made or ahead after a step was ahead before it, unless the step has put a closure
into the queue. If nothing throws, a use ahead is made or stays ahead. -/
structure KeepsUses (cfg : BrainConfig n) (m : BrainMember) (s : Teardown n H)
    (e : TeardownEvent n) (r : Teardown n H × List TeardownOutput) : Prop where
  back : .used m ∈ r.2 ∨ r.1.WillUse cfg m → s.WillUse cfg m ∨ s.Admits e ∧ s.exited = false
  forth : ¬ e.Throws → s.WillUse cfg m ∨ s.Admits e ∧ s.exited = false →
    .used m ∈ r.2 ∨ r.1.WillUse cfg m

/-- A step that makes no use and leaves those ahead alone. -/
theorem KeepsUses.of_quiet (hout : .used m ∉ r.2) (hadmits : ¬ s.Admits e)
    (hiff : r.1.WillUse cfg m ↔ s.WillUse cfg m) : KeepsUses cfg m s e r where
  back h := Or.inl (hiff.mp (h.resolve_left hout))
  forth _ h := Or.inr (hiff.mpr (h.resolve_right fun h => hadmits h.1))

/-- An access of a closure: the uses ahead are its own and those ahead of the next one. -/
theorem KeepsUses.of_uses {uses : List BrainMember} (hexited : s.exited = false)
    (hexited' : s'.exited = false) (hadmits : ¬ s.Admits e)
    (hqueue : s'.threads.brain.inferenceQueue = s.threads.brain.inferenceQueue)
    (hsub : uses ++ s'.threads.worker.membersLeft cfg s'.threads.brain s'.stage ⊆
      s.threads.worker.membersLeft cfg s.threads.brain s.stage)
    (hsup : ¬ e.Throws → s.threads.worker.membersLeft cfg s.threads.brain s.stage ⊆
      uses ++ s'.threads.worker.membersLeft cfg s'.threads.brain s'.stage) :
    KeepsUses cfg m s e (s', uses.map .used) := by
  have hused : .used m ∈ uses.map TeardownOutput.used ↔ m ∈ uses := by simp
  constructor
  · intro h
    refine Or.inl ⟨hexited, ?_⟩
    rcases h with hmem | ⟨-, hleft⟩
    · exact Or.inr (hsub (List.mem_append_left _ (hused.mp hmem)))
    · rw [hqueue] at hleft
      exact hleft.imp_right fun hmem => hsub (List.mem_append_right _ hmem)
  · intro hthrow h
    obtain ⟨-, hleft | hmem⟩ := h.resolve_right fun h => hadmits h.1
    · exact Or.inr ⟨hexited', Or.inl (by rwa [hqueue])⟩
    · rcases List.mem_append.mp (hsup hthrow hmem) with hmem | hmem
      · exact Or.inl (hused.mpr hmem)
      · exact Or.inr ⟨hexited', Or.inr hmem⟩

theorem StepResult.keepsUses (h : StepResult cfg env s e r) (hmain : s.main ≠ none)
    (hidle : s.exited = true → s.threads.worker = .idle) (hm : m ∈ closureMembers) :
    KeepsUses cfg m s e r := by
  have hexited_of {pc : WorkerPc n} (hpc : s.threads.worker = pc) (hrunning : pc.running = true) :
      s.exited = false := by
    refine Bool.eq_false_iff.mpr fun hexited => ?_
    rw [← hpc, hidle hexited] at hrunning
    cases hrunning
  cases h with
  | call hnone | rpc hnone | leave hnone => exact absurd hnone hmain
  | main _ h => exact .of_quiet h.not_mem_used id h.willUse
  | check | wake | endTick =>
    exact .of_quiet List.not_mem_nil id (willUse_congr rfl rfl rfl rfl rfl rfl)
  | beginTick _ h =>
    cases Threads.stepResult h
    exact .of_quiet (by simp) id (willUse_congr rfl rfl rfl rfl rfl rfl)
  | control h =>
    cases Threads.stepResult h with
    | control hres =>
      obtain ⟨hgen, hpool, hqueue⟩ := ControlResult.queue hres
      split_ifs at hqueue with hadmits
      · exact ⟨fun h => Or.inr ⟨hadmits, (h.resolve_left List.not_mem_nil).1⟩,
          fun _ h => Or.inr ⟨h.elim (fun h => h.1) (fun h => h.2), Or.inl hqueue⟩⟩
      · exact .of_quiet List.not_mem_nil hadmits (willUse_congr rfl rfl rfl hqueue hgen hpool)
  | dequeue hexited h =>
    cases Threads.stepResult h with
    | @dequeue f q _ hq =>
      have hbefore : s.WillUse cfg m := ⟨hexited, Or.inl (by rw [hq]; exact List.cons_ne_nil _ _)⟩
      exact ⟨fun _ => Or.inl hbefore,
        fun _ _ => Or.inr ⟨hexited, Or.inr (mem_membersLeft_entered hm _ f)⟩⟩
  | acquire hpc hstage =>
    have hexited := hexited_of hpc rfl
    show KeepsUses cfg m s _ (_, [BrainMember.tensorPool].map .used)
    refine .of_uses hexited hexited not_false rfl ?_ fun _ => ?_ <;> rw [hpc, hstage] <;>
      exact List.Subset.refl _
  | observe hpc hstage =>
    have hexited := hexited_of hpc rfl
    show KeepsUses cfg m s _ (_, [BrainMember.defaultJointPositions, .prevActions].map .used)
    refine .of_uses hexited hexited not_false rfl ?_ fun _ => ?_ <;> rw [hpc, hstage] <;>
      exact List.Subset.refl _
  | @worker throws now r hstage h =>
    cases Threads.stepResult h with
    | worker hres =>
      obtain ⟨hrunning, hqueue, -⟩ := Threads.WorkerResult.gate hres
      have hexited := hexited_of rfl hrunning
      refine .of_uses hexited hexited not_false hqueue (members_subset hres hstage) fun hthrow => ?_
      obtain rfl : throws = false := Bool.eq_false_iff.mpr hthrow
      exact subset_members hstage h
  | exit hpc hqueue =>
    have hnone : ¬ s.WillUse cfg m := by
      rintro ⟨-, hqueued | hmem⟩
      · exact hqueued hqueue
      · rw [hpc] at hmem
        cases hmem
    exact .of_quiet List.not_mem_nil id (iff_of_false (fun h => nomatch h.1) hnone)

/-! ### The order along a run -/

/-- The ticks are in order so far, and none is about to begin late. -/
def TickInv (s : Teardown n H) (tr : List TeardownOutput) : Prop :=
  TicksInTime tr ∧ (.destructorBegun ∈ tr → s.realtime ≠ .woken)

/-- The uses of the member are in order so far, and none is ahead that would be late. -/
def UseInv (cfg : BrainConfig n) (m : BrainMember) (s : Teardown n H)
    (tr : List TeardownOutput) : Prop :=
  UsedInTime m tr ∧ (.destroyed m ∈ tr → ¬ s.WillUse cfg m)

/-- A step that begins neither the destructor nor a tick, nor moves the realtime thread. -/
theorem tickInv_quiet {out : List TeardownOutput} (hbegun : .destructorBegun ∉ out)
    (htick : .tickBegun ∉ out) (hpc : s'.realtime = s.realtime)
    (hperforms : ¬ s.Performs .brainBody e) (hwakes : ¬ s.Wakes e) :
    s'.TickInv (tr ++ out) ↔ s.TickInv tr ∧ s.WakesInTime tr e := by
  have hok : s.WakesInTime tr e := ⟨fun h => absurd h hperforms, fun h => absurd h hwakes⟩
  rw [and_iff_left hok, TickInv, TickInv, TicksInTime, notAfter_append fun h => absurd h hbegun,
    and_iff_left fun h => absurd h htick, hpc, List.mem_append, or_iff_left hbegun, TicksInTime]

theorem tickInv_of_ne_woken (hpc : s.realtime ≠ .woken) : s.TickInv tr ↔ TicksInTime tr :=
  and_iff_left fun _ => hpc

theorem wakesInTime_realtime {now : ℤ} (hpc : s.realtime ≠ .sleep) :
    s.WakesInTime tr (.realtime now) :=
  ⟨False.elim, fun h => absurd h hpc⟩

/-- A step of the realtime thread that neither wakes it up nor begins a tick. -/
theorem tickInv_awake {now : ℤ} (hpc : s.realtime ≠ .woken ∧ s.realtime ≠ .sleep)
    (hpc' : s'.realtime ≠ .woken) :
    s'.TickInv (tr ++ []) ↔ s.TickInv tr ∧ s.WakesInTime tr (.realtime now) := by
  rw [List.append_nil, tickInv_of_ne_woken hpc', tickInv_of_ne_woken hpc.1,
    and_iff_left (wakesInTime_realtime hpc.2)]

/-- Every step keeps the ticks in order exactly if it meets the condition. -/
theorem StepResult.tickInv (h : StepResult cfg env s e r) :
    r.1.TickInv (tr ++ r.2) ↔ s.TickInv tr ∧ s.WakesInTime tr e := by
  cases h with
  | call | rpc | leave | control | dequeue | acquire | observe | worker | exit =>
    exact tickInv_quiet (by simp) (by simp) rfl id id
  | main hmain h =>
    cases h with
    | brainBody =>
      have hticks : TicksInTime (tr ++ [.destructorBegun]) ↔ TicksInTime tr := by
        rw [TicksInTime, notAfter_append (by simp)]
        exact and_iff_left (by simp)
      constructor
      · rintro ⟨horder, hpc⟩
        have hpc' : s.realtime ≠ .woken := hpc (List.mem_append_right _ List.mem_cons_self)
        exact ⟨⟨hticks.mp horder, fun _ => hpc'⟩, fun _ => hpc', False.elim⟩
      · rintro ⟨⟨horder, -⟩, hpc, -⟩
        exact ⟨hticks.mpr horder, fun _ => hpc ((performs_main hmain).mpr rfl)⟩
    | _ =>
      exact tickInv_quiet (by simp) (by simp) rfl
        (fun hperforms => nomatch (performs_main hmain).mp hperforms) id
  | check hpc =>
    refine tickInv_awake (by rw [hpc]; decide) ?_
    show (if s.rtRunning then RealtimePc.sleep else .stopped) ≠ .woken
    split_ifs <;> decide
  | endTick hpc =>
    have hafter : RealtimePc.check ≠ .woken := by decide
    exact tickInv_awake (by rw [hpc]; decide) hafter
  | wake hpc =>
    have hbefore : s.realtime ≠ .woken := by rw [hpc]; decide
    rw [List.append_nil, tickInv_of_ne_woken hbefore]
    refine and_congr_right fun _ => ⟨fun h => ?_, fun h hmem => absurd hmem (h.2 hpc)⟩
    exact ⟨False.elim, fun _ hmem => h hmem rfl⟩
  | beginTick hpc =>
    have hbefore : s.realtime ≠ .sleep := by rw [hpc]; decide
    have hafter : RealtimePc.tick ≠ .woken := by decide
    rw [tickInv_of_ne_woken hafter, TicksInTime, notAfter_append (by simp),
      and_iff_left (wakesInTime_realtime hbefore)]
    refine and_congr_right fun _ => ⟨fun h hmem => ?_, fun h _ hmem => h hmem hpc⟩
    exact absurd hmem (h List.mem_cons_self)

/-! ### The uses along a run -/

section Uses

variable (h : StepResult cfg env s e r) (hbefore : s.main = none → .destroyed m ∉ tr)
  (hidle : s.exited = true → s.threads.worker = .idle) (hm : m ∈ closureMembers)
include h hbefore hidle hm

/-- A step that meets the condition keeps the uses in order. -/
theorem UseInv.step (hI : s.UseInv cfg m tr) (hok : s.ClosesInTime cfg m tr e) :
    r.1.UseInv cfg m (tr ++ r.2) := by
  obtain ⟨horder, hahead⟩ := hI
  obtain ⟨hdestroy, hadmission⟩ := hok
  -- once the member has been destroyed no use is made and none is ahead
  have hlate (hmem : .destroyed m ∈ tr) : ¬ (.used m ∈ r.2 ∨ r.1.WillUse cfg m) := by
    intro huse
    have hmain : s.main ≠ none := fun hnone => hbefore hnone hmem
    rcases (h.keepsUses hmain hidle hm).back huse with hwill | ⟨hadmits, hexited⟩
    · exact hahead hmem hwill
    · rw [hadmission hadmits hmem] at hexited
      cases hexited
  refine ⟨(notAfter_append h.destroyed.2).mpr ⟨horder, fun hused hmem => ?_⟩, fun hmem hwill => ?_⟩
  · exact hlate hmem (Or.inl hused)
  · rcases List.mem_append.mp hmem with hmem | hmem
    · exact hlate hmem (Or.inr hwill)
    · have hperforms := h.destroyed.1.mp hmem
      obtain ⟨hmain, hadmits, -⟩ := hperforms.main
      have hback := (h.keepsUses hmain hidle hm).back (Or.inr hwill)
      exact hdestroy hperforms (hback.resolve_right fun h => hadmits h.1)

/-- A step after which the uses are in order meets the condition, if nothing throws. -/
theorem UseInv.of_step (hthrow : s.main ≠ none → ¬ e.Throws)
    (hI : r.1.UseInv cfg m (tr ++ r.2)) : s.UseInv cfg m tr ∧ s.ClosesInTime cfg m tr e := by
  obtain ⟨horder, hahead⟩ := hI
  obtain ⟨horder, hlate⟩ := (notAfter_append h.destroyed.2).mp horder
  -- once the member has been destroyed a use ahead would be made or stay ahead
  have hnone (hmem : .destroyed m ∈ tr) :
      ¬ (s.WillUse cfg m ∨ s.Admits e ∧ s.exited = false) := by
    intro huse
    have hmain : s.main ≠ none := fun hnone => hbefore hnone hmem
    rcases (h.keepsUses hmain hidle hm).forth (hthrow hmain) huse with hused | hwill
    · exact hlate hused hmem
    · exact hahead (List.mem_append_left _ hmem) hwill
  refine ⟨⟨horder, fun hmem hwill => hnone hmem (Or.inl hwill)⟩, fun hperforms hwill => ?_,
    fun hadmits hmem => ?_⟩
  · obtain ⟨hmain, -, hthrow⟩ := hperforms.main
    have hmem := h.destroyed.1.mpr hperforms
    rcases (h.keepsUses hmain hidle hm).forth hthrow (Or.inl hwill) with hused | hwill
    · exact h.destroyed.2 hmem hused
    · exact hahead (List.mem_append_right _ hmem) hwill
  · by_contra hexited
    exact hnone hmem (Or.inr ⟨hadmits, Bool.eq_false_iff.mpr hexited⟩)

end Uses

/-! ### Runs -/

variable {now : ℤ} {es : List (TeardownEvent n)}

/-- A step that does not leave `Run` is made in `Run`, and destroys nothing. -/
theorem StepResult.main_eq_none (h : StepResult cfg env s e r) (hmain : r.1.main = none) :
    s.main = none ∧ .destroyed m ∉ r.2 := by
  cases h with
  | leave => cases hmain
  | main _ h =>
    rw [h.main.1] at hmain
    cases hmain
  | _ => exact ⟨hmain, by simp⟩

/-- Nothing is destroyed before `Run` is left. -/
theorem not_mem_destroyed_of_run (h : (teardown cfg env now).Run es s tr) (hmain : s.main = none) :
    .destroyed m ∉ tr := by
  refine h.invariant (fun s tr => s.main = none → .destroyed m ∉ tr) (fun _ => List.not_mem_nil)
    (fun _ hI _ hs hmain hmem => ?_) hmain
  obtain ⟨hbefore, hout⟩ := (stepResult hs).main_eq_none (m := m) hmain
  exact (List.mem_append.mp hmem).elim (hI hbefore) hout

/-- The worker has left its loop between two closures. -/
theorem worker_of_exited (h : (teardown cfg env now).Run es s tr) (hexited : s.exited = true) :
    s.threads.worker = .idle := by
  refine h.invariant (fun s _ => s.exited = true → s.threads.worker = .idle) (fun _ => rfl)
    (fun {es s tr e s' out} _ hI _ hs hexited => ?_) hexited
  cases stepResult hs with
  | call _ h | rpc _ h | beginTick _ h | control h =>
    cases Threads.stepResult h
    exact hI hexited
  | main _ h => cases h <;> exact hI hexited
  | dequeue hlive =>
    rw [hlive] at hexited
    cases hexited
  | worker _ h =>
    cases Threads.stepResult h with
    | worker hres =>
      have hrunning := (Threads.WorkerResult.gate hres).1
      rw [hI hexited] at hrunning
      cases hrunning
  | exit hpc => exact hpc
  | leave | check | wake | endTick | acquire | observe => exact hI hexited

/-- All along a run that meets the condition the order is kept and nothing is ahead that would break
it. -/
theorem orderInv_of_reaches
    (h : (teardown cfg env now).Reaches (fun s tr e => s.InOrder cfg tr e) es s tr) :
    s.TickInv tr ∧ ∀ m ∈ closureMembers, s.UseInv cfg m tr := by
  refine h.invariant (fun s tr => s.TickInv tr ∧ ∀ m ∈ closureMembers, s.UseInv cfg m tr)
    ⟨⟨trivial, fun hmem => nomatch hmem⟩, fun _ _ => ⟨trivial, fun hmem => nomatch hmem⟩⟩ ?_
  rintro es s tr e s' out hreach ⟨hticks, huses⟩ ⟨hwakes, hcloses⟩ hs
  have hres := stepResult hs
  refine ⟨hres.tickInv.mpr ⟨hticks, hwakes⟩, fun m hm => ?_⟩
  exact UseInv.step hres (not_mem_destroyed_of_run hreach.run) (worker_of_exited hreach.run) hm
    (huses m hm) (hcloses m hm)

/-- A run without exceptions in the closures that ends in order has met the condition. -/
theorem reaches_of_orderInv
    (h : (teardown cfg env now).Reaches (fun s _ e => s.main ≠ none → ¬ e.Throws) es s tr)
    (hI : s.TickInv tr ∧ ∀ m ∈ closureMembers, s.UseInv cfg m tr) :
    (teardown cfg env now).Reaches (fun s tr e => s.InOrder cfg tr e) es s tr := by
  refine h.of_backward (fun s tr => s.TickInv tr ∧ ∀ m ∈ closureMembers, s.UseInv cfg m tr) ?_ hI
  rintro es s tr e s' out hreach hthrow hs ⟨hticks, huses⟩
  have hres := stepResult hs
  obtain ⟨hticks, hwakes⟩ := hres.tickInv.mp hticks
  have hcloses m (hm : m ∈ closureMembers) : s.UseInv cfg m tr ∧ s.ClosesInTime cfg m tr e :=
    UseInv.of_step hres (not_mem_destroyed_of_run hreach.run) (worker_of_exited hreach.run) hm
      hthrow (huses m hm)
  exact ⟨⟨hticks, fun m hm => (hcloses m hm).1⟩, hwakes, fun m hm => (hcloses m hm).2⟩

/-- When `main` has returned nothing is ahead. -/
theorem orderInv_of_order (h : (teardown cfg env now).Run es s tr) (hmain : s.main = some [])
    (horder : TeardownOrder tr) : s.TickInv tr ∧ ∀ m ∈ closureMembers, s.UseInv cfg m tr := by
  obtain ⟨hexited, hstopped⟩ := ended_of_run h hmain
  obtain ⟨hticks, huses⟩ := horder
  refine ⟨⟨hticks, fun _ => by rw [hstopped]; decide⟩, fun m hm => ⟨huses m hm, fun _ hwill => ?_⟩⟩
  rw [hwill.1] at hexited
  cases hexited

end Teardown

/-! ### Results -/

section Results

variable {cfg : BrainConfig n} {env : Environment n H} {now : ℤ} {es : List (TeardownEvent n)}
  {s : Teardown n H} {tr : List TeardownOutput}

/-- If the realtime thread does not wake up after `~AIBrain` has begun, and at the destruction of
each member that the closures use none of them has a use before it, then no tick begins after the
destructor and no closure uses a destroyed member. Among the complete runs in which no closure
throws after `Run`, these are all. -/
theorem teardown_order (h : (teardown cfg env now).Run es s tr) :
    ((teardown cfg env now).Reaches (fun s tr e => s.InOrder cfg tr e) es s tr →
      TeardownOrder tr) ∧
    (s.main = some [] →
      (teardown cfg env now).Reaches (fun s _ e => s.main ≠ none → ¬ e.Throws) es s tr →
      TeardownOrder tr →
      (teardown cfg env now).Reaches (fun s tr e => s.InOrder cfg tr e) es s tr) := by
  constructor
  · intro hok
    obtain ⟨hticks, huses⟩ := Teardown.orderInv_of_reaches hok
    exact ⟨hticks.1, fun m hm => (huses m hm).1⟩
  · intro hmain hthrow horder
    exact Teardown.reaches_of_orderInv hthrow (Teardown.orderInv_of_order h hmain horder)

/-- A tick that queues a frame, and the worker takes it. -/
def takenFrame : List (TeardownEvent 12) :=
  List.replicate 3 (.realtime 20) ++ List.replicate 7 (.control (upright shippedConfig)) ++
    [.realtime 20, .dequeue]

/-- The closure is done before `Run` is left, and the realtime thread does not go on until the node
stops it. -/
theorem teardown_order_done :
    ∃ s tr, (teardown shippedConfig (constantPolicy 12 (.fin 0)) 0).Run
        (takenFrame ++ List.replicate 13 (.worker false 30) ++ .leave :: List.replicate 37 .main ++
          .exit :: List.replicate 9 .main ++ [.realtime 40, .main]) s tr ∧
      s.main = some [] ∧ TeardownOrder tr := by
  have hrun : ∃ s tr, (teardown shippedConfig (constantPolicy 12 (.fin 0)) 0).Reaches
      (fun s tr e => s.InOrder shippedConfig tr e)
      (takenFrame ++ List.replicate 13 (.worker false 30) ++ .leave :: List.replicate 37 .main ++
        .exit :: List.replicate 9 .main ++ [.realtime 40, .main]) s tr ∧
      s.main = some [] :=
    Machine.exists_reaches_of_decide _ (by decide +kernel)
  obtain ⟨s, tr, hreach, hend⟩ := hrun
  exact ⟨s, tr, hreach.run, hend, (teardown_order hreach.run).1 hreach⟩

/-- `Run` is left while a closure is at its first access: the members are destroyed under it, and
the realtime thread calls `ControlLoopStep` again. -/
theorem exists_teardown_out_of_order :
    ∃ s tr, (teardown shippedConfig (constantPolicy 12 (.fin 0)) 0).Run
        (takenFrame ++ .leave :: List.replicate 35 .main ++ List.replicate 3 (.worker false 40) ++
          List.replicate 3 (.realtime 40)) s tr ∧
      ¬ TicksInTime tr ∧ ∀ m ∈ closureMembers, ¬ UsedInTime m tr :=
  Machine.exists_reaches_of_decide _ (by decide +kernel)

end Results

end RobotBrain
