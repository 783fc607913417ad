import RobotBrain.Brain.Atomic
import RobotBrain.Rpc.Lifecycle
import RobotBrain.Rpc.Metrics
import RobotBrain.Library.Trace

/-!
# What a status message reports

`BuildStatusMessage` loads the state, the task type and the generation one after another. It runs on
the queue thread, and so does `ProcessRobotTask`, so that no message is built while a task is being
stored: every message reports the last task that has been processed, in all three. The counters of
frames may grow between two loads; the worker and the control thread only increment them.

The counters have 64 bits. Once `2^64` requests have been processed the generation starts over at
zero.

## Main definitions

* `RobotStatus.Reports` — a message reports the last of the tasks.
* `Counter` — the counters of a message.
* `StatusServer.ReportInv`, `StatusServer.Rising` — the invariants.

## Main results

* `status_reports` — no message is torn, and no counter decreases along a stream.
* `exists_status_wraps` — a message after `2^64` requests.
-/

namespace RobotBrain

open ExtNum

variable {n : ℕ} {H : Type*} {cfg : BrainConfig n} {env : Environment n H}

/-- The generation is the number of the tasks, as a value of 64 bits, the task type that of the last
one, and the state `EXECUTING` or `STANDING`, the latter if there is no task or the last one is an
emergency stop. -/
structure RobotStatus.Reports (tasks : List Task) (msg : RobotStatus) : Prop where
  generation : msg.taskGeneration = UInt64.ofNat tasks.length
  type : msg.taskType = lastType tasks
  active : msg.state = .executing ∨ msg.state = .standing
  calm : Calm tasks → msg.state = .standing

/-! ### Counters -/

/-- The counters of a message. -/
inductive Counter
  | taskGeneration
  | totalFrames
  | droppedFrames
  | staleFrames

namespace Counter

/-- The load of a counter. -/
def field : Counter → StatusField
  | taskGeneration => .taskGeneration
  | totalFrames => .totalFrames
  | droppedFrames => .droppedFrames
  | staleFrames => .staleFrames

/-- The value of a counter in a message. -/
def shown (msg : RobotStatus) : Counter → UInt64
  | taskGeneration => msg.taskGeneration
  | totalFrames => msg.totalFrames
  | droppedFrames => msg.droppedFrames
  | staleFrames => msg.staleFrames

/-- How many times a counter has been incremented. -/
def increments (b : Brain n H) : Counter → ℕ
  | taskGeneration => b.history.tasks.length
  | totalFrames => b.metrics.totalFrames
  | droppedFrames => b.metrics.droppedFrames
  | staleFrames => b.metrics.staleFrames

theorem shown_load {b : Brain n H} (hcurrent : Threads.Current b)
    (hgen : b.taskGeneration = UInt64.ofNat b.history.tasks.length) (readings : StatusReadings)
    (msg : RobotStatus) (c : Counter) :
    c.shown (c.field.load b readings msg) = UInt64.ofNat (c.increments b) := by
  cases c with
  | taskGeneration => exact hcurrent.generation.trans hgen
  | _ => rfl

theorem shown_load_of_ne (b : Brain n H) (readings : StatusReadings) (msg : RobotStatus)
    {f : StatusField} {c : Counter} (h : f ≠ c.field) :
    c.shown (f.load b readings msg) = c.shown msg := by
  cases f
  case ros =>
    obtain ⟨-, -, ros, -⟩ := readings
    cases ros <;> rfl
  all_goals cases c <;> first | rfl | exact absurd rfl h

end Counter

namespace Threads

private theorem RpcResult.increments_le {now : ℤ} {b b' : Brain n H} {pc pc' : RpcPc}
    {out : List (Output n)} (h : RpcResult cfg env now b pc b' pc' out) (c : Counter) :
    c.increments b ≤ c.increments b' := by
  cases h
  case incrementGeneration t =>
    cases c with
    | taskGeneration =>
      show b.history.tasks.length ≤ (b.history.tasks ++ [t]).length
      rw [List.length_append]
      omega
    | _ => exact le_rfl
  all_goals cases c <;> exact le_rfl

private theorem ControlResult.increments_le {prop : Proprioception n} {b b' : Brain n H}
    {pc pc' : ControlPc n} {out : List (Output n)}
    (h : ControlResult cfg env prop b pc b' pc' out) (c : Counter) :
    c.increments b ≤ c.increments b' := by
  cases h
  case countDropped =>
    cases c with
    | droppedFrames => exact Nat.le_succ _
    | _ => exact le_rfl
  all_goals cases c <;> exact le_rfl

private theorem WorkerResult.increments_le {now : ℤ} {b b' : Brain n H} {pc pc' : WorkerPc n}
    {out : List (Output n)} (h : WorkerResult cfg env now b pc b' pc' out) (c : Counter) :
    c.increments b ≤ c.increments b' := by
  cases h
  case countFrame =>
    cases c with
    | totalFrames => exact Nat.le_succ _
    | _ => exact le_rfl
  case countStale =>
    cases c with
    | staleFrames => exact Nat.le_succ _
    | _ => exact le_rfl
  case forward | forwardThrew =>
    rw [Brain.acquireBuffer_brain]
    cases c <;> exact le_rfl
  case releaseBuffer =>
    rw [Brain.releaseBuffer_eq]
    cases c <;> exact le_rfl
  all_goals cases c <;> exact le_rfl

/-- No counter is reset. -/
theorem StepResult.increments_le {s : Threads n H} {e : ThreadEvent n}
    {r : Threads n H × List (Output n)} (h : StepResult cfg env s e r) (c : Counter) :
    c.increments s.brain ≤ c.increments r.1.brain := by
  cases h with
  | call | tick | dequeue => cases c <;> exact le_rfl
  | rpc h => exact h.increments_le c
  | control h => exact h.increments_le c
  | worker h => exact h.increments_le c

end Threads

/-! ### Messages under construction -/

/-- A field of a message reports the last of the tasks. -/
def StatusField.Agrees (tasks : List Task) (msg : RobotStatus) : StatusField → Prop
  | state => (msg.state = .executing ∨ msg.state = .standing) ∧
    (Calm tasks → msg.state = .standing)
  | taskType => msg.taskType = lastType tasks
  | taskGeneration => msg.taskGeneration = UInt64.ofNat tasks.length
  | _ => True

theorem RobotStatus.reports_of_agrees {tasks : List Task} {msg : RobotStatus}
    (h : ∀ f : StatusField, f.Agrees tasks msg) : msg.Reports tasks :=
  ⟨h .taskGeneration, h .taskType, (h .state).1, (h .state).2⟩

/-- A load of the metrics of the last task. -/
theorem StatusField.agrees_load {b : Brain n H} (hcurrent : Threads.Current b)
    (hactive : b.metrics.currentState = .executing ∨ b.metrics.currentState = .standing)
    (hgen : b.taskGeneration = UInt64.ofNat b.history.tasks.length) (readings : StatusReadings)
    (msg : RobotStatus) (f : StatusField) :
    f.Agrees b.history.tasks (f.load b readings msg) := by
  cases f with
  | state => exact ⟨hactive, hcurrent.calm⟩
  | taskType => exact hcurrent.type
  | taskGeneration => exact hcurrent.generation.trans hgen
  | _ => trivial

theorem StatusField.agrees_load_of_ne {tasks : List Task} {msg : RobotStatus}
    {f g : StatusField} (h : g.Agrees tasks msg) (hne : g ≠ f) (b : Brain n H)
    (readings : StatusReadings) : g.Agrees tasks (f.load b readings msg) := by
  cases f
  case ros =>
    obtain ⟨-, -, ros, -⟩ := readings
    cases ros with
    | none => exact h
    | some values => cases g <;> exact h
  all_goals cases g <;> first | exact h | exact absurd rfl hne

/-- The queue thread is in `ProcessRobotTask`. -/
def QueuePc.isProcessing : QueuePc → Bool
  | .processing _ => true
  | _ => false

/-- The message under construction, if there is one, satisfies `P` with the session and the fields
that have not been loaded. -/
def QueuePc.Building (P : ℕ → List StatusField → RobotStatus → Prop) : QueuePc → Prop
  | .building id fields msg _ => P id fields msg
  | _ => True

theorem QueuePc.Building.imp {P Q : ℕ → List StatusField → RobotStatus → Prop} {queue : QueuePc}
    (h : queue.Building P) (himp : ∀ id fields msg, P id fields msg → Q id fields msg) :
    queue.Building Q := by
  cases queue with
  | building id fields msg todo => exact himp id fields msg h
  | _ => trivial

theorem messages_append (id : ℕ) (tr out : List StatusOutput) :
    messages id (tr ++ out) = messages id tr ++ messages id out :=
  List.filterMap_append

@[simp] theorem messages_map_processed (id : ℕ) (tasks : List Task) :
    messages id (tasks.map .processed) = [] := by
  induction tasks with
  | nil => rfl
  | cons t tasks ih => exact ih

namespace StatusServer

/-- The RPC thread is idle while the queue thread is not in `ProcessRobotTask`, the fields that have
been loaded report the last of the requests, and so did every message that has been written. -/
structure ReportInv (s : StatusServer n H) (tr : List StatusOutput) : Prop where
  idle : s.queue.isProcessing = false → s.threads.rpc = .idle
  building : s.queue.Building fun _ fields msg => ∀ f ∉ fields, f.Agrees (requests tr) msg
  written : Each (fun past o => ∀ id msg, o = .status id msg → msg.Reports (requests past)) tr

/-- The returns of tasks are no messages. -/
private theorem each_append_processed {P : List StatusOutput → RobotStatus → Prop}
    {tr : List StatusOutput}
    (h : Each (fun past o => ∀ id msg, o = .status id msg → P past msg) tr) (tasks : List Task) :
    Each (fun past o => ∀ id msg, o = .status id msg → P past msg)
      (tr ++ tasks.map .processed) := by
  rw [each_append]
  refine ⟨h, each_iff_forall_eq.mpr ?_⟩
  rintro past o rest heq id msg rfl
  have hmem : .status id msg ∈ tasks.map StatusOutput.processed := by
    rw [heq]
    exact List.mem_append_right _ List.mem_cons_self
  obtain ⟨t, -, ht⟩ := List.mem_map.mp hmem
  cases ht

/-- While the queue thread is not in `ProcessRobotTask`, the metrics are those of the last of the
requests. -/
theorem current_of_idle {now : ℤ} {es : List (StatusEvent n)}
    {s : StatusServer n H} {tr : List StatusOutput} (h : (statusServer cfg env now).Run es s tr)
    (hidle : s.threads.rpc = .idle) :
    Threads.Current s.threads.brain ∧ s.threads.brain.history.tasks = requests tr ∧
      s.threads.brain.taskGeneration =
        UInt64.ofNat s.threads.brain.history.tasks.length ∧
      (s.threads.brain.metrics.currentState = .executing ∨
        s.threads.brain.metrics.currentState = .standing) := by
  obtain ⟨moves, out, hrun, hrequests⟩ := exists_run h
  have hmetrics := Threads.metricsInv_of_reaches hrun
  have hstoring := hmetrics.storing
  have htasks := Threads.tasks_eq_returned hrun
  rw [hidle] at hstoring htasks
  refine ⟨hstoring, ?_, (Threads.generationInv_of_reaches hrun).brain, hmetrics.active⟩
  rw [hrequests]
  exact htasks.trans (List.append_nil _)

private theorem isProcessing_afterAccess {todo : List ServerOutput} {pc : RpcPc}
    (h : (afterAccess todo pc).isProcessing = false) : pc = .idle := by
  cases pc <;> first | rfl | cases h

private theorem building_afterAccess {P : ℕ → List StatusField → RobotStatus → Prop}
    {todo : List ServerOutput} {pc : RpcPc} : (afterAccess todo pc).Building P := by
  cases pc <;> trivial

private theorem ReportInv.step {now : ℤ} {es : List (StatusEvent n)} {s : StatusServer n H}
    {tr : List StatusOutput} {e : StatusEvent n} {r : StatusServer n H × List StatusOutput}
    (hrun : (statusServer cfg env now).Run es s tr) (h : s.ReportInv tr)
    (hr : StepResult cfg env s e r) : r.1.ReportInv (tr ++ r.2) := by
  obtain ⟨hidle, hbuilding, hwritten⟩ := h
  cases hr with
  | delivered hqueue | skipped hqueue =>
    rw [List.append_nil]
    exact ⟨fun _ => hidle (by rw [hqueue]; rfl), trivial, hwritten⟩
  | shutdown =>
    rw [List.append_nil]
    exact ⟨hidle, hbuilding, hwritten⟩
  | called => exact ⟨nofun, trivial, each_append_processed hwritten _⟩
  | accessed =>
    exact ⟨isProcessing_afterAccess, building_afterAccess, each_append_processed hwritten _⟩
  | began hqueue =>
    rw [List.append_nil]
    exact ⟨fun _ => hidle (by rw [hqueue]; rfl), fun f hf => absurd f.mem_order hf, hwritten⟩
  | @loaded _ readings id f fields msg todo hqueue =>
    rw [hqueue] at hidle hbuilding
    obtain ⟨hcurrent, htasks, hgen, hactive⟩ := current_of_idle hrun (hidle rfl)
    rw [List.append_nil]
    refine ⟨fun _ => hidle rfl, fun g hg => ?_, hwritten⟩
    by_cases heq : g = f
    · rw [heq, ← htasks]
      exact StatusField.agrees_load hcurrent hactive hgen readings msg f
    · have hnot : g ∉ f :: fields := fun hmem => (List.mem_cons.mp hmem).elim heq hg
      exact StatusField.agrees_load_of_ne (hbuilding g hnot) heq _ _
  | @wrote _ _ id msg todo hqueue =>
    rw [hqueue] at hidle hbuilding
    refine ⟨fun _ => hidle rfl, trivial, each_concat.mpr ⟨hwritten, ?_⟩⟩
    rintro id' msg' heq
    cases heq
    exact RobotStatus.reports_of_agrees fun f => hbuilding f List.not_mem_nil
  | moved he hs =>
    obtain ⟨hrpc, hout⟩ := (Threads.stepResult hs).of_not_rpc he
    rw [hout, List.map_nil, List.append_nil]
    exact ⟨fun hq => hrpc.trans (hidle hq), hbuilding, hwritten⟩

theorem reportInv_of_run {now : ℤ} {es : List (StatusEvent n)} {s : StatusServer n H}
    {tr : List StatusOutput} (h : (statusServer cfg env now).Run es s tr) : s.ReportInv tr := by
  have hinit : ReportInv (statusServer cfg env now).init [] :=
    ⟨fun _ => rfl, trivial, trivial⟩
  refine h.invariant (fun s tr => s.ReportInv tr) hinit ?_
  intro es s tr e s' out hrun hI _ hs
  exact hI.step hrun (stepResult hs)

/-! ### Counters along a stream -/

/-- The value of a counter in a message is at least that in the messages before it and at most what
a load would give now. -/
def Fits (c : Counter) (b : Brain n H) (before : List RobotStatus) (msg : RobotStatus) : Prop :=
  (∀ msg' ∈ before, c.shown msg' ≤ c.shown msg) ∧ (c.shown msg).toNat ≤ c.increments b

/-- The values of a counter in the messages of every stream have not decreased and are at most what
a load would give now, also in the message under construction once the counter has been loaded. -/
structure Rising (c : Counter) (s : StatusServer n H) (tr : List StatusOutput) : Prop where
  sorted : ∀ id, (messages id tr).Pairwise fun msg msg' => c.shown msg ≤ c.shown msg'
  past : ∀ id, ∀ msg ∈ messages id tr, (c.shown msg).toNat ≤ c.increments s.threads.brain
  building : s.queue.Building fun id fields msg =>
    c.field ∉ fields → Fits c s.threads.brain (messages id tr) msg

/-- An access of the threads. -/
private theorem Rising.moved {c : Counter} {s : StatusServer n H} {tr : List StatusOutput}
    (h : s.Rising c tr) {e : ThreadEvent n} {r : Threads n H × List (Output n)}
    (hr : Threads.StepResult cfg env s.threads e r) {queue : QueuePc}
    (hbuilding : queue.Building fun id fields msg =>
      c.field ∉ fields → Fits c s.threads.brain (messages id tr) msg) :
    Rising c { s with threads := r.1, queue := queue }
      (tr ++ (returnedTasks r.2).map .processed) := by
  have hmessages (id : ℕ) :
      messages id (tr ++ (returnedTasks r.2).map .processed) = messages id tr := by
    rw [messages_append, messages_map_processed, List.append_nil]
  have hle := hr.increments_le c
  refine ⟨fun id => ?_, fun id msg hmsg => ?_, hbuilding.imp fun id fields msg hfits hnot => ?_⟩
  · rw [hmessages]
    exact h.sorted id
  · rw [hmessages] at hmsg
    exact (h.past id msg hmsg).trans hle
  · rw [hmessages]
    exact ⟨(hfits hnot).1, (hfits hnot).2.trans hle⟩

/-- No counter is reset. -/
private theorem StepResult.increments_le {s : StatusServer n H} {e : StatusEvent n}
    {r : StatusServer n H × List StatusOutput} (hr : StepResult cfg env s e r) (c : Counter) :
    c.increments s.threads.brain ≤ c.increments r.1.threads.brain := by
  cases hr with
  | called hqueue hs => exact (Threads.stepResult hs).increments_le c
  | accessed hqueue hs => exact (Threads.stepResult hs).increments_le c
  | moved he hs => exact (Threads.stepResult hs).increments_le c
  | _ => exact le_rfl

private theorem Rising.step {now : ℤ} {es : List (StatusEvent n)} {c : Counter}
    {s : StatusServer n H} {tr : List StatusOutput} {e : StatusEvent n}
    {r : StatusServer n H × List StatusOutput}
    (hrun : (statusServer cfg env now).Run es s tr) (h : s.Rising c tr)
    (hbound : c.increments s.threads.brain < 2 ^ 64) (hr : StepResult cfg env s e r) :
    r.1.Rising c (tr ++ r.2) := by
  obtain ⟨hsorted, hpast, hbuilding⟩ := h
  cases hr with
  | delivered | skipped =>
    rw [List.append_nil]
    exact ⟨hsorted, hpast, trivial⟩
  | shutdown =>
    rw [List.append_nil]
    exact ⟨hsorted, hpast, hbuilding⟩
  | called hqueue hs =>
    exact Rising.moved ⟨hsorted, hpast, hbuilding⟩ (Threads.stepResult hs) trivial
  | accessed hqueue hs =>
    exact Rising.moved ⟨hsorted, hpast, hbuilding⟩ (Threads.stepResult hs) building_afterAccess
  | moved he hs =>
    exact Rising.moved ⟨hsorted, hpast, hbuilding⟩ (Threads.stepResult hs) hbuilding
  | began hqueue =>
    rw [List.append_nil]
    exact ⟨hsorted, hpast, fun hnot => absurd c.field.mem_order hnot⟩
  | @loaded _ readings id f fields msg todo hqueue =>
    rw [hqueue] at hbuilding
    rw [List.append_nil]
    refine ⟨hsorted, hpast, fun hnot => ?_⟩
    by_cases heq : f = c.field
    · -- the load of the counter gives what has been counted until now
      subst heq
      have hrpc := (reportInv_of_run hrun).idle (by rw [hqueue]; rfl)
      obtain ⟨hcurrent, -, hgen, -⟩ := current_of_idle hrun hrpc
      have hshown : (c.shown (c.field.load s.threads.brain readings msg)).toNat =
          c.increments s.threads.brain := by
        rw [Counter.shown_load hcurrent hgen, UInt64.toNat_ofNat', Nat.mod_eq_of_lt hbound]
      refine ⟨fun msg' hmsg' => UInt64.le_iff_toNat_le.mpr ?_, hshown.le⟩
      rw [hshown]
      exact hpast id msg' hmsg'
    · have hnot' : c.field ∉ f :: fields := fun hmem =>
        (List.mem_cons.mp hmem).elim (fun h => heq h.symm) hnot
      rw [Fits, Counter.shown_load_of_ne _ _ _ heq]
      exact hbuilding hnot'
  | @wrote _ _ id msg todo hqueue =>
    rw [hqueue] at hbuilding
    obtain ⟨hbefore, hcount⟩ := hbuilding List.not_mem_nil
    have hmessages (id' : ℕ) : messages id' (tr ++ [.status id msg]) =
        messages id' tr ++ if id = id' then [msg] else [] := by
      rw [messages_append]
      by_cases heq : id = id' <;> simp [messages, heq]
    refine ⟨fun id' => ?_, fun id' msg' hmsg' => ?_, trivial⟩
    · rw [hmessages]
      by_cases heq : id = id'
      · rw [if_pos heq, List.pairwise_append]
        refine ⟨hsorted id', List.pairwise_singleton _ _, fun msg₁ h₁ msg₂ h₂ => ?_⟩
        rw [List.mem_singleton.mp h₂]
        exact hbefore msg₁ (heq ▸ h₁)
      · rw [if_neg heq, List.append_nil]
        exact hsorted id'
    · rw [hmessages] at hmsg'
      rcases List.mem_append.mp hmsg' with hmsg' | hmsg'
      · exact hpast id' msg' hmsg'
      · split_ifs at hmsg' with heq
        · rw [List.mem_singleton.mp hmsg']
          exact hcount
        · cases hmsg'

theorem rising_of_run {now : ℤ} {es : List (StatusEvent n)} {s : StatusServer n H}
    {tr : List StatusOutput} (h : (statusServer cfg env now).Run es s tr) (c : Counter)
    (hbound : c.increments s.threads.brain < 2 ^ 64) : s.Rising c tr := by
  refine h.invariant (fun s tr => c.increments s.threads.brain < 2 ^ 64 → s.Rising c tr)
    ?_ ?_ hbound
  · exact fun _ => ⟨fun _ => List.Pairwise.nil, fun _ _ hmsg => (nomatch hmsg), trivial⟩
  · intro es s tr e s' out hrun hI _ hs hbound
    have hr := stepResult hs
    have hbefore : c.increments s.threads.brain < 2 ^ 64 :=
      (hr.increments_le c).trans_lt hbound
    exact (hI hbefore).step hrun hbefore hr

end StatusServer

/-- For every order of the events of the completion queue, interleaved in any way with the accesses
of the control thread and of the worker: every status message reports the last of the requests that
have been processed before it. A counter that has been incremented fewer than `2^64` times has never
decreased along a stream. -/
theorem status_reports {now : ℤ} {es : List (StatusEvent n)} {s : StatusServer n H}
    {tr : List StatusOutput} (h : (statusServer cfg env now).Run es s tr) :
    (∀ past id msg rest, tr = past ++ .status id msg :: rest → msg.Reports (requests past)) ∧
      ∀ (c : Counter) (id : ℕ), c.increments s.threads.brain < 2 ^ 64 →
        (messages id tr).Pairwise fun msg msg' => c.shown msg ≤ c.shown msg' := by
  refine ⟨fun past id msg rest heq => ?_, fun c id hbound => ?_⟩
  · have hwritten := (StatusServer.reportInv_of_run h).written
    exact each_iff_forall_eq.mp hwritten past _ rest heq id msg rfl
  · exact (StatusServer.rising_of_run h c hbound).sorted id

/-- A task to walk forward slowly. -/
private def strollTask : Task := ⟨.navigate, ![fin (1 / 5), fin 0, fin 0]⟩

/-- What the queue thread reads when there is no ROS node. -/
private def noReadings : StatusReadings := ⟨fin 0, fin 0, none, 0⟩

/-- Steps of the queue thread. -/
private def queueSteps (k : ℕ) : List (StatusEvent n) :=
  List.replicate k (.queue 0 noReadings)

/-- A request and a stream: after the first load of the second message, which gives `EXECUTING`, the
watchdog lowers the state. -/
theorem status_reports_stroll :
    ∃ s tr, (statusServer shippedConfig (constantPolicy 12 (fin 0)) 0).Run
        (.next ⟨1, .statusRead⟩ true strollTask :: queueSteps 13 ++
          .next ⟨0, .connect⟩ true strollTask :: queueSteps 8 ++
          .next ⟨1, .statusWrite⟩ true strollTask :: queueSteps 1 ++
          .next ⟨1, .statusAlarm⟩ true strollTask :: queueSteps 2 ++
          .thread (.tick 600) :: List.replicate 3 (.thread (.control (upright shippedConfig))) ++
          queueSteps 11) s tr ∧
      s.threads.brain.metrics.currentState = .standing ∧
      (∃ past msg rest, tr = past ++ .status 1 msg :: rest ∧ msg.state = .executing ∧
        msg.Reports (requests past)) ∧
      (messages 1 tr).Pairwise fun msg msg' => msg.taskGeneration ≤ msg'.taskGeneration := by
  have hrun : ∃ s tr, (statusServer shippedConfig (constantPolicy 12 (fin 0)) 0).Run
      (.next ⟨1, .statusRead⟩ true strollTask :: queueSteps 13 ++
        .next ⟨0, .connect⟩ true strollTask :: queueSteps 8 ++
        .next ⟨1, .statusWrite⟩ true strollTask :: queueSteps 1 ++
        .next ⟨1, .statusAlarm⟩ true strollTask :: queueSteps 2 ++
        .thread (.tick 600) :: List.replicate 3 (.thread (.control (upright shippedConfig))) ++
        queueSteps 11) s tr ∧
      (decide (s.threads.brain.metrics.currentState = .standing) &&
        (messages 1 tr).any (fun msg => decide (msg.state = .executing)) &&
        decide (s.threads.brain.history.tasks.length < 2 ^ 64)) = true :=
    Machine.exists_reaches _ (by decide +kernel)
  obtain ⟨s, tr, hrun, hs⟩ := hrun
  rw [Bool.and_eq_true, Bool.and_eq_true, decide_eq_true_eq, decide_eq_true_eq,
    List.any_eq_true] at hs
  obtain ⟨⟨hstanding, msg, hmsg, hexecuting⟩, hbound⟩ := hs
  obtain ⟨hreports, hsorted⟩ := status_reports hrun
  refine ⟨s, tr, hrun, hstanding, ?_, hsorted .taskGeneration 1 hbound⟩
  obtain ⟨o, ho, hval⟩ := List.mem_filterMap.mp hmsg
  obtain ⟨past, rest, rfl⟩ := List.append_of_mem ho
  cases o with
  | processed t => cases hval
  | status id msg' =>
    simp only [Option.ite_none_right_eq_some, Option.some.injEq] at hval
    obtain ⟨rfl, rfl⟩ := hval
    exact ⟨past, msg', rest, rfl, of_decide_eq_true hexecuting, hreports past _ msg' rest rfl⟩

/-! ### A long run -/

/-- A client may connect, and the stream of the second session waits for an event. -/
private structure Server.Waits (type : EventType) (s : Server) : Prop where
  listener : ∃ id session, (⟨id, .connect⟩ : Tag) ∈ s.tags ∧ s.sessions[id]? = some session ∧
    session.kind = .task
  tag : (⟨1, type⟩ : Tag) ∈ s.tags
  stream : ∃ session, s.sessions[1]? = some session ∧ session.kind = .status ∧
    session.finished = false

namespace Server.Waits

variable {s : Server} {type : EventType}

/-- A client connects. -/
private theorem connected (h : s.Waits type) (htype : type ≠ .connect) (t : Task) :
    ∃ s' id, s'.Waits type ∧ s.step (.next ⟨id, .connect⟩ true t) =
      some (s', [.received id t, .processed id t, .responded id]) := by
  obtain ⟨⟨id, session, hmem, hsession, hkind⟩, htag, stream, hstream, hrest⟩ := h
  refine ⟨((s.deliver ⟨id, .connect⟩).create .task).register id .finish, id, ?_, ?_⟩
  · have hne : (⟨1, type⟩ : Tag) ≠ ⟨id, .connect⟩ := fun heq => htype (congrArg Tag.type heq)
    have hlast : (s.sessions ++ [{ kind := .task }])[s.sessions.length]? =
        some { kind := .task } := List.getElem?_concat_length
    refine ⟨⟨s.sessions.length, { kind := .task }, ?_, hlast, rfl⟩, ?_, stream, ?_, hrest⟩
    · exact List.mem_append_left _ (List.mem_append_right _ List.mem_cons_self)
    · exact List.mem_append_left _
        (List.mem_append_left _ ((List.mem_erase_of_ne hne).mpr htag))
    · exact getElem?_create hstream _
  · simp [step, hmem, handleEvent, deliver, hsession, hkind, handleTask]

/-- The stream is opened. -/
private theorem opened (h : s.Waits .statusRead) (t : Task) : ∃ s', s'.Waits .statusWrite ∧
    s.step (.next ⟨1, .statusRead⟩ true t) = some (s', [.written 1]) := by
  obtain ⟨⟨id, session, hmem, hsession, hkind⟩, htag, stream, hstream, hstatus, hrest⟩ := h
  refine ⟨((s.deliver ⟨1, .statusRead⟩).create .status).register 1 .statusWrite, ?_, ?_⟩
  · refine ⟨⟨id, session, ?_, ?_, hkind⟩, ?_, stream, ?_, hstatus, hrest⟩
    · exact List.mem_append_left _
        (List.mem_append_left _ ((List.mem_erase_of_ne (by simp)).mpr hmem))
    · exact getElem?_create hsession _
    · exact List.mem_append_right _ List.mem_cons_self
    · exact getElem?_create hstream _
  · simp [step, htag, handleEvent, deliver, hstream, hstatus, handleStatus]

/-- A message has been written, or the alarm has rung. -/
private theorem resumed (h : s.Waits type) (htype : type ≠ .connect) (next : EventType) :
    ((s.deliver ⟨1, type⟩).register 1 next).Waits next := by
  obtain ⟨⟨id, session, hmem, hsession, hkind⟩, htag, hstream⟩ := h
  have hne : (⟨id, .connect⟩ : Tag) ≠ ⟨1, type⟩ := fun heq => htype (congrArg Tag.type heq).symm
  refine ⟨⟨id, session, ?_, hsession, hkind⟩, ?_, hstream⟩
  · exact List.mem_append_left _ ((List.mem_erase_of_ne hne).mpr hmem)
  · exact List.mem_append_right _ List.mem_cons_self

private theorem wrote (h : s.Waits .statusWrite) (t : Task) : ∃ s', s'.Waits .statusAlarm ∧
    s.step (.next ⟨1, .statusWrite⟩ true t) = some (s', [.alarmSet 1]) := by
  refine ⟨_, h.resumed nofun .statusAlarm, ?_⟩
  obtain ⟨-, htag, stream, hstream, hstatus, hrest⟩ := h
  simp [step, htag, handleEvent, deliver, hstream, hstatus, handleStatus]

private theorem rang (h : s.Waits .statusAlarm) (t : Task) : ∃ s', s'.Waits .statusWrite ∧
    s.step (.next ⟨1, .statusAlarm⟩ true t) = some (s', [.written 1]) := by
  refine ⟨_, h.resumed nofun .statusWrite, ?_⟩
  obtain ⟨-, htag, stream, hstream, hstatus, hrest⟩ := h
  simp [step, htag, handleEvent, deliver, hstream, hstatus, hrest, handleStatus]

end Server.Waits

namespace StatusServer

variable (cfg env) (now : ℤ)

/-- The server between two events, with the threads at rest. -/
private def between (server : Server) (b : Brain n H) : StatusServer n H :=
  ⟨server, Threads.rest b, .handling []⟩

/-- A tag is delivered and its handler runs to the end. -/
private theorem leads_deliver {server server' : Server} {b : Brain n H} {tag : Tag} {t : Task}
    {todo : List ServerOutput} (hs : server.step (.next tag true t) = some (server', todo))
    {s' : StatusServer n H} {out : List StatusOutput}
    (h : (statusServer cfg env now).Leads ⟨server', Threads.rest b, .handling todo⟩ s' out) :
    (statusServer cfg env now).Leads (between server b) s' out := by
  have hnext : (statusServer cfg env now).step (between server b) (.next tag true t) =
      some (⟨server', Threads.rest b, .handling todo⟩, []) := by
    show (server.step _).map _ = _
    rw [hs]
    rfl
  have hone : (statusServer cfg env now).Leads (between server b)
      ⟨server', Threads.rest b, .handling todo⟩ [] := by
    refine ⟨[.next tag true t], ?_⟩
    rw [Machine.follow, hnext]
    rfl
  exact hone.trans h

/-- A message is built and written. -/
private theorem leads_message (server : Server) (b : Brain n H) : ∃ msg,
    (statusServer cfg env now).Leads ⟨server, Threads.rest b, .handling [.written 1]⟩
      (between server b) [.status 1 msg] :=
  ⟨_, queueSteps 13, rfl⟩

/-- A request is processed. -/
private theorem leads_request {type : EventType} (htype : type ≠ .connect) {server : Server}
    (h : server.Waits type) (b : Brain n H) : ∃ server' b', server'.Waits type ∧
      (statusServer cfg env now).Leads (between server b) (between server' b')
        [.processed strollTask] := by
  obtain ⟨server', id, h', hs⟩ := h.connected htype strollTask
  exact ⟨server', (b.processRobotTask cfg env strollTask 0).1, h',
    leads_deliver cfg env now hs ⟨queueSteps 8, rfl⟩⟩

/-- One request after another. -/
private theorem leads_requests {type : EventType} (htype : type ≠ .connect) {server : Server}
    (h : server.Waits type) (b : Brain n H) (k : ℕ) : ∃ server' b', server'.Waits type ∧
      (statusServer cfg env now).Leads (between server b) (between server' b')
        (List.replicate k (.processed strollTask)) := by
  induction k with
  | zero => exact ⟨server, b, h, [], rfl⟩
  | succ k ih =>
    obtain ⟨server₁, b₁, h₁, hleads⟩ := ih
    obtain ⟨server₂, b₂, h₂, hrequest⟩ := leads_request cfg env now htype h₁ b₁
    refine ⟨server₂, b₂, h₂, ?_⟩
    rw [List.replicate_succ']
    exact hleads.trans hrequest

/-- A stream with a message after `k` requests and one after the next request. -/
private theorem exists_two_messages (k : ℕ) : ∃ es s msg msg',
    (statusServer cfg env now).Run es s
      (List.replicate k (.processed strollTask) ++ [.status 1 msg] ++ [.processed strollTask] ++
        [.status 1 msg']) := by
  have hinit : Server.initial.Waits .statusRead :=
    ⟨⟨0, { kind := .task }, by decide, rfl, rfl⟩, by decide, { kind := .status }, rfl, rfl, rfl⟩
  obtain ⟨server₁, b₁, h₁, hfirst⟩ :=
    leads_requests cfg env now (by decide) hinit (Brain.initial cfg env now) k
  obtain ⟨server₂, h₂, hopened⟩ := h₁.opened strollTask
  obtain ⟨msg, hmsg⟩ := leads_message cfg env now server₂ b₁
  obtain ⟨server₃, b₃, h₃, hnext⟩ := leads_request cfg env now (by decide) h₂ b₁
  obtain ⟨server₄, h₄, hwrote⟩ := h₃.wrote strollTask
  obtain ⟨server₅, -, hrang⟩ := h₄.rang strollTask
  obtain ⟨msg', hmsg'⟩ := leads_message cfg env now server₅ b₃
  have halarm : (statusServer cfg env now).Leads (between server₃ b₃) (between server₄ b₃) [] :=
    leads_deliver cfg env now hwrote ⟨queueSteps 1, rfl⟩
  obtain ⟨es, hes⟩ := (((hfirst.trans (leads_deliver cfg env now hopened hmsg)).trans
    hnext).trans_silent halarm).trans (leads_deliver cfg env now hrang hmsg')
  exact ⟨es, _, msg, msg', Machine.Reaches.follow .init hes⟩

/-- What the two messages show. -/
private theorem exists_two_generations (k : ℕ) : ∃ es s past msg msg',
    (statusServer cfg env now).Run es s (past ++ [.status 1 msg']) ∧
      (requests past).length = k + 1 ∧ msg ∈ messages 1 past ∧
      msg.taskGeneration = UInt64.ofNat k ∧ msg'.taskGeneration = UInt64.ofNat (k + 1) := by
  obtain ⟨es, s, msg, msg', hrun⟩ := exists_two_messages cfg env now k
  have hwritten := each_iff_forall_eq.mp (reportInv_of_run hrun).written
  have hrequests : requests (List.replicate k (.processed strollTask)) =
      List.replicate k strollTask := by
    rw [← List.map_replicate, requests_map_processed]
  have hlen : (requests (List.replicate k (.processed strollTask) ++ [.status 1 msg] ++
      [.processed strollTask])).length = k + 1 := by
    rw [requests_append, requests_append, hrequests, List.length_append, List.length_append,
      List.length_replicate]
    rfl
  refine ⟨es, s, _, msg, msg', hrun, hlen, ?_, ?_, ?_⟩
  · rw [messages_append, messages_append]
    exact List.mem_append_left _ (List.mem_append_right _ List.mem_cons_self)
  · have hfirst := (hwritten (List.replicate k (.processed strollTask)) (.status 1 msg)
      ([.processed strollTask] ++ [.status 1 msg']) (by simp) 1 msg rfl).generation
    rwa [hrequests, List.length_replicate] at hfirst
  · have hlast := (hwritten _ (.status 1 msg') [] rfl 1 msg' rfl).generation
    rwa [hlen] at hlast

end StatusServer

/-- After `2^64` requests the generation in a message is zero, and in the message before it in the
same stream it was greater. -/
theorem exists_status_wraps :
    ∃ es s tr, (statusServer shippedConfig (constantPolicy 12 (fin 0)) 0).Run es s tr ∧
      ∃ past msg msg', tr = past ++ [.status 1 msg'] ∧ (requests past).length = 2 ^ 64 ∧
        msg'.taskGeneration = 0 ∧ msg ∈ messages 1 past ∧
        msg'.taskGeneration < msg.taskGeneration := by
  obtain ⟨es, s, past, msg, msg', hrun, hlen, hmem, hfirst, hlast⟩ :=
    StatusServer.exists_two_generations shippedConfig (constantPolicy 12 (fin 0)) 0 (2 ^ 64 - 1)
  have hzero : msg'.taskGeneration = 0 := hlast
  refine ⟨es, s, _, hrun, past, msg, msg', rfl, hlen, hzero, hmem, ?_⟩
  rw [hzero, hfirst]
  decide

end RobotBrain
