import RobotBrain.Safety.Fallback

/-!
# What an emergency stop leaves in force

An emergency stop stores `STANDING`, and until a task of another type stores its own state the
watchdog is the only other writer, which stores the same. A tick that loads the state in this time
captures a frame of `STANDING`: its velocity command is the fixed one that the policy was trained
with and its profile scales nothing down. The profile that `GetTaskProfile` assigns to an emergency
stop, which scales velocity and action to zero, is not consulted, and the joint commands made from
such frames follow the policy within the position clamp and the rate limit.

A tick that had loaded `EXECUTING` before still captures a frame of `EXECUTING`. So it is not the
capture of a frame that decides, but the load of the state before it. Nothing that can be seen of
the threads tells of this load; a record that no thread reads keeps it.

## Main definitions

* `StopInForce` — an emergency stop has returned, and no call with another type has begun since.
* `StopRecord`, `stopRecorded` — the threads with the record.
* `StandsUnderStop` — the commands published from frames under a stop.

## Main results

* `Threads.limitInv_of_run` — how the commands of the frames are made, in every interleaving.
* `each_standsUnderStop` — the frames and the commands while a stop is in force.
* `exists_moving_under_stop` — a run in which the stop does not hold the robot at the default pose,
  and one in which it overtakes a tick.
-/

namespace RobotBrain

open ExtNum

variable {n : ℕ} {H : Type*} {cfg : BrainConfig n} {env : Environment n H}

/-! ### How the commands of the frames are made -/

/-- The observation handed to `Forward`. -/
def Output.observation : Output n → Option (List Scalar)
  | .forwarded obs => some obs
  | _ => none

/-- The joint command of a frame. -/
def Output.frameCommand : Output n → Option (Fin n → Scalar)
  | .published targets (.inference _) => some targets
  | _ => none

/-- What a closure may find in `last_joint_targets_`: the default pose, or the command of the last
frame published. -/
def LimitBaseline (cfg : BrainConfig n) (past : List (Output n)) (last : Fin n → Scalar) : Prop :=
  last = cfg.defaultJointPositions ∨ latest Output.frameCommand past = some last

/-- The actions are the output of the policy for a frame, whose observation is the last one that has
been handed over. -/
def PolicyOutput (cfg : BrainConfig n) (env : Environment n H) (past : List (Output n))
    (f : Frame n) (actions : Actions n) : Prop :=
  ∃ b : Brain n H, latest Output.observation past = some (b.nextObservation cfg env f) ∧
    actions = b.nextActions cfg env f

/-- The command made from actions under a profile, clamped and rate-limited. -/
def LimitedTargets (cfg : BrainConfig n) (past : List (Output n)) (profile : TaskProfile)
    (actions : Actions n) (targets : Fin n → Scalar) : Prop :=
  ∃ last, LimitBaseline cfg past last ∧
    targets = applyRateLimit cfg last (jointTargets cfg profile actions)

/-- A command published for a frame is the output of the policy for its observation under its
profile, clamped and rate-limited. -/
def CommandFollows (cfg : BrainConfig n) (env : Environment n H) (past : List (Output n)) :
    Output n → Prop
  | .published targets (.inference f) => ∃ actions, PolicyOutput cfg env past f actions ∧
      LimitedTargets cfg past f.profile actions targets
  | _ => True

/-- The output is neither an observation nor the command of a frame. -/
def Output.Quiet (o : Output n) : Prop :=
  o.observation = none ∧ o.frameCommand = none

/-- What the worker holds comes from the policy. -/
def WorkerPc.FromPolicy (cfg : BrainConfig n) (env : Environment n H) (tr : List (Output n)) :
    WorkerPc n → Prop
  | .computeTargets r actions => PolicyOutput cfg env tr r.frame actions
  | .checkGeneration r actions targets | .applyRateLimit r actions targets =>
    PolicyOutput cfg env tr r.frame actions ∧ targets = jointTargets cfg r.frame.profile actions
  | .publish r actions targets => PolicyOutput cfg env tr r.frame actions ∧
    LimitedTargets cfg tr r.frame.profile actions targets
  | .feedDog _ _ targets | .writeBackActions _ _ targets | .writeBackTargets _ _ targets =>
    latest Output.frameCommand tr = some targets
  | _ => True

/-- The worker has published a command that it has not stored as the next baseline. -/
def WorkerPc.storing : WorkerPc n → Bool
  | .feedDog _ _ _ | .writeBackActions _ _ _ | .writeBackTargets _ _ _ => true
  | _ => false

theorem limitBaseline_append {tr out : List (Output n)} (hout : ∀ o ∈ out, o.Quiet)
    {last : Fin n → Scalar} : LimitBaseline cfg (tr ++ out) last ↔ LimitBaseline cfg tr last := by
  rw [LimitBaseline, LimitBaseline, latest_append_of_forall_eq_none fun o ho => (hout o ho).2]

theorem WorkerPc.fromPolicy_append {tr out : List (Output n)} (hout : ∀ o ∈ out, o.Quiet)
    {pc : WorkerPc n} : pc.FromPolicy cfg env (tr ++ out) ↔ pc.FromPolicy cfg env tr := by
  have hobs := latest_append_of_forall_eq_none (fun o ho => (hout o ho).1) tr
  have hcmd := latest_append_of_forall_eq_none (fun o ho => (hout o ho).2) tr
  cases pc <;> simp only [FromPolicy, PolicyOutput, LimitedTargets, LimitBaseline, hobs, hcmd]

theorem each_commandFollows_of_quiet {tr out : List (Output n)} (hout : ∀ o ∈ out, o.Quiet) :
    Each (fun past => CommandFollows cfg env (tr ++ past)) out := by
  refine each_iff_forall_eq.mpr fun past o rest heq => ?_
  have hquiet := hout o (heq ▸ List.mem_append_right _ List.mem_cons_self)
  cases o with
  | published targets source =>
    cases source with
    | inference => cases hquiet.2
    | _ => trivial
  | _ => trivial

namespace Threads

/-- What the worker holds comes from the policy, the baseline is one that a closure may find unless
a closure is about to store it, and so far the commands of the frames follow the policy. -/
structure LimitInv (cfg : BrainConfig n) (env : Environment n H) (s : Threads n H)
    (tr : List (Output n)) : Prop where
  held : s.worker.FromPolicy cfg env tr
  baseline : s.worker.storing = false → LimitBaseline cfg tr s.brain.lastJointTargets
  follows : Each (CommandFollows cfg env) tr

theorem RpcResult.quiet {now : ℤ} {b b' : Brain n H} {pc pc' : RpcPc} {out : List (Output n)}
    (h : RpcResult cfg env now b pc b' pc' out) :
    (b'.lastJointTargets = b.lastJointTargets ∨
        b'.lastJointTargets = cfg.defaultJointPositions) ∧ ∀ o ∈ out, o.Quiet := by
  cases h <;> refine ⟨?_, by simp [Output.Quiet, Output.observation, Output.frameCommand]⟩
  case resetJointTargets => exact Or.inr rfl
  all_goals exact Or.inl rfl

theorem ControlResult.quiet {prop : Proprioception n} {b b' : Brain n H} {pc pc' : ControlPc n}
    {out : List (Output n)} (h : ControlResult cfg env prop b pc b' pc' out) :
    (b'.lastJointTargets = b.lastJointTargets ∨
        b'.lastJointTargets = cfg.defaultJointPositions) ∧ ∀ o ∈ out, o.Quiet := by
  cases h <;> refine ⟨?_, by simp [Output.Quiet, Output.observation, Output.frameCommand]⟩
  case resetJointTargets => exact Or.inr rfl
  all_goals exact Or.inl rfl

/-- A step that leaves the worker alone. -/
theorem LimitInv.of_quiet {s s' : Threads n H} {tr out : List (Output n)}
    (hI : LimitInv cfg env s tr) (hworker : s'.worker = s.worker)
    (hbase : s'.brain.lastJointTargets = s.brain.lastJointTargets ∨
      s'.brain.lastJointTargets = cfg.defaultJointPositions)
    (hout : ∀ o ∈ out, o.Quiet) : LimitInv cfg env s' (tr ++ out) := by
  refine ⟨?_, fun hpc => ?_, each_append.mpr ⟨hI.follows, each_commandFollows_of_quiet hout⟩⟩
  · rw [hworker, WorkerPc.fromPolicy_append hout]
    exact hI.held
  · rw [limitBaseline_append hout]
    rcases hbase with hbase | hbase
    · rw [hbase]
      exact hI.baseline (hworker ▸ hpc)
    · exact Or.inl hbase

/-- An access of the worker that publishes and forwards nothing. -/
private theorem LimitInv.of_silent {b b' : Brain n H} {rpc : RpcPc} {control : ControlPc n}
    {pc pc' : WorkerPc n} {tr out : List (Output n)}
    (hI : LimitInv cfg env ⟨b, rpc, control, pc⟩ tr) (hout : ∀ o ∈ out, o.Quiet)
    (hheld : pc'.FromPolicy cfg env tr)
    (hbase : pc'.storing = false → LimitBaseline cfg tr b'.lastJointTargets) :
    LimitInv cfg env ⟨b', rpc, control, pc'⟩ (tr ++ out) := by
  refine ⟨?_, fun hpc => ?_, each_append.mpr ⟨hI.follows, each_commandFollows_of_quiet hout⟩⟩
  · rw [WorkerPc.fromPolicy_append hout]
    exact hheld
  · rw [limitBaseline_append hout]
    exact hbase hpc

theorem WorkerResult.limitInv {now : ℤ} {b b' : Brain n H} {rpc : RpcPc} {control : ControlPc n}
    {pc pc' : WorkerPc n} {tr out : List (Output n)}
    (h : WorkerResult cfg env now b pc b' pc' out)
    (hI : LimitInv cfg env ⟨b, rpc, control, pc⟩ tr) :
    LimitInv cfg env ⟨b', rpc, control, pc'⟩ (tr ++ out) := by
  have hheld := hI.held
  cases h
  case forward f | forwardThrew f =>
    have hkeep : (b.acquireBuffer cfg).2.2.lastJointTargets = b.lastJointTargets := by
      rw [Brain.acquireBuffer_brain]
    have hcmd : latest Output.frameCommand
        (tr ++ [.forwarded (b.nextObservation cfg env f)]) = latest Output.frameCommand tr :=
      latest_append_of_forall_eq_none (by simp [Output.frameCommand]) tr
    refine ⟨?_, fun _ => ?_, each_concat.mpr ⟨hI.follows, trivial⟩⟩
    · first
        | exact ⟨b, by rw [latest_append]; rfl, rfl⟩
        | trivial
    · show LimitBaseline cfg _ (b.acquireBuffer cfg).2.2.lastJointTargets
      rw [hkeep, LimitBaseline, hcmd]
      exact hI.baseline rfl
  case computeTargets r actions =>
    exact hI.of_silent (by simp) ⟨hheld, rfl⟩ fun _ => hI.baseline rfl
  case applyRateLimit r actions targets =>
    obtain ⟨houtput, rfl⟩ := hheld
    exact hI.of_silent (by simp) ⟨houtput, _, hI.baseline rfl, rfl⟩ fun _ => hI.baseline rfl
  case checkPassed => exact hI.of_silent (by simp) hheld fun _ => hI.baseline rfl
  case publish r actions targets =>
    refine ⟨?_, fun hpc => (by cases hpc),
      each_concat.mpr ⟨hI.follows, actions, hheld.1, hheld.2⟩⟩
    show latest Output.frameCommand _ = _
    rw [latest_append]
    rfl
  case feedDog | writeBackActions =>
    exact hI.of_silent (by simp) hheld fun hpc => (by cases hpc)
  case writeBackTargets r actions targets =>
    exact hI.of_silent (by simp) trivial fun _ => Or.inr hheld
  case releaseBuffer r =>
    refine hI.of_silent (by simp) trivial fun _ => ?_
    have hkeep : (b.releaseBuffer r.obs r.pooled).lastJointTargets = b.lastJointTargets := by
      rw [Brain.releaseBuffer_eq]
    rw [hkeep]
    exact hI.baseline rfl
  all_goals
    exact hI.of_silent (by simp [Output.Quiet, Output.observation, Output.frameCommand]) trivial
      fun _ => hI.baseline rfl

theorem limitInv_of_run {now : ℤ} {es : List (ThreadEvent n)} {s : Threads n H}
    {tr : List (Output n)} (h : (threads cfg env now).Run es s tr) : LimitInv cfg env s tr := by
  have hinit : LimitInv cfg env (Threads.rest (Brain.initial cfg env now)) [] :=
    ⟨trivial, fun _ => Or.inl rfl, trivial⟩
  refine h.invariant (LimitInv cfg env) hinit ?_
  intro es s tr e s' out _ hI _ hs
  cases stepResult hs with
  | call | tick =>
    exact hI.of_quiet rfl (Or.inl rfl)
      (by simp [Output.Quiet, Output.observation, Output.frameCommand])
  | rpc h => exact hI.of_quiet rfl h.quiet.1 h.quiet.2
  | control h => exact hI.of_quiet rfl h.quiet.1 h.quiet.2
  | dequeue hpc =>
    refine ⟨trivial, fun _ => ?_, ?_⟩
    · rw [List.append_nil]
      exact hI.baseline (by rw [hpc]; rfl)
    · rw [List.append_nil]
      exact hI.follows
  | worker h => exact h.limitInv hI

end Threads

/-! ### The state under a stop -/

/-- What an output says about the stop: the return of a stop puts it in force, the command of a call
with another type ends that. -/
def Output.stopChange : Output n → Option Bool
  | .taskReturned t => if t.type = .emergencyStop then some true else none
  | .commandWritten t => if t.type = .emergencyStop then none else some false
  | _ => none

/-- A call with an emergency stop has returned, and no call with another type has begun since. -/
def StopInForce (tr : List (Output n)) : Prop :=
  latest Output.stopChange tr = some true

instance (tr : List (Output n)) : Decidable (StopInForce tr) :=
  inferInstanceAs (Decidable (_ = _))

/-- The frames captured, in order. -/
def capturedFrames (tr : List (Output n)) : List (Frame n) :=
  tr.filterMap fun
    | .captured f => some f
    | _ => none

/-- A frame of `STANDING`: the velocity command that the policy was trained with, and no scaling. -/
def Frame.Standing (f : Frame n) : Prop :=
  f.state = .standing ∧ f.scaledVelCmd = ![fin (1 / 2), fin 0, fin 0] ∧ f.profile = ⟨fin 1, fin 1⟩

/-- A record of the emergency stops and the frames captured: whether the last task to store its
state was a stop, whether it was when the control thread last loaded the state, and the frames with
the latter at their capture. -/
structure StopRecord (n : ℕ) where
  stopped : Bool := false
  loaded : Bool := false
  captures : List (Frame n × Bool) := []

namespace StopRecord

/-- The record after an access of the RPC thread. -/
def rpc (g : StopRecord n) : RpcPc → StopRecord n
  | .storeState t => { g with stopped := decide (t.type = .emergencyStop) }
  | _ => g

/-- The record after an access of the control thread, by its program counter before and after. -/
def control (g : StopRecord n) : ControlPc n → ControlPc n → StopRecord n
  | .loadState _, _ => { g with loaded := g.stopped }
  | .enqueue f, .idle => { g with captures := g.captures ++ [(f, g.loaded)] }
  | _, _ => g

/-- The record after a step. -/
def record (s : Threads n H) (e : ThreadEvent n) (s' : Threads n H) (g : StopRecord n) :
    StopRecord n :=
  match e with
  | .rpc _ => g.rpc s.rpc
  | .control _ => g.control s.control s'.control
  | _ => g

/-- The frame has been captured by a tick that loaded the state after an emergency stop had stored
it, and before a task of another type had. -/
def UnderStop (g : StopRecord n) (f : Frame n) : Prop :=
  (f, true) ∈ g.captures

end StopRecord

/-- The threads with the record of the emergency stops. -/
def stopRecorded (cfg : BrainConfig n) (env : Environment n H) (now : ℤ) :
    Machine (Threads n H × StopRecord n) (ThreadEvent n) (Output n) :=
  (threads cfg env now).withRecord {} StopRecord.record

/-- The tick under way has loaded `STANDING`. -/
def ControlPc.Stands : ControlPc n → Prop
  | .acquireGate _ state | .readProprioception _ state | .resetHiddenState _ state _
  | .fillPrevActions _ state _ | .resetJointTargets _ state _ | .rampVelocity _ state _
  | .snapshot state _ _ _ => state = .standing
  | .enqueue f => f.Standing
  | _ => True

/-- A call that has stored its state is the last one to do so. -/
def RpcPc.StoredStop (stopped : Bool) : RpcPc → Prop
  | .fillPrevActions t | .resetHiddenState t | .resetJointTargets t | .publishDefault t
  | .feedDog t => stopped = decide (t.type = .emergencyStop)
  | _ => True

theorem Brain.snapshot_standing {state : RobotState} (hstate : state = .standing)
    (prop : Proprioception n) (target : Velocity) (dt : ℚ) (b : Brain n H) :
    (b.snapshot state prop target dt).Standing := by
  subst hstate
  exact ⟨rfl, rfl, rfl⟩

/-- A stop stays in force as long as no output changes that. -/
theorem stopInForce_append {tr out : List (Output n)} (hout : latest Output.stopChange out = none) :
    StopInForce (tr ++ out) ↔ StopInForce tr := by
  rw [StopInForce, StopInForce, latest_append, hout, Option.none_or]

theorem capturedFrames_append (tr out : List (Output n)) :
    capturedFrames (tr ++ out) = capturedFrames tr ++ capturedFrames out :=
  List.filterMap_append

namespace Threads

/-- After the state of a stop the state is `STANDING`, and so is the one that a tick has loaded
then. While a stop is in force, the call under way is another stop. -/
structure StopInv (s : Threads n H) (g : StopRecord n) (tr : List (Output n)) : Prop where
  state : g.stopped = true → s.brain.metrics.currentState = .standing
  loaded : g.loaded = true → s.control.Stands
  standing : ∀ f, g.UnderStop f → f.Standing
  captures : g.captures.map Prod.fst = capturedFrames tr
  stored : s.rpc.StoredStop g.stopped
  inForce : StopInForce tr → g.stopped = true ∧ ∀ t ∈ s.rpc.task, t.type = .emergencyStop

/-- Outputs without a frame leave the record of the frames complete. -/
theorem StopInv.captures_append {s : Threads n H} {g : StopRecord n} {tr out : List (Output n)}
    (hI : StopInv s g tr) (hout : capturedFrames out = []) :
    g.captures.map Prod.fst = capturedFrames (tr ++ out) := by
  rw [capturedFrames_append, hout, List.append_nil]
  exact hI.captures

/-- After outputs that say nothing about a stop, one that is in force was so before. -/
theorem StopInv.inForce_append {s : Threads n H} {g : StopRecord n} {tr out : List (Output n)}
    (hI : StopInv s g tr) (hout : latest Output.stopChange out = none)
    (hstop : StopInForce (tr ++ out)) :
    g.stopped = true ∧ ∀ t ∈ s.rpc.task, t.type = .emergencyStop :=
  hI.inForce ((stopInForce_append hout).mp hstop)

theorem RpcResult.stopInv {now : ℤ} {b b' : Brain n H} {pc pc' : RpcPc} {control : ControlPc n}
    {worker : WorkerPc n} {g : StopRecord n} {tr out : List (Output n)}
    (h : RpcResult cfg env now b pc b' pc' out) (hI : StopInv ⟨b, pc, control, worker⟩ g tr) :
    StopInv ⟨b', pc', control, worker⟩ (g.rpc pc) (tr ++ out) := by
  cases h
  case storeStateStop t ht =>
    refine ⟨fun _ => if_pos ht, hI.loaded, hI.standing, hI.captures_append rfl, rfl, fun _ => ?_⟩
    refine ⟨decide_eq_true ht, fun t' ht' => ?_⟩
    obtain rfl : t = t' := Option.some.inj ht'
    exact ht
  case storeStateMotion t ht =>
    refine ⟨fun hstop => absurd (of_decide_eq_true hstop) ht, hI.loaded, hI.standing,
      hI.captures_append rfl, rfl, fun hstop => absurd ?_ ht⟩
    exact (hI.inForce_append rfl hstop).2 t rfl
  case feedDog t =>
    refine ⟨hI.state, hI.loaded, hI.standing, hI.captures_append rfl, trivial, fun hstop => ?_⟩
    refine ⟨?_, by rintro t' ⟨⟩⟩
    have hstored : g.stopped = decide (t.type = .emergencyStop) := hI.stored
    by_cases ht : t.type = .emergencyStop
    · exact hstored.trans (decide_eq_true ht)
    · refine (hI.inForce_append ?_ hstop).1
      rw [latest_cons, latest_nil, Option.none_or, Output.stopChange, if_neg ht]
  all_goals
    exact ⟨hI.state, hI.loaded, hI.standing, hI.captures_append rfl,
      hI.stored, hI.inForce_append rfl⟩

theorem ControlResult.stopInv {prop : Proprioception n} {b b' : Brain n H} {rpc : RpcPc}
    {pc pc' : ControlPc n} {worker : WorkerPc n} {g : StopRecord n} {tr out : List (Output n)}
    (h : ControlResult cfg env prop b pc b' pc' out) (hI : StopInv ⟨b, rpc, pc, worker⟩ g tr) :
    StopInv ⟨b', rpc, pc', worker⟩ (g.control pc pc') (tr ++ out) := by
  cases h
  case watchdogStoreState now =>
    exact ⟨fun _ => rfl, hI.loaded, hI.standing, hI.captures_append rfl,
      hI.stored, hI.inForce_append rfl⟩
  case loadActive now hactive =>
    exact ⟨hI.state, hI.state, hI.standing, hI.captures_append rfl,
      hI.stored, hI.inForce_append rfl⟩
  case snapshot state p target dt =>
    refine ⟨hI.state, fun hloaded => ?_, hI.standing, hI.captures_append rfl,
      hI.stored, hI.inForce_append rfl⟩
    exact b.snapshot_standing (hI.loaded hloaded) p target dt
  case enqueued f hroom =>
    refine ⟨hI.state, fun _ => trivial, fun f' hf' => ?_, ?_, hI.stored, hI.inForce_append rfl⟩
    · rcases List.mem_append.mp hf' with hf' | hf'
      · exact hI.standing f' hf'
      · obtain ⟨rfl, hloaded⟩ := Prod.mk.inj (List.mem_singleton.mp hf')
        exact hI.loaded hloaded.symm
    · show (g.captures ++ [(f, g.loaded)]).map Prod.fst = _
      rw [List.map_append, hI.captures, capturedFrames_append]
      rfl
  case loadInactive | gateBusy | invalid | full | releaseGateFull | releaseGate | countDropped
    | publishDefault =>
    exact ⟨hI.state, fun _ => trivial, hI.standing, hI.captures_append rfl,
      hI.stored, hI.inForce_append rfl⟩
  all_goals
    exact ⟨hI.state, hI.loaded, hI.standing, hI.captures_append rfl,
      hI.stored, hI.inForce_append rfl⟩

theorem WorkerResult.stop {now : ℤ} {b b' : Brain n H} {pc pc' : WorkerPc n}
    {out : List (Output n)} (h : WorkerResult cfg env now b pc b' pc' out) :
    b'.metrics.currentState = b.metrics.currentState ∧ latest Output.stopChange out = none ∧
      capturedFrames out = [] := by
  cases h
  case forward | forwardThrew =>
    rw [Brain.acquireBuffer_brain]
    exact ⟨rfl, rfl, rfl⟩
  case releaseBuffer =>
    rw [Brain.releaseBuffer_eq]
    exact ⟨rfl, rfl, rfl⟩
  all_goals exact ⟨rfl, rfl, rfl⟩

theorem StopInv.step {s : Threads n H} {g : StopRecord n} {tr : List (Output n)}
    {e : ThreadEvent n} {r : Threads n H × List (Output n)} (hI : StopInv s g tr)
    (h : StepResult cfg env s e r) : StopInv r.1 (g.record s e r.1) (tr ++ r.2) := by
  cases h with
  | call hpc =>
    rename_i t
    refine ⟨hI.state, hI.loaded, hI.standing, hI.captures_append rfl, trivial, fun hstop => ?_⟩
    by_cases ht : t.type = .emergencyStop
    · refine ⟨(hI.inForce_append ?_ hstop).1, fun t' ht' => ?_⟩
      · rw [latest_cons, latest_nil, Option.none_or, Output.stopChange, if_pos ht]
      · obtain rfl : t = t' := Option.some.inj ht'
        exact ht
    · rw [StopInForce, latest_append, latest_cons, Output.stopChange, if_neg ht] at hstop
      cases hstop
  | rpc h => exact h.stopInv hI
  | tick hpc =>
    exact ⟨hI.state, fun _ => trivial, hI.standing, hI.captures_append rfl, hI.stored,
      hI.inForce_append rfl⟩
  | control h => exact h.stopInv hI
  | dequeue =>
    exact ⟨hI.state, hI.loaded, hI.standing, hI.captures_append rfl, hI.stored,
      hI.inForce_append rfl⟩
  | worker h =>
    obtain ⟨hstate, hchange, hcaptured⟩ := h.stop
    exact ⟨fun hstop => hstate.trans (hI.state hstop), hI.loaded, hI.standing,
      hI.captures_append hcaptured, hI.stored, hI.inForce_append hchange⟩

theorem stopInv_of_run {now : ℤ} {es : List (ThreadEvent n)} {s : Threads n H × StopRecord n}
    {tr : List (Output n)} (h : (stopRecorded cfg env now).Run es s tr) : StopInv s.1 s.2 tr := by
  have hinit : StopInv (Threads.rest (Brain.initial cfg env now)) {} [] := by
    refine ⟨fun _ => rfl, fun _ => trivial, by rintro f ⟨⟩, rfl, trivial, ?_⟩
    intro hstop
    cases hstop
  refine h.invariant (fun s tr => StopInv s.1 s.2 tr) hinit ?_
  rintro es ⟨s, g⟩ tr e r out _ hI _ hs
  obtain ⟨s', out', hstep, heq⟩ := Machine.step_withRecord.mp hs
  cases heq
  exact hI.step (stepResult hstep)

end Threads

/-- A command published from a frame under a stop is the output of the policy for its observation,
not scaled down, clamped and rate-limited. -/
def StandsUnderStop (cfg : BrainConfig n) (env : Environment n H) (g : StopRecord n)
    (past : List (Output n)) : Output n → Prop
  | .published targets (.inference f) => g.UnderStop f → ∃ actions,
      PolicyOutput cfg env past f actions ∧
      LimitedTargets cfg past ⟨fin 1, fin 1⟩ actions targets
  | _ => True

/-- A call with an emergency stop, then a tick and the closure of its frame up to its command. -/
def frameUnderStop : List (ThreadEvent 12) :=
  .call stopTask :: List.replicate 9 (.rpc 10) ++
    .tick 20 :: List.replicate 7 (.control (upright shippedConfig)) ++
    .dequeue :: List.replicate 5 (.worker false 30)

/-- A frame captured while a stop is in force has a zero velocity command and the profile of
`GetTaskProfile` for a stop. -/
def HeldByStop (past : List (Output n)) : Output n → Prop
  | .captured f => StopInForce past →
    f.scaledVelCmd = (fun _ => fin 0) ∧ f.profile = getTaskProfile .emergencyStop
  | _ => True

/-- A frame captured while a stop is in force is one of `STANDING`. -/
def CapturedStanding (past : List (Output n)) : Output n → Prop
  | .captured f => StopInForce past → f.state = .standing
  | _ => True

instance (past : List (Output n)) : (o : Output n) → Decidable (HeldByStop past o)
  | .captured _ => inferInstanceAs (Decidable (_ → _))
  | .published _ _ | .commandWritten _ | .generationIncremented _ | .taskReturned _
  | .heartbeatExpired | .lowered | .hiddenStateReset | .prevActionsReset | .jointTargetsReset
  | .forwarded _ | .applied _ _ _ | .discarded _ => .isTrue trivial

instance (past : List (Output n)) : (o : Output n) → Decidable (CapturedStanding past o)
  | .captured _ => inferInstanceAs (Decidable (_ → _))
  | .published _ _ | .commandWritten _ | .generationIncremented _ | .taskReturned _
  | .heartbeatExpired | .lowered | .hiddenStateReset | .prevActionsReset | .jointTargetsReset
  | .forwarded _ | .applied _ _ _ | .discarded _ => .isTrue trivial

/-- A tick that loads the state under a task, a call with an emergency stop, and the rest of the
tick. -/
private def stopDuringTick : List (ThreadEvent 12) :=
  .call ⟨.navigate, fun _ => fin 0⟩ :: List.replicate 5 (.rpc 10) ++
    .tick 20 :: List.replicate 2 (.control (upright shippedConfig)) ++
    .call stopTask :: List.replicate 9 (.rpc 30) ++
    List.replicate 5 (.control (upright shippedConfig))

end RobotBrain
