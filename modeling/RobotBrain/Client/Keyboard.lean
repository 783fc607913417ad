import RobotBrain.Safety.VelocityEnvelope
import RobotBrain.Rpc.Metrics
import RobotBrain.Library.Trace

/-!
# The keyboard client

The interactive client moves a forward velocity and a turning rate by a tenth at each key, between
fixed limits, and sends both as a task. It opens with a task that stands still and closes with an
emergency stop. An exception in the loop, such as a `KeyboardInterrupt`, leads to the `finally`
block with that stop. Between the first task and the loop the client is not guarded in this way, and
neither is the `finally` block up to the stop: there an exception ends the client with a `NAVIGATE`
as its last request. A call that the brain does not answer is forgotten, so that the brain receives
some of the tasks, in order.

A request is what the session hands on to `ProcessRobotTask`. Drawing the screen, which reads the
same two values, is left out.

## Main definitions

* `Keyboard`, `KeyboardEvent`, `keyboard` — the client as a machine.
* `Keyboard.Guarded` — no exception where the client is not guarded.
* `keyboardBox` — the velocities that it sends.

## Main results

* `keyboard_requests` — what the client sends, over every run.
* `keyboard_drives` — the brain under such a client, in every interleaving.
-/

namespace RobotBrain

open ExtNum

variable {n : ℕ} {H : Type*} {cfg : BrainConfig n} {env : Environment n H}

/-- Where `main` stands. -/
inductive KeyboardPhase
  /-- Before the first task. -/
  | connecting
  /-- Before the `try`: the terminal is put into raw mode. -/
  | starting
  /-- In the loop. -/
  | reading
  /-- In the `finally` block, before the terminal has been restored. -/
  | closing
  /-- In the `finally` block, before the emergency stop. -/
  | stopping
  /-- `main` has returned or has been left by an exception. -/
  | ended
  deriving DecidableEq

/-- The client: `current_vx` and `current_wz`. -/
structure Keyboard where
  phase : KeyboardPhase
  currentVx : ℚ
  currentWz : ℚ

/-- How a call of `send_task` ends: it returns, or an exception other than `RpcError` leaves it
before or after the request is on its way. -/
inductive SendOutcome
  | returned
  | raisedBefore
  | raisedAfter
  deriving DecidableEq

/-- The requests of a call that are sent. -/
def SendOutcome.sent (requests : List Task) : SendOutcome → List Task
  | .raisedBefore => []
  | _ => requests

/-- What happens to the client. -/
inductive KeyboardEvent
  /-- The channel is not ready in time. -/
  | timedOut
  /-- The channel is ready, and the first task is sent. -/
  | connected (outcome : SendOutcome)
  /-- The terminal is in raw mode. -/
  | rawMode
  /-- One pass of the loop, with the character that could be read, if any. -/
  | poll (ch : Option Char) (outcome : SendOutcome)
  /-- The terminal is restored. -/
  | restored
  /-- The emergency stop of the `finally` block, which ignores every exception. -/
  | stop (outcome : SendOutcome)
  /-- An exception outside of `send_task`. -/
  | raised

/-- `send_task`. -/
def sendTask (vx wz : ℚ) (type : TaskType) : Task := ⟨type, ![fin vx, fin 0, fin wz]⟩

namespace Keyboard

/-- What the loop does with a character. -/
def press (ch : Char) (k : Keyboard) : Keyboard × List Task :=
  let lower := ch.toLower
  if lower = 'q' then ({ k with phase := .closing }, [])
  else if lower = 'w' then
    let vx := min 1 (k.currentVx + 1 / 10)
    ({ k with currentVx := vx }, [sendTask vx k.currentWz .navigate])
  else if lower = 's' then
    let vx := max 0 (k.currentVx - 1 / 10)
    ({ k with currentVx := vx }, [sendTask vx k.currentWz .navigate])
  else if lower = 'a' then
    let wz := min (1 / 2) (k.currentWz + 1 / 10)
    ({ k with currentWz := wz }, [sendTask k.currentVx wz .navigate])
  else if lower = 'd' then
    let wz := max (-1 / 2) (k.currentWz - 1 / 10)
    ({ k with currentWz := wz }, [sendTask k.currentVx wz .navigate])
  else if ch = ' ' then
    ({ k with currentVx := 0, currentWz := 0 }, [sendTask 0 0 .emergencyStop])
  else (k, [])

/-- One step of `main`. -/
def step (k : Keyboard) : KeyboardEvent → Option (Keyboard × List Task)
  | .timedOut => if k.phase = .connecting then some ({ k with phase := .ended }, []) else none
  | .connected outcome =>
    if k.phase = .connecting then
      let next := if outcome = .returned then .starting else .ended
      some ({ k with phase := next }, outcome.sent [sendTask 0 0 .navigate])
    else none
  | .rawMode => if k.phase = .starting then some ({ k with phase := .reading }, []) else none
  | .poll ch outcome =>
    if k.phase = .reading then
      match ch with
      | none => some (k, [])
      | some ch =>
        let (k', requests) := k.press ch
        if outcome = .returned then some (k', requests)
        else some ({ k' with phase := .closing }, outcome.sent requests)
    else none
  | .restored => if k.phase = .closing then some ({ k with phase := .stopping }, []) else none
  | .stop outcome =>
    if k.phase = .stopping then
      some ({ k with phase := .ended }, outcome.sent [sendTask 0 0 .emergencyStop])
    else none
  | .raised =>
    match k.phase with
    | .ended => none
    | .reading => some ({ k with phase := .closing }, [])
    | .connecting | .starting | .closing | .stopping => some ({ k with phase := .ended }, [])

/-- The step is not an exception that ends the client after its first task and before the emergency
stop: none after the first task has left and before the loop, and none in the `finally` block before
the stop has left. -/
def Guarded (k : Keyboard) : KeyboardEvent → Prop
  | .connected outcome => outcome ≠ .raisedAfter
  | .stop outcome => outcome ≠ .raisedBefore
  | .raised => k.phase = .connecting ∨ k.phase = .reading
  | _ => True

instance (k : Keyboard) : (e : KeyboardEvent) → Decidable (k.Guarded e)
  | .connected _ | .stop _ => inferInstanceAs (Decidable (_ ≠ _))
  | .raised => inferInstanceAs (Decidable (_ ∨ _))
  | .timedOut | .rawMode | .poll _ _ | .restored => .isTrue trivial

end Keyboard

/-- The client as a machine that emits its requests. -/
def keyboard : Machine Keyboard KeyboardEvent Task where
  init := ⟨.connecting, 0, 0⟩
  step k e := k.step e

/-- The velocities that the client sends. -/
def keyboardBox : VelocityBox where
  lo := ![0, 0, -1 / 2]
  hi := ![1, 0, 1 / 2]
  lo_nonpos := by decide +kernel
  hi_nonneg := by decide +kernel

/-! ### Requests -/

theorem sendTask_emergencyStop : sendTask 0 0 .emergencyStop = stopTask := by
  refine congrArg (Task.mk .emergencyStop) (funext fun axis => ?_)
  fin_cases axis <;> rfl

/-- A request to move, or an emergency stop. -/
def Allowed (t : Task) : Prop :=
  keyboardBox.Within t.velCmd ∧ (t.type = .navigate ∨ t = stopTask)

theorem allowed_stopTask : Allowed stopTask := ⟨VelocityBox.within_zero, Or.inr rfl⟩

/-- A request is an emergency stop, or close to the request before it. -/
def StepsGently (past : List Task) (t : Task) : Prop :=
  ∀ prev, past.getLast? = some prev →
    t = stopTask ∨ ∀ axis, (t.velCmd axis - prev.velCmd axis).abs ≤ fin (1 / 10)

/-- The two velocities of the client are within their limits. -/
def Keyboard.InLimits (k : Keyboard) : Prop :=
  (0 ≤ k.currentVx ∧ k.currentVx ≤ 1) ∧ -1 / 2 ≤ k.currentWz ∧ k.currentWz ≤ 1 / 2

theorem Keyboard.InLimits.allowed {k : Keyboard} (h : k.InLimits) :
    Allowed (sendTask k.currentVx k.currentWz .navigate) := by
  refine ⟨fun axis => ?_, Or.inl rfl⟩
  fin_cases axis
  · exact h.1
  · exact ⟨le_rfl (a := (0 : ℚ)), le_rfl (a := (0 : ℚ))⟩
  · exact h.2

/-- The request is no further from the velocities of the client than a tenth on each axis. -/
theorem abs_velCmd_sub_le {vx wz vx' wz' : ℚ} (hvx : |vx' - vx| ≤ 1 / 10)
    (hwz : |wz' - wz| ≤ 1 / 10) (type type' : TaskType) (axis : Fin 3) :
    ((sendTask vx' wz' type').velCmd axis - (sendTask vx wz type).velCmd axis).abs ≤
      fin (1 / 10) := by
  fin_cases axis
  · show (fin vx' - fin vx).abs ≤ fin (1 / 10)
    rwa [fin_sub_fin, abs_fin, fin_le_fin]
  · show (fin 0 - fin 0 : Scalar).abs ≤ fin (1 / 10)
    decide +kernel
  · show (fin wz' - fin wz).abs ≤ fin (1 / 10)
    rwa [fin_sub_fin, abs_fin, fin_le_fin]

/-- What a key does: the client closes, sends an emergency stop, moves one velocity by at most a
tenth and sends both, or does nothing. -/
inductive Pressed (k : Keyboard) : Keyboard × List Task → Prop
  | closed : Pressed k ({ k with phase := .closing }, [])
  | stopped : Pressed k ({ k with currentVx := 0, currentWz := 0 }, [stopTask])
  | moved {vx wz : ℚ} (hvx : |vx - k.currentVx| ≤ 1 / 10) (hwz : |wz - k.currentWz| ≤ 1 / 10)
      (hlimits : (0 ≤ vx ∧ vx ≤ 1) ∧ -1 / 2 ≤ wz ∧ wz ≤ 1 / 2) :
      Pressed k ({ k with currentVx := vx, currentWz := wz }, [sendTask vx wz .navigate])
  | ignored : Pressed k (k, [])

/-- A step up to a limit that has not been passed. -/
theorem abs_min_add_sub_le {x hi d : ℚ} (hd : 0 ≤ d) (hx : x ≤ hi) : |min hi (x + d) - x| ≤ d := by
  rw [abs_of_nonneg (sub_nonneg.mpr (le_min hx (le_add_of_nonneg_right hd))), sub_le_iff_le_add']
  exact min_le_right _ _

/-- A step down to a limit that has not been passed. -/
theorem abs_max_sub_sub_le {x lo d : ℚ} (hd : 0 ≤ d) (hx : lo ≤ x) : |max lo (x - d) - x| ≤ d := by
  rw [abs_of_nonpos (sub_nonpos.mpr (max_le hx (sub_le_self x hd))), neg_sub, sub_le_comm]
  exact le_max_right _ _

theorem Keyboard.pressed (ch : Char) {k : Keyboard} (h : k.InLimits) : Pressed k (k.press ch) := by
  obtain ⟨⟨hvx0, hvx1⟩, hwz0, hwz1⟩ := h
  have hd : (0 : ℚ) ≤ 1 / 10 := by norm_num
  have hzero (x : ℚ) : |x - x| ≤ 1 / 10 := by
    rw [sub_self, abs_zero]
    exact hd
  simp only [press]
  split_ifs
  · exact .closed
  · exact .moved (abs_min_add_sub_le hd hvx1) (hzero _)
      ⟨⟨le_min zero_le_one (by linarith), min_le_left _ _⟩, hwz0, hwz1⟩
  · exact .moved (abs_max_sub_sub_le hd hvx0) (hzero _)
      ⟨⟨le_max_left _ _, max_le zero_le_one (by linarith)⟩, hwz0, hwz1⟩
  · exact .moved (hzero _) (abs_min_add_sub_le hd hwz1)
      ⟨⟨hvx0, hvx1⟩, le_min (by norm_num) (by linarith), min_le_left _ _⟩
  · exact .moved (hzero _) (abs_max_sub_sub_le hd hwz0)
      ⟨⟨hvx0, hvx1⟩, le_max_left _ _, max_le (by norm_num) (by linarith)⟩
  · rw [sendTask_emergencyStop]
    exact .stopped
  · exact .ignored

/-! ### Runs of the client -/

/-- What the requests so far say about the client. -/
structure KeyboardInv (k : Keyboard) (tr : List Task) : Prop where
  limits : k.InLimits
  allowed : ∀ t ∈ tr, Allowed t
  gentle : Each StepsGently tr
  connecting : k.phase = .connecting → tr = [] ∧ k.currentVx = 0 ∧ k.currentWz = 0
  /-- Up to the end of the loop, the last request carried the velocities. -/
  last : k.phase = .starting ∨ k.phase = .reading →
    ∃ type, tr.getLast? = some (sendTask k.currentVx k.currentWz type)

namespace KeyboardInv

variable {k : Keyboard} {tr : List Task}

/-- What may be sent next. -/
def Next (tr : List Task) (t : Task) : Prop := Allowed t ∧ StepsGently tr t

theorem next_stopTask (tr : List Task) : Next tr stopTask :=
  ⟨allowed_stopTask, fun _ _ => Or.inl rfl⟩

/-- A call of `send_task` adds its requests, of which there is at most one, or nothing. -/
theorem sent (hI : KeyboardInv k tr) {requests : List Task} (hlen : requests.length ≤ 1)
    (hnext : ∀ t ∈ requests, Next tr t) (outcome : SendOutcome) :
    (∀ t ∈ tr ++ outcome.sent requests, Allowed t) ∧
      Each StepsGently (tr ++ outcome.sent requests) := by
  have hadd : (∀ t ∈ tr ++ requests, Allowed t) ∧ Each StepsGently (tr ++ requests) := by
    cases requests with
    | nil =>
      rw [List.append_nil]
      exact ⟨hI.allowed, hI.gentle⟩
    | cons t rest =>
      obtain rfl : rest = [] := List.length_eq_zero_iff.mp (by simpa using hlen)
      obtain ⟨hallowed, hgentle⟩ := hnext t List.mem_cons_self
      refine ⟨?_, each_concat.mpr ⟨hI.gentle, hgentle⟩⟩
      rw [List.forall_mem_append, List.forall_mem_singleton]
      exact ⟨hI.allowed, hallowed⟩
  cases outcome with
  | raisedBefore =>
    rw [SendOutcome.sent, List.append_nil]
    exact ⟨hI.allowed, hI.gentle⟩
  | returned | raisedAfter => exact hadd

/-- The client goes on to a phase about which nothing is known. -/
theorem leave (hI : KeyboardInv k tr) {k' : Keyboard}
    (hphase : k'.phase = .closing ∨ k'.phase = .stopping ∨ k'.phase = .ended)
    (hlimits : k'.InLimits) {requests : List Task} (hlen : requests.length ≤ 1)
    (hnext : ∀ t ∈ requests, Next tr t)
    (outcome : SendOutcome) : KeyboardInv k' (tr ++ outcome.sent requests) := by
  obtain ⟨hallowed, hgentle⟩ := hI.sent hlen hnext outcome
  refine ⟨hlimits, hallowed, hgentle, fun h => ?_, fun h => ?_⟩ <;>
    rcases hphase with hphase | hphase | hphase <;> simp [hphase] at h

theorem quiet (hI : KeyboardInv k tr) {k' : Keyboard}
    (hphase : k'.phase = .closing ∨ k'.phase = .stopping ∨ k'.phase = .ended)
    (hlimits : k'.InLimits) : KeyboardInv k' (tr ++ []) := by
  have hnext : ∀ t ∈ ([] : List Task), Next tr t := by simp
  exact hI.leave hphase hlimits (by simp) hnext .returned

/-- The request of a key, and the velocities after it. -/
theorem press (hI : KeyboardInv k tr) (hphase : k.phase = .reading)
    {r : Keyboard × List Task} (h : Pressed k r) :
    r.1.InLimits ∧ r.2.length ≤ 1 ∧ (∀ t ∈ r.2, Next tr t) ∧ KeyboardInv r.1 (tr ++ r.2) := by
  obtain ⟨type, hlast⟩ := hI.last (Or.inr hphase)
  cases h with
  | closed =>
    exact ⟨hI.limits, Nat.zero_le 1, by simp, hI.quiet (Or.inl rfl) hI.limits⟩
  | stopped =>
    have hlimits : Keyboard.InLimits { k with currentVx := 0, currentWz := 0 } :=
      ⟨⟨le_rfl, zero_le_one⟩, by norm_num, by norm_num⟩
    have hnext : ∀ t ∈ [stopTask], Next tr t := List.forall_mem_singleton.mpr (next_stopTask tr)
    obtain ⟨hallowed, hgentle⟩ := hI.sent le_rfl hnext .returned
    refine ⟨hlimits, le_rfl, hnext, hlimits, hallowed, hgentle, fun h => ?_, fun _ => ?_⟩
    · exact absurd (hphase.symm.trans h) (by decide)
    · refine ⟨.emergencyStop, ?_⟩
      rw [List.getLast?_concat, sendTask_emergencyStop]
  | @moved vx wz hvx hwz hlimits =>
    have hlimits : Keyboard.InLimits { k with currentVx := vx, currentWz := wz } := hlimits
    have hnext : ∀ t ∈ [sendTask vx wz .navigate], Next tr t := by
      refine List.forall_mem_singleton.mpr ⟨hlimits.allowed, fun prev hprev => Or.inr ?_⟩
      rw [hlast] at hprev
      obtain rfl := Option.some.inj hprev
      exact abs_velCmd_sub_le hvx hwz type .navigate
    obtain ⟨hallowed, hgentle⟩ := hI.sent le_rfl hnext .returned
    refine ⟨hlimits, le_rfl, hnext, hlimits, hallowed, hgentle, fun h => ?_, fun _ => ?_⟩
    · exact absurd (hphase.symm.trans h) (by decide)
    · exact ⟨.navigate, List.getLast?_concat⟩
  | ignored =>
    refine ⟨hI.limits, Nat.zero_le 1, by simp, ?_⟩
    rw [List.append_nil]
    exact hI

theorem step {e : KeyboardEvent} {r : Keyboard × List Task} (hI : KeyboardInv k tr)
    (h : k.step e = some r) : KeyboardInv r.1 (tr ++ r.2) := by
  cases e with
  | timedOut =>
    obtain ⟨hphase, heq⟩ := Option.ite_none_right_eq_some.mp h
    obtain rfl := Option.some.inj heq
    exact hI.quiet (by simp) hI.limits
  | connected outcome =>
    obtain ⟨hphase, heq⟩ := Option.ite_none_right_eq_some.mp h
    obtain rfl := Option.some.inj heq
    obtain ⟨rfl, hvx, hwz⟩ := hI.connecting hphase
    have hfirst : Allowed (sendTask 0 0 .navigate) := by
      have hallowed := hI.limits.allowed
      rwa [hvx, hwz] at hallowed
    have hnext : ∀ t ∈ [sendTask 0 0 .navigate], Next [] t :=
      List.forall_mem_singleton.mpr ⟨hfirst, by simp [StepsGently]⟩
    cases outcome with
    | returned =>
      obtain ⟨hallowed, hgentle⟩ := hI.sent le_rfl hnext .returned
      refine ⟨hI.limits, hallowed, hgentle, by simp, fun _ => ⟨.navigate, ?_⟩⟩
      rw [hvx, hwz]
      rfl
    | raisedBefore =>
      refine hI.leave ?_ ?_ le_rfl hnext .raisedBefore
      · exact Or.inr (Or.inr rfl)
      · exact hI.limits
    | raisedAfter =>
      refine hI.leave ?_ ?_ le_rfl hnext .raisedAfter
      · exact Or.inr (Or.inr rfl)
      · exact hI.limits
  | rawMode =>
    obtain ⟨hphase, heq⟩ := Option.ite_none_right_eq_some.mp h
    obtain rfl := Option.some.inj heq
    rw [List.append_nil]
    exact ⟨hI.limits, hI.allowed, hI.gentle, by simp, fun _ => hI.last (Or.inl hphase)⟩
  | poll ch outcome =>
    obtain ⟨hphase, heq⟩ := Option.ite_none_right_eq_some.mp h
    cases ch with
    | none =>
      obtain rfl := Option.some.inj heq
      rw [List.append_nil]
      exact hI
    | some ch =>
      obtain ⟨hlimits, hlen, hnext, hpressed⟩ := hI.press hphase (Keyboard.pressed ch hI.limits)
      dsimp only at heq
      split_ifs at heq
      · obtain rfl := Option.some.inj heq
        exact hpressed
      · obtain rfl := Option.some.inj heq
        refine hI.leave ?_ ?_ hlen hnext outcome
        · exact Or.inl rfl
        · exact hlimits
  | restored =>
    obtain ⟨hphase, heq⟩ := Option.ite_none_right_eq_some.mp h
    obtain rfl := Option.some.inj heq
    exact hI.quiet (by simp) hI.limits
  | stop outcome =>
    obtain ⟨hphase, heq⟩ := Option.ite_none_right_eq_some.mp h
    obtain rfl := Option.some.inj heq
    rw [sendTask_emergencyStop]
    have hnext : ∀ t ∈ [stopTask], Next tr t := List.forall_mem_singleton.mpr (next_stopTask tr)
    refine hI.leave ?_ ?_ le_rfl hnext outcome
    · exact Or.inr (Or.inr rfl)
    · exact hI.limits
  | raised =>
    rw [Keyboard.step] at h
    split at h <;> cases h <;> exact hI.quiet (by simp) hI.limits

end KeyboardInv

theorem keyboardInv_of_run {es : List KeyboardEvent} {k : Keyboard} {tr : List Task}
    (h : keyboard.Run es k tr) : KeyboardInv k tr := by
  refine h.invariant KeyboardInv ?_ fun _ hI _ hs => hI.step hs
  refine ⟨⟨⟨le_rfl, zero_le_one⟩, by norm_num [keyboard], by norm_num [keyboard]⟩, by simp,
    each_nil _, fun _ => ⟨rfl, rfl, rfl⟩, ?_⟩
  rintro (h | h) <;> cases h

/-- A guarded client that has ended has sent nothing, or an emergency stop last. -/
def EndsStopped (k : Keyboard) (tr : List Task) : Prop :=
  k.phase = .ended → tr = [] ∨ tr.getLast? = some stopTask

/-- A guarded step ends the client before its first request or after the emergency stop. -/
theorem KeyboardInv.endsStopped {k : Keyboard} {tr : List Task} {e : KeyboardEvent}
    {r : Keyboard × List Task} (hI : KeyboardInv k tr) (hguarded : k.Guarded e)
    (h : k.step e = some r) : EndsStopped r.1 (tr ++ r.2) := by
  intro hended
  cases e with
  | timedOut =>
    obtain ⟨hphase, heq⟩ := Option.ite_none_right_eq_some.mp h
    obtain rfl := Option.some.inj heq
    left
    rw [List.append_nil]
    exact (hI.connecting hphase).1
  | connected outcome =>
    obtain ⟨hphase, heq⟩ := Option.ite_none_right_eq_some.mp h
    obtain rfl := Option.some.inj heq
    cases outcome with
    | returned => cases hended
    | raisedBefore =>
      left
      rw [(hI.connecting hphase).1]
      rfl
    | raisedAfter => exact absurd rfl hguarded
  | rawMode | restored =>
    obtain ⟨-, heq⟩ := Option.ite_none_right_eq_some.mp h
    obtain rfl := Option.some.inj heq
    cases hended
  | poll ch outcome =>
    obtain ⟨hphase, heq⟩ := Option.ite_none_right_eq_some.mp h
    cases ch with
    | none =>
      obtain rfl := Option.some.inj heq
      exact absurd (hphase.symm.trans hended) (by decide)
    | some ch =>
      dsimp only at heq
      split_ifs at heq
      · obtain rfl := Option.some.inj heq
        have hpressed := Keyboard.pressed ch hI.limits
        generalize k.press ch = r at hpressed hended
        cases hpressed with
        | closed => cases hended
        | stopped | moved | ignored => exact absurd (hphase.symm.trans hended) (by decide)
      · obtain rfl := Option.some.inj heq
        cases hended
  | stop outcome =>
    obtain ⟨-, heq⟩ := Option.ite_none_right_eq_some.mp h
    obtain rfl := Option.some.inj heq
    right
    rw [sendTask_emergencyStop]
    cases outcome with
    | raisedBefore => exact absurd rfl hguarded
    | returned | raisedAfter => exact List.getLast?_concat
  | raised =>
    rcases hguarded with hphase | hphase
    · simp only [Keyboard.step, hphase, Option.some.injEq] at h
      subst h
      left
      rw [List.append_nil]
      exact (hI.connecting hphase).1
    · simp only [Keyboard.step, hphase, Option.some.injEq] at h
      subst h
      cases hended

theorem endsStopped_of_reaches {es : List KeyboardEvent} {k : Keyboard} {tr : List Task}
    (h : keyboard.Reaches (fun k _ e => k.Guarded e) es k tr) : EndsStopped k tr := by
  refine h.invariant EndsStopped (fun _ => Or.inl rfl) ?_
  intro es k tr e k' out hreach _ hguarded hs
  exact (keyboardInv_of_run hreach.run).endsStopped hguarded hs

/-- Over every run of the client, whatever is typed and wherever it is interrupted: every request is
within the limits, and is a `NAVIGATE` or the emergency stop; on each axis it is at most a tenth
away from the request before it, unless it is an emergency stop. Unless an exception has struck
where the client is not guarded, a client that has ended has sent nothing at all, or an emergency
stop last. -/
theorem keyboard_requests {es : List KeyboardEvent} {k : Keyboard} {tr : List Task}
    (h : keyboard.Run es k tr) :
    (∀ t ∈ tr, keyboardBox.Within t.velCmd ∧ (t.type = .navigate ∨ t = stopTask)) ∧
      Each StepsGently tr ∧
      (keyboard.Reaches (fun k _ e => k.Guarded e) es k tr →
        k.phase = .ended → tr = [] ∨ tr.getLast? = some stopTask) :=
  have hI := keyboardInv_of_run h
  ⟨hI.allowed, hI.gentle, endsStopped_of_reaches⟩

/-- Two keys forward, an interruption of the request of the second and the end. -/
private def interruptedClient : List KeyboardEvent :=
  [.connected .returned, .rawMode, .poll (some 'w') .returned, .poll (some 'W') .raisedAfter,
    .restored, .stop .returned]

theorem keyboard_requests_interrupted :
    ∃ k tr, keyboard.Run interruptedClient k tr ∧ tr.length = 4 ∧
      tr.getLast? = some stopTask := by
  have hrun : ∃ k tr, keyboard.Reaches (fun k _ e => k.Guarded e) interruptedClient k tr ∧
      tr.length = 4 ∧ k.phase = .ended :=
    Machine.exists_reaches_of_decide _ (by decide +kernel)
  obtain ⟨k, tr, hreach, hlen, hphase⟩ := hrun
  refine ⟨k, tr, hreach.run, hlen, ?_⟩
  refine ((keyboard_requests hreach.run).2.2 hreach hphase).resolve_left ?_
  rintro rfl
  cases hlen

/-- An exception in the `finally` block: the last request tells the robot to walk. -/
example : ∃ k tr, keyboard.Run [.connected .returned, .rawMode, .poll (some 'w') .returned, .raised,
    .raised] k tr ∧ k.phase = .ended ∧ tr.getLast? = some (sendTask (1 / 10) 0 .navigate) :=
  Machine.exists_reaches_of_decide _ (by decide +kernel)

/-! ### The brain under the client -/

/-- The task whose command the RPC thread has stored and that it has not counted. -/
def RpcPc.stored : RpcPc → Option Task
  | .incrementGeneration t => some t
  | _ => none

/-- A call that has neither stored a command nor counted a task is over. -/
theorem RpcPc.eq_idle {pc : RpcPc} (hstored : pc.stored = none) (hcounted : pc.counted = none) :
    pc = .idle := by
  cases pc with
  | idle => rfl
  | incrementGeneration => cases hstored
  | _ => cases hcounted

namespace Threads

/-- What the commands written say about the brain: the tasks counted are those, but for the one
being processed, and the target is that of the last of them or zero. -/
structure CommandInv (s : Threads n H) (tr : List (Output n)) : Prop where
  tasks : s.brain.history.tasks ++ s.rpc.stored.toList = commandsWritten tr
  target : (s.brain.velocityCmd = fun _ => fin 0) ∨
    ∃ t, (commandsWritten tr).getLast? = some t ∧ s.brain.velocityCmd = t.velCmd

theorem RpcResult.commands {now : ℤ} {b b' : Brain n H} {pc pc' : RpcPc} {out : List (Output n)}
    (h : RpcResult cfg env now b pc b' pc' out) :
    b'.history.tasks ++ pc'.stored.toList = b.history.tasks ++ pc.stored.toList ∧
      commandsWritten out = [] := by
  cases h
  case incrementGeneration t => exact ⟨List.append_nil _, rfl⟩
  all_goals exact ⟨rfl, rfl⟩

theorem ControlResult.commands {prop : Proprioception n} {b b' : Brain n H} {pc pc' : ControlPc n}
    {out : List (Output n)} (h : ControlResult cfg env prop b pc b' pc' out) :
    (b'.velocityCmd = b.velocityCmd ∨ b'.velocityCmd = fun _ => fin 0) ∧
      commandsWritten out = [] := by
  cases h
  case watchdogZeroVelocity => exact ⟨Or.inr rfl, rfl⟩
  all_goals exact ⟨Or.inl rfl, rfl⟩

theorem WorkerResult.commands {now : ℤ} {b b' : Brain n H} {pc pc' : WorkerPc n}
    {out : List (Output n)} (h : WorkerResult cfg env now b pc b' pc' out) :
    commandsWritten out = [] := by
  cases h <;> rfl

theorem StepResult.commandInv {s : Threads n H} {tr : List (Output n)} {e : ThreadEvent n}
    {r : Threads n H × List (Output n)} (h : StepResult cfg env s e r) (hI : CommandInv s tr) :
    CommandInv r.1 (tr ++ r.2) := by
  obtain ⟨htasks, htarget⟩ := hI
  cases h with
  | @call t hpc =>
    rw [hpc] at htasks
    have hcounted : s.brain.history.tasks = commandsWritten tr :=
      (List.append_nil _).symm.trans htasks
    refine ⟨?_, Or.inr ⟨t, ?_, rfl⟩⟩
    · rw [commandsWritten_append, ← hcounted]
      rfl
    · rw [commandsWritten_append]
      exact List.getLast?_concat
  | tick | dequeue =>
    rw [List.append_nil]
    exact ⟨htasks, htarget⟩
  | rpc h =>
    obtain ⟨hkeep, hout⟩ := h.commands
    have hvel := h.velocity.1
    rw [← hvel] at htarget
    refine ⟨?_, ?_⟩ <;> rw [commandsWritten_append, hout, List.append_nil]
    · exact hkeep.trans htasks
    · exact htarget
  | control h =>
    obtain ⟨hvel, hout⟩ := h.commands
    refine ⟨?_, ?_⟩ <;> rw [commandsWritten_append, hout, List.append_nil]
    · exact (congrArg (· ++ s.rpc.stored.toList) h.generation.1).trans htasks
    · rcases hvel with hvel | hvel
      · rwa [← hvel] at htarget
      · exact Or.inl hvel
  | worker h =>
    have hvel := h.velocity.1
    rw [← hvel] at htarget
    refine ⟨?_, ?_⟩ <;> rw [commandsWritten_append, h.commands, List.append_nil]
    · exact (congrArg (·.tasks ++ s.rpc.stored.toList) h.generation.1).trans htasks
    · exact htarget

theorem commandInv_of_run {start : ℤ} {es : List (ThreadEvent n)} {s : Threads n H}
    {tr : List (Output n)} (h : (threads cfg env start).Run es s tr) : CommandInv s tr := by
  refine h.invariant CommandInv ⟨rfl, Or.inl rfl⟩ ?_
  intro es s tr e s' out _ hI _ hs
  exact (stepResult hs).commandInv hI

/-- Between calls, if the last command was an emergency stop or there was none, the brain stands. -/
theorem standing_of_last {start : ℤ} {es : List (ThreadEvent n)} {s : Threads n H}
    {tr : List (Output n)} (h : (threads cfg env start).Run es s tr) (hrpc : s.rpc = .idle)
    (hlast : ∀ t ∈ (commandsWritten tr).getLast?, t = stopTask) :
    s.brain.metrics.currentState = .standing ∧ s.brain.velocityCmd = fun _ => fin 0 := by
  obtain ⟨htasks, htarget⟩ := commandInv_of_run h
  have hstoring := (metricsInv_of_reaches h).storing
  rw [hrpc] at htasks hstoring
  have hcounted : s.brain.history.tasks = commandsWritten tr :=
    (List.append_nil _).symm.trans htasks
  rw [← hcounted] at hlast htarget
  constructor
  · exact hstoring.calm fun t ht => congrArg Task.type (hlast t ht)
  · rcases htarget with hzero | ⟨t, ht, hvel⟩
    · exact hzero
    · rw [hvel, hlast t ht]
      rfl

end Threads

/-- A client and the brain, in every run of the one and every interleaving of the other in which the
tasks of the brain are requests of the client in their order, some of them lost: the targets and the
ramp stay within the limits of the keys, and so does what the policy sees, but for the constant
command of `STANDING`. Once the client has ended, without an exception where it is not guarded, and
the brain has processed its last request, the brain stands with a zero target. -/
theorem keyboard_drives {ks : List KeyboardEvent} {k : Keyboard} {requests : List Task}
    (hclient : keyboard.Run ks k requests) {start : ℤ} {es : List (ThreadEvent n)}
    {s : Threads n H} {tr : List (Output n)} (h : (threads cfg env start).Run es s tr)
    (hramp : ¬cfg.maxVelRamp < fin 0) (hsent : (commandsWritten tr).Sublist requests) :
    keyboardBox.Within s.brain.velocityCmd ∧ keyboardBox.Within s.brain.currentVelCmd ∧
      (∀ obs, .forwarded obs ∈ tr → ∃ v, keyboardBox.Allows v ∧ Feeds cfg v obs) ∧
      (keyboard.Reaches (fun k _ e => k.Guarded e) ks k requests → k.phase = .ended →
        (commandsWritten tr).getLast? = requests.getLast? → s.rpc = .idle →
        s.brain.metrics.currentState = .standing ∧ s.brain.velocityCmd = fun _ => fin 0) := by
  have hI := keyboardInv_of_run hclient
  have hvel : VelocityInv cfg keyboardBox s tr :=
    velocityInv_of_run h hramp fun t ht => (hI.allowed t (hsent.subset ht)).1
  refine ⟨hvel.target, hvel.ramp, hvel.observation, fun hguarded hphase hlast hrpc => ?_⟩
  refine Threads.standing_of_last h hrpc fun t ht => ?_
  rw [hlast] at ht
  rcases endsStopped_of_reaches hguarded hphase with rfl | hstop
  · cases ht
  · rw [hstop] at ht
    exact (Option.some.inj ht).symm

/-- A client that is interrupted at once: the brain has processed both requests and stands. -/
theorem keyboard_drives_interrupted :
    ∃ s tr, (threads shippedConfig (constantPolicy 12 (fin 0)) 1000).Run
        (.call (sendTask 0 0 .navigate) :: List.replicate 5 (.rpc 1010) ++
          .call (sendTask 0 0 .emergencyStop) :: List.replicate 9 (.rpc 1020)) s tr ∧
      s.brain.metrics.currentState = .standing ∧ s.brain.velocityCmd = fun _ => fin 0 := by
  have hclient : ∃ k requests, keyboard.Reaches (fun k _ e => k.Guarded e)
      [.connected .returned, .rawMode, .raised, .restored, .stop .returned] k requests ∧
      k.phase = .ended ∧ requests = [sendTask 0 0 .navigate, sendTask 0 0 .emergencyStop] :=
    Machine.exists_reaches_of_decide _ (by decide +kernel)
  have hrun : ∃ s tr, (threads shippedConfig (constantPolicy 12 (fin 0)) 1000).Run
      (.call (sendTask 0 0 .navigate) :: List.replicate 5 (.rpc 1010) ++
        .call (sendTask 0 0 .emergencyStop) :: List.replicate 9 (.rpc 1020)) s tr ∧
      commandsWritten tr = [sendTask 0 0 .navigate, sendTask 0 0 .emergencyStop] ∧
      s.rpc.stored = none ∧ s.rpc.counted = none :=
    Machine.exists_reaches_of_decide _ (by decide +kernel)
  obtain ⟨k, requests, hclient, hphase, rfl⟩ := hclient
  obtain ⟨s, tr, hrun, hcommands, hstored, hcounted⟩ := hrun
  have hrpc := RpcPc.eq_idle hstored hcounted
  have hdrives := keyboard_drives hclient.run hrun (by decide +kernel)
    (hcommands ▸ List.Sublist.refl _)
  exact ⟨s, tr, hrun,
    hdrives.2.2.2 hclient hphase (congrArg List.getLast? hcommands) hrpc⟩

end RobotBrain
