import RobotBrain.Rpc.Lifecycle
import Mathlib.Data.List.Chain

/-!
# The rate of a status stream

A status stream drives itself: the end of a write sets an alarm, and the alarm starts the next
write. The client chooses the interval; `ScheduleNextWrite` takes 200 ms in place of one that is not
positive. The alarm of gRPC does not expire before its deadline, and the clock does not go back.
With these two assumptions no stream writes faster than its interval, whatever the other sessions
do, for a session never has two tags outstanding.

## Main definitions

* `TimedServer`, `timedServer` — the server with the clock, the intervals and the alarms.
* `TimedServer.Timely` — the assumptions on the clock and the alarm.
* `writeTimes` — the times of the writes of a session.

## Main results

* `status_rate` — the writes of a stream are its interval apart, so that there are few of them.
-/

/-! ### Spaced times -/

/-- Times that are `d` apart take the time of so many intervals. -/
theorem List.IsChain.length_mul_le {d last : ℤ} {t : ℤ} {ts : List ℤ}
    (h : (t :: ts).IsChain fun t t' => t + d ≤ t') (hlast : ∀ t' ∈ t :: ts, t' ≤ last) :
    t + ts.length * d ≤ last := by
  induction ts generalizing t with
  | nil => simpa using hlast t List.mem_cons_self
  | cons t' ts ih =>
    obtain ⟨hnext, hrest⟩ := List.isChain_cons_cons.mp h
    have hle := ih hrest fun u hu => hlast u (List.mem_cons_of_mem _ hu)
    rw [List.length_cons, Nat.cast_add, Nat.cast_one, add_mul, one_mul]
    linarith

namespace RobotBrain

/-! ### The server with a clock -/

/-- The server with the time, the `interval_ms` of the request of each session and the deadline of
its alarm. -/
structure TimedServer where
  server : Server
  clock : ℤ
  intervalMs : ℕ → ℤ
  deadline : ℕ → ℤ

/-- An event of the server, the time in milliseconds at which it is handled, and the `interval_ms`
of the request, for an event with a `StatusRequest`. -/
structure TimedEvent where
  event : ServerEvent
  now : ℤ
  intervalMs : ℤ

/-- The session to which an event of this type is delivered with `ok`. -/
def ServerEvent.delivers (type : EventType) : ServerEvent → Option ℕ
  | .next tag ok _ => if ok = true ∧ tag.type = type then some tag.session else none
  | .shutdown => none

/-- `interval_ms` of `ScheduleNextWrite`. -/
def writeInterval (intervalMs : ℤ) : ℤ :=
  if 0 < intervalMs then intervalMs else 200

namespace TimedServer

/-- The server at the time `now`, before any request. -/
def initial (now : ℤ) : TimedServer where
  server := Server.initial
  clock := now
  intervalMs _ := 0
  deadline _ := now

/-- One step. A delivered `STATUS_READ` brings the request, and `ScheduleNextWrite` sets the
deadline. -/
def step (s : TimedServer) (e : TimedEvent) : Option (TimedServer × List (ℤ × ServerOutput)) :=
  (s.server.step e.event).map fun r =>
    ({ server := r.1
       clock := e.now
       intervalMs := fun id =>
        if e.event.delivers .statusRead = some id then e.intervalMs else s.intervalMs id
       deadline := fun id =>
        if .alarmSet id ∈ r.2 then e.now + writeInterval (s.intervalMs id) else s.deadline id },
      r.2.map fun o => (e.now, o))

/-- The clock does not go back, and an alarm that comes with `ok` has expired. -/
def Timely (s : TimedServer) (e : TimedEvent) : Prop :=
  s.clock ≤ e.now ∧ ∀ id ∈ e.event.delivers .statusAlarm, s.deadline id ≤ e.now

instance (s : TimedServer) (e : TimedEvent) : Decidable (s.Timely e) :=
  inferInstanceAs (Decidable (_ ∧ _))

end TimedServer

/-- The server with a clock as a machine. -/
def timedServer (now : ℤ) : Machine TimedServer TimedEvent (ℤ × ServerOutput) where
  init := TimedServer.initial now
  step s e := s.step e

/-- The times at which a session has written a status message. -/
def writeTimes (id : ℕ) (tr : List (ℤ × ServerOutput)) : List ℤ :=
  (tr.filter fun x => x.2 = .written id).map Prod.fst

theorem writeTimes_append (id : ℕ) (tr out : List (ℤ × ServerOutput)) :
    writeTimes id (tr ++ out) = writeTimes id tr ++ writeTimes id out := by
  rw [writeTimes, List.filter_append, List.map_append]
  rfl

theorem writeTimes_of_notMem {id : ℕ} {now : ℤ} {out : List ServerOutput}
    (h : .written id ∉ out) : writeTimes id (out.map fun o => (now, o)) = [] := by
  rw [writeTimes, List.map_eq_nil_iff, List.filter_eq_nil_iff]
  intro x hx hwritten
  obtain ⟨o, ho, rfl⟩ := List.mem_map.mp hx
  exact h (of_decide_eq_true hwritten ▸ ho)

/-! ### What an event does to a session -/

namespace Server

variable {s : Server} {tag : Tag} {request : Task} {session : Session}
  {r : Server × List ServerOutput} {id : ℕ}

/-- Handling an event touches no other session, and the one that it may create only listens. -/
theorem Handled.other (h : Handled tag true request s session r) (hne : id ≠ tag.session) :
    (⟨id, .statusRead⟩ ∈ r.1.tags → ⟨id, .statusRead⟩ ∈ s.tags ∨ s.sessions.length ≤ id) ∧
      (⟨id, .statusAlarm⟩ ∈ r.1.tags → ⟨id, .statusAlarm⟩ ∈ s.tags) ∧
      s.sessions.length ≤ r.1.sessions.length ∧ .written id ∉ r.2 ∧ .alarmSet id ∉ r.2 := by
  cases h <;> simp [Server.register, Server.create, release, SessionKind.listens, hne]
  case opened => exact fun h => h.imp_right fun hid => hid.ge
  all_goals exact Or.inl

/-- What handling an event does to its own session, which had no other tag. -/
inductive Own (id : ℕ) (type : EventType) (s' : Server) : List ServerOutput → Prop
  | idle {out : List ServerOutput} (halarm : (⟨id, .statusAlarm⟩ : Tag) ∉ s'.tags)
      (hout : .written id ∉ out) : Own id type s' out
  | written (halarm : (⟨id, .statusAlarm⟩ : Tag) ∉ s'.tags)
      (htype : type = .statusRead ∨ type = .statusAlarm) : Own id type s' [.written id]
  | alarmSet (htype : type = .statusWrite) : Own id type s' [.alarmSet id]

theorem Handled.own (h : Handled tag true request s session r)
    (hnone : ∀ type, (⟨tag.session, type⟩ : Tag) ∉ s.tags)
    (hlt : tag.session < s.sessions.length) :
    (⟨tag.session, .statusRead⟩ : Tag) ∉ r.1.tags ∧ s.sessions.length ≤ r.1.sessions.length ∧
      Own tag.session tag.type r.1 r.2 := by
  have hne := hlt.ne
  cases h with
  | released => exact ⟨hnone _, by simp [release], .idle (hnone _) (by simp)⟩
  | connected =>
    refine ⟨?_, ?_, .idle ?_ ?_⟩ <;>
      simp [Server.register, Server.create, SessionKind.listens, hnone]
  | opened _ _ htype =>
    refine ⟨?_, ?_, .written ?_ (.inl htype)⟩ <;>
      simp [Server.register, Server.create, SessionKind.listens, hnone, hne]
  | wrote _ htype =>
    refine ⟨?_, le_rfl, .alarmSet htype⟩
    simp [Server.register, hnone]
  | rang _ htype =>
    refine ⟨?_, le_rfl, .written ?_ (.inr htype)⟩ <;> simp [Server.register, hnone]
  | silent => exact ⟨hnone _, le_rfl, .idle (hnone _) (by simp)⟩

/-- An event that comes without `ok` releases its session. -/
theorem handleEvent_false (h : s.handleEvent tag false request = some r) :
    r = (s.release tag.session, []) := by
  obtain ⟨session, -, rfl⟩ := Option.map_eq_some_iff.mp h
  cases session.kind <;> rfl

end Server

/-! ### The invariant -/

namespace TimedServer

variable {s s' : TimedServer} {tr : List (ℤ × ServerOutput)} {id : ℕ}

/-- The past writes of a session: there are none before its request, an alarm that is set lies an
interval after all of them, and they are spaced. -/
structure RateAt (id : ℕ) (s : TimedServer) (tr : List (ℤ × ServerOutput)) : Prop where
  unopened : (⟨id, .statusRead⟩ : Tag) ∈ s.server.tags ∨ s.server.sessions.length ≤ id →
    writeTimes id tr = []
  past : ∀ t ∈ writeTimes id tr, t ≤ s.clock
  alarm : (⟨id, .statusAlarm⟩ : Tag) ∈ s.server.tags → ∀ t ∈ writeTimes id tr,
    t + writeInterval (s.intervalMs id) ≤ s.deadline id
  spaced : (writeTimes id tr).IsChain fun t t' => t + writeInterval (s.intervalMs id) ≤ t'

/-- A step in which the session does not write. -/
theorem RateAt.of_not_written (hI : RateAt id s tr) {now : ℤ} {out : List ServerOutput}
    (hout : .written id ∉ out) (hclock : s.clock ≤ s'.clock)
    (hunopened : (⟨id, .statusRead⟩ : Tag) ∈ s'.server.tags ∨ s'.server.sessions.length ≤ id →
      (⟨id, .statusRead⟩ : Tag) ∈ s.server.tags ∨ s.server.sessions.length ≤ id)
    (hinterval : writeTimes id tr = [] ∨ s'.intervalMs id = s.intervalMs id)
    (halarm : (⟨id, .statusAlarm⟩ : Tag) ∈ s'.server.tags →
      (⟨id, .statusAlarm⟩ : Tag) ∈ s.server.tags ∧ s'.deadline id = s.deadline id ∨
        s.clock + writeInterval (s'.intervalMs id) ≤ s'.deadline id) :
    RateAt id s' (tr ++ out.map fun o => (now, o)) := by
  have hsame : writeTimes id (tr ++ out.map fun o => (now, o)) = writeTimes id tr := by
    rw [writeTimes_append, writeTimes_of_notMem hout, List.append_nil]
  rw [← hsame] at hinterval
  have hpast := hsame ▸ hI.past
  refine ⟨fun h => hsame ▸ hI.unopened (hunopened h), fun t ht => (hpast t ht).trans hclock,
    fun h t ht => ?_, ?_⟩
  · rcases hinterval with hnone | hinterval
    · exact absurd (hnone ▸ ht) List.not_mem_nil
    · rcases halarm h with ⟨hset, hdeadline⟩ | hdeadline
      · rw [hinterval, hdeadline]
        exact hI.alarm hset t (hsame ▸ ht)
      · exact (add_le_add_left (hpast t ht) _).trans hdeadline
  · rcases hinterval with hnone | hinterval
    · rw [hnone]
      exact .nil
    · rw [hsame, hinterval]
      exact hI.spaced

/-- A step in which the session writes. -/
theorem RateAt.of_written (hI : RateAt id s tr) {now : ℤ} (hclock : s.clock ≤ now)
    (hnow : s'.clock = now) (hlt : id < s'.server.sessions.length)
    (hread : (⟨id, .statusRead⟩ : Tag) ∉ s'.server.tags)
    (halarm : (⟨id, .statusAlarm⟩ : Tag) ∉ s'.server.tags)
    (hlate : writeTimes id tr = [] ∨ s'.intervalMs id = s.intervalMs id ∧
      ∀ t ∈ writeTimes id tr, t + writeInterval (s.intervalMs id) ≤ now) :
    RateAt id s' (tr ++ [(now, .written id)]) := by
  have hnext : writeTimes id (tr ++ [(now, .written id)]) = writeTimes id tr ++ [now] := by
    rw [writeTimes_append]
    simp [writeTimes]
  refine ⟨fun h => ?_, fun t ht => ?_, fun h => absurd h halarm, ?_⟩
  · rcases h with h | h
    · exact absurd h hread
    · exact absurd hlt h.not_gt
  · rw [hnext, List.mem_append, List.mem_singleton] at ht
    rcases ht with ht | rfl
    · exact (hI.past t ht).trans (hclock.trans hnow.ge)
    · exact hnow.ge
  · rw [hnext]
    rcases hlate with hnone | ⟨hinterval, hlate⟩
    · rw [hnone]
      exact List.isChain_singleton _
    · rw [hinterval]
      refine hI.spaced.append (List.isChain_singleton _) fun t ht t' ht' => ?_
      obtain rfl := Option.some.inj ht'
      exact hlate t (List.mem_of_getLast? ht)

/-- A tag that is delivered with `ok`. -/
theorem RateAt.next {tr' : List ServerOutput} (hserver : s.server.SessionInv tr')
    (hI : RateAt id s tr) {tag : Tag} {request : Task} {now intervalMs : ℤ}
    (hok : s.Timely ⟨.next tag true request, now, intervalMs⟩) (htag : tag ∈ s.server.tags)
    {r : Server × List ServerOutput} {session : Session}
    (hr : Server.Handled tag true request (s.server.deliver tag) session r)
    (hserver' : s'.server = r.1) (hclock : s'.clock = now)
    (hinterval : tag.type ≠ .statusRead ∨ id ≠ tag.session → s'.intervalMs id = s.intervalMs id)
    (hdeadline : s'.deadline id =
      if .alarmSet id ∈ r.2 then now + writeInterval (s.intervalMs id) else s.deadline id) :
    RateAt id s' (tr ++ r.2.map fun o => (now, o)) := by
  have hnow : s.clock ≤ s'.clock := hok.1.trans hclock.ge
  by_cases hid : id = tag.session
  · subst hid
    have hnodup := (hserver.tracked.deliver htag).nodup
    have hnone (type : EventType) : (⟨tag.session, type⟩ : Tag) ∉ (s.server.deliver tag).tags :=
      fun hmem => (List.nodup_cons.mp hnodup).1 (List.mem_map.mpr ⟨_, hmem, rfl⟩)
    have hlt : tag.session < s.server.sessions.length := by
      obtain ⟨session, hsession, -⟩ := hserver.typed.awaits tag htag
      exact (List.getElem?_eq_some_iff.mp hsession).1
    have hmem {type : EventType} (htype : tag.type = type) :
        (⟨tag.session, type⟩ : Tag) ∈ s.server.tags := htype ▸ htag
    obtain ⟨hread, hlen, hown⟩ := hr.own hnone hlt
    obtain ⟨server, out⟩ := r
    have hlt' : tag.session < s'.server.sessions.length := hserver' ▸ hlt.trans_le hlen
    rw [← hserver'] at hread hown
    have hunopened (h : (⟨tag.session, .statusRead⟩ : Tag) ∈ s'.server.tags ∨
        s'.server.sessions.length ≤ tag.session) : False :=
      h.elim hread hlt'.not_ge
    cases hown with
    | idle halarm hout =>
      refine hI.of_not_written hout hnow (fun h => (hunopened h).elim) ?_ fun h =>
        absurd h halarm
      by_cases htype : tag.type = .statusRead
      · exact .inl (hI.unopened (.inl (hmem htype)))
      · exact .inr (hinterval (.inl htype))
    | written halarm htype =>
      refine hI.of_written hok.1 hclock hlt' hread halarm ?_
      rcases htype with htype | htype
      · exact .inl (hI.unopened (.inl (hmem htype)))
      · have hdue : s.deadline tag.session ≤ now :=
          hok.2 tag.session (by simp [ServerEvent.delivers, htype])
        exact .inr ⟨hinterval (.inl (by rw [htype]; decide)), fun t ht =>
          (hI.alarm (hmem htype) t ht).trans hdue⟩
    | alarmSet htype =>
      have hkeep := hinterval (.inl (by rw [htype]; decide))
      refine hI.of_not_written (by simp) hnow (fun h => (hunopened h).elim) (.inr hkeep) fun _ =>
        .inr ?_
      rw [hkeep, hdeadline, if_pos (List.mem_singleton_self _)]
      exact add_le_add_left hok.1 _
  · obtain ⟨hread, halarm, hlen, hwritten, hset⟩ := hr.other hid
    have hkeep := hinterval (.inr hid)
    rw [if_neg hset] at hdeadline
    rw [← hserver'] at hread halarm hlen
    refine hI.of_not_written hwritten hnow (fun h => ?_) (.inr hkeep) fun h =>
      .inl ⟨List.mem_of_mem_erase (halarm h), hdeadline⟩
    rcases h with h | h
    · exact (hread h).imp_left List.mem_of_mem_erase
    · exact .inr (hlen.trans h)

theorem RateAt.step {tr' : List ServerOutput} (hserver : s.server.SessionInv tr')
    (hI : RateAt id s tr) {e : TimedEvent} (hok : s.Timely e) {out : List (ℤ × ServerOutput)}
    (hs : s.step e = some (s', out)) : RateAt id s' (tr ++ out) := by
  obtain ⟨event, now, intervalMs⟩ := e
  obtain ⟨r, hr, heq⟩ := Option.map_eq_some_iff.mp hs
  cases heq
  cases event with
  | shutdown =>
    cases hr
    exact hI.of_not_written List.not_mem_nil hok.1 (fun h => h) (.inr rfl) fun h => .inl ⟨h, rfl⟩
  | next tag ok request =>
    simp only [Server.step] at hr
    split_ifs at hr with hguard
    cases ok with
    | false =>
      obtain rfl := Server.handleEvent_false hr
      refine hI.of_not_written List.not_mem_nil hok.1 (fun h => ?_) (.inr rfl) fun h =>
        .inl ⟨List.mem_of_mem_erase h, rfl⟩
      exact h.imp List.mem_of_mem_erase (List.length_modify _ _ _).ge.trans
    | true =>
      obtain ⟨session, -, hhandled⟩ := Server.handled hr
      refine hI.next hserver hok hguard.1 hhandled rfl rfl (fun h => if_neg ?_) rfl
      simp only [ServerEvent.delivers, true_and]
      split_ifs with htype
      · exact fun hid => (h.resolve_left (not_not.mpr htype)) (Option.some.inj hid).symm
      · exact fun hid => (by cases hid)

end TimedServer

/-- In every run in which the clock does not go back and no alarm expires early, the writes of each
stream are the interval of its request apart, so that at most one plus the time since the first,
divided by the interval, have been made. -/
theorem status_rate {now : ℤ} {es : List TimedEvent} {s : TimedServer}
    {tr : List (ℤ × ServerOutput)}
    (h : (timedServer now).Reaches (fun s _ e => s.Timely e) es s tr) (id : ℕ) :
    (writeTimes id tr).IsChain (fun t t' => t + writeInterval (s.intervalMs id) ≤ t') ∧
      ∀ first later, writeTimes id tr = first :: later →
        first + later.length * writeInterval (s.intervalMs id) ≤ s.clock := by
  have hI : (∃ es tr', server.Run es s.server tr') ∧ ∀ id, s.RateAt id tr := by
    refine h.invariant (fun s tr => (∃ es tr', server.Run es s.server tr') ∧
      ∀ id, s.RateAt id tr) ⟨⟨[], [], .init⟩, fun id => ?_⟩ ?_
    · exact ⟨fun _ => rfl, fun _ ht => absurd ht List.not_mem_nil,
        fun _ _ ht => absurd ht List.not_mem_nil, .nil⟩
    · rintro es s tr e s' out - ⟨⟨es', tr', hrun⟩, hI⟩ hok hs
      obtain ⟨r, hr, heq⟩ := Option.map_eq_some_iff.mp hs
      refine ⟨?_, fun id => (hI id).step (Server.sessionInv_of_reaches hrun) hok hs⟩
      cases heq
      exact ⟨_, _, hrun.step trivial hr⟩
  obtain ⟨-, hpast, -, hspaced⟩ := hI.2 id
  refine ⟨hspaced, fun first later hwrites => ?_⟩
  rw [hwrites] at hspaced hpast
  exact hspaced.length_mul_le hpast

/-- A request for a status every half second, and the session that it opens. -/
def streamEvents : List TimedEvent :=
  [⟨.next ⟨1, .statusRead⟩ true stopTask, 1000, 500⟩,
    ⟨.next ⟨1, .statusWrite⟩ true stopTask, 1003, 0⟩,
    ⟨.next ⟨1, .statusAlarm⟩ true stopTask, 1503, 0⟩,
    ⟨.next ⟨1, .statusWrite⟩ true stopTask, 1510, 0⟩,
    ⟨.next ⟨1, .statusAlarm⟩ true stopTask, 2020, 0⟩]

/-- Three messages in a second. -/
theorem status_rate_stream :
    ∃ s tr, (timedServer 900).Reaches (fun s _ e => s.Timely e) streamEvents s tr ∧
      writeTimes 1 tr = [1000, 1503, 2020] ∧
      (writeTimes 1 tr).IsChain (fun t t' => t + writeInterval (s.intervalMs 1) ≤ t') := by
  have hrun : ∃ s tr, (timedServer 900).Reaches (fun s _ e => s.Timely e) streamEvents s tr ∧
      writeTimes 1 tr = [1000, 1503, 2020] :=
    Machine.exists_reaches_of_decide _ (by decide +kernel)
  obtain ⟨s, tr, hrun, hwrites⟩ := hrun
  exact ⟨s, tr, hrun, hwrites, (status_rate hrun 1).1⟩

end RobotBrain
