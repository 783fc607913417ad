import RobotBrain.Brain.Types
import RobotBrain.Library.Machine

/-!
# The sessions of the server

A `TaskSession` serves one `AssignTask` request and a `StatusSession` one status stream. A session
keeps itself alive through `self_` and is driven by the events of the completion queue: each
operation that it starts registers a tag, and the queue delivers every registered tag once, in any
order. `HandleRpcs` handles one event at a time.

gRPC is not part of the repository. The machine below assumes of it what the sessions rely on: a
registered tag is delivered exactly once, with any value of `ok`, except that the tag of a listener
comes with `ok = false` only after the server has been shut down. Sessions are named by the order in
which they were created; a session that has released itself is kept in the list, not alive.

## Main definitions

* `EventType`, `Tag`, `Session`, `Server`.
* `Server.handleEvent` — `TaskSession::HandleEvent` and `StatusSession::HandleEvent`.
* `server` — the machine.

## Main results

* `Server.handled` — what handling an event can do.
-/

namespace RobotBrain

/-- `EventType`. -/
inductive EventType
  | connect
  | read
  | write
  | finish
  | statusRead
  | statusWrite
  | statusAlarm
  | statusFinish
  deriving DecidableEq

/-- A `SessionEventTag`: the session whose handler it calls, and the type of the event. -/
structure Tag where
  session : ℕ
  type : EventType
  deriving DecidableEq

/-- The class of a session. -/
inductive SessionKind
  | task
  | status
  deriving DecidableEq

/-- A session; `live` says whether `self_` is set, and `finished` is `finished_` of a
`StatusSession`. -/
structure Session where
  kind : SessionKind
  live : Bool := true
  finished : Bool := false

/-- The type of the event that tells a session of a new client. -/
def SessionKind.listens : SessionKind → EventType
  | .task => .connect
  | .status => .statusRead

/-- The sessions, the registered tags that have not been delivered, and whether the server has been
shut down. -/
structure Server where
  sessions : List Session
  tags : List Tag
  isShutdown : Bool

/-- The inputs of the server. -/
inductive ServerEvent
  /-- `Next` delivers a tag; `request` is the message of the client, for an event with one. -/
  | next (tag : Tag) (ok : Bool) (request : Task)
  /-- The server is shut down. -/
  | shutdown

/-- What a session does. -/
inductive ServerOutput
  /-- An `AssignTask` request has arrived. -/
  | received (session : ℕ) (request : Task)
  /-- `ProcessRobotTask` is called. -/
  | processed (session : ℕ) (request : Task)
  /-- `responder_.Finish` is called. -/
  | responded (session : ℕ)
  /-- A status message is built and `writer_.Write` is called. -/
  | written (session : ℕ)
  /-- `alarm_.Set` is called. -/
  | alarmSet (session : ℕ)
  deriving DecidableEq

namespace Server

/-- `MakeTag` for an operation that a session starts. -/
def register (id : ℕ) (type : EventType) (s : Server) : Server :=
  { s with tags := s.tags ++ [⟨id, type⟩] }

/-- `TaskSession::Create` and `StatusSession::Create`: a session that waits for a client. -/
def create (kind : SessionKind) (s : Server) : Server :=
  { s with
    sessions := s.sessions ++ [{ kind := kind }]
    tags := s.tags ++ [⟨s.sessions.length, kind.listens⟩] }

/-- `self_.reset()`. -/
def release (id : ℕ) (s : Server) : Server :=
  { s with sessions := s.sessions.modify id fun session => { session with live := false } }

/-- `TaskSession::HandleEvent`. -/
def handleTask (id : ℕ) (type : EventType) (ok : Bool) (request : Task) (s : Server) :
    Server × List ServerOutput :=
  if ok then
    match type with
    | .connect =>
      ((s.create .task).register id .finish,
        [.received id request, .processed id request, .responded id])
    | .finish => (s.release id, [])
    | _ => (s.release id, [])
  else (s.release id, [])

/-- `StatusSession::HandleEvent`. -/
def handleStatus (id : ℕ) (finished : Bool) (type : EventType) (ok : Bool) (s : Server) :
    Server × List ServerOutput :=
  if ok then
    match type with
    | .statusRead => ((s.create .status).register id .statusWrite, [.written id])
    | .statusWrite => (s.register id .statusAlarm, [.alarmSet id])
    | .statusAlarm =>
      if finished then (s, []) else (s.register id .statusWrite, [.written id])
    | .statusFinish => (s.release id, [])
    | _ => (s.release id, [])
  else (s.release id, [])

/-- `tag->callback(ok)`. -/
def handleEvent (tag : Tag) (ok : Bool) (request : Task) (s : Server) :
    Option (Server × List ServerOutput) :=
  s.sessions[tag.session]?.map fun session =>
    match session.kind with
    | .task => s.handleTask tag.session tag.type ok request
    | .status => s.handleStatus tag.session session.finished tag.type ok

/-- The tag is delivered. -/
def deliver (tag : Tag) (s : Server) : Server :=
  { s with tags := s.tags.erase tag }

/-- One step: the queue delivers a tag, or the server is shut down. -/
def step (s : Server) : ServerEvent → Option (Server × List ServerOutput)
  | .next tag ok request =>
    if tag ∈ s.tags ∧ (ok = true ∨ s.isShutdown = true ∨
        tag.type ≠ .connect ∧ tag.type ≠ .statusRead) then
      (s.deliver tag).handleEvent tag ok request
    else none
  | .shutdown => some ({ s with isShutdown := true }, [])

/-- The server when `HandleRpcs` has started the two listeners. -/
def initial : Server :=
  let s : Server := { sessions := [], tags := [], isShutdown := false }
  (s.create .task).create .status

/-! ### What handling an event can do -/

/-- The results of handling an event for a session. -/
inductive Handled (tag : Tag) (ok : Bool) (request : Task) (s : Server) (session : Session) :
    Server × List ServerOutput → Prop
  | released (h : ok = true → tag.type ≠ session.kind.listens) :
      Handled tag ok request s session (s.release tag.session, [])
  | connected (hok : ok = true) (hkind : session.kind = .task) (htype : tag.type = .connect) :
      Handled tag ok request s session ((s.create .task).register tag.session .finish,
        [.received tag.session request, .processed tag.session request, .responded tag.session])
  | opened (hok : ok = true) (hkind : session.kind = .status) (htype : tag.type = .statusRead) :
      Handled tag ok request s session
        ((s.create .status).register tag.session .statusWrite, [.written tag.session])
  | wrote (hkind : session.kind = .status) (htype : tag.type = .statusWrite) :
      Handled tag ok request s session
        (s.register tag.session .statusAlarm, [.alarmSet tag.session])
  | rang (hkind : session.kind = .status) (htype : tag.type = .statusAlarm)
      (hfinished : session.finished = false) :
      Handled tag ok request s session
        (s.register tag.session .statusWrite, [.written tag.session])
  | silent (hfinished : session.finished = true) : Handled tag ok request s session (s, [])

theorem handled {tag : Tag} {ok : Bool} {request : Task} {s : Server}
    {r : Server × List ServerOutput} (h : s.handleEvent tag ok request = some r) :
    ∃ session, s.sessions[tag.session]? = some session ∧ Handled tag ok request s session r := by
  obtain ⟨session, hsession, rfl⟩ := Option.map_eq_some_iff.mp h
  refine ⟨session, hsession, ?_⟩
  obtain ⟨id, type⟩ := tag
  cases ok with
  | false =>
    cases hkind : session.kind <;> exact .released nofun
  | true =>
    cases hkind : session.kind with
    | task =>
      cases type with
      | connect => exact .connected rfl hkind rfl
      | _ => exact .released fun _ => by rw [hkind]; exact nofun
    | status =>
      cases type with
      | statusRead => exact .opened rfl hkind rfl
      | statusWrite => exact .wrote hkind rfl
      | statusAlarm =>
        cases hfinished : session.finished with
        | true =>
          simp only [handleStatus, if_true]
          exact .silent hfinished
        | false =>
          simp only [handleStatus, if_true, Bool.false_eq_true, if_false]
          exact .rang hkind rfl hfinished
      | _ => exact .released fun _ => by rw [hkind]; exact nofun

end Server

/-- The server as a machine. -/
def server : Machine Server ServerEvent ServerOutput where
  init := Server.initial
  step s e := s.step e

end RobotBrain
