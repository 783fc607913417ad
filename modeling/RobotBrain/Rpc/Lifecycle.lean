import RobotBrain.Rpc.Session
import Mathlib.Data.List.Count
import Mathlib.Data.List.Nodup

/-!
# The life of a session

While no event is being handled, the sessions of the outstanding tags are the live sessions, each
once. Handling an event takes one session out of this correspondence: its tag has been delivered and
it is still alive. Whatever its handler does, it ends by registering one tag for the session or by
releasing it, which puts the correspondence back; a listener that gets a client creates the next
listener before that.

## Main definitions

* `Server.Tracked` — the correspondence, with the session whose event is being handled.
* `Server.SessionInv` — the invariant.
* `assigned`, `received`, `processed`, `responded` — the requests in the events and in a trace.

## Main results

* `Server.sessionInv_of_reaches` — the invariant holds for every order of events.
* `session_lifecycle` — listeners, outstanding tags and requests.
-/

namespace RobotBrain

/-- The `AssignTask` requests that have arrived, with their sessions. -/
def received (tr : List ServerOutput) : List (ℕ × Task) :=
  tr.filterMap fun
    | .received id request => some (id, request)
    | _ => none

/-- The `AssignTask` requests that the completion queue delivers: the `CONNECT` events with
`ok = true`. -/
def assigned (es : List ServerEvent) : List (ℕ × Task) :=
  es.filterMap fun
    | .next tag true request =>
      if tag.type = .connect then some (tag.session, request) else none
    | .next _ false _ | .shutdown => none

/-- The calls of `ProcessRobotTask`. -/
def processed (tr : List ServerOutput) : List (ℕ × Task) :=
  tr.filterMap fun
    | .processed id request => some (id, request)
    | _ => none

/-- The sessions that have called `Finish`. -/
def responded (tr : List ServerOutput) : List ℕ :=
  tr.filterMap fun
    | .responded id => some id
    | _ => none

/-- The types of the events that a session of a class registers. -/
def SessionKind.awaits : SessionKind → List EventType
  | .task => [.connect, .finish]
  | .status => [.statusRead, .statusWrite, .statusAlarm]

theorem SessionKind.listens_ne {type : EventType} (hconnect : type ≠ .connect)
    (hread : type ≠ .statusRead) (kind : SessionKind) : type ≠ kind.listens := by
  cases kind
  · exact hconnect
  · exact hread

theorem received_append (tr out : List ServerOutput) :
    received (tr ++ out) = received tr ++ received out :=
  List.filterMap_append

theorem assigned_concat (es : List ServerEvent) (e : ServerEvent) :
    assigned (es ++ [e]) = assigned es ++ assigned [e] :=
  List.filterMap_append

theorem processed_append (tr out : List ServerOutput) :
    processed (tr ++ out) = processed tr ++ processed out :=
  List.filterMap_append

theorem responded_append (tr out : List ServerOutput) :
    responded (tr ++ out) = responded tr ++ responded out :=
  List.filterMap_append

namespace Server

variable {s : Server} {tr : List ServerOutput}

/-- The session has not released itself. -/
def Live (s : Server) (id : ℕ) : Prop :=
  ∃ session, s.sessions[id]? = some session ∧ session.live = true

theorem Live.lt {id : ℕ} (h : s.Live id) : id < s.sessions.length := by
  obtain ⟨session, hsession, -⟩ := h
  exact (List.getElem?_eq_some_iff.mp hsession).1

/-- The sessions of the outstanding tags and the session whose event is being handled are the live
sessions, each once. -/
structure Tracked (s : Server) (handling : List ℕ) : Prop where
  nodup : (handling ++ s.tags.map Tag.session).Nodup
  live : ∀ id, s.Live id ↔ id ∈ handling ++ s.tags.map Tag.session

theorem Tracked.deliver (h : s.Tracked []) {tag : Tag} (htag : tag ∈ s.tags) :
    (s.deliver tag).Tracked [tag.session] := by
  have hperm : (s.tags.map Tag.session).Perm
      ([tag.session] ++ (s.tags.erase tag).map Tag.session) :=
    (List.perm_cons_erase htag).map Tag.session
  exact ⟨hperm.nodup_iff.mp h.nodup, fun id => (h.live id).trans hperm.mem_iff⟩

theorem Tracked.register {id : ℕ} (h : s.Tracked [id]) (type : EventType) :
    (s.register id type).Tracked [] := by
  have hperm : ([id] ++ s.tags.map Tag.session).Perm
      ([] ++ (s.tags ++ [(⟨id, type⟩ : Tag)]).map Tag.session) := by
    rw [List.map_append, List.nil_append]
    exact List.perm_append_comm
  exact ⟨hperm.nodup_iff.mp h.nodup, fun i => (h.live i).trans hperm.mem_iff⟩

theorem getElem?_release (id i : ℕ) : (s.release id).sessions[i]? =
    s.sessions[i]?.map fun session =>
      if id = i then { session with live := false } else session := by
  simp only [release, List.getElem?_modify, Option.map_eq_map]

theorem live_release {id i : ℕ} : (s.release id).Live i ↔ s.Live i ∧ i ≠ id := by
  simp only [Live, getElem?_release]
  by_cases hi : id = i
  · subst hi
    simp
  · have hne : i ≠ id := fun h => hi h.symm
    simp [hi, hne]

theorem Tracked.release {id : ℕ} (h : s.Tracked [id]) : (s.release id).Tracked [] := by
  obtain ⟨hid, hnodup⟩ := List.nodup_cons.mp h.nodup
  refine ⟨hnodup, fun i => ?_⟩
  show _ ↔ i ∈ s.tags.map Tag.session
  have hlive := h.live i
  rw [List.singleton_append, List.mem_cons] at hlive
  rw [live_release, hlive]
  constructor
  · rintro ⟨hi | hi, hne⟩
    · exact absurd hi hne
    · exact hi
  · intro hi
    exact ⟨Or.inr hi, fun heq => hid (heq ▸ hi)⟩

theorem live_create {kind : SessionKind} {id : ℕ} :
    (s.create kind).Live id ↔ s.Live id ∨ id = s.sessions.length := by
  simp only [Live, create]
  rcases lt_trichotomy id s.sessions.length with hlt | heq | hgt
  · simp [List.getElem?_append_left hlt, hlt.ne]
  · subst heq
    simp
  · have hlen : (s.sessions ++ [({ kind := kind } : Session)]).length ≤ id := by
      rw [List.length_append, List.length_singleton]
      omega
    rw [List.getElem?_eq_none hlen, List.getElem?_eq_none hgt.le]
    simp [hgt.ne']

theorem Tracked.create {handling : List ℕ} (h : s.Tracked handling) (kind : SessionKind) :
    (s.create kind).Tracked handling := by
  have hnew : s.sessions.length ∉ handling ++ s.tags.map Tag.session := fun hmem =>
    ((h.live _).mpr hmem).lt.false
  have htags : handling ++ (s.create kind).tags.map Tag.session =
      handling ++ s.tags.map Tag.session ++ [s.sessions.length] := by
    rw [List.append_assoc]
    exact congrArg (handling ++ ·) List.map_append
  refine ⟨?_, fun id => ?_⟩
  · rw [htags, ← List.concat_eq_append]
    exact (List.nodup_concat _ _).mpr ⟨hnew, h.nodup⟩
  · rw [htags, live_create, h.live id, List.mem_append (t := [_]), List.mem_singleton]

/-! ### Listeners -/

/-- The outstanding tags of the listeners of a kind. -/
def listeners (kind : SessionKind) (s : Server) : ℕ :=
  s.tags.countP fun tag => tag.type = kind.listens

theorem listeners_deliver {tag : Tag} (htag : tag ∈ s.tags) (kind : SessionKind) :
    s.listeners kind =
      (s.deliver tag).listeners kind + if tag.type = kind.listens then 1 else 0 := by
  have hperm := (List.perm_cons_erase htag).countP_eq fun tag => decide (tag.type = kind.listens)
  rw [listeners, hperm, List.countP_cons]
  simp only [listeners, Server.deliver, decide_eq_true_eq]

theorem listeners_create (kind kind' : SessionKind) :
    (s.create kind').listeners kind = s.listeners kind + if kind' = kind then 1 else 0 := by
  have hlistens : kind'.listens = kind.listens ↔ kind' = kind := by
    cases kind <;> cases kind' <;> simp [SessionKind.listens]
  rw [listeners, create, List.countP_append, List.countP_singleton]
  simp only [listeners, decide_eq_true_eq, hlistens]

theorem listeners_register {type : EventType} {kind : SessionKind} (h : type ≠ kind.listens)
    (id : ℕ) : (s.register id type).listeners kind = s.listeners kind := by
  rw [listeners, register, List.countP_append, List.countP_singleton]
  simp [listeners, h]

/-! ### Classes -/

/-- Every session has its class, and what it awaits fits the class. -/
structure Typed (s : Server) : Prop where
  awaits : ∀ tag ∈ s.tags, ∃ session, s.sessions[tag.session]? = some session ∧
    tag.type ∈ session.kind.awaits
  unfinished : ∀ session ∈ s.sessions, session.finished = false

theorem Typed.deliver (h : s.Typed) (tag : Tag) : (s.deliver tag).Typed :=
  ⟨fun tag' htag' => h.awaits tag' (List.mem_of_mem_erase htag'), h.unfinished⟩

theorem Typed.release (h : s.Typed) (id : ℕ) : (s.release id).Typed := by
  refine ⟨fun tag htag => ?_, fun session hsession => ?_⟩
  · obtain ⟨session, hsession, htype⟩ := h.awaits tag htag
    rw [getElem?_release, hsession]
    refine ⟨_, rfl, ?_⟩
    split_ifs <;> exact htype
  · obtain ⟨i, hi⟩ := List.mem_iff_getElem?.mp hsession
    rw [getElem?_release] at hi
    obtain ⟨session', hsession', rfl⟩ := Option.map_eq_some_iff.mp hi
    have hfinished := h.unfinished session' (List.mem_iff_getElem?.mpr ⟨i, hsession'⟩)
    split_ifs <;> exact hfinished

theorem Typed.register (h : s.Typed) {id : ℕ} {type : EventType} {session : Session}
    (hsession : s.sessions[id]? = some session) (htype : type ∈ session.kind.awaits) :
    (s.register id type).Typed := by
  refine ⟨fun tag htag => ?_, h.unfinished⟩
  rcases List.mem_append.mp htag with htag | htag
  · exact h.awaits tag htag
  · rw [List.mem_singleton.mp htag]
    exact ⟨session, hsession, htype⟩

/-- Creating a session leaves the others where they are. -/
theorem getElem?_create {id : ℕ} {session : Session} (h : s.sessions[id]? = some session)
    (kind : SessionKind) : (s.create kind).sessions[id]? = some session := by
  rw [create, List.getElem?_append_left (List.getElem?_eq_some_iff.mp h).1]
  exact h

theorem Typed.create (h : s.Typed) (kind : SessionKind) : (s.create kind).Typed := by
  refine ⟨fun tag htag => ?_, fun session hsession => ?_⟩
  · rcases List.mem_append.mp htag with htag | htag
    · obtain ⟨session, hsession, htype⟩ := h.awaits tag htag
      exact ⟨session, getElem?_create hsession kind, htype⟩
    · rw [List.mem_singleton.mp htag]
      refine ⟨{ kind := kind }, by simp [Server.create], ?_⟩
      cases kind <;> simp [SessionKind.listens, SessionKind.awaits]
  · rcases List.mem_append.mp hsession with hsession | hsession
    · exact h.unfinished session hsession
    · rw [List.mem_singleton.mp hsession]

/-! ### The invariant -/

/-- The sessions, the outstanding tags and the requests so far. -/
structure SessionInv (s : Server) (tr : List ServerOutput) : Prop where
  tracked : s.Tracked []
  typed : s.Typed
  listening : s.isShutdown = false → ∀ kind, s.listeners kind = 1
  processed : processed tr = received tr
  responded : responded tr = (received tr).map Prod.fst
  once : ((received tr).map Prod.fst).Nodup
  past : ∀ id ∈ (received tr).map Prod.fst, id < s.sessions.length
  fresh : ∀ tag ∈ s.tags, tag.type = .connect → tag.session ∉ (received tr).map Prod.fst

/-- Outputs without requests keep the record of the requests, if no listener for tasks is added. -/
private theorem SessionInv.of_no_request (hI : s.SessionInv tr) {s' : Server}
    {out : List ServerOutput} (hreceived : received out = [])
    (hprocessed : RobotBrain.processed out = []) (hresponded : RobotBrain.responded out = [])
    (hlen : s.sessions.length ≤ s'.sessions.length)
    (htags : ∀ tag ∈ s'.tags, tag.type = .connect → tag ∈ s.tags)
    (htracked : s'.Tracked []) (htyped : s'.Typed)
    (hlistening : s'.isShutdown = false → ∀ kind, s'.listeners kind = 1) :
    s'.SessionInv (tr ++ out) := by
  have hrec : received (tr ++ out) = received tr := by
    rw [received_append, hreceived, List.append_nil]
  refine ⟨htracked, htyped, hlistening, ?_, ?_, ?_, ?_, ?_⟩
  · rw [hrec, processed_append, hprocessed, List.append_nil]
    exact hI.processed
  · rw [hrec, responded_append, hresponded, List.append_nil]
    exact hI.responded
  · rw [hrec]
    exact hI.once
  · rw [hrec]
    exact fun id hid => (hI.past id hid).trans_le hlen
  · rw [hrec]
    exact fun tag htag htype => hI.fresh tag (htags tag htag htype) htype

/-- A request: the next listener is created, and the session goes on to `Finish`. -/
private theorem SessionInv.connected (hI : s.SessionInv tr) {tag : Tag} (htag : tag ∈ s.tags)
    (htype : tag.type = .connect) (request : Task)
    (htracked : (((s.deliver tag).create .task).register tag.session .finish).Tracked [])
    (htyped : (((s.deliver tag).create .task).register tag.session .finish).Typed)
    (hlistening : s.isShutdown = false →
      ∀ kind, (((s.deliver tag).create .task).register tag.session .finish).listeners kind = 1) :
    (((s.deliver tag).create .task).register tag.session .finish).SessionInv
      (tr ++ [.received tag.session request, .processed tag.session request,
        .responded tag.session]) := by
  have hfresh := hI.fresh tag htag htype
  have hlt : tag.session < s.sessions.length := by
    obtain ⟨session, hsession, -⟩ := hI.typed.awaits tag htag
    exact (List.getElem?_eq_some_iff.mp hsession).1
  have hrec : received (tr ++ [.received tag.session request, .processed tag.session request,
      .responded tag.session]) = received tr ++ [(tag.session, request)] :=
    received_append _ _
  have hmap : (received tr ++ [(tag.session, request)]).map Prod.fst =
      (received tr).map Prod.fst ++ [tag.session] := List.map_append
  refine ⟨htracked, htyped, hlistening, ?_, ?_, ?_, ?_, ?_⟩
  · rw [hrec, processed_append, hI.processed]
    rfl
  · rw [hrec, hmap, responded_append, hI.responded]
    rfl
  · rw [hrec, hmap, ← List.concat_eq_append]
    exact (List.nodup_concat _ _).mpr ⟨hfresh, hI.once⟩
  · rw [hrec, hmap]
    intro id hid
    show id < (s.sessions ++ [_]).length
    rw [List.length_append, List.length_singleton]
    rcases List.mem_append.mp hid with hid | hid
    · have hold := hI.past id hid
      omega
    · rw [List.mem_singleton.mp hid]
      omega
  · rw [hrec, hmap]
    intro tag' htag' htype' hmem
    -- the session of the delivered tag has no other tag, and that of the new listener is new
    rcases List.mem_append.mp htag' with htag' | htag'
    · rcases List.mem_append.mp htag' with htag' | htag'
      · rcases List.mem_append.mp hmem with hmem | hmem
        · exact hI.fresh tag' (List.mem_of_mem_erase htag') htype' hmem
        · have hnodup := (hI.tracked.deliver htag).nodup
          rw [List.singleton_append, List.nodup_cons] at hnodup
          rw [List.mem_singleton] at hmem
          exact hnodup.1 (hmem ▸ List.mem_map_of_mem htag')
      · rw [List.mem_singleton.mp htag'] at hmem
        rcases List.mem_append.mp hmem with hmem | hmem
        · exact (hI.past _ hmem).false
        · exact hlt.ne (List.mem_singleton.mp hmem).symm
    · rw [List.mem_singleton.mp htag'] at htype'
      cases htype'

/-- Handling a delivered event keeps the invariant. -/
theorem SessionInv.handled (hI : s.SessionInv tr) {tag : Tag} (htag : tag ∈ s.tags) {ok : Bool}
    (hok : ok = true ∨ s.isShutdown = true ∨ tag.type ≠ .connect ∧ tag.type ≠ .statusRead)
    {request : Task} {session : Session}
    (hsession : (s.deliver tag).sessions[tag.session]? = some session)
    {r : Server × List ServerOutput}
    (h : Handled tag ok request (s.deliver tag) session r) : r.1.SessionInv (tr ++ r.2) := by
  have htracked := hI.tracked.deliver htag
  have htyped := hI.typed.deliver tag
  have hlisteners (kind : SessionKind) := listeners_deliver htag kind
  have hawaits : tag.type ∈ session.kind.awaits := by
    obtain ⟨session', hsession', htype⟩ := hI.typed.awaits tag htag
    obtain rfl := Option.some.inj (hsession.symm.trans hsession')
    exact htype
  have hkeep {kind : SessionKind} (hne : tag.type ≠ kind.listens) :
      (s.deliver tag).listeners kind = s.listeners kind := by
    rw [hlisteners kind, if_neg hne, Nat.add_zero]
  have hcreate (kind kind' : SessionKind) (htype : tag.type = kind'.listens) :
      ((s.deliver tag).create kind').listeners kind = s.listeners kind := by
    have hiff : tag.type = kind.listens ↔ kind' = kind := by
      rw [htype]
      cases kind <;> cases kind' <;> simp [SessionKind.listens]
    rw [listeners_create, hlisteners kind]
    simp only [hiff]
  have hlen (kind : SessionKind) (type : EventType) : s.sessions.length ≤
      (((s.deliver tag).create kind).register tag.session type).sessions.length := by
    show s.sessions.length ≤ (s.sessions ++ [_]).length
    rw [List.length_append]
    exact Nat.le_add_right _ _
  -- a session that goes on with its stream
  have hcontinue {type : EventType} (hne : ∀ kind : SessionKind, tag.type ≠ kind.listens)
      (hnot : ∀ kind : SessionKind, type ≠ kind.listens) (htype : type ∈ session.kind.awaits)
      {out : List ServerOutput} (hreceived : received out = [])
      (hprocessed : RobotBrain.processed out = []) (hresponded : RobotBrain.responded out = []) :
      ((s.deliver tag).register tag.session type).SessionInv (tr ++ out) := by
    refine hI.of_no_request hreceived hprocessed hresponded le_rfl ?_ (htracked.register type)
      (htyped.register hsession htype) ?_
    · intro tag' htag' htype'
      rcases List.mem_append.mp htag' with htag' | htag'
      · exact List.mem_of_mem_erase htag'
      · rw [List.mem_singleton.mp htag'] at htype'
        exact absurd htype' (hnot .task)
    · intro hup kind
      rw [listeners_register (hnot kind), hkeep (hne kind)]
      exact hI.listening hup kind
  cases h with
  | released h =>
    refine hI.of_no_request rfl rfl rfl (List.length_modify _ _ _).ge
      (fun tag' htag' _ => List.mem_of_mem_erase htag') htracked.release (htyped.release _) ?_
    intro hup kind
    have hne : tag.type ≠ kind.listens := by
      intro htype
      rcases hok with hok | hdown | hlistens
      · have hkind := h hok
        cases hk : session.kind <;> cases kind <;>
          simp [hk, htype, SessionKind.listens, SessionKind.awaits] at hkind hawaits
      · exact absurd hdown (Bool.eq_false_iff.mp hup)
      · cases kind
        · exact hlistens.1 htype
        · exact hlistens.2 htype
    rw [← hI.listening hup kind]
    exact hkeep hne
  | connected _ hkind htype =>
    refine hI.connected htag htype request ((htracked.create .task).register _)
      ((htyped.create .task).register (getElem?_create hsession _) ?_) ?_
    · rw [hkind]
      simp [SessionKind.awaits]
    · intro hup kind
      rw [listeners_register (SessionKind.listens_ne (by decide) (by decide) kind),
        hcreate kind .task htype]
      exact hI.listening hup kind
  | opened _ hkind htype =>
    refine hI.of_no_request rfl rfl rfl (hlen .status .statusWrite) ?_
      ((htracked.create .status).register _)
      ((htyped.create .status).register (getElem?_create hsession _) ?_) ?_
    · intro tag' htag' htype'
      rcases List.mem_append.mp htag' with htag' | htag'
      · rcases List.mem_append.mp htag' with htag' | htag'
        · exact List.mem_of_mem_erase htag'
        · rw [List.mem_singleton.mp htag'] at htype'
          cases htype'
      · rw [List.mem_singleton.mp htag'] at htype'
        cases htype'
    · rw [hkind]
      simp [SessionKind.awaits]
    · intro hup kind
      rw [listeners_register (SessionKind.listens_ne (by decide) (by decide) kind),
        hcreate kind .status htype]
      exact hI.listening hup kind
  | wrote hkind htype =>
    refine hcontinue (fun kind => ?_) (fun kind => ?_) ?_ rfl rfl rfl
    · rw [htype]
      exact SessionKind.listens_ne (by decide) (by decide) kind
    · exact SessionKind.listens_ne (by decide) (by decide) kind
    · rw [hkind]
      simp [SessionKind.awaits]
  | rang hkind htype hfinished =>
    refine hcontinue (fun kind => ?_) (fun kind => ?_) ?_ rfl rfl rfl
    · rw [htype]
      exact SessionKind.listens_ne (by decide) (by decide) kind
    · exact SessionKind.listens_ne (by decide) (by decide) kind
    · rw [hkind]
      simp [SessionKind.awaits]
  | silent hfinished =>
    have hmem : session ∈ s.sessions := List.mem_of_getElem? hsession
    rw [hI.typed.unfinished session hmem] at hfinished
    cases hfinished

theorem sessionInv_of_reaches {ok : Server → List ServerOutput → ServerEvent → Prop}
    {es : List ServerEvent} (h : server.Reaches ok es s tr) : s.SessionInv tr := by
  refine h.invariant (fun s tr => s.SessionInv tr) ?_ ?_
  · have hempty : Tracked { sessions := [], tags := [], isShutdown := false } [] :=
      ⟨List.nodup_nil, fun id => by simp [Live]⟩
    have htyped : Typed { sessions := [], tags := [], isShutdown := false } := ⟨nofun, nofun⟩
    refine ⟨(hempty.create .task).create .status, (htyped.create .task).create .status, ?_, rfl,
      rfl, List.nodup_nil, nofun, fun _ _ _ => nofun⟩
    intro _ kind
    show ((Server.create .task _).create .status).listeners kind = 1
    rw [listeners_create, listeners_create]
    cases kind <;> rfl
  · intro es s tr e s' out _ hI _ hs
    cases e with
    | next tag ok request =>
      simp only [server, step] at hs
      split_ifs at hs with hguard
      obtain ⟨session, hsession, hhandled⟩ := handled hs
      exact hI.handled hguard.1 hguard.2 hsession hhandled
    | shutdown =>
      cases hs
      rw [List.append_nil]
      exact ⟨⟨hI.tracked.nodup, hI.tracked.live⟩, ⟨hI.typed.awaits, hI.typed.unfinished⟩, nofun,
        hI.processed, hI.responded, hI.once, hI.past, hI.fresh⟩

/-- Handling an event takes in its request if it has one: a `CONNECT` event is one of a
`TaskSession`. -/
theorem Handled.received_eq {tag : Tag} {ok : Bool} {request : Task} {session : Session}
    {r : Server × List ServerOutput} (h : Handled tag ok request s session r)
    (hawaits : tag.type ∈ session.kind.awaits) (hunfinished : session.finished = false) :
    received r.2 = assigned [.next tag ok request] := by
  have hother (hne : tag.type ≠ .connect) : assigned [.next tag ok request] = [] := by
    cases ok <;> simp [assigned, hne]
  cases h with
  | released h =>
    cases ok with
    | false => rfl
    | true =>
      refine (hother fun htype => h rfl ?_).symm
      cases hkind : session.kind with
      | task => exact htype
      | status => simp [hkind, htype, SessionKind.awaits] at hawaits
  | connected hok _ htype =>
    subst hok
    simp [assigned, htype, received]
  | opened _ _ htype | wrote _ htype | rang _ htype =>
    rw [hother (by rw [htype]; decide)]
    rfl
  | silent hfinished => cases hfinished.symm.trans hunfinished

/-- The requests that arrive at the sessions are those that the queue delivers. -/
theorem received_of_run {es : List ServerEvent} (h : server.Run es s tr) :
    received tr = assigned es := by
  induction h with
  | init => rfl
  | @step es s tr e s' out h _ hs ih =>
    have hI := sessionInv_of_reaches h
    rw [received_append, assigned_concat, ih]
    cases e with
    | next tag ok request =>
      simp only [server, step] at hs
      split_ifs at hs with hguard
      obtain ⟨session, hsession, hhandled⟩ := handled hs
      obtain ⟨session', hsession', hawaits⟩ := hI.typed.awaits tag hguard.1
      obtain rfl := Option.some.inj (hsession.symm.trans hsession')
      rw [hhandled.received_eq hawaits
        (hI.typed.unfinished session (List.mem_of_getElem? hsession))]
    | shutdown =>
      cases hs
      rfl

/-- While the server is up, one tag of a listener of each class is outstanding, and its session is
live. -/
theorem SessionInv.existsUnique_listener (hI : s.SessionInv tr) (hup : s.isShutdown = false)
    (kind : SessionKind) : ∃! tag, tag ∈ s.tags ∧ tag.type = kind.listens := by
  have hlen : (s.tags.filter fun tag => decide (tag.type = kind.listens)).length = 1 := by
    rw [← List.countP_eq_length_filter]
    exact hI.listening hup kind
  obtain ⟨tag, htag⟩ := List.length_eq_one_iff.mp hlen
  have hmem (tag' : Tag) : tag' ∈ s.tags ∧ tag'.type = kind.listens ↔ tag' = tag := by
    have hsingle : tag' ∈ [tag] ↔ tag' = tag := List.mem_singleton
    rw [← hsingle, ← htag, List.mem_filter, decide_eq_true_iff]
  exact ⟨tag, (hmem tag).mpr rfl, fun tag' htag' => (hmem tag').mp htag'⟩

end Server

/-- For every order of the events that `HandleRpcs` processes:

* until the server is shut down, exactly one `TaskSession` waits for `CONNECT` and exactly one
  `StatusSession` waits for `STATUS_READ`;
* the outstanding tags belong to different sessions, every live session has one, and every
  outstanding tag belongs to a live session, of a class that registers events of its type;
* the `AssignTask` requests that the sessions have taken in are those of the `CONNECT` events with
  `ok = true`, each of a session of its own; `ProcessRobotTask` has been called for every one of
  them, in order, and for nothing else, and `Finish` once for the session of each. -/
theorem session_lifecycle {es : List ServerEvent} {s : Server} {tr : List ServerOutput}
    (h : server.Run es s tr) :
    (s.isShutdown = false → ∀ kind : SessionKind,
        ∃! tag, tag ∈ s.tags ∧ tag.type = kind.listens) ∧
      (s.tags.map Tag.session).Nodup ∧
      (∀ id, s.Live id → ∃! tag, tag ∈ s.tags ∧ tag.session = id) ∧
      (∀ tag ∈ s.tags, s.Live tag.session ∧
        ∃ session, s.sessions[tag.session]? = some session ∧ tag.type ∈ session.kind.awaits) ∧
      received tr = assigned es ∧ processed tr = received tr ∧
      responded tr = (received tr).map Prod.fst ∧ ((received tr).map Prod.fst).Nodup := by
  have hI := Server.sessionInv_of_reaches h
  have hnodup : (s.tags.map Tag.session).Nodup := hI.tracked.nodup
  refine ⟨fun hup kind => hI.existsUnique_listener hup kind, hnodup, ?_, ?_,
    Server.received_of_run h, hI.processed, hI.responded, hI.once⟩
  · intro id hlive
    obtain ⟨tag, htag, rfl⟩ := List.mem_map.mp ((hI.tracked.live id).mp hlive)
    refine ⟨tag, ⟨htag, rfl⟩, ?_⟩
    rintro tag' ⟨htag', hsame⟩
    exact List.inj_on_of_nodup_map hnodup htag' htag hsame
  · intro tag htag
    have hlive : s.Live tag.session :=
      (hI.tracked.live tag.session).mpr (List.mem_map_of_mem htag)
    exact ⟨hlive, hI.typed.awaits tag htag⟩

/-- One client assigns a task and reads the response, two others open status streams; the response
has been delivered when its call fails. -/
theorem session_lifecycle_two_clients :
    ∃ s tr, server.Run [.next ⟨0, .connect⟩ true stopTask, .next ⟨1, .statusRead⟩ true stopTask,
        .next ⟨3, .statusRead⟩ true stopTask, .next ⟨1, .statusWrite⟩ true stopTask,
        .next ⟨0, .finish⟩ false stopTask] s tr ∧
      (∃! tag, tag ∈ s.tags ∧ tag.type = .connect) ∧ received tr = [(0, stopTask)] ∧
      processed tr = [(0, stopTask)] ∧ responded tr = [0] := by
  have hrun : ∃ s tr, server.Run [.next ⟨0, .connect⟩ true stopTask,
      .next ⟨1, .statusRead⟩ true stopTask, .next ⟨3, .statusRead⟩ true stopTask,
      .next ⟨1, .statusWrite⟩ true stopTask, .next ⟨0, .finish⟩ false stopTask] s tr ∧
      s.isShutdown = false :=
    Machine.exists_reaches_of_decide _ (by decide +kernel)
  obtain ⟨s, tr, hrun, hup⟩ := hrun
  obtain ⟨hlisten, -, -, -, hreceived, hprocessed, hresponded, -⟩ := session_lifecycle hrun
  have harrived : received tr = [(0, stopTask)] := hreceived
  rw [harrived] at hprocessed hresponded
  exact ⟨s, tr, hrun, hlisten hup .task, harrived, hprocessed, hresponded⟩

end RobotBrain
