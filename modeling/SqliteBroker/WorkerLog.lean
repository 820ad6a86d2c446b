import SqliteBroker.BrokerWorker
import SqliteBroker.Turnstile

/-!
What one call of the worker does, read off its log: the turnstile labels, the
requests dispatched with what they found, and the messages on each kind of
reply channel. Later modules use these facts and never unfold the worker.
-/
namespace SqliteBroker.WorkerLog

open Messages Engine Execution BrokerWorker Turnstile

variable {S : Sqlite}

/-- A dispatched request with the file and the connections it finds. -/
structure Dispatch (S : Sqlite) where
  request : Pending
  file : S.File
  sessions : SessionId → Option S.Conn

end SqliteBroker.WorkerLog

namespace SqliteBroker.BrokerWorker

open Messages Engine Execution Turnstile WorkerLog

variable {S : Sqlite}

namespace Mark

def label : Mark S → Option (Label SessionId Pending)
  | .queued p => some (.queue p)
  | .dispatched p resumed _ _ => some (if resumed then .next p else .pass p)
  | .settled id autocommit => some (.settle id (!autocommit))
  | .removed id gone => some (.leave id gone)
  | _ => none

def dispatch : Mark S → Option (Dispatch S)
  | .dispatched p _ f sessions => some ⟨p, f, sessions⟩
  | _ => none

def response : Mark S → Option (Chan × Response)
  | .sentResponse reply resp => some (reply, resp)
  | _ => none

def opened : Mark S → Option (Chan × Except String Unit)
  | .sentOpen reply result => some (reply, result)
  | _ => none

def dropped : Mark S → Option Chan
  | .sentDrop reply => some reply
  | _ => none

end Mark

namespace Worker

def labels (w : Worker S) : List (Label SessionId Pending) := w.log.filterMap Mark.label

def dispatches (w : Worker S) : List (Dispatch S) := w.log.filterMap Mark.dispatch

def responses (w : Worker S) : List (Chan × Response) := w.log.filterMap Mark.response

def opens (w : Worker S) : List (Chan × Except String Unit) := w.log.filterMap Mark.opened

def drops (w : Worker S) : List Chan := w.log.filterMap Mark.dropped

def view (w : Worker S) : State SessionId Pending := ⟨w.holder, w.pending⟩

def present (w : Worker S) (i : SessionId) : Bool := (w.sessions i).isSome

def answer (w : Worker S) (p : Pending) : Response × Worker S :=
  match p.req with
  | .exec sql params => w.execResponse p.id sql params
  | .prepare sql => w.prepareResponse p.id sql
  | .close => (okClosed, w.dropSession p.id)

/-- The session keeps the turnstile after the request `p`. -/
def keeps (w : Worker S) (p : Pending) : Bool := !(w.answer p).1.autocommit

end Worker

end SqliteBroker.BrokerWorker

namespace SqliteBroker.WorkerLog

open Messages Engine Execution BrokerWorker Turnstile

variable {S : Sqlite}

def sqlOf : Request → String
  | .exec sql _ => sql
  | .prepare sql => sql
  | .close => ""

def isExec : Request → Bool
  | .exec _ _ => true
  | _ => false

/-- What a dispatch that returns has done: the response of `answer` is sent, an
`exec` settles the turnstile, and nothing else happens. -/
structure Served (w : Worker S) (p : Pending) (w' : Worker S) : Prop where
  file : w'.file = (w.answer p).2.file
  sessions : w'.sessions = (w.answer p).2.sessions
  pending : w'.pending = w.pending
  grows : w.log <+: w'.log
  responses : w'.responses = w.responses ++ [(p.reply, (w.answer p).1)]
  opens : w'.opens = w.opens
  drops : w'.drops = w.drops
  dispatches : w'.dispatches = w.dispatches
  holder : w'.holder = if isExec p.req then settled w.holder p.id (w.keeps p) else w.holder
  labels : w'.labels =
    w.labels ++ if isExec p.req then [.settle p.id (w.keeps p)] else []

/-- What a dispatch that panics has done: the call on the connection, and no more. -/
structure Stopped (w : Worker S) (p : Pending) (w' : Worker S) : Prop where
  panics : sqlBrief (sqlOf p.req) = none
  sessions : w'.sessions = (w.answer p).2.sessions
  pending : w'.pending = w.pending
  holder : w'.holder = w.holder
  log : w'.log = w.log

theorem filterMap_events {β : Type} (f : Mark S → Option β)
    (hf : ∀ line, f (.event line) = none) (lines : List String) :
    (lines.map Mark.event).filterMap f = [] := by
  induction lines with
  | nil => rfl
  | cons line rest ih => simp only [List.map_cons, List.filterMap_cons, hf, ih]

theorem settle_holder_eq (w : Worker S) (id : SessionId) (autocommit : Bool) :
    (w.settle id autocommit).holder = settled w.holder id (!autocommit) := by
  rw [Worker.settle_holder]
  rfl

theorem runExec_ok {w w' : Worker S} {id : SessionId} {sql : String} {params : List Param}
    {reply : Chan} (h : w.runExec id sql params reply = .ok w') : ∃ line,
      w' = (((w.execResponse id sql params).2.note [.event line]).settle id
        (w.execResponse id sql params).1.autocommit).note
          [.sentResponse reply (w.execResponse id sql params).1] := by
  unfold Worker.runExec at h
  cases hbrief : sqlBrief sql with
  | none => simp [hbrief] at h
  | some brief =>
    simp only [hbrief, Except.ok.injEq] at h
    exact ⟨_, h.symm⟩

theorem runPrepare_ok {w w' : Worker S} {id : SessionId} {sql : String} {reply : Chan}
    (h : w.runPrepare id sql reply = .ok w') : ∃ line,
      w' = (w.prepareResponse id sql).2.note
        [.event line, .sentResponse reply (w.prepareResponse id sql).1] := by
  unfold Worker.runPrepare at h
  cases hbrief : sqlBrief sql with
  | none => simp [hbrief] at h
  | some brief =>
    simp only [hbrief, Except.ok.injEq] at h
    exact ⟨_, h.symm⟩

theorem answer_exec {w : Worker S} {p : Pending} {sql : String} {params : List Param}
    (hp : p.req = .exec sql params) : w.answer p = w.execResponse p.id sql params := by
  simp [Worker.answer, hp]

theorem answer_prepare {w : Worker S} {p : Pending} {sql : String}
    (hp : p.req = .prepare sql) : w.answer p = w.prepareResponse p.id sql := by
  simp [Worker.answer, hp]

theorem served_exec {w w' : Worker S} {p : Pending} {sql : String} {params : List Param}
    (hp : p.req = .exec sql params) (h : w.runExec p.id sql params p.reply = .ok w') :
    Served w p w' := by
  obtain ⟨hpending, hholder, hlog⟩ := Worker.execResponse_frame w p.id sql params
  obtain ⟨line, rfl⟩ := runExec_ok h
  rw [← answer_exec hp] at *
  obtain ⟨lines, hsettle⟩ := Worker.settle_log ((w.answer p).2.note [.event line]) p.id
    (w.answer p).1.autocommit
  rw [Worker.note_log, hlog] at hsettle
  constructor
  · simp
  · simp
  · simp [hpending]
  · rw [Worker.note_log, hsettle, List.append_assoc, List.append_assoc]
    exact List.prefix_append _ _
  · simp only [Worker.responses, Worker.note_log, hsettle, List.filterMap_append,
      List.filterMap_cons, List.filterMap_nil, List.append_nil, Mark.response,
      filterMap_events Mark.response (fun _ => rfl)]
  · simp only [Worker.opens, Worker.note_log, hsettle, List.filterMap_append,
      List.filterMap_cons, List.filterMap_nil, List.append_nil, Mark.opened,
      filterMap_events Mark.opened (fun _ => rfl)]
  · simp only [Worker.drops, Worker.note_log, hsettle, List.filterMap_append,
      List.filterMap_cons, List.filterMap_nil, List.append_nil, Mark.dropped,
      filterMap_events Mark.dropped (fun _ => rfl)]
  · simp only [Worker.dispatches, Worker.note_log, hsettle, List.filterMap_append,
      List.filterMap_cons, List.filterMap_nil, List.append_nil, Mark.dispatch,
      filterMap_events Mark.dispatch (fun _ => rfl)]
  · simp [settle_holder_eq, hholder, isExec, hp, Worker.keeps]
  · simp only [Worker.labels, Worker.note_log, hsettle, List.filterMap_append,
      List.filterMap_cons, List.filterMap_nil, List.append_nil, Mark.label,
      filterMap_events Mark.label (fun _ => rfl), isExec, hp, Worker.keeps, if_true]

theorem served_prepare {w w' : Worker S} {p : Pending} {sql : String}
    (hp : p.req = .prepare sql) (h : w.runPrepare p.id sql p.reply = .ok w') :
    Served w p w' := by
  obtain ⟨hpending, hholder, hlog⟩ := Worker.prepareResponse_frame w p.id sql
  obtain ⟨line, rfl⟩ := runPrepare_ok h
  rw [← answer_prepare hp] at *
  constructor
  · simp
  · simp
  · simp [hpending]
  · rw [Worker.note_log, hlog]
    exact List.prefix_append _ _
  · simp [Worker.responses, hlog, List.filterMap_cons, Mark.response]
  · simp [Worker.opens, hlog, Mark.opened]
  · simp [Worker.drops, hlog, Mark.dropped]
  · simp [Worker.dispatches, hlog, Mark.dispatch]
  · simp [hholder, isExec, hp]
  · simp [Worker.labels, hlog, Mark.label, isExec, hp]

/-- What a dispatch does that returns. -/
theorem dispatch_ok {w w' : Worker S} {p : Pending} (hreq : p.req.isClose = false)
    (h : w.dispatch p = .ok w') : Served w p w' := by
  unfold Worker.dispatch at h
  cases hp : p.req with
  | exec sql params =>
    rw [hp] at h
    exact served_exec hp h
  | prepare sql =>
    rw [hp] at h
    exact served_prepare hp h
  | close => simp [hp, Request.isClose] at hreq

/-- What a dispatch does that panics. -/
theorem dispatch_error {w w' : Worker S} {p : Pending} (h : w.dispatch p = .error w') :
    Stopped w p w' := by
  unfold Worker.dispatch at h
  cases hp : p.req with
  | exec sql params =>
    rw [hp] at h
    obtain ⟨hpending, hholder, hlog⟩ := Worker.execResponse_frame w p.id sql params
    cases hbrief : sqlBrief sql with
    | none =>
      simp only [Worker.runExec, hbrief, Except.error.injEq] at h
      subst h
      exact ⟨by simpa [hp, sqlOf] using hbrief, by rw [answer_exec hp], hpending, hholder, hlog⟩
    | some brief => simp [Worker.runExec, hbrief] at h
  | prepare sql =>
    rw [hp] at h
    obtain ⟨hpending, hholder, hlog⟩ := Worker.prepareResponse_frame w p.id sql
    cases hbrief : sqlBrief sql with
    | none =>
      simp only [Worker.runPrepare, hbrief, Except.error.injEq] at h
      subst h
      exact ⟨by simpa [hp, sqlOf] using hbrief, by rw [answer_prepare hp], hpending, hholder,
        hlog⟩
    | some brief => simp [Worker.runPrepare, hbrief] at h
  | close =>
    rw [hp] at h
    cases h

/-- The answer touches the connection of its own session only. -/
theorem answer_sessions {w : Worker S} {p : Pending} (hreq : p.req.isClose = false) :
    (∀ i, i ≠ p.id → (w.answer p).2.sessions i = w.sessions i) ∧
      ((w.answer p).2.sessions p.id).isSome = (w.sessions p.id).isSome := by
  cases hp : p.req with
  | exec sql params =>
    rw [answer_exec hp, Worker.execResponse]
    cases hs : w.sessions p.id with
    | none => exact ⟨fun _ _ => rfl, by simp [hs]⟩
    | some conn => exact ⟨fun i hi => by simp [hi], by simp⟩
  | prepare sql =>
    rw [answer_prepare hp, Worker.prepareResponse]
    cases hs : w.sessions p.id with
    | none => exact ⟨fun _ _ => rfl, by simp [hs]⟩
    | some conn => exact ⟨fun i hi => by simp [hi], by simp⟩
  | close => simp [hp, Request.isClose] at hreq

/-- The mode in the answer is the mode of the connection afterwards. Without a
session it is autocommit. A prepare does not change the mode. -/
theorem answer_autocommit {w : Worker S} {p : Pending} (hreq : p.req.isClose = false) :
    (w.answer p).1.autocommit =
        (((w.answer p).2.sessions p.id).map S.isAutocommit).getD true ∧
      (isExec p.req = false → ((w.answer p).2.sessions p.id).map S.isAutocommit =
        (w.sessions p.id).map S.isAutocommit) := by
  cases hp : p.req with
  | exec sql params =>
    rw [answer_exec hp, Worker.execResponse]
    cases hs : w.sessions p.id with
    | none => exact ⟨by simp [hs, errorResponse], by simp [isExec]⟩
    | some conn =>
      have hlive := (execute_live w.file conn sql params).1
      exact ⟨by simpa using hlive, by simp [isExec]⟩
  | prepare sql =>
    rw [answer_prepare hp, Worker.prepareResponse]
    cases hs : w.sessions p.id with
    | none => exact ⟨by simp [hs, errorResponse], by simp [hs]⟩
    | some conn =>
      obtain ⟨hmode, hresp⟩ := prepareMeta_autocommit w.file conn sql
      exact ⟨by simp [hmode, hresp], by simp [hmode]⟩
  | close => simp [hp, Request.isClose] at hreq

section Notes

variable (w : Worker S) (marks : List (Mark S))

@[simp] theorem labels_note :
    (w.note marks).labels = w.labels ++ marks.filterMap Mark.label :=
  List.filterMap_append

@[simp] theorem dispatches_note :
    (w.note marks).dispatches = w.dispatches ++ marks.filterMap Mark.dispatch :=
  List.filterMap_append

@[simp] theorem responses_note :
    (w.note marks).responses = w.responses ++ marks.filterMap Mark.response :=
  List.filterMap_append

@[simp] theorem opens_note : (w.note marks).opens = w.opens ++ marks.filterMap Mark.opened :=
  List.filterMap_append

@[simp] theorem drops_note : (w.note marks).drops = w.drops ++ marks.filterMap Mark.dropped :=
  List.filterMap_append

end Notes

/-- An open either adds a connection in autocommit mode or changes no session. -/
theorem openSession_cases (w : Worker S) (id : SessionId) (reply : Chan) :
    (∃ conn f, S.isAutocommit conn = true ∧
        w.openSession id reply = (w.setConn id f (some conn)).note [.sentOpen reply (.ok ())]) ∨
      ∃ err f, w.openSession id reply =
        Worker.note { w with file := f } [.sentOpen reply (.error err)] := by
  unfold Worker.openSession
  rcases hopen : openStorage S w.file with ⟨_ | conn, f⟩
  · exact Or.inr ⟨_, f, rfl⟩
  · exact Or.inl ⟨conn, f, openStorage_autocommit S w.file conn (by rw [hopen]), rfl⟩

/-- An open leaves alone the queue and all messages but its own. -/
structure Unmoved (w w' : Worker S) : Prop where
  holder : w'.holder = w.holder
  pending : w'.pending = w.pending
  labels : w'.labels = w.labels
  dispatches : w'.dispatches = w.dispatches
  responses : w'.responses = w.responses
  drops : w'.drops = w.drops
  grows : w.log <+: w'.log

theorem openSession_unmoved (w : Worker S) (id : SessionId) (reply : Chan) :
    Unmoved w (w.openSession id reply) := by
  rcases openSession_cases w id reply with ⟨conn, f, _, hopen⟩ | ⟨err, f, hopen⟩
  · rw [hopen]
    constructor <;> simp [Worker.labels, Worker.dispatches, Worker.responses, Worker.drops,
      Mark.label, Mark.dispatch, Mark.response, Mark.dropped]
  · rw [hopen]
    constructor <;> simp [Worker.labels, Worker.dispatches, Worker.responses, Worker.drops,
      Mark.label, Mark.dispatch, Mark.response, Mark.dropped]

theorem labels_noteDispatch (w : Worker S) (p : Pending) (resumed : Bool) :
    (w.noteDispatch p resumed).labels =
      w.labels ++ [if resumed then .next p else .pass p] := by
  simp [Worker.labels, Worker.noteDispatch, Mark.label]

theorem dispatches_noteDispatch (w : Worker S) (p : Pending) (resumed : Bool) :
    (w.noteDispatch p resumed).dispatches = w.dispatches ++ [⟨p, w.file, w.sessions⟩] := by
  simp [Worker.dispatches, Worker.noteDispatch, Mark.dispatch]

/-- The requests of a session that wait. -/
def ofSession (w : Worker S) (id : SessionId) : List Pending :=
  w.pending.filter (fun p => p.id = id)

theorem filterMap_dropSession {β : Type} (f : Mark S → Option β)
    (hf : ∀ line, f (.event line) = none) (w : Worker S) (id : SessionId) :
    (w.dropSession id).log.filterMap f = w.log.filterMap f ++
      ((ofSession w id).filterMap (fun p => f (Worker.closedMark p)) ++
        (f (.removed id (ofSession w id))).toList) := by
  obtain ⟨lines, hlog⟩ := Worker.dropSession_log w id
  rw [hlog]
  simp only [List.filterMap_append, List.filterMap_cons, filterMap_events f hf,
    List.filterMap_map, List.append_assoc]
  unfold ofSession
  cases f (.removed id (w.pending.filter (fun p => p.id = id))) <;> rfl

section Dropped

variable (w : Worker S) (id : SessionId)

theorem labels_dropSession :
    (w.dropSession id).labels = w.labels ++ [.leave id (ofSession w id)] := by
  simpa [Worker.labels, Mark.label, Worker.closedMark] using
    filterMap_dropSession Mark.label (fun _ => rfl) w id

theorem dispatches_dropSession : (w.dropSession id).dispatches = w.dispatches := by
  simpa [Worker.dispatches, Mark.dispatch, Worker.closedMark] using
    filterMap_dropSession Mark.dispatch (fun _ => rfl) w id

theorem responses_dropSession : (w.dropSession id).responses = w.responses ++
    (ofSession w id).map (fun p => (p.reply, Worker.sessionClosed)) := by
  simpa [Worker.responses, Mark.response, Worker.closedMark] using
    filterMap_dropSession Mark.response (fun _ => rfl) w id

theorem opens_dropSession : (w.dropSession id).opens = w.opens := by
  simpa [Worker.opens, Mark.opened, Worker.closedMark] using
    filterMap_dropSession Mark.opened (fun _ => rfl) w id

theorem drops_dropSession : (w.dropSession id).drops = w.drops := by
  simpa [Worker.drops, Mark.dropped, Worker.closedMark] using
    filterMap_dropSession Mark.dropped (fun _ => rfl) w id

end Dropped

section Present

variable {w w' : Worker S} {p : Pending}

theorem present_served (hreq : p.req.isClose = false) (hserved : Served w p w') (i : SessionId) :
    w'.present i = w.present i := by
  obtain ⟨hothers, hown⟩ := answer_sessions (w := w) hreq
  rw [Worker.present, hserved.sessions, Worker.present]
  by_cases hi : i = p.id
  · rw [hi]
    exact hown
  · rw [hothers i hi]

theorem present_dropSession (id i : SessionId) :
    (w.dropSession id).present i = (w.present i && decide (i ≠ id)) := by
  rw [Worker.present, Worker.dropSession_sessions, Worker.present]
  by_cases hi : i = id
  · simp [hi]
  · simp [hi]

theorem present_openSession (id i : SessionId) (reply : Chan) :
    (w.openSession id reply).present i =
      (w.present i || (decide (i = id) && (openStorage S w.file).1.isOk)) := by
  unfold Worker.openSession Worker.present
  rcases openStorage S w.file with ⟨_ | conn, f⟩
  · simp [Except.isOk, Except.toBool]
  · by_cases hi : i = id
    · simp [Except.isOk, Except.toBool, hi]
    · simp [hi]

end Present

/-- A rest position of the queue: nobody waits for a free transaction. -/
def AtRest (w : Worker S) : Prop := w.holder = none → w.pending = []

/-- The worker as `pump` resumes the head of the queue. -/
def resume (w : Worker S) (p : Pending) (rest : List Pending) : Worker S :=
  Worker.noteDispatch { w with pending := rest } p true

/-- What each resumed request preserves holds when the pump stops, at rest. -/
theorem pump_rule {P : Worker S → Prop}
    (hnext : ∀ w p rest w', P w → w.holder = none → w.pending = p :: rest →
      (resume w p rest).dispatch p = .ok w' → P w')
    {w w' : Worker S} (hw : P w) (h : w.pump = .ok w') : P w' ∧ AtRest w' := by
  induction hn : w.pending.length using Nat.strongRecOn generalizing w with
  | ind n ih =>
    unfold Worker.pump at h
    cases hholder : w.holder with
    | some i =>
      simp only [hholder, Option.isSome_some, if_true, Except.ok.injEq] at h
      subst h
      exact ⟨hw, fun hnone => by rw [hholder] at hnone; cases hnone⟩
    | none =>
      simp only [hholder, Option.isSome_none, Bool.false_eq_true, if_false] at h
      split at h
      · next hpending =>
        cases h
        exact ⟨hw, fun _ => hpending⟩
      · next p rest hpending =>
        split at h
        · cases h
        · next w₁ hdispatch =>
          have hlen : w₁.pending.length ≤ rest.length :=
            Worker.length_pending_dispatch hdispatch
          rw [hpending, List.length_cons] at hn
          exact ih w₁.pending.length (by omega)
            (hnext w p rest w₁ hw hholder hpending hdispatch) h rfl

/-- A pump that panics does so at the dispatch of a resumed request. -/
theorem pump_error {P : Worker S → Prop}
    (hnext : ∀ w p rest w', P w → w.holder = none → w.pending = p :: rest →
      (resume w p rest).dispatch p = .ok w' → P w')
    {w w' : Worker S} (hw : P w) (h : w.pump = .error w') :
    ∃ w₁ p rest, P w₁ ∧ w₁.holder = none ∧ w₁.pending = p :: rest ∧
      (resume w₁ p rest).dispatch p = .error w' := by
  induction hn : w.pending.length using Nat.strongRecOn generalizing w with
  | ind n ih =>
    unfold Worker.pump at h
    cases hholder : w.holder with
    | some i => simp [hholder] at h
    | none =>
      simp only [hholder, Option.isSome_none, Bool.false_eq_true, if_false] at h
      split at h
      · cases h
      · next p rest hpending =>
        split at h
        · next w₁ hdispatch =>
          cases h
          exact ⟨w, p, rest, hw, hholder, hpending, hdispatch⟩
        · next w₁ hdispatch =>
          have hlen : w₁.pending.length ≤ rest.length :=
            Worker.length_pending_dispatch hdispatch
          rw [hpending, List.length_cons] at hn
          exact ih w₁.pending.length (by omega)
            (hnext w p rest w₁ hw hholder hpending hdispatch) h rfl

theorem pump_of_held {w : Worker S} {i : SessionId} (h : w.holder = some i) :
    w.pump = .ok w := by
  unfold Worker.pump
  simp [h]

theorem pump_of_empty {w : Worker S} (h : w.pending = []) : w.pump = .ok w := by
  unfold Worker.pump
  split
  · rfl
  · split
    · rfl
    · next hp => rw [h] at hp; cases hp

def enqueue (w : Worker S) (p : Pending) : Worker S :=
  Worker.note { w with pending := w.pending ++ [p] }
    [.event s!"sqlite_broker_event=queued session={p.id}", .queued p]

theorem labels_enqueue (w : Worker S) (p : Pending) :
    (enqueue w p).labels = w.labels ++ [.queue p] := by
  rw [enqueue, labels_note]
  rfl

/-- The part of `handle` before the pump. -/
inductive Enters (w : Worker S) : Job → Worker S → Prop
  | openConn (id : SessionId) (reply : Chan) :
      Enters w (.openConn id reply) (w.openSession id reply)
  | drop (id : SessionId) (reply : Chan) :
      Enters w (.drop id reply) ((w.dropSession id).note [.sentDrop reply])
  | close (id : SessionId) (reply : Chan) :
      Enters w (.req id .close reply) ((w.dropSession id).note [.sentResponse reply okClosed])
  | queue (p : Pending) (i : SessionId) (hreq : p.req.isClose = false)
      (hheld : w.holder = some i) (hne : i ≠ p.id) :
      Enters w (.req p.id p.req p.reply) (enqueue w p)
  | pass (p : Pending) (w' : Worker S) (hreq : p.req.isClose = false)
      (hfree : w.holder = none ∨ w.holder = some p.id)
      (h : (w.noteDispatch p false).dispatch p = .ok w') :
      Enters w (.req p.id p.req p.reply) w'

theorem heldByOther_iff (w : Worker S) (id : SessionId) :
    w.heldByOther id = true ↔ ∃ i, w.holder = some i ∧ i ≠ id := by
  unfold Worker.heldByOther
  cases w.holder <;> simp

theorem heldByOther_false {w : Worker S} {id : SessionId} (h : w.heldByOther id = false) :
    w.holder = none ∨ w.holder = some id := by
  unfold Worker.heldByOther at h
  cases hw : w.holder with
  | none => exact Or.inl rfl
  | some i => simp_all

theorem heldByOther_of_free {w : Worker S} {id : SessionId}
    (h : w.holder = none ∨ w.holder = some id) : w.heldByOther id = false := by
  unfold Worker.heldByOther
  rcases h with hnone | hown
  · simp [hnone]
  · simp [hown]

theorem handle_request (w : Worker S) (p : Pending) (hreq : p.req.isClose = false) :
    w.handle (.req p.id p.req p.reply) =
      if w.heldByOther p.id then .ok (enqueue w p)
      else match (w.noteDispatch p false).dispatch p with
        | .error w' => .error w'
        | .ok w' => w'.pump := by
  obtain ⟨id, req, reply⟩ := p
  cases req with
  | close => cases hreq
  | exec sql params => rfl
  | prepare sql => rfl

/-- A handle that returns enters its job and pumps. -/
theorem handle_ok {w w' : Worker S} {j : Job} (h : w.handle j = .ok w') :
    ∃ w₁, Enters w j w₁ ∧ w₁.pump = .ok w' := by
  cases j with
  | openConn id reply => exact ⟨_, .openConn id reply, h⟩
  | drop id reply => exact ⟨_, .drop id reply, h⟩
  | req id req reply =>
    by_cases hreq : req.isClose = true
    · cases req with
      | close => exact ⟨_, .close id reply, h⟩
      | exec sql params => cases hreq
      | prepare sql => cases hreq
    · simp only [Bool.not_eq_true] at hreq
      rw [handle_request w ⟨id, req, reply⟩ hreq] at h
      by_cases hheld : w.heldByOther id = true
      · simp only [hheld, if_true, Except.ok.injEq] at h
        obtain ⟨i, hi, hne⟩ := (heldByOther_iff w id).mp hheld
        subst h
        exact ⟨_, .queue ⟨id, req, reply⟩ i hreq hi hne, pump_of_held hi⟩
      · simp only [Bool.not_eq_true] at hheld
        simp only [hheld, Bool.false_eq_true, if_false] at h
        split at h
        · cases h
        · next w₁ hdispatch =>
          exact ⟨w₁, .pass ⟨id, req, reply⟩ w₁ hreq (heldByOther_false hheld) hdispatch, h⟩

/-- A handle that panics does so at the dispatch of its own request or in the pump. -/
theorem handle_error {w w' : Worker S} {j : Job} (h : w.handle j = .error w') :
    (∃ w₁, Enters w j w₁ ∧ w₁.pump = .error w') ∨
      ∃ p : Pending, j = .req p.id p.req p.reply ∧ p.req.isClose = false ∧
        (w.holder = none ∨ w.holder = some p.id) ∧
          (w.noteDispatch p false).dispatch p = .error w' := by
  cases j with
  | openConn id reply => exact Or.inl ⟨_, .openConn id reply, h⟩
  | drop id reply => exact Or.inl ⟨_, .drop id reply, h⟩
  | req id req reply =>
    by_cases hreq : req.isClose = true
    · cases req with
      | close => exact Or.inl ⟨_, .close id reply, h⟩
      | exec sql params => cases hreq
      | prepare sql => cases hreq
    · simp only [Bool.not_eq_true] at hreq
      rw [handle_request w ⟨id, req, reply⟩ hreq] at h
      by_cases hheld : w.heldByOther id = true
      · simp [hheld] at h
      · simp only [Bool.not_eq_true] at hheld
        simp only [hheld, Bool.false_eq_true, if_false] at h
        have hfree := heldByOther_false hheld
        split at h
        · next w₁ hdispatch =>
          cases h
          exact Or.inr ⟨⟨id, req, reply⟩, rfl, hreq, hfree, hdispatch⟩
        · next w₁ hdispatch =>
          exact Or.inl ⟨w₁, .pass ⟨id, req, reply⟩ w₁ hreq hfree hdispatch, h⟩

end SqliteBroker.WorkerLog
