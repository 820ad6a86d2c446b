import SqliteBroker.Execution
import SqliteBroker.Runs
import Mathlib.Logic.Function.Basic

/-!
The worker thread of the broker. It owns every connection, runs one job at a time
and lets only the session inside a transaction run while others wait in `pending`.
A panic stops the thread: `.error` carries its memory at that moment.
The log keeps what leaves the worker, the lines on standard error and the messages
on reply channels. It also marks, as ghost state, where a request is queued,
dispatched or thrown out.
-/
namespace SqliteBroker.BrokerWorker

open Utf8 Messages Engine Execution Runs

abbrev SessionId := ℕ

/-- A reply channel; every job comes with one of its own. -/
abbrev Chan := ℕ

structure Pending where
  id : SessionId
  req : Request
  reply : Chan
  deriving DecidableEq

inductive Job
  | openConn (id : SessionId) (reply : Chan)
  | req (id : SessionId) (req : Request) (reply : Chan)
  | drop (id : SessionId) (reply : Chan)
  deriving DecidableEq

/-- `dispatched` keeps the file and the connections the request finds, and whether
it comes from `pending`; `settled` the mode its connection is left in. -/
inductive Mark (S : Sqlite)
  | event (line : String)
  | sentOpen (reply : Chan) (opened : Except String Unit)
  | sentResponse (reply : Chan) (resp : Response)
  | sentDrop (reply : Chan)
  | queued (p : Pending)
  | dispatched (p : Pending) (resumed : Bool) (file : S.File)
      (sessions : SessionId → Option S.Conn)
  | settled (id : SessionId) (autocommit : Bool)
  | removed (id : SessionId) (gone : List Pending)

structure Worker (S : Sqlite) where
  file : S.File
  sessions : SessionId → Option S.Conn
  holder : Option SessionId
  pending : List Pending
  log : List (Mark S)

/-- The words of a statement on one line. -/
def oneLine (sql : String) : List Char := [' '].intercalate (splitWhitespace sql.toList)

/-- The text of a statement in the event lines; `none` when the slice panics. -/
def sqlBrief (sql : String) : Option String :=
  let one := oneLine sql
  if byteLen one > 120 then
    (sliceTo one 120).map (fun brief => String.ofList (brief ++ "...".toList))
  else some (String.ofList one)

def flag (b : Bool) : ℕ := if b then 1 else 0

namespace Worker

variable {S : Sqlite}

def new (f : S.File) : Worker S := ⟨f, fun _ => none, none, [], []⟩

def note (w : Worker S) (marks : List (Mark S)) : Worker S := { w with log := w.log ++ marks }

def setConn (w : Worker S) (id : SessionId) (f : S.File) (conn : Option S.Conn) : Worker S :=
  { w with file := f, sessions := Function.update w.sessions id conn }

def release (w : Worker S) (id : SessionId) : Worker S :=
  if w.holder = some id then
    { w with holder := none }.note [.event s!"sqlite_broker_event=release session={id}"]
  else w

/-- The holder after an `exec` of session `id`, with the event of a release. -/
def settle (w : Worker S) (id : SessionId) (autocommit : Bool) : Worker S :=
  let w := w.note [.settled id autocommit]
  if !autocommit then { w with holder := some id } else w.release id

section Fields

variable (w : Worker S) (id : SessionId) (marks : List (Mark S)) (f : S.File)
  (conn : Option S.Conn) (autocommit : Bool)

@[simp] theorem note_file : (w.note marks).file = w.file := rfl

@[simp] theorem note_sessions : (w.note marks).sessions = w.sessions := rfl

@[simp] theorem note_holder : (w.note marks).holder = w.holder := rfl

@[simp] theorem note_pending : (w.note marks).pending = w.pending := rfl

@[simp] theorem note_log : (w.note marks).log = w.log ++ marks := rfl

@[simp] theorem setConn_file : (w.setConn id f conn).file = f := rfl

@[simp] theorem setConn_sessions :
    (w.setConn id f conn).sessions = Function.update w.sessions id conn := rfl

@[simp] theorem setConn_holder : (w.setConn id f conn).holder = w.holder := rfl

@[simp] theorem setConn_pending : (w.setConn id f conn).pending = w.pending := rfl

@[simp] theorem setConn_log : (w.setConn id f conn).log = w.log := rfl

@[simp] theorem release_file : (w.release id).file = w.file := by
  unfold release
  split <;> rfl

@[simp] theorem release_sessions : (w.release id).sessions = w.sessions := by
  unfold release
  split <;> rfl

@[simp] theorem release_pending : (w.release id).pending = w.pending := by
  unfold release
  split <;> rfl

theorem release_holder :
    (w.release id).holder = if w.holder = some id then none else w.holder := by
  unfold release
  split <;> rfl

theorem release_log : ∃ lines : List String,
    (w.release id).log = w.log ++ lines.map Mark.event := by
  unfold release
  split
  · exact ⟨[s!"sqlite_broker_event=release session={id}"], rfl⟩
  · exact ⟨[], (List.append_nil _).symm⟩

@[simp] theorem settle_file : (w.settle id autocommit).file = w.file := by
  cases autocommit <;> simp [settle]

@[simp] theorem settle_sessions : (w.settle id autocommit).sessions = w.sessions := by
  cases autocommit <;> simp [settle]

@[simp] theorem settle_pending : (w.settle id autocommit).pending = w.pending := by
  cases autocommit <;> simp [settle]

theorem settle_holder : (w.settle id autocommit).holder =
    if !autocommit then some id else if w.holder = some id then none else w.holder := by
  cases autocommit with
  | false => rfl
  | true => exact release_holder (w.note [.settled id true]) id

theorem settle_log : ∃ lines : List String, (w.settle id autocommit).log =
    w.log ++ .settled id autocommit :: lines.map Mark.event := by
  cases autocommit with
  | false => exact ⟨[], rfl⟩
  | true =>
    obtain ⟨lines, hlines⟩ := release_log (w.note [.settled id true]) id
    refine ⟨lines, ?_⟩
    simpa [settle] using hlines

end Fields

/-- The response of `run_prepare`, and the worker after the call that makes it. -/
def prepareResponse (w : Worker S) (id : SessionId) (sql : String) : Response × Worker S :=
  match w.sessions id with
  | some conn =>
    let out := prepareMeta S w.file conn sql
    (out.result, w.setConn id out.file (some out.conn))
  | none => (errorResponse true 1 "no session", w)

def runPrepare (w : Worker S) (id : SessionId) (sql : String) (reply : Chan) :
    Except (Worker S) (Worker S) :=
  let (response, w) := w.prepareResponse id sql
  match sqlBrief sql with
  | none => .error w
  | some brief =>
    .ok (w.note
      [.event s!"sqlite_broker_event=prepare session={id} empty={flag response.empty} sql={brief}",
        .sentResponse reply response])

/-- The response of `run_exec`, and the worker after the call that makes it. -/
def execResponse (w : Worker S) (id : SessionId) (sql : String) (params : List Param) :
    Response × Worker S :=
  match w.sessions id with
  | some conn =>
    let out := execute S w.file conn sql params
    (out.result, w.setConn id out.file (some out.conn))
  | none => (errorResponse true 1 "no session", w)

def runExec (w : Worker S) (id : SessionId) (sql : String) (params : List Param) (reply : Chan) :
    Except (Worker S) (Worker S) :=
  let (response, w) := w.execResponse id sql params
  match sqlBrief sql with
  | none => .error w
  | some brief =>
    let line :=
      s!"sqlite_broker_event=exec session={id} autocommit={flag response.autocommit} sql={brief}"
    .ok (((w.note [.event line]).settle id response.autocommit).note
      [.sentResponse reply response])

def sessionClosed : Response := errorResponse true 1 "session closed"

def closedMark (p : Pending) : Mark S := .sentResponse p.reply sessionClosed

def closeFile (w : Worker S) (id : SessionId) : S.File :=
  match w.sessions id with
  | some conn => S.closeConnection w.file conn
  | none => w.file

/-- The loop of `drop_session`: the requests it keeps and those it throws out. -/
def sweep (id : SessionId) (kept gone : List Pending) :
    List Pending → List Pending × List Pending
  | [] => (kept, gone)
  | p :: rest =>
    if p.id = id then sweep id kept (gone ++ [p]) rest else sweep id (kept ++ [p]) gone rest

def dropSession (w : Worker S) (id : SessionId) : Worker S :=
  let (kept, gone) := sweep id [] [] w.pending
  let left : Worker S := ({ w with pending := kept }).setConn id (w.closeFile id) none
  (left.note (gone.map closedMark ++ [.removed id gone])).release id

def dispatch (w : Worker S) (p : Pending) : Except (Worker S) (Worker S) :=
  match p.req with
  | .exec sql params => w.runExec p.id sql params p.reply
  | .prepare sql => w.runPrepare p.id sql p.reply
  | .close => .ok ((w.dropSession p.id).note [.sentResponse p.reply okClosed])

section Dropped

theorem sweep_eq (id : SessionId) (kept gone pending : List Pending) :
    sweep id kept gone pending = (kept ++ pending.filter (fun p => p.id ≠ id),
      gone ++ pending.filter (fun p => p.id = id)) := by
  induction pending generalizing kept gone with
  | nil => simp [sweep]
  | cons p rest ih =>
    unfold sweep
    by_cases h : p.id = id
    · simp [h, ih]
    · simp [h, ih]

variable (w : Worker S) (id : SessionId)

theorem dropSession_sessions :
    (w.dropSession id).sessions = Function.update w.sessions id none := by
  simp [dropSession]

/-- Exactly the requests of the session go; the others keep their order. -/
theorem dropSession_pending :
    (w.dropSession id).pending = w.pending.filter (fun p => p.id ≠ id) := by
  simp [dropSession, sweep_eq]

theorem dropSession_holder :
    (w.dropSession id).holder = if w.holder = some id then none else w.holder :=
  release_holder _ id

/-- Each request thrown out is answered, and nothing else is sent. -/
theorem dropSession_log : ∃ lines : List String, (w.dropSession id).log =
    w.log ++ (w.pending.filter (fun p => p.id = id)).map closedMark ++
      .removed id (w.pending.filter (fun p => p.id = id)) :: lines.map Mark.event := by
  unfold dropSession
  obtain ⟨lines, hlines⟩ := release_log _ id
  exact ⟨lines, by rw [hlines]; simp [sweep_eq]⟩

end Dropped

/-- The worker after the call that makes the response of a request. -/
theorem execResponse_frame (w : Worker S) (id : SessionId) (sql : String) (params : List Param) :
    (w.execResponse id sql params).2.pending = w.pending ∧
      (w.execResponse id sql params).2.holder = w.holder ∧
      (w.execResponse id sql params).2.log = w.log := by
  unfold execResponse
  cases w.sessions id <;> exact ⟨rfl, rfl, rfl⟩

theorem prepareResponse_frame (w : Worker S) (id : SessionId) (sql : String) :
    (w.prepareResponse id sql).2.pending = w.pending ∧
      (w.prepareResponse id sql).2.holder = w.holder ∧
      (w.prepareResponse id sql).2.log = w.log := by
  unfold prepareResponse
  cases w.sessions id <;> exact ⟨rfl, rfl, rfl⟩

/-- A dispatch never adds to `pending`, so `pump` ends. -/
theorem length_pending_dispatch {w w' : Worker S} {p : Pending} (h : w.dispatch p = .ok w') :
    w'.pending.length ≤ w.pending.length := by
  unfold dispatch at h
  cases hreq : p.req with
  | exec sql params =>
    rw [hreq] at h
    have hframe := (execResponse_frame w p.id sql params).1
    cases hbrief : sqlBrief sql with
    | none => simp [runExec, hbrief] at h
    | some brief =>
      simp only [runExec, hbrief, Except.ok.injEq] at h
      simp [← h, hframe]
  | prepare sql =>
    rw [hreq] at h
    have hframe := (prepareResponse_frame w p.id sql).1
    cases hbrief : sqlBrief sql with
    | none => simp [runPrepare, hbrief] at h
    | some brief =>
      simp only [runPrepare, hbrief, Except.ok.injEq] at h
      simp [← h, hframe]
  | close =>
    rw [hreq] at h
    cases h
    simpa [dropSession_pending] using List.length_filter_le _ w.pending

/-- The ghost mark of a dispatch, with what the request finds. -/
def noteDispatch (w : Worker S) (p : Pending) (resumed : Bool) : Worker S :=
  w.note [.dispatched p resumed w.file w.sessions]

/-- While nobody holds the transaction, run the requests that wait. -/
def pump (w : Worker S) : Except (Worker S) (Worker S) :=
  if w.holder.isSome then .ok w
  else
    match hw : w.pending with
    | [] => .ok w
    | p :: rest =>
      match hd : (({ w with pending := rest }).noteDispatch p true).dispatch p with
      | .error w' => .error w'
      | .ok w' => w'.pump
termination_by w.pending.length
decreasing_by
  have hlen := length_pending_dispatch hd
  rw [hw]
  exact Nat.lt_succ_of_le hlen

def heldByOther (w : Worker S) (id : SessionId) : Bool :=
  match w.holder with
  | some holder => holder ≠ id
  | none => false

def openSession (w : Worker S) (id : SessionId) (reply : Chan) : Worker S :=
  match openStorage S w.file with
  | (.ok conn, f) => (w.setConn id f (some conn)).note [.sentOpen reply (.ok ())]
  | (.error err, f) => ({ w with file := f }).note [.sentOpen reply (.error err)]

def handle (w : Worker S) : Job → Except (Worker S) (Worker S)
  | .openConn id reply => (w.openSession id reply).pump
  | .drop id reply => ((w.dropSession id).note [.sentDrop reply]).pump
  | .req id .close reply => ((w.dropSession id).note [.sentResponse reply okClosed]).pump
  | .req id req reply =>
    let p : Pending := ⟨id, req, reply⟩
    if w.heldByOther id then
      let queued : Worker S := { w with pending := w.pending ++ [p] }
      .ok (queued.note [.event s!"sqlite_broker_event=queued session={id}", .queued p])
    else
      match (w.noteDispatch p false).dispatch p with
      | .error w' => .error w'
      | .ok w' => w'.pump

/-- `worker_loop`: the jobs in the order of the channel. -/
def workerLoop (w : Worker S) (jobs : List Job) : Except (Worker S) (Worker S) :=
  jobs.foldlM handle w

end Worker

end SqliteBroker.BrokerWorker
