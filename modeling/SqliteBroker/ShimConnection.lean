import SqliteBroker.Frames

/-!
The client's side of a session: what a handle caches of its connection at the broker, and
what the calls that talk to the broker make of it. One thread uses the handle, so a call
waits for its response before the next one; only the callback of `sqlite3_exec` runs
while a call on the same handle is in progress.
-/
namespace SqliteBroker.ShimConnection

open Utf8 Messages Serde Frames

def sqliteError : Int32 := 1
def sqliteAbort : Int32 := 4

/-- A text as a C string: NUL becomes a blank. -/
def cstringLossy (text : String) : String :=
  String.ofList (text.toList.map (fun c => if c = '\x00' then ' ' else c))

structure ProxyDb where
  errmsg : String
  changes : Int32
  totalChanges : Int32
  lastRowid : Int64
  autocommit : Int32
  errcode : Int32
  closed : Bool
  deriving DecidableEq

namespace ProxyDb

/-- The handle that `connect` returns after a good Hello. -/
def connected : ProxyDb where
  errmsg := "not an error"
  changes := 0
  totalChanges := 0
  lastRowid := 0
  autocommit := 1
  errcode := 0
  closed := false

def apply (db : ProxyDb) (resp : Response) : ProxyDb :=
  let copied : ProxyDb :=
    { db with
      changes := resp.changes
      totalChanges := resp.totalChanges
      lastRowid := resp.lastInsertRowid
      autocommit := if resp.autocommit then 1 else 0 }
  if resp.ok then { copied with errcode := 0, errmsg := "not an error" }
  else
    { copied with
      errcode := if resp.code = 0 then sqliteError else resp.code
      errmsg := cstringLossy resp.message }

def fail (db : ProxyDb) (message : String) : ProxyDb :=
  { db with errcode := sqliteError, errmsg := cstringLossy message }

/-- What `rpc` does with the response frame, decoded or not. -/
def hear (db : ProxyDb) : Except String Response → ProxyDb
  | .ok resp => db.apply resp
  | .error err => db.fail err

theorem apply_autocommit (db : ProxyDb) (resp : Response) :
    (db.apply resp).autocommit = if resp.autocommit then 1 else 0 := by
  unfold apply
  cases resp.ok <;> rfl

theorem apply_autocommit_eq_zero (db : ProxyDb) (resp : Response) :
    (db.apply resp).autocommit = 0 ↔ resp.autocommit = false := by
  rw [apply_autocommit]
  cases resp.autocommit <;> decide

theorem apply_counters (db : ProxyDb) (resp : Response) :
    (db.apply resp).lastRowid = resp.lastInsertRowid ∧
      (db.apply resp).totalChanges = resp.totalChanges := by
  unfold apply
  cases resp.ok <;> exact ⟨rfl, rfl⟩

end ProxyDb

/-- The response that `exec_sql` makes up when a callback aborts it. -/
def callbackAborted (resp : Response) : Response where
  ok := false
  message := "callback aborted"
  code := sqliteAbort
  columns := []
  rows := []
  changes := resp.changes
  lastInsertRowid := resp.lastInsertRowid
  autocommit := resp.autocommit
  tail := 0
  paramCount := 0
  paramNames := []
  decltypes := []
  totalChanges := resp.totalChanges
  empty := false

/-- The calls of the application that send a request. -/
inductive ApiCall
  | exec (sql : String) (callback : Bool)
  | prepare (sql : String)
  | step (sql : String) (params : List Param)

def ApiCall.request : ApiCall → Request
  | .exec sql _ => .exec sql []
  | .prepare sql => .prepare sql
  | .step sql params => .exec sql params

theorem request_isClose (call : ApiCall) : call.request.isClose = false := by
  cases call <;> rfl

/-- The loop of `exec_sql` over the rows: its response and the callbacks left to make. -/
structure RowLoop where
  resp : Response
  left : ℕ

/-- The loop that a call enters after its response. -/
def ApiCall.rowLoop (call : ApiCall) (got : Except String Response) : List RowLoop :=
  match call, got with
  | .exec _ true, .ok resp =>
    if resp.ok ∧ resp.rows ≠ [] then [⟨resp, resp.rows.length⟩] else []
  | _, _ => []

/-- The rows after a callback that returned zero. -/
def RowLoop.next (loop : RowLoop) : List RowLoop :=
  if loop.left ≤ 1 then [] else [{ loop with left := loop.left - 1 }]

/-- Where the thread that uses the handle stands. -/
inductive Pc
  | absent
  | connecting
  | idle
  | awaiting (call : ApiCall)
  | closing
  | gone

/-- One connection as its client sees it. `loops` are the calls whose callbacks run, the
innermost first; `outbox` is what the broker has yet to read and `seen` what has been
read of the broker's frames. `heard` is ghost state: the response decoded last, if no
request has been sent since. -/
structure Shim where
  pc : Pc
  db : ProxyDb
  loops : List RowLoop
  outbox : Bytes
  seen : ℕ
  heard : Option Response

namespace Shim

def new (pc : Pc) : Shim := ⟨pc, .connected, [], [], 0, none⟩

def isGone (sh : Shim) : Bool :=
  match sh.pc with
  | .gone => true
  | _ => false

/-- The connection ends on this side. -/
def leave (sh : Shim) : Shim := { sh with pc := .gone, heard := none }

/-- `connect` on the frame of the Hello. -/
def greeted (sh : Shim) (got : Except String Hello) (read : ℕ) : Shim :=
  match got with
  | .ok hello =>
    if hello.ok then { sh with pc := .idle, db := .connected, seen := sh.seen + read }
    else sh.leave
  | .error _ => sh.leave

/-- `rpc` up to the request on the wire. -/
def send (J : SerdeJson) (sh : Shim) (call : ApiCall) : Shim :=
  if sh.db.closed then { sh with db := sh.db.fail "connection is closed" }
  else
    match writeMsg J call.request with
    | .ok bytes => { sh with pc := .awaiting call, outbox := sh.outbox ++ bytes, heard := none }
    | .error err => { sh with db := sh.db.fail err }

/-- `rpc` from the response frame on, and what its caller does first. -/
def respond (sh : Shim) (call : ApiCall) (got : Except String Response) (read : ℕ) : Shim :=
  { sh with
    pc := .idle
    db := sh.db.hear got
    loops := call.rowLoop got ++ sh.loops
    seen := sh.seen + read
    heard := got.toOption }

/-- A callback returns `rc` to the innermost loop. -/
def callback (sh : Shim) (rc : Int32) : Option Shim :=
  match sh.pc, sh.loops with
  | .idle, loop :: outer =>
    if rc ≠ 0 then some { sh with db := sh.db.apply (callbackAborted loop.resp), loops := outer }
    else some { sh with loops := loop.next ++ outer }
  | _, _ => none

/-- `close_db`; with no open statement left, `destroy_db` sends a Close. -/
def close (J : SerdeJson) (sh : Shim) (lastStatement : Bool) : Option Shim :=
  match sh.pc, sh.loops, lastStatement with
  | .idle, [], true =>
    let sent := match writeMsg J Request.close with
      | .ok bytes => sh.outbox ++ bytes
      | .error _ => sh.outbox
    some { sh with
      pc := .closing, db := { sh.db with closed := true }, outbox := sent, heard := none }
  | .idle, _, false => some { sh with db := { sh.db with closed := true } }
  | _, _, _ => none

/-- The broker reads the next request from the connection; a connection that is gone may
also fail. -/
def delivered (J : SerdeJson) (sh : Shim) (req : Option Request) : Option Shim :=
  match readMsg (α := Request) J sh.outbox, req with
  | some (.ok r, rest), some req => if r = req then some { sh with outbox := rest } else none
  | some (.error _, rest), none => some { sh with outbox := rest }
  | _, none => if sh.isGone then some sh else none
  | none, some _ => none
  | some (.error _, _), some _ => none

theorem greeted_heard {sh : Shim} {got : Except String Hello} {read : ℕ} (h : sh.heard = none) :
    (sh.greeted got read).heard = none := by
  unfold greeted
  cases got with
  | error err => rfl
  | ok hello =>
    dsimp only
    split
    · exact h
    · rfl

end Shim

end SqliteBroker.ShimConnection
