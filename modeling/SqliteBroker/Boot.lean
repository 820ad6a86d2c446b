import SqliteBroker.ExecCallback
import SqliteBroker.Programs

/-!
The start of a load worker: it opens its database and brings the schema up to date, one
migration after the other, each in a transaction of its own. The calls of the C API on
its handle are programs that ask the broker; the frames between them are left out.
-/
namespace SqliteBroker.Boot

open Utf8 Messages Engine ShimConnection ShimStatement ExecCallback Programs
open Execution hiding sqliteError

/-- What a worker does with its handle. -/
abbrev Client (α : Type) := StateT ProxyDb (Prog Request Response) α

variable (floats : FloatText)

section Calls

/-- `rpc` on a connection that lasts. -/
def rpc (req : Request) : Client (Except String Response) := do
  if (← get).closed then
    modify (·.fail "connection is closed")
    return .error "connection is closed"
  else
    let resp ← StateT.lift (Prog.call req)
    modify (·.apply resp)
    if resp.ok then return .ok resp
    else return .error (if resp.message = "" then "sql error" else resp.message)

/-- What a caller of `rpc` finds in the handle after a failure. -/
def rpcCode (req : Request) : Client (Except (Int32 × String) Response) := do
  let answer ← rpc req
  let db ← get
  return answer.mapError (fun message => (db.errcode, message))

def errmsg (db : ProxyDb) : String := lossyString (fromPtr (encode db.errmsg.toList))

/-- `Db::exec`. -/
def exec (sql : String) : Client (Except String Unit) := do
  match cString sql with
  | .error err => return .error err
  | .ok cSql =>
    let answer ← rpcCode (.exec (sqlFrom (some cSql) (-1)) [])
    let rc := (execSql floats (some cSql) (none : Option (Unit → RowCall → Int32 × Unit)) ()
      answer).rc
    if rc ≠ sqliteOk then return .error s!"sqlite3_exec ({rc}): {errmsg (← get)}"
    else return .ok ()

/-- `sqlite3_step`, with a request if the statement has not been executed yet. -/
def stepStmt (stmt : ProxyStmt) : Client (Int32 × ProxyStmt) := do
  match stmt.request with
  | none => return stmt.advance floats
  | some req =>
    let answer ← rpcCode req
    return stmt.step floats (answer.mapError Prod.fst)

def rowTexts (stmt : ProxyStmt) : List String :=
  (upTo stmt.columnCount).map (fun i =>
    match stmt.columnText i with
    | none => ""
    | some bytes => lossyString (fromPtr bytes))

/-- The loop of `Db::query` after a step that returned `rc`. A statement that has been
executed has a row for each further step. -/
def readRows : ℕ → Int32 → ProxyStmt → List (List String) → Except Int32 (List (List String))
  | 0, rc, _, _ => .error rc
  | left + 1, rc, stmt, rows =>
    if rc = sqliteRow then
      let (rc', stmt') := stmt.advance floats
      readRows left rc' stmt' (rows ++ [rowTexts stmt])
    else if rc = sqliteDone then .ok rows
    else .error rc

/-- `Db::query`. -/
def query (sql : String) : Client (Except String (List (List String))) := do
  match cString sql with
  | .error err => return .error err
  | .ok cSql =>
    let answer ← rpcCode (.prepare (prepareText (some cSql) (-1)))
    let prepared := prepareV2 (some cSql) (-1) (answer.mapError Prod.fst)
    if prepared.rc ≠ sqliteOk then
      return .error s!"sqlite3_prepare_v2 ({prepared.rc}): {errmsg (← get)}"
    else
      match prepared.stmt with
      | none => return .error s!"sqlite3_step ({sqliteMisuse}): {errmsg (← get)}"
      | some stmt =>
        let (rc, stmt) ← stepStmt floats stmt
        match readRows floats (stmt.rows.length + 2) rc stmt [] with
        | .ok rows => return .ok rows
        | .error rc => return .error s!"sqlite3_step ({rc}): {errmsg (← get)}"

end Calls

def benignMigration (err : String) : Bool :=
  decide ("duplicate column".toList <:+: toAsciiLowercase err) ||
    decide ("already exists".toList <:+: toAsciiLowercase err)

def countVersion (version : ℕ) : String :=
  s!"SELECT count(*) FROM schema_migration WHERE version = {version}"

def insertVersion (version : ℕ) (name : String) : String :=
  s!"INSERT OR IGNORE INTO schema_migration(version, name) VALUES ({version}, '{name}')"

/-- The end of `migrate`, after the statements of the migration. -/
def recordVersion (version : ℕ) (name : String) : Client (Except String ℕ) := do
  match ← exec floats (insertVersion version name) with
  | .error err =>
    let _ ← exec floats "ROLLBACK"
    return .error err
  | .ok () =>
    match ← exec floats "COMMIT" with
    | .error err => return .error err
    | .ok () => return .ok 1

def migrate (version : ℕ) (name sql : String) : Client (Except String ℕ) := do
  match ← exec floats "BEGIN IMMEDIATE" with
  | .error err => return .error err
  | .ok () =>
    match ← query floats (countVersion version) with
    | .error err =>
      let _ ← exec floats "ROLLBACK"
      return .error err
    | .ok rows =>
      if rows.head?.bind List.head? = some "1" then
        match ← exec floats "COMMIT" with
        | .error err => return .error err
        | .ok () => return .ok 0
      else
        match ← exec floats sql with
        | .error err =>
          if !benignMigration err then
            let _ ← exec floats "ROLLBACK"
            return .error err
          else recordVersion floats version name
        | .ok () => recordVersion floats version name

def createMigration : String :=
  "CREATE TABLE IF NOT EXISTS schema_migration (
            version INTEGER PRIMARY KEY,
            name TEXT NOT NULL
        )"

def baseTables : String :=
  "CREATE TABLE IF NOT EXISTS item (
            id INTEGER PRIMARY KEY,
            worker INTEGER NOT NULL,
            n INTEGER NOT NULL,
            name TEXT NOT NULL UNIQUE,
            note TEXT,
            price REAL,
            flag INTEGER NOT NULL DEFAULT 0
        );
        CREATE TABLE IF NOT EXISTS event (
            worker INTEGER NOT NULL,
            seq INTEGER NOT NULL,
            kind TEXT NOT NULL,
            token TEXT NOT NULL,
            PRIMARY KEY (worker, seq)
        );
        CREATE INDEX IF NOT EXISTS item_worker ON item(worker, name);
        CREATE VIEW IF NOT EXISTS item_count AS
            SELECT worker, count(*) AS c FROM item GROUP BY worker"

def addSeen : String := "ALTER TABLE item ADD COLUMN seen INTEGER NOT NULL DEFAULT 0"

def indexSeen : String := "CREATE INDEX IF NOT EXISTS item_seen ON item(seen)"

def boot : Client (Except String ℕ) := do
  match ← exec floats createMigration with
  | .error err => return .error err
  | .ok () =>
    match ← migrate floats 1 "base tables" baseTables with
    | .error err => return .error err
    | .ok first =>
      match ← migrate floats 2 "add item.seen" addSeen with
      | .error err => return .error err
      | .ok second =>
        match ← migrate floats 3 "index item.seen" indexSeen with
        | .error err => return .error err
        | .ok third => return .ok (1 + first + second + third)

/-- `open_ready` on a connected handle, and then `boot`. -/
def startup : Client (Except String ℕ) := do
  match ← exec floats "PRAGMA foreign_keys = ON" with
  | .error err => return .error err
  | .ok () => boot floats

end SqliteBroker.Boot
