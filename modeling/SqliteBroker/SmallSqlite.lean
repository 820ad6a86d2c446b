import SqliteBroker.Execution

/-!
A small engine that meets the assumptions on SQLite. Its file holds a table `t`, of which
it counts the rows, and a table `note` with one text. It knows `BEGIN`, `COMMIT`, an INSERT
into `t` and a SELECT of the text; a comment is an empty statement and everything else does
not compile.
-/
namespace SqliteBroker.SmallSqlite

open Utf8 Messages Engine Execution

structure File where
  rows : ℕ
  text : Bytes
  deriving DecidableEq

structure Conn where
  autocommit : Bool
  lastRowid : Int64
  changed : Int32
  failure : Int32
  deriving DecidableEq

inductive Stmt
  | begin
  | commit
  | insert
  | select
  | row (text : Bytes)
  deriving DecidableEq

def newFile : File := ⟨0, []⟩

def newConn : Conn := ⟨true, 0, 0, 0⟩

def bytesOf (text : String) : Bytes := encode text.toList

def insertSql : String := "INSERT INTO t DEFAULT VALUES"

def selectSql : String := "SELECT text FROM note"

inductive Parsed
  | stmt (st : Stmt)
  | empty
  | invalid
  deriving DecidableEq

def parse (sql : CStr) : Parsed :=
  if sql = bytesOf "BEGIN" then .stmt .begin
  else if sql = bytesOf "COMMIT" then .stmt .commit
  else if sql = bytesOf insertSql then .stmt .insert
  else if sql = bytesOf selectSql then .stmt .select
  else if sql = [] ∨ sql.take 2 = bytesOf "--" then .empty
  else .invalid

def prepareV2 (f : File) (c : Conn) (sql : CStr) : Prepared File Conn Stmt :=
  match parse sql with
  | .stmt st => ⟨sqliteOk, some st, some sql.length, f, { c with failure := 0 }⟩
  | .empty => ⟨sqliteOk, none, some sql.length, f, { c with failure := 0 }⟩
  | .invalid => ⟨1, none, some 0, f, { c with failure := 1 }⟩

def step (f : File) (c : Conn) : Stmt → Stepped File Conn Stmt
  | .begin =>
    if c.autocommit then ⟨sqliteDone, f, { c with autocommit := false }, .begin⟩
    else ⟨1, f, { c with failure := 1 }, .begin⟩
  | .commit =>
    if c.autocommit then ⟨1, f, { c with failure := 1 }, .commit⟩
    else ⟨sqliteDone, f, { c with autocommit := true }, .commit⟩
  | .insert =>
    ⟨sqliteDone, { f with rows := f.rows + 1 },
      { c with lastRowid := .ofNat (f.rows + 1), changed := c.changed + 1 }, .insert⟩
  | .select => ⟨sqliteRow, f, c, .row f.text⟩
  | .row text => ⟨sqliteDone, f, c, .row text⟩

def rowsLeft : Stmt → ℕ
  | .select => 1
  | _ => 0

def columnCount : Stmt → Int32
  | .select => 1
  | .row _ => 1
  | _ => 0

def columnText : Stmt → Option Bytes
  | .row text => some text
  | _ => none

/-- The small engine. -/
abbrev engine : Sqlite where
  File := File
  Conn := Conn
  Stmt := Stmt
  connectionOpen f := (.ok newConn, f)
  busyTimeout c := .ok c
  closeConnection f _ := f
  isAutocommit c := c.autocommit
  changes _ := 0
  lastInsertRowid c := c.lastRowid
  totalChanges c := c.changed
  errcode c := c.failure
  errmsg c := some (if c.failure = 0 then bytesOf "not an error" else bytesOf "SQL logic error")
  prepareV2 := prepareV2
  bindNull st _ := (0, st)
  bindInt64 st _ _ := (0, st)
  bindDouble st _ _ := (0, st)
  bindText st _ _ := (0, st)
  bindBlob st _ _ := (0, st)
  bindParameterCount _ := 0
  bindParameterName _ _ := none
  columnCount := columnCount
  columnName _ _ := some (bytesOf "text")
  columnDecltype _ _ := some (bytesOf "TEXT")
  step := step
  columnType _ _ := 3
  columnInt64 _ _ := 0
  columnDouble _ _ := F64.ofInt 0
  columnBytes _ _ := 0
  columnBlob _ _ := none
  columnText st _ := columnText st
  finalize f c _ := (f, c)
  rowsLeft _ _ st := some (rowsLeft st)
  open_autocommit := by
    intro f c h
    cases h
    rfl
  busyTimeout_autocommit := by
    intro c c' h
    cases h
    rfl
  prepare_autocommit := by
    intro f c sql
    unfold prepareV2
    cases parse sql <;> rfl
  finalize_autocommit := fun _ _ _ => rfl
  step_row := by
    intro f c st n hleft h
    cases st with
    | select => exact lt_rowsLeft hleft Nat.zero_lt_one
    | begin =>
      cases hc : c.autocommit <;> simp [step, hc] at h <;> cases h
    | commit =>
      cases hc : c.autocommit <;> simp [step, hc] at h <;> cases h
    | insert => cases h
    | row text => cases h
  step_endless := fun _ _ _ h => nomatch h

section Runs

variable {f : File} {c : Conn} {st : Stmt} {sql : String} {cSql : CStr}

theorem stepRows_done {ncols : Int32} {rows : List (List Cell)}
    (h : (step f c st).rc = sqliteDone) :
    stepRows engine ncols f c st rows =
      ⟨((step f c st).stmt, .ok rows), (step f c st).file, (step f c st).conn⟩ := by
  have hrow : ¬ (step f c st).rc = sqliteRow := by
    rw [h]
    decide
  rw [stepRows, dif_neg (Option.some_ne_none _)]
  dsimp only
  rw [dif_neg hrow, if_pos h]

/-- A text that is one statement without rows. -/
theorem executeInner_done (hsql : cString sql = .ok cSql) (hparse : parse cSql = .stmt st)
    (hcols : columnCount st = 0)
    (hstep : (step f { c with failure := 0 } st).rc = sqliteDone) :
    executeInner engine sql [] f c =
      ⟨.ok ([], []), (step f { c with failure := 0 } st).file,
        (step f { c with failure := 0 } st).conn⟩ := by
  have hprep : prepareV2 f c (cSql.drop 0) =
      ⟨sqliteOk, some st, some cSql.length, f, { c with failure := 0 }⟩ := by
    rw [List.drop_zero, prepareV2, hparse]
  rw [executeInner, hsql]
  dsimp only
  rw [executeLoop]
  simp only [hprep, ne_eq, not_true, if_false, List.isEmpty_nil, if_true, hcols]
  rw [stepRows_done hstep]
  simp

/-- The response of a script that has gone well. -/
def okResponse (c : Conn) (columns : List String) (rows : List (List Cell)) : Response :=
  executeResponse engine c (.ok (columns, rows))

def insertedFile : File := ⟨1, []⟩

/-- The connection after one row has been inserted. -/
def insertedConn : Conn := ⟨true, 1, 1, 0⟩

def insertedResponse : Response := okResponse insertedConn [] []

theorem execute_begin (hc : c.autocommit = true) :
    execute engine f c "BEGIN" [] =
      ⟨okResponse { c with autocommit := false, failure := 0 } [] [], f,
        { c with autocommit := false, failure := 0 }⟩ := by
  have hstep : step f { c with failure := 0 } .begin =
      ⟨sqliteDone, f, { c with autocommit := false, failure := 0 }, .begin⟩ := by
    simp [step, hc]
  have hinner : executeInner engine "BEGIN" [] f c =
      ⟨.ok ([], []), f, { c with autocommit := false, failure := 0 }⟩ := by
    rw [executeInner_done (show cString "BEGIN" = .ok (bytesOf "BEGIN") from rfl)
      (show parse (bytesOf "BEGIN") = .stmt .begin by decide) rfl (by rw [hstep]), hstep]
  rw [execute, hinner]
  rfl

theorem execute_insert :
    execute engine f c insertSql [] =
      ⟨okResponse ⟨c.autocommit, .ofNat (f.rows + 1), c.changed + 1, 0⟩ [] [],
        { f with rows := f.rows + 1 }, ⟨c.autocommit, .ofNat (f.rows + 1), c.changed + 1, 0⟩⟩ := by
  have hinner : executeInner engine insertSql [] f c =
      ⟨.ok ([], []), { f with rows := f.rows + 1 },
        ⟨c.autocommit, .ofNat (f.rows + 1), c.changed + 1, 0⟩⟩ :=
    executeInner_done (show cString insertSql = .ok (bytesOf insertSql) from rfl)
      (show parse (bytesOf insertSql) = .stmt .insert by decide) rfl rfl
  rw [execute, hinner]
  rfl

/-- The one row of a `SELECT` holds the text of the file. -/
theorem execute_select (htext : f.text.takeWhile (· ≠ 0) = f.text) :
    execute engine f c selectSql [] =
      ⟨okResponse { c with failure := 0 } ["text"] [[.text (lossyString f.text)]], f,
        { c with failure := 0 }⟩ := by
  have hprep : prepareV2 f c ((bytesOf selectSql).drop 0) =
      ⟨sqliteOk, some .select, some 21, f, { c with failure := 0 }⟩ := by
    rw [List.drop_zero, prepareV2]
    rfl
  have hrows : stepRows engine 1 f { c with failure := 0 } .select [] =
      ⟨(.row f.text, .ok [[.text (lossyString f.text)]]), f, { c with failure := 0 }⟩ := by
    rw [stepRows]
    have hrow : readRow engine (.row f.text) 1 = [.text (lossyString f.text)] := by
      change [Cell.text (lossyString (fromPtr f.text))] = _
      rw [fromPtr, htext]
    change stepRows engine 1 f { c with failure := 0 } (.row f.text)
      ([] ++ [readRow engine (.row f.text) 1]) = _
    rw [stepRows_done rfl, hrow]
    rfl
  have hinner : executeInner engine selectSql [] f c =
      ⟨.ok (["text"], [[.text (lossyString f.text)]]), f, { c with failure := 0 }⟩ := by
    rw [executeInner, show cString selectSql = .ok (bytesOf selectSql) from rfl]
    dsimp only
    rw [executeLoop]
    simp only [hprep, ne_eq, not_true, if_false, List.isEmpty_nil, if_true, columnCount]
    rw [hrows]
    rfl
  rw [execute, hinner]
  rfl

/-- Compiling a text that is no statement fails and changes no counter. -/
theorem prepareMeta_invalid (hsql : cString sql = .ok cSql) (hparse : parse cSql = .invalid) :
    prepareMeta engine f c sql =
      ⟨errorResponse c.autocommit 1 "SQL logic error", f, { c with failure := 1 }⟩ := by
  have hprep : prepareV2 f c cSql = ⟨1, none, some 0, f, { c with failure := 1 }⟩ := by
    rw [prepareV2, hparse]
  rw [prepareMeta, hsql]
  simp only [hprep]
  rfl

end Runs

end SqliteBroker.SmallSqlite
