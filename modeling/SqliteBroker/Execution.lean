import SqliteBroker.Engine

/-!
How the broker runs one request on a connection: `execute` for a script with its
parameters, `prepareMeta` for the first statement of a text. Both return the
response together with the file and the connection they leave.
-/
namespace SqliteBroker.Execution

open Utf8 Messages Engine

def lossyString (bytes : Bytes) : String := String.ofList (lossy bytes)

/-- `CString::new`: the bytes of a text without NUL. -/
def cString (text : String) : Except String CStr :=
  let bytes := encode text.toList
  match bytes.findIdx? (· = 0) with
  | some i => .error s!"nul byte found in provided data at position: {i}"
  | none => .ok bytes

/-- `CStr::from_ptr` on memory that may hold NUL bytes. -/
def fromPtr (bytes : Bytes) : CStr := bytes.takeWhile (· ≠ 0)

def cstrAt (ptr : Option CStr) : String := (ptr.map lossyString).getD ""

def upTo (n : Int32) : List Int32 := (List.range n.toInt.toNat).map Int32.ofNat

def okClosed : Response where
  ok := true
  message := ""
  code := 0
  columns := []
  rows := []
  changes := 0
  lastInsertRowid := 0
  autocommit := true
  tail := 0
  paramCount := 0
  paramNames := []
  decltypes := []
  totalChanges := 0
  empty := false

def errorResponse (autocommit : Bool) (code : Int32) (message : String) : Response where
  ok := false
  message := message
  code := code
  columns := []
  rows := []
  changes := 0
  lastInsertRowid := 0
  autocommit := autocommit
  tail := 0
  paramCount := 0
  paramNames := []
  decltypes := []
  totalChanges := 0
  empty := false

variable (S : Sqlite)

/-- A result with the file and the connection it leaves. -/
structure Outcome (α : Type) where
  result : α
  file : S.File
  conn : S.Conn

abbrev SqlError := Int32 × String

def sqliteError (c : S.Conn) : SqlError :=
  (if S.errcode c = 0 then 1 else S.errcode c,
    match S.errmsg c with
    | none => "sqlite error"
    | some msg => lossyString msg)

def bindOne (st : S.Stmt) (p : Param) : Except String (Int32 × S.Stmt) :=
  match p.value with
  | .null => .ok (S.bindNull st p.index)
  | .int v => .ok (S.bindInt64 st p.index v)
  | .real v => .ok (S.bindDouble st p.index v)
  | .text v => (cString v).map (S.bindText st p.index)
  | .blob v =>
    match Base64.decodeBase64 v with
    | none => .error s!"bind {p.index} blob is not base64"
    | some bytes => .ok (S.bindBlob st p.index (if bytes.isEmpty then none else some bytes))

/-- Binds in order and stops at the first failure; the statement is left as bound so far. -/
def bindAll : S.Stmt → List Param → S.Stmt × Except String Unit
  | st, [] => (st, .ok ())
  | st, p :: rest =>
    match bindOne S st p with
    | .error err => (st, .error err)
    | .ok (rc, st') =>
      if rc ≠ sqliteOk then (st', .error s!"bind {p.index} failed ({rc})")
      else bindAll st' rest

def readCell (st : S.Stmt) (i : Int32) : Cell :=
  let kind := S.columnType st i
  if kind = sqliteNull then .null
  else if kind = sqliteInteger then .int (S.columnInt64 st i)
  else if kind = sqliteFloat then .real (S.columnDouble st i)
  else if kind = sqliteBlob then
    let n := S.columnBytes st i
    match S.columnBlob st i with
    | none => .blob ""
    | some bytes =>
      if n ≤ 0 then .blob "" else .blob (Base64.encodeBase64 (bytes.take n.toInt.toNat))
  else
    match S.columnText st i with
    | none => .null
    | some bytes => .text (lossyString (fromPtr bytes))

def readRow (st : S.Stmt) (ncols : Int32) : List Cell := (upTo ncols).map (readCell S st)

/-- The inner loop of `execute_inner`: step until the statement gives no row. Rows without
end keep the program in this loop for ever; the error stands for that and is no answer. -/
def stepRows (ncols : Int32) (f : S.File) (c : S.Conn) (st : S.Stmt) (rows : List (List Cell)) :
    Outcome S (S.Stmt × Except SqlError (List (List Cell))) :=
  if hend : S.rowsLeft f c st = none then ⟨(st, .error (1, "rows without end")), f, c⟩
  else
    let out := S.step f c st
    if h : out.rc = sqliteRow then
      stepRows ncols out.file out.conn out.stmt (rows ++ [readRow S out.stmt ncols])
    else if out.rc = sqliteDone then ⟨(out.stmt, .ok rows), out.file, out.conn⟩
    else ⟨(out.stmt, .error (sqliteError S out.conn)), out.file, out.conn⟩
termination_by (S.rowsLeft f c st).getD 0
decreasing_by
  obtain ⟨n, hleft⟩ := Option.ne_none_iff_exists'.mp hend
  obtain ⟨m, hlt, hm⟩ := S.step_row f c st n hleft h
  rw [hm, hleft]
  exact hlt

def tailHasSql (tail : CStr) : Bool := (lossy tail).any (fun c => !isWhitespace c)

def columnNames (st : S.Stmt) (ncols : Int32) : List String :=
  (upTo ncols).map (fun i =>
    match S.columnName st i with
    | none => s!"col{i}"
    | some name => lossyString name)

/-- What `execute_inner` collects: the column names and the rows. -/
abbrev Collected := List String × List (List Cell)

/-- The outer loop of `execute_inner` at the offset `pos` of the text. -/
def executeLoop (sql : CStr) (params : List Param) (pos : ℕ) (columns : List String)
    (rows : List (List Cell)) (f : S.File) (c : S.Conn) : Outcome S (Except SqlError Collected) :=
  let limit := sql.length + 1
  let prep := S.prepareV2 f c (sql.drop pos)
  if prep.rc ≠ sqliteOk then ⟨.error (sqliteError S prep.conn), prep.file, prep.conn⟩
  else
    match prep.stmt with
    | none => ⟨.ok (columns, rows), prep.file, prep.conn⟩
    | some fresh =>
      let (st, bound) := if params.isEmpty then (fresh, .ok ()) else bindAll S fresh params
      match bound with
      | .error err =>
        let (f', c') := S.finalize prep.file prep.conn st
        ⟨.error (1, err), f', c'⟩
      | .ok () =>
        let ncols := S.columnCount st
        let columns' :=
          if columns.isEmpty ∧ 0 < ncols then columnNames S st ncols else columns
        let out := stepRows S ncols prep.file prep.conn st rows
        let (f', c') := S.finalize out.file out.conn out.result.1
        match out.result.2 with
        | .error err => ⟨.error err, f', c'⟩
        | .ok rows' =>
          match prep.tail with
          | none => ⟨.ok (columns', rows'), f', c'⟩
          | some n =>
            if (sql.drop (pos + n)).isEmpty then ⟨.ok (columns', rows'), f', c'⟩
            else if ¬ params.isEmpty then
              if tailHasSql (sql.drop (pos + n)) then
                ⟨.error (1, "bound parameters require a single statement"), f', c'⟩
              else ⟨.ok (columns', rows'), f', c'⟩
            else if h : n = 0 ∨ limit < pos + n then ⟨.ok (columns', rows'), f', c'⟩
            else executeLoop sql params (pos + n) columns' rows' f' c'
termination_by sql.length + 2 - pos
decreasing_by
  simp only [not_or, Nat.not_lt] at h
  omega

def executeInner (sql : String) (params : List Param) (f : S.File) (c : S.Conn) :
    Outcome S (Except SqlError Collected) :=
  match cString sql with
  | .error err => ⟨.error (1, err), f, c⟩
  | .ok cSql => executeLoop S cSql params 0 [] [] f c

/-- The two arms of `execute`, both filled from the connection as the script left it. -/
def executeResponse (conn : S.Conn) : Except SqlError Collected → Response
  | .ok (columns, rows) =>
    { ok := true, message := "", code := 0, columns, rows
      changes := S.changes conn, lastInsertRowid := S.lastInsertRowid conn
      autocommit := S.isAutocommit conn, tail := 0, paramCount := 0, paramNames := []
      decltypes := [], totalChanges := S.totalChanges conn, empty := false }
  | .error (code, message) =>
    { ok := false, message, code, columns := [], rows := []
      changes := 0, lastInsertRowid := S.lastInsertRowid conn
      autocommit := S.isAutocommit conn, tail := 0, paramCount := 0, paramNames := []
      decltypes := [], totalChanges := S.totalChanges conn, empty := false }

def execute (f : S.File) (c : S.Conn) (sql : String) (params : List Param) :
    Outcome S Response :=
  let out := executeInner S sql params f c
  ⟨executeResponse S out.conn out.result, out.file, out.conn⟩

def parameterNames (st : S.Stmt) (count : Int32) : List String :=
  (upTo count).map (fun i => cstrAt (S.bindParameterName st (i + 1)))

def prepareMeta (f : S.File) (c : S.Conn) (sql : String) : Outcome S Response :=
  let autocommit := S.isAutocommit c
  match cString sql with
  | .error err => ⟨errorResponse autocommit 1 err, f, c⟩
  | .ok cSql =>
    let prep := S.prepareV2 f c cSql
    if prep.rc ≠ sqliteOk then
      let (code, message) := sqliteError S prep.conn
      ⟨errorResponse autocommit code message, prep.file, prep.conn⟩
    else
      let tailOff := prep.tail.getD cSql.length
      match prep.stmt with
      | none =>
        { result :=
            { ok := true, message := "", code := 0, columns := [], rows := []
              changes := S.changes prep.conn, lastInsertRowid := S.lastInsertRowid prep.conn
              autocommit, tail := .ofNat tailOff, paramCount := 0, paramNames := []
              decltypes := [], totalChanges := S.totalChanges prep.conn, empty := true }
          file := prep.file
          conn := prep.conn }
      | some st =>
        let ncols := S.columnCount st
        let columns := (upTo ncols).map (fun i => cstrAt (S.columnName st i))
        let decltypes := (upTo ncols).map (fun i => cstrAt (S.columnDecltype st i))
        let paramCount := S.bindParameterCount st
        let paramNames := parameterNames S st paramCount
        let (f', c') := S.finalize prep.file prep.conn st
        { result :=
            { ok := true, message := "", code := 0, columns, rows := []
              changes := S.changes c', lastInsertRowid := S.lastInsertRowid c'
              autocommit, tail := .ofNat tailOff, paramCount, paramNames
              decltypes, totalChanges := S.totalChanges c', empty := false }
          file := f'
          conn := c' }

variable {S}

theorem executeResponse_live (conn : S.Conn) (result : Except SqlError Collected) :
    (executeResponse S conn result).autocommit = S.isAutocommit conn ∧
      (executeResponse S conn result).lastInsertRowid = S.lastInsertRowid conn ∧
      (executeResponse S conn result).totalChanges = S.totalChanges conn := by
  cases result <;> exact ⟨rfl, rfl, rfl⟩

/-- The response to an `exec` carries the connection's state as it is afterwards. -/
theorem execute_live (f : S.File) (c : S.Conn) (sql : String) (params : List Param) :
    (execute S f c sql params).result.autocommit =
        S.isAutocommit (execute S f c sql params).conn ∧
      (execute S f c sql params).result.lastInsertRowid =
        S.lastInsertRowid (execute S f c sql params).conn ∧
      (execute S f c sql params).result.totalChanges =
        S.totalChanges (execute S f c sql params).conn :=
  executeResponse_live _ _

/-- Compiling a text leaves autocommit mode as it is. -/
theorem prepareMeta_autocommit (f : S.File) (c : S.Conn) (sql : String) :
    S.isAutocommit (prepareMeta S f c sql).conn = S.isAutocommit c ∧
      (prepareMeta S f c sql).result.autocommit = S.isAutocommit c := by
  unfold prepareMeta
  cases cString sql with
  | error err => exact ⟨rfl, rfl⟩
  | ok cSql =>
    have hprep := S.prepare_autocommit f c cSql
    by_cases hrc : (S.prepareV2 f c cSql).rc ≠ sqliteOk
    · simp only [if_pos hrc]
      exact ⟨hprep, rfl⟩
    · simp only [if_neg hrc]
      cases (S.prepareV2 f c cSql).stmt with
      | none => exact ⟨hprep, rfl⟩
      | some st => exact ⟨(S.finalize_autocommit _ _ _).trans hprep, rfl⟩

end SqliteBroker.Execution
