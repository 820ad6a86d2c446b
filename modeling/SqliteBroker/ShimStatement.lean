import SqliteBroker.Decimal
import SqliteBroker.ShimConnection
import SqliteBroker.SqlValues

/-!
A prepared statement of the shim: what it keeps of its prepare, of its bindings and of
the rows of its last execution, and the calls of the C API on it. A call that asks the
broker takes the answer as an argument: the response, or the error code that the caller
finds in the handle after its `rpc` has failed. How doubles are printed and parsed is a
parameter, so nothing here depends on it.
-/
namespace SqliteBroker.ShimStatement

open Utf8 Messages Engine ShimConnection SqlValues
open Execution hiding sqliteError

def sqliteMisuse : Int32 := 21
def sqliteTooBig : Int32 := 18

/-- `Display` and `FromStr` of `f64`. -/
structure FloatText where
  display : F64 → String
  parse : String → Option F64

/-- Rust's `as i64`: it drops the fraction, saturates, and takes a NaN to zero. -/
def toInt64 (x : F64) : Int64 :=
  let e := ((x.bits >>> 52) &&& 0x7FF).toNat
  let m := (x.bits &&& 0xFFFFFFFFFFFFF).toNat
  let magnitude : ℕ :=
    if e < 1023 then 0
    else if 1075 ≤ e then (2 ^ 52 + m) <<< (e - 1075)
    else (2 ^ 52 + m) >>> (1075 - e)
  if e = 0x7FF ∧ m ≠ 0 then 0
  else if x.bits >>> 63 = 0 then Int64.ofInt (min magnitude (2 ^ 63 - 1))
  else Int64.ofInt (max (-magnitude) (-2 ^ 63))

example : toInt64 (F64.ofInt (-3)) = -3 := rfl

/-- The text at a pointer, up to its first NUL: the whole C string when `n` is negative,
at most `n` bytes otherwise. -/
def sqlFrom (sql : Option Bytes) (n : Int32) : String :=
  match sql with
  | none => ""
  | some bytes =>
    if n < 0 then lossyString (fromPtr bytes)
    else lossyString (fromPtr (bytes.take n.toInt.toNat))

structure ProxyStmt where
  sql : String
  params : List Param
  columns : List String
  decltypes : List (Option String)
  paramNames : List (Option String)
  paramCount : Int32
  rows : List (List Cell)
  texts : List String
  blobs : List Bytes
  pos : ℕ
  started : Bool
  failed : Bool
  lastStep : Int32
  deriving DecidableEq

/-- An empty name stands for a missing one. -/
def optionalName (name : String) : Option String :=
  if name = "" then none else some (cstringLossy name)

/-- The statement that `prepare_v2` makes of a text and the broker's response to it. -/
def ProxyStmt.create (sql : String) (resp : Response) : ProxyStmt where
  sql := sql
  params := []
  columns := resp.columns.map cstringLossy
  decltypes := resp.decltypes.map optionalName
  paramNames := resp.paramNames.map optionalName
  paramCount := resp.paramCount
  rows := []
  texts := []
  blobs := []
  pos := 0
  started := false
  failed := false
  lastStep := 0

/-- What `prepare_v2` returns: `tail` is the offset written to `*pzTail`, `none` when it
is left as it was. -/
structure PreparedStmt where
  rc : Int32
  stmt : Option ProxyStmt
  tail : Option ℕ
  deriving DecidableEq

/-- The text that `prepare_v2` sends. -/
def prepareText (sql : Option Bytes) (nbytes : Int32) : String := sqlFrom sql nbytes

def prepareV2 (sql : Option Bytes) (nbytes : Int32) (answer : Except Int32 Response) :
    PreparedStmt :=
  match sql with
  | none => ⟨sqliteMisuse, none, none⟩
  | some bytes =>
    let text := prepareText sql nbytes
    match answer with
    | .error errcode =>
      ⟨errcode, none, if nbytes < 0 then some (fromPtr bytes).length else none⟩
    | .ok resp =>
      let tail := min resp.tail.toNat (byteLen text.toList)
      if resp.empty then ⟨sqliteOk, none, some tail⟩
      else if tail = 0 then ⟨sqliteOk, some (.create text resp), some tail⟩
      else
        match sliceTo text.toList tail with
        -- slicing inside a character panics, and the guard makes an error of it
        | none => ⟨sqliteError, none, some tail⟩
        | some stmtSql => ⟨sqliteOk, some (.create (String.ofList stmtSql) resp), some tail⟩

section Bindings

/-- The destructor that comes with a bound buffer. -/
inductive Destructor
  | static
  | transient
  | function
  deriving DecidableEq

/-- How often the destructor is called. -/
def releaseDestructor (dtor : Destructor) (ptr : Option Bytes) : ℕ :=
  match dtor, ptr with
  | .function, some _ => 1
  | _, _ => 0

def upsertParam : List Param → Int32 → Cell → List Param
  | [], index, value => [⟨index, value⟩]
  | p :: rest, index, value =>
    if p.index = index then ⟨p.index, value⟩ :: rest else p :: upsertParam rest index value

/-- What a bind leaves: its code, the statement, and the calls of the destructor. -/
structure Bound where
  rc : Int32
  stmt : ProxyStmt
  released : ℕ
  deriving DecidableEq

/-- The bind functions behind their own checks, which give the cell to store or the code
to refuse it with. -/
def bindCell (stmt : ProxyStmt) (index : Int32) (value : Except Int32 Cell) (released : ℕ) :
    Bound :=
  if stmt.started ∨ index ≤ 0 then ⟨sqliteMisuse, stmt, 0⟩
  else
    match value with
    | .error code => ⟨code, stmt, released⟩
    | .ok cell => ⟨sqliteOk, { stmt with params := upsertParam stmt.params index cell }, released⟩

def bindText (stmt : ProxyStmt) (index : Int32) (value : Option Bytes) (n : Int32)
    (dtor : Destructor) : Bound :=
  bindCell stmt index
    (match value with
      | none => .ok .null
      | some _ => .ok (.text (sqlFrom value n)))
    (releaseDestructor dtor value)

def bindBlob (stmt : ProxyStmt) (index : Int32) (value : Option Bytes) (n : Int32)
    (dtor : Destructor) : Bound :=
  bindCell stmt index
    (if value = none ∧ 0 < n then .error sqliteMisuse
    else if n < 0 then .error sqliteTooBig
    else .ok (.blob (Base64.encodeBase64 ((value.getD []).take n.toInt.toNat))))
    (releaseDestructor dtor value)

def bindZeroblob (stmt : ProxyStmt) (index n : Int32) : Bound :=
  bindCell stmt index
    (if n < 0 ∨ 8 * 1024 * 1024 < n then .error sqliteTooBig
    else .ok (.blob (Base64.encodeBase64 (List.replicate n.toInt.toNat 0))))
    0

def bindDouble (stmt : ProxyStmt) (index : Int32) (value : F64) : Bound :=
  bindCell stmt index (.ok (.real value)) 0

def bindInt64 (stmt : ProxyStmt) (index : Int32) (value : Int64) : Bound :=
  bindCell stmt index (.ok (.int value)) 0

def bindInt (stmt : ProxyStmt) (index value : Int32) : Bound :=
  bindInt64 stmt index value.toInt64

def bindNull (stmt : ProxyStmt) (index : Int32) : Bound := bindCell stmt index (.ok .null) 0

/-- A call of one of the bind functions. -/
inductive BindCall
  | text (value : Option Bytes) (n : Int32) (dtor : Destructor)
  | blob (value : Option Bytes) (n : Int32) (dtor : Destructor)
  | zeroblob (n : Int32)
  | double (value : F64)
  | int64 (value : Int64)
  | int (value : Int32)
  | null

def BindCall.run (stmt : ProxyStmt) (index : Int32) : BindCall → Bound
  | .text value n dtor => bindText stmt index value n dtor
  | .blob value n dtor => bindBlob stmt index value n dtor
  | .zeroblob n => bindZeroblob stmt index n
  | .double value => bindDouble stmt index value
  | .int64 value => bindInt64 stmt index value
  | .int value => bindInt stmt index value
  | .null => bindNull stmt index

/-- Every bind is `bindCell` with what its own checks give. -/
theorem BindCall.run_eq (call : BindCall) : ∃ value released,
    ∀ stmt index, call.run stmt index = bindCell stmt index value released := by
  cases call with
  | text value n dtor => exact ⟨_, _, fun _ _ => rfl⟩
  | blob value n dtor => exact ⟨_, _, fun _ _ => rfl⟩
  | zeroblob n => exact ⟨_, _, fun _ _ => rfl⟩
  | double value => exact ⟨.ok (.real value), 0, fun _ _ => rfl⟩
  | int64 value => exact ⟨.ok (.int value), 0, fun _ _ => rfl⟩
  | int value => exact ⟨.ok (.int value.toInt64), 0, fun _ _ => rfl⟩
  | null => exact ⟨.ok .null, 0, fun _ _ => rfl⟩

end Bindings

variable (floats : FloatText)

/-- `Cell::render`. -/
def render : Cell → String
  | .null => ""
  | .int v => toString v
  | .real v => floats.display v
  | .text v => v
  | .blob v => ((Base64.decodeBase64 v).map lossyString).getD ""

def blobBytes : Cell → Option Bytes
  | .blob v => Base64.decodeBase64 v
  | _ => none

/-- The entry of a cell in `texts`. -/
def cachedText (cell : Cell) : String :=
  match cell with
  | .blob _ => cstringLossy (lossyString ((blobBytes cell).getD []))
  | other => cstringLossy (render floats other)

/-- The entry of a cell in `blobs`. -/
def cachedBlob (cell : Cell) : Bytes := (blobBytes cell).getD []

namespace ProxyStmt

def clearBindings (stmt : ProxyStmt) : ProxyStmt := { stmt with params := [] }

def reset (stmt : ProxyStmt) : ProxyStmt :=
  { stmt with
    started := false, failed := false, rows := [], texts := [], blobs := [], pos := 0,
    lastStep := 0 }

/-- The request that the next step sends, if it sends one. -/
def request (stmt : ProxyStmt) : Option Request :=
  if stmt.started then none else some (.exec stmt.sql stmt.params)

/-- `step_stmt` on the response to its request. -/
def executed (stmt : ProxyStmt) (resp : Response) : ProxyStmt :=
  { stmt with
    columns := if resp.columns = [] then stmt.columns else resp.columns.map cstringLossy
    rows := resp.rows
    pos := 0
    failed := false
    started := true }

def cacheRow (stmt : ProxyStmt) : ProxyStmt :=
  match stmt.rows[stmt.pos - 1]? with
  | none => { stmt with texts := [], blobs := [] }
  | some row => { stmt with texts := row.map (cachedText floats), blobs := row.map cachedBlob }

/-- The end of `step_stmt`, for a statement that has been executed. -/
def advance (stmt : ProxyStmt) : Int32 × ProxyStmt :=
  if stmt.failed then (if stmt.lastStep = 0 then sqliteError else stmt.lastStep, stmt)
  else if stmt.pos < stmt.rows.length then
    (sqliteRow, { cacheRow floats { stmt with pos := stmt.pos + 1 } with lastStep := sqliteRow })
  else (sqliteDone, { stmt with lastStep := sqliteDone })

def step (stmt : ProxyStmt) (answer : Except Int32 Response) : Int32 × ProxyStmt :=
  if stmt.started then stmt.advance floats
  else
    match answer with
    | .ok resp => (stmt.executed resp).advance floats
    | .error errcode =>
      let code := if errcode = 0 then sqliteError else errcode
      (code, { stmt with failed := true, started := true, lastStep := code })

def cellAt (stmt : ProxyStmt) (index : Int32) : Option Cell :=
  if stmt.lastStep ≠ sqliteRow ∨ stmt.pos = 0 ∨ index < 0 then none
  else stmt.rows[stmt.pos - 1]?.bind (fun row => row[index.toInt.toNat]?)

/-- The bytes of an entry of `texts`; `none` is the null pointer. -/
def textPtr (stmt : ProxyStmt) (index : Int32) : Option Bytes :=
  if index < 0 then none
  else stmt.texts[index.toInt.toNat]?.map (fun text => encode text.toList)

def columnType (stmt : ProxyStmt) (i : Int32) : Int32 :=
  match stmt.cellAt i with
  | some .null => sqliteNull
  | none => sqliteNull
  | some (.int _) => sqliteInteger
  | some (.real _) => sqliteFloat
  | some (.text _) => sqliteText
  | some (.blob _) => sqliteBlob

def columnInt64 (stmt : ProxyStmt) (i : Int32) : Int64 :=
  match stmt.cellAt i with
  | some (.int v) => v
  | some (.real v) => toInt64 v
  | some (.text v) => ((Decimal.parseSigned 64 v.toList).map Int64.ofInt).getD 0
  | _ => 0

def columnDouble (stmt : ProxyStmt) (i : Int32) : F64 :=
  match stmt.cellAt i with
  | some (.real v) => v
  | some (.int v) => F64.ofInt v.toInt
  | some (.text v) => (floats.parse v).getD (F64.ofInt 0)
  | _ => F64.ofInt 0

def columnBytes (stmt : ProxyStmt) (i : Int32) : Int32 :=
  match stmt.cellAt i with
  | some (.blob _) => (stmt.blobs[i.toInt.toNat]?.map (fun b => Int32.ofNat b.length)).getD 0
  | some .null => 0
  | none => 0
  | some _ =>
    (stmt.texts[i.toInt.toNat]?.map (fun text => Int32.ofNat (byteLen text.toList))).getD 0

def columnBlob (stmt : ProxyStmt) (i : Int32) : Option Bytes :=
  match stmt.cellAt i with
  | some (.blob _) => (stmt.blobs[i.toInt.toNat]?).filter (fun bytes => !bytes.isEmpty)
  | some .null => none
  | none => none
  | some _ => stmt.textPtr i

def columnText (stmt : ProxyStmt) (i : Int32) : Option Bytes :=
  match stmt.cellAt i with
  | some .null => none
  | none => none
  | some _ => stmt.textPtr i

def columnCount (stmt : ProxyStmt) : Int32 := Int32.ofNat stmt.columns.length

def dataCount (stmt : ProxyStmt) : Int32 :=
  if stmt.lastStep = sqliteRow then stmt.columnCount else 0

def stmtBusy (stmt : ProxyStmt) : Bool := stmt.lastStep = sqliteRow

/-- The column functions of the shim. -/
def accessors (stmt : ProxyStmt) : Columns where
  type := stmt.columnType
  int64 := stmt.columnInt64
  double := stmt.columnDouble floats
  text := stmt.columnText
  bytes := stmt.columnBytes
  blob := stmt.columnBlob

end ProxyStmt

end SqliteBroker.ShimStatement
