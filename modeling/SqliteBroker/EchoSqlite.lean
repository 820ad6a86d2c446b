import SqliteBroker.SqlValues

/-!
An engine whose file is one row. Every text is a statement that returns that row, and a
statement keeps whatever is bound to its parameters.
-/
namespace SqliteBroker.EchoSqlite

open Utf8 Messages Engine Execution SqlValues

structure Stmt where
  params : Int32 → Value
  row : List Value
  onRow : Bool

namespace Stmt

def bind (st : Stmt) (i : Int32) (v : Value) : Int32 × Stmt :=
  (sqliteOk, { st with params := Function.update st.params i v })

def valueAt (st : Stmt) (i : Int32) : Value := st.row.getD i.toInt.toNat .null

def columnType (st : Stmt) (i : Int32) : Int32 :=
  match st.valueAt i with
  | .null => sqliteNull
  | .int _ => sqliteInteger
  | .real _ => sqliteFloat
  | .text _ => sqliteText
  | .blob _ => sqliteBlob

def columnInt64 (st : Stmt) (i : Int32) : Int64 :=
  match st.valueAt i with
  | .int v => v
  | _ => 0

def columnDouble (st : Stmt) (i : Int32) : F64 :=
  match st.valueAt i with
  | .real v => v
  | _ => F64.ofInt 0

def columnText (st : Stmt) (i : Int32) : Option Bytes :=
  match st.valueAt i with
  | .text bytes => some bytes
  | _ => none

def columnBlob (st : Stmt) (i : Int32) : Option Bytes :=
  match st.valueAt i with
  | .blob bytes => if bytes = [] then none else some bytes
  | _ => none

def columnBytes (st : Stmt) (i : Int32) : Int32 :=
  match st.valueAt i with
  | .text bytes => Int32.ofNat bytes.length
  | .blob bytes => Int32.ofNat bytes.length
  | _ => 0

end Stmt

def prepareV2 (f : List Value) (c : Unit) (sql : CStr) : Prepared (List Value) Unit Stmt :=
  if sql = [] then ⟨sqliteOk, none, some 0, f, c⟩
  else ⟨sqliteOk, some ⟨fun _ => .null, f, false⟩, some sql.length, f, c⟩

def step (f : List Value) (c : Unit) (st : Stmt) : Stepped (List Value) Unit Stmt :=
  if st.onRow then ⟨sqliteDone, f, c, st⟩ else ⟨sqliteRow, f, c, { st with onRow := true }⟩

abbrev engine : Sqlite where
  File := List Value
  Conn := Unit
  Stmt := Stmt
  connectionOpen f := (.ok (), f)
  busyTimeout c := .ok c
  closeConnection f _ := f
  isAutocommit _ := true
  changes _ := 0
  lastInsertRowid _ := 0
  totalChanges _ := 0
  errcode _ := 0
  errmsg _ := none
  prepareV2 := prepareV2
  bindNull st i := st.bind i .null
  bindInt64 st i v := st.bind i (.int v)
  bindDouble st i v := st.bind i (.real v)
  bindText st i bytes := st.bind i (.text bytes)
  bindBlob st i ptr := st.bind i (match ptr with
    | none => .null
    | some bytes => .blob bytes)
  bindParameterCount _ := 0
  bindParameterName _ _ := none
  columnCount st := Int32.ofNat st.row.length
  columnName _ _ := none
  columnDecltype _ _ := none
  step := step
  columnType := Stmt.columnType
  columnInt64 := Stmt.columnInt64
  columnDouble := Stmt.columnDouble
  columnBytes := Stmt.columnBytes
  columnBlob := Stmt.columnBlob
  columnText := Stmt.columnText
  finalize f c _ := (f, c)
  rowsLeft _ _ st := some (if st.onRow then 0 else 1)
  open_autocommit := fun _ _ _ => rfl
  busyTimeout_autocommit := fun _ _ _ => rfl
  prepare_autocommit := fun _ _ _ => rfl
  finalize_autocommit := fun _ _ _ => rfl
  step_row := by
    intro f c st n hleft h
    refine lt_rowsLeft hleft ?_
    cases hrow : st.onRow with
    | true =>
      rw [step, hrow] at h
      cases h
    | false => simp [step, hrow]
  step_endless := fun _ _ _ h => nomatch h

theorem stmt_of_prepare {f : List Value} {c : Unit} {sql : CStr} {st : Stmt}
    (h : (prepareV2 f c sql).stmt = some st) :
    sql ≠ [] ∧ (prepareV2 f c sql).tail = some sql.length := by
  unfold prepareV2 at h ⊢
  split at h
  · cases h
  · next hempty =>
    rw [if_neg hempty]
    exact ⟨hempty, rfl⟩

theorem blank_of_prepare {f : List Value} {c : Unit} {sql : CStr}
    (h : (prepareV2 f c sql).stmt = none) :
    sql = [] ∧ (prepareV2 f c sql).tail = some 0 := by
  unfold prepareV2 at h ⊢
  split at h
  · next hempty =>
    rw [if_pos hempty]
    exact ⟨hempty, rfl⟩
  · cases h

/-- The engine binds as SQLite documents it. -/
theorem binds : Binds engine Stmt.params where
  null _ _ _ := rfl
  int64 _ _ _ _ := rfl
  double _ _ _ _ := rfl
  text _ _ _ _ := rfl
  blob _ _ _ _ := rfl

theorem report {st : Stmt} {i : Int32} {v : Value} (h : st.row[i.toInt.toNat]? = some v) :
    (engineColumns engine st).Report i v := by
  have hv : st.valueAt i = v := by
    rw [Stmt.valueAt, List.getD_eq_getElem?_getD, h, Option.getD_some]
  cases v with
  | null =>
    change st.columnType i = _
    rw [Stmt.columnType, hv]
  | int v =>
    change st.columnType i = _ ∧ st.columnInt64 i = _
    rw [Stmt.columnType, Stmt.columnInt64, hv]
    exact ⟨rfl, rfl⟩
  | real v =>
    change st.columnType i = _ ∧ st.columnDouble i = _
    rw [Stmt.columnType, Stmt.columnDouble, hv]
    exact ⟨rfl, rfl⟩
  | text bytes =>
    change st.columnType i = _ ∧ st.columnText i = _ ∧ st.columnBytes i = _
    rw [Stmt.columnType, Stmt.columnText, Stmt.columnBytes, hv]
    exact ⟨rfl, rfl, rfl⟩
  | blob bytes =>
    change st.columnType i = _ ∧ st.columnBlob i = _ ∧ st.columnBytes i = _
    rw [Stmt.columnType, Stmt.columnBlob, Stmt.columnBytes, hv]
    exact ⟨rfl, rfl, rfl⟩

theorem onRow (st : Stmt) (hlen : st.row.length < 2 ^ 31) (hrow : ∀ v ∈ st.row, v.Storable) :
    OnRow engine st (Int32.ofNat st.row.length) st.row := by
  refine ⟨Int32.toInt_ofNat_of_lt hlen, fun i v hi => ⟨hrow v (List.mem_of_getElem? hi), ?_⟩⟩
  have hlt : i < st.row.length := (List.getElem?_eq_some_iff.mp hi).1
  apply report
  rw [Int32.toInt_ofNat_of_lt (by omega), Int.toNat_natCast]
  exact hi

end SqliteBroker.EchoSqlite
