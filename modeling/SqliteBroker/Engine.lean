import SqliteBroker.Messages
import Mathlib.Data.List.Infix
import Mathlib.Data.Nat.Find

/-!
The SQLite library and rusqlite as the broker calls them. The file is shared by
all connections; a connection carries its own state, its transaction included.
Every function is a parameter, so any behaviour of the SQL is allowed; random or
failing behaviour is a choice kept in the file. Assumed is what SQLite documents:
a new connection is in autocommit mode, and compiling and finalizing leave that mode
alone. A statement may have rows without end, as a recursive query without a limit has.
-/
namespace SqliteBroker.Engine

open Utf8 Messages

abbrev CStr := Bytes

def sqliteOk : Int32 := 0
def sqliteRow : Int32 := 100
def sqliteDone : Int32 := 101
def sqliteInteger : Int32 := 1
def sqliteFloat : Int32 := 2
def sqliteBlob : Int32 := 4
def sqliteNull : Int32 := 5

/-- The outcome of `sqlite3_prepare_v2`: `stmt` is `none` for a null statement and
`tail` the offset of `*pzTail` in the text, `none` for a null pointer. -/
structure Prepared (File Conn Stmt : Type) where
  rc : Int32
  stmt : Option Stmt
  tail : Option ℕ
  file : File
  conn : Conn

structure Stepped (File Conn Stmt : Type) where
  rc : Int32
  file : File
  conn : Conn
  stmt : Stmt

structure Sqlite where
  File : Type
  Conn : Type
  Stmt : Type
  connectionOpen : File → Except String Conn × File
  busyTimeout : Conn → Except String Conn
  closeConnection : File → Conn → File
  isAutocommit : Conn → Bool
  changes : Conn → Int32
  lastInsertRowid : Conn → Int64
  totalChanges : Conn → Int32
  errcode : Conn → Int32
  errmsg : Conn → Option CStr
  prepareV2 : File → Conn → CStr → Prepared File Conn Stmt
  bindNull : Stmt → Int32 → Int32 × Stmt
  bindInt64 : Stmt → Int32 → Int64 → Int32 × Stmt
  bindDouble : Stmt → Int32 → F64 → Int32 × Stmt
  bindText : Stmt → Int32 → CStr → Int32 × Stmt
  /-- The bytes are `none` for a null pointer. -/
  bindBlob : Stmt → Int32 → Option Bytes → Int32 × Stmt
  bindParameterCount : Stmt → Int32
  bindParameterName : Stmt → Int32 → Option CStr
  columnCount : Stmt → Int32
  columnName : Stmt → Int32 → Option CStr
  columnDecltype : Stmt → Int32 → Option CStr
  step : File → Conn → Stmt → Stepped File Conn Stmt
  columnType : Stmt → Int32 → Int32
  columnInt64 : Stmt → Int32 → Int64
  columnDouble : Stmt → Int32 → F64
  columnBytes : Stmt → Int32 → Int32
  columnBlob : Stmt → Int32 → Option Bytes
  /-- The memory behind `sqlite3_column_text` before its final terminator. -/
  columnText : Stmt → Int32 → Option Bytes
  finalize : File → Conn → Stmt → File × Conn
  /-- How many rows a statement still gives, `none` for rows without end. Every step
  function has such a count, so nothing is assumed by it. -/
  rowsLeft : File → Conn → Stmt → Option ℕ
  open_autocommit : ∀ f c, (connectionOpen f).1 = .ok c → isAutocommit c = true
  busyTimeout_autocommit : ∀ c c', busyTimeout c = .ok c' → isAutocommit c' = isAutocommit c
  prepare_autocommit : ∀ f c sql, isAutocommit (prepareV2 f c sql).conn = isAutocommit c
  finalize_autocommit : ∀ f c st, isAutocommit (finalize f c st).2 = isAutocommit c
  step_row : ∀ f c st n, rowsLeft f c st = some n → (step f c st).rc = sqliteRow →
    ∃ m, m < n ∧ rowsLeft (step f c st).file (step f c st).conn (step f c st).stmt = some m
  step_endless : ∀ f c st, rowsLeft f c st = none → (step f c st).rc = sqliteRow ∧
    rowsLeft (step f c st).file (step f c st).conn (step f c st).stmt = none

section RowsLeft

variable {File Conn Stmt : Type}

/-- The step after `n` others. -/
def stepAfter (step : File → Conn → Stmt → Stepped File Conn Stmt) :
    ℕ → File → Conn → Stmt → Stepped File Conn Stmt
  | 0, f, c, st => step f c st
  | n + 1, f, c, st =>
    let out := step f c st
    stepAfter step n out.file out.conn out.stmt

/-- The count of the rows that are left asks nothing of the step function. -/
theorem rowsLeft_exists (step : File → Conn → Stmt → Stepped File Conn Stmt) :
    ∃ rowsLeft : File → Conn → Stmt → Option ℕ,
      (∀ f c st n, rowsLeft f c st = some n → (step f c st).rc = sqliteRow →
        ∃ m, m < n ∧
          rowsLeft (step f c st).file (step f c st).conn (step f c st).stmt = some m) ∧
      ∀ f c st, rowsLeft f c st = none → (step f c st).rc = sqliteRow ∧
        rowsLeft (step f c st).file (step f c st).conn (step f c st).stmt = none := by
  classical
  let Stops : File → Conn → Stmt → Prop := fun f c st =>
    ∃ n, (stepAfter step n f c st).rc ≠ sqliteRow
  refine ⟨fun f c st => if h : Stops f c st then some (Nat.find h) else none, ?_, ?_⟩
  · intro f c st n hleft hrc
    dsimp only at hleft ⊢
    split at hleft
    · next hstops =>
      cases hleft
      have hfound := Nat.find_spec hstops
      cases hfirst : Nat.find hstops with
      | zero =>
        rw [hfirst] at hfound
        exact absurd hrc hfound
      | succ k =>
        rw [hfirst] at hfound
        have hnext : Stops (step f c st).file (step f c st).conn (step f c st).stmt :=
          ⟨k, hfound⟩
        rw [dif_pos hnext]
        exact ⟨_, Nat.lt_succ_of_le (Nat.find_min' hnext hfound), rfl⟩
    · cases hleft
  · intro f c st hleft
    dsimp only at hleft ⊢
    split at hleft
    · cases hleft
    · next hnever =>
      refine ⟨by_contra fun hrc => hnever ⟨0, hrc⟩, ?_⟩
      rw [dif_neg]
      rintro ⟨n, hn⟩
      exact hnever ⟨n + 1, hn⟩

end RowsLeft

/-- A statement that steps as one with rows without end has rows without end. -/
theorem endless_of_alike {S T : Sqlite}
    {R : S.File → S.Conn → S.Stmt → T.File → T.Conn → T.Stmt → Prop}
    (hstep : ∀ f c st f' c' st', R f c st f' c' st' →
      (S.step f c st).rc = (T.step f' c' st').rc ∧
        R (S.step f c st).file (S.step f c st).conn (S.step f c st).stmt
          (T.step f' c' st').file (T.step f' c' st').conn (T.step f' c' st').stmt)
    {f : S.File} {c : S.Conn} {st : S.Stmt} {f' : T.File} {c' : T.Conn} {st' : T.Stmt}
    (h : R f c st f' c' st') (hend : T.rowsLeft f' c' st' = none) :
    S.rowsLeft f c st = none := by
  by_contra hsome
  obtain ⟨n, hn⟩ := Option.ne_none_iff_exists'.mp hsome
  clear hsome
  induction n using Nat.strongRecOn generalizing f c st f' c' st' with
  | ind n ih =>
    obtain ⟨hrc, hnext⟩ := hstep f c st f' c' st' h
    obtain ⟨hrow, hrest⟩ := T.step_endless f' c' st' hend
    obtain ⟨m, hlt, hm⟩ := S.step_row f c st n hn (hrc.trans hrow)
    exact ih m hlt hnext hrest hm

/-- The law of an engine whose statements all have finitely many rows. -/
theorem lt_rowsLeft {left next n : ℕ} (h : some left = some n) (hlt : next < left) :
    ∃ m, m < n ∧ some next = some m := by
  cases h
  exact ⟨next, hlt, rfl⟩

def toAsciiLowercase (s : String) : List Char := s.toList.map Char.toLower

/-- The errors that `open_storage` waits out. -/
def isLocked (err : String) : Bool :=
  decide ("locked".toList <:+: toAsciiLowercase err) ||
    decide ("busy".toList <:+: toAsciiLowercase err)

/-- `open_storage` with the attempts it has left and the error of the last one. -/
def openAttempts (S : Sqlite) : ℕ → Option String → S.File → Except String S.Conn × S.File
  | 0, last, f => (.error (last.getD "unable to open storage"), f)
  | n + 1, _, f =>
    match S.connectionOpen f with
    | (.ok conn, f') =>
      match S.busyTimeout conn with
      | .ok conn' => (.ok conn', f')
      | .error err => (.error err, S.closeConnection f' conn)
    | (.error err, f') =>
      if isLocked err then openAttempts S n (some err) f' else (.error err, f')

def openStorage (S : Sqlite) (f : S.File) : Except String S.Conn × S.File :=
  openAttempts S 50 none f

theorem openAttempts_autocommit (S : Sqlite) (n : ℕ) (last : Option String) (f : S.File)
    (c : S.Conn) (h : (openAttempts S n last f).1 = .ok c) : S.isAutocommit c = true := by
  induction n generalizing last f with
  | zero => cases h
  | succ n ih =>
    unfold openAttempts at h
    split at h
    · next conn f' hopen =>
      have hfresh : S.isAutocommit conn = true := S.open_autocommit f conn (by rw [hopen])
      split at h
      · next conn' hbusy =>
        cases h
        rw [S.busyTimeout_autocommit _ _ hbusy]
        exact hfresh
      · cases h
    · split at h
      · exact ih _ _ h
      · cases h

/-- A connection fresh from `open_storage` has no transaction. -/
theorem openStorage_autocommit (S : Sqlite) (f : S.File) (c : S.Conn)
    (h : (openStorage S f).1 = .ok c) : S.isAutocommit c = true :=
  openAttempts_autocommit S 50 none f c h

end SqliteBroker.Engine
