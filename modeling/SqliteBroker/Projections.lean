import SqliteBroker.Execution

/-!
Two engines, the first of which does what the second does and keeps more. The broker makes
the same of both.
-/
namespace SqliteBroker.Projections

open Messages Engine Execution

/-- The states of `T` forgotten down to those of `S`; every function commutes with that. -/
structure Projection (T S : Sqlite) where
  file : T.File → S.File
  conn : T.Conn → S.Conn
  stmt : T.Stmt → S.Stmt
  isAutocommit : ∀ c, S.isAutocommit (conn c) = T.isAutocommit c
  changes : ∀ c, S.changes (conn c) = T.changes c
  lastInsertRowid : ∀ c, S.lastInsertRowid (conn c) = T.lastInsertRowid c
  totalChanges : ∀ c, S.totalChanges (conn c) = T.totalChanges c
  errcode : ∀ c, S.errcode (conn c) = T.errcode c
  errmsg : ∀ c, S.errmsg (conn c) = T.errmsg c
  prepareV2 : ∀ f c sql, S.prepareV2 (file f) (conn c) sql =
    ⟨(T.prepareV2 f c sql).rc, (T.prepareV2 f c sql).stmt.map stmt, (T.prepareV2 f c sql).tail,
      file (T.prepareV2 f c sql).file, conn (T.prepareV2 f c sql).conn⟩
  bindNull : ∀ st i, S.bindNull (stmt st) i = (T.bindNull st i).map id stmt
  bindInt64 : ∀ st i v, S.bindInt64 (stmt st) i v = (T.bindInt64 st i v).map id stmt
  bindDouble : ∀ st i v, S.bindDouble (stmt st) i v = (T.bindDouble st i v).map id stmt
  bindText : ∀ st i v, S.bindText (stmt st) i v = (T.bindText st i v).map id stmt
  bindBlob : ∀ st i v, S.bindBlob (stmt st) i v = (T.bindBlob st i v).map id stmt
  bindParameterCount : ∀ st, S.bindParameterCount (stmt st) = T.bindParameterCount st
  bindParameterName : ∀ st, S.bindParameterName (stmt st) = T.bindParameterName st
  columnCount : ∀ st, S.columnCount (stmt st) = T.columnCount st
  columnName : ∀ st, S.columnName (stmt st) = T.columnName st
  columnDecltype : ∀ st, S.columnDecltype (stmt st) = T.columnDecltype st
  step : ∀ f c st, S.step (file f) (conn c) (stmt st) =
    ⟨(T.step f c st).rc, file (T.step f c st).file, conn (T.step f c st).conn,
      stmt (T.step f c st).stmt⟩
  columnType : ∀ st, S.columnType (stmt st) = T.columnType st
  columnInt64 : ∀ st, S.columnInt64 (stmt st) = T.columnInt64 st
  columnDouble : ∀ st, S.columnDouble (stmt st) = T.columnDouble st
  columnBytes : ∀ st, S.columnBytes (stmt st) = T.columnBytes st
  columnBlob : ∀ st, S.columnBlob (stmt st) = T.columnBlob st
  columnText : ∀ st, S.columnText (stmt st) = T.columnText st
  finalize : ∀ f c st,
    S.finalize (file f) (conn c) (stmt st) = (T.finalize f c st).map file conn

namespace Projection

variable {T S : Sqlite} (p : Projection T S)

/-- The same result, and the state it leaves as `S` has it. -/
def outcome {α β : Type} (r : α → β) (out : Outcome T α) : Outcome S β :=
  ⟨r out.result, p.file out.file, p.conn out.conn⟩

theorem sqliteError (c : T.Conn) :
    Execution.sqliteError S (p.conn c) = Execution.sqliteError T c := by
  rw [Execution.sqliteError, p.errcode, p.errmsg, Execution.sqliteError]

theorem bindOne (st : T.Stmt) (param : Param) : Execution.bindOne S (p.stmt st) param =
    (Execution.bindOne T st param).map (Prod.map id p.stmt) := by
  obtain ⟨i, cell⟩ := param
  cases cell with
  | null => exact congrArg Except.ok (p.bindNull st i)
  | int v => exact congrArg Except.ok (p.bindInt64 st i v)
  | real v => exact congrArg Except.ok (p.bindDouble st i v)
  | text v =>
    change (cString v).map (S.bindText (p.stmt st) i) =
      ((cString v).map (T.bindText st i)).map (Prod.map id p.stmt)
    cases cString v with
    | error err => rfl
    | ok bytes => exact congrArg Except.ok (p.bindText st i bytes)
  | blob v =>
    simp only [Execution.bindOne]
    cases Base64.decodeBase64 v with
    | none => rfl
    | some bytes => exact congrArg Except.ok (p.bindBlob st i _)

theorem bindAll (st : T.Stmt) (params : List Param) :
    Execution.bindAll S (p.stmt st) params =
      (Execution.bindAll T st params).map p.stmt id := by
  induction params generalizing st with
  | nil => rfl
  | cons param rest ih =>
    rw [Execution.bindAll, Execution.bindAll, p.bindOne]
    cases Execution.bindOne T st param with
    | error err => rfl
    | ok bound =>
      obtain ⟨rc, mid⟩ := bound
      simp only [Except.map, Prod.map, id]
      split
      · rfl
      · exact ih mid

theorem readRow (st : T.Stmt) (ncols : Int32) :
    Execution.readRow S (p.stmt st) ncols = Execution.readRow T st ncols := by
  unfold Execution.readRow
  apply List.map_congr_left
  intro i _
  simp only [readCell, p.columnType, p.columnInt64, p.columnDouble, p.columnBytes,
    p.columnBlob, p.columnText]

/-- A statement and its image both have rows without end, or neither. -/
theorem rowsLeft (f : T.File) (c : T.Conn) (st : T.Stmt) :
    S.rowsLeft (p.file f) (p.conn c) (p.stmt st) = none ↔ T.rowsLeft f c st = none := by
  constructor
  · refine endless_of_alike (S := T) (T := S)
      (R := fun f c st f' c' st' => f' = p.file f ∧ c' = p.conn c ∧ st' = p.stmt st) ?_
      ⟨rfl, rfl, rfl⟩
    rintro f c st _ _ _ ⟨rfl, rfl, rfl⟩
    rw [p.step]
    exact ⟨rfl, rfl, rfl, rfl⟩
  · refine endless_of_alike (S := S) (T := T)
      (R := fun f c st f' c' st' => f = p.file f' ∧ c = p.conn c' ∧ st = p.stmt st') ?_
      ⟨rfl, rfl, rfl⟩
    rintro _ _ _ f c st ⟨rfl, rfl, rfl⟩
    rw [p.step]
    exact ⟨rfl, rfl, rfl, rfl⟩

theorem stepRows (ncols : Int32) (f : T.File) (c : T.Conn) (st : T.Stmt)
    (rows : List (List Cell)) :
    Execution.stepRows S ncols (p.file f) (p.conn c) (p.stmt st) rows =
      p.outcome (Prod.map p.stmt id) (Execution.stepRows T ncols f c st rows) := by
  fun_induction Execution.stepRows T ncols f c st rows with
  | case1 f c st rows hend =>
    rw [stepRows.eq_def S, dif_pos ((p.rowsLeft f c st).mpr hend)]
    rfl
  | case2 f c st rows hend out hrow ih =>
    rw [stepRows.eq_def S, dif_neg (mt (p.rowsLeft f c st).mp hend)]
    simp only [p.step, p.readRow]
    rw [dif_pos hrow]
    exact ih
  | case3 f c st rows hend out hrow hdone =>
    rw [stepRows.eq_def S, dif_neg (mt (p.rowsLeft f c st).mp hend)]
    simp only [p.step]
    rw [dif_neg hrow, if_pos hdone]
    rfl
  | case4 f c st rows hend out hrow hdone =>
    rw [stepRows.eq_def S, dif_neg (mt (p.rowsLeft f c st).mp hend)]
    simp only [p.step, p.sqliteError]
    rw [dif_neg hrow, if_neg hdone]
    rfl

theorem columnNames (st : T.Stmt) (ncols : Int32) :
    Execution.columnNames S (p.stmt st) ncols = Execution.columnNames T st ncols := by
  rw [Execution.columnNames, Execution.columnNames, p.columnName]

theorem executeLoop (sql : CStr) (params : List Param) (pos : ℕ) (columns : List String)
    (rows : List (List Cell)) (f : T.File) (c : T.Conn) :
    Execution.executeLoop S sql params pos columns rows (p.file f) (p.conn c) =
      p.outcome id (Execution.executeLoop T sql params pos columns rows f c) := by
  induction h : sql.length + 2 - pos using Nat.strongRecOn
    generalizing pos columns rows f c with
  | ind n ih =>
    rw [executeLoop.eq_def S, executeLoop.eq_def T]
    simp only [p.prepareV2]
    generalize T.prepareV2 f c (sql.drop pos) = prep
    by_cases hrc : prep.rc ≠ sqliteOk
    · rw [if_pos hrc, if_pos hrc, p.sqliteError]
      rfl
    rw [if_neg hrc, if_neg hrc]
    cases prep.stmt with
    | none => rfl
    | some fresh =>
      simp only [Option.map_some]
      have hbound : (if params.isEmpty = true then (p.stmt fresh, Except.ok ())
          else Execution.bindAll S (p.stmt fresh) params) =
          (if params.isEmpty = true then (fresh, Except.ok ())
            else Execution.bindAll T fresh params).map p.stmt id := by
        split
        · rfl
        · exact p.bindAll fresh params
      rw [hbound]
      generalize (if params.isEmpty = true then (fresh, Except.ok ())
        else Execution.bindAll T fresh params) = bound
      obtain ⟨st, bound⟩ := bound
      cases bound with
      | error err =>
        simp only [Prod.map, id, p.finalize]
        rfl
      | ok u =>
        simp only [Prod.map, id, p.columnCount, p.columnNames, p.stepRows, outcome]
        generalize Execution.stepRows T (T.columnCount st) prep.file prep.conn st rows = done
        obtain ⟨⟨left, result⟩, f', c'⟩ := done
        simp only [p.finalize, Prod.map]
        cases result with
        | error err => rfl
        | ok rows' =>
          cases prep.tail with
          | none => rfl
          | some k =>
            dsimp only
            by_cases hend : (sql.drop (pos + k)).isEmpty = true
            · simp only [if_pos hend]
            simp only [if_neg hend]
            by_cases hparams : ¬ params.isEmpty = true
            · simp only [if_pos hparams]
              by_cases hmore : tailHasSql (sql.drop (pos + k)) = true
              · simp only [if_pos hmore]
              · simp only [if_neg hmore]
            simp only [if_neg hparams]
            by_cases hstuck : k = 0 ∨ sql.length + 1 < pos + k
            · simp only [dif_pos hstuck]
            simp only [dif_neg hstuck]
            exact ih _ (by omega) _ _ _ _ _ rfl

/-- The broker answers a script alike and leaves the same state. -/
theorem execute (f : T.File) (c : T.Conn) (sql : String) (params : List Param) :
    Execution.execute S (p.file f) (p.conn c) sql params =
      p.outcome id (Execution.execute T f c sql params) := by
  rw [Execution.execute, Execution.execute, executeInner, executeInner]
  cases cString sql with
  | error err => simp only [executeResponse, p.isAutocommit, p.lastInsertRowid, p.totalChanges,
      outcome, id]
  | ok cSql =>
    simp only [p.executeLoop, outcome, id]
    cases (Execution.executeLoop T cSql params 0 [] [] f c).result with
    | ok out => simp only [executeResponse, p.isAutocommit, p.lastInsertRowid, p.totalChanges,
        p.changes]
    | error err => simp only [executeResponse, p.isAutocommit, p.lastInsertRowid, p.totalChanges]

/-- So it does a prepare. -/
theorem prepareMeta (f : T.File) (c : T.Conn) (sql : String) :
    Execution.prepareMeta S (p.file f) (p.conn c) sql =
      p.outcome id (Execution.prepareMeta T f c sql) := by
  rw [Execution.prepareMeta, Execution.prepareMeta]
  cases cString sql with
  | error err => simp only [p.isAutocommit, outcome, id]
  | ok cSql =>
    simp only [p.prepareV2, p.isAutocommit]
    generalize T.prepareV2 f c cSql = prep
    by_cases hrc : prep.rc ≠ sqliteOk
    · simp only [if_pos hrc, p.sqliteError, outcome, id]
    simp only [if_neg hrc]
    cases prep.stmt with
    | none => simp only [Option.map_none, p.changes, p.lastInsertRowid, p.totalChanges, outcome, id]
    | some st =>
      simp only [Option.map_some, p.columnCount, p.columnName, p.columnDecltype,
        p.bindParameterCount, parameterNames, p.bindParameterName, p.finalize, Prod.map, p.changes,
        p.lastInsertRowid, p.totalChanges, outcome, id]

end Projection

end SqliteBroker.Projections
