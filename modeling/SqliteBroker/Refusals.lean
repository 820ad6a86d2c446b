import SqliteBroker.Bindings
import SqliteBroker.ScriptRuns
import SqliteBroker.ScriptSqlite

/-!
What the broker refuses by itself: a text with a NUL, parameters that cannot be bound, and
parameters for more than one statement. The last of these is looked for only after the
first statement has been run.
-/
namespace SqliteBroker.Refusals

open Utf8 Messages Engine Execution ScriptRuns

variable {S : Sqlite} {V : Type} {f : S.File} {c : S.Conn} {text rest : CStr}
  {params : List Param} {sql : String}

/-- The first statement of the text, run with its parameters. -/
structure BoundRun (run : StmtRun S) (params : List Param) (text rest : CStr) : Prop where
  split : text = run.own ++ rest
  rc : (S.prepareV2 run.file run.conn text).rc = sqliteOk
  bound : ∃ fresh, (S.prepareV2 run.file run.conn text).stmt = some fresh ∧
    bindAll S fresh params = (run.stmt, .ok ())
  tail : (S.prepareV2 run.file run.conn text).tail = some run.own.length
  steps : Steps S (S.prepareV2 run.file run.conn text).file
    (S.prepareV2 run.file run.conn text).conn run.stmt run.onRows run.last

/-- The loop with parameters runs one statement. -/
theorem executeLoop_bound {run : StmtRun S} (h : BoundRun run params text rest)
    (hparams : params ≠ []) : executeLoop S text params 0 [] [] run.file run.conn =
      ⟨if run.last.rc = sqliteDone then
          if tailHasSql rest then .error (1, "bound parameters require a single statement")
          else .ok (firstNames [run], run.rows)
        else .error (sqliteError S run.last.conn), run.closed.1, run.closed.2⟩ := by
  have hrest : text.drop (0 + run.own.length) = rest := by
    rw [Nat.zero_add, h.split, List.drop_left]
  have hempty : ¬ params.isEmpty = true := by simpa using hparams
  obtain ⟨fresh, hstmt, hbind⟩ := h.bound
  have hcolumns : (if ([] : List String).isEmpty ∧ 0 < S.columnCount run.stmt
        then columnNames S run.stmt (S.columnCount run.stmt) else []) = firstNames [run] := by
    simp [firstNames, StmtRun.names]
  rw [executeLoop, List.drop_zero]
  dsimp only
  rw [if_neg (not_not_intro h.rc), hstmt, h.tail]
  simp only [if_neg hempty, hbind, stepRows_eq h.steps, hcolumns, List.nil_append]
  by_cases hdone : run.last.rc = sqliteDone
  · simp only [if_pos hdone, hrest]
    by_cases hnil : rest = []
    · subst hnil
      rfl
    · rw [if_neg (by simpa using hnil), if_pos hempty]
      split <;> rfl
  · simp only [if_neg hdone]
    rfl

/-- The loop with parameters that cannot be bound. -/
theorem executeLoop_unbound {fresh : S.Stmt} {err : String} (hparams : params ≠ [])
    (hrc : (S.prepareV2 f c text).rc = sqliteOk)
    (hstmt : (S.prepareV2 f c text).stmt = some fresh)
    (hbind : (bindAll S fresh params).2 = .error err) :
    executeLoop S text params 0 [] [] f c =
      ⟨.error (1, err),
        (S.finalize (S.prepareV2 f c text).file (S.prepareV2 f c text).conn
          (bindAll S fresh params).1).1,
        (S.finalize (S.prepareV2 f c text).file (S.prepareV2 f c text).conn
          (bindAll S fresh params).1).2⟩ := by
  have hempty : ¬ params.isEmpty = true := by simpa using hparams
  rw [executeLoop, List.drop_zero]
  dsimp only
  rw [if_neg (not_not_intro hrc), hstmt]
  simp only [if_neg hempty, hbind]

section Errors

/-- The first statement of the request has been run well, and behind it stands more than
white space. -/
structure Several (S : Sqlite) (f : S.File) (c : S.Conn) (sql : String) (params : List Param)
    (text rest : CStr) (run : StmtRun S) : Prop where
  text_eq : cString sql = .ok text
  file : run.file = f
  conn : run.conn = c
  ran : BoundRun run params text rest
  done : run.last.rc = sqliteDone
  more : tailHasSql rest = true

/-- The errors that are the broker's own. -/
inductive OwnError (S : Sqlite) (f : S.File) (c : S.Conn) (sql : String)
    (params : List Param) : String → Prop
  | nul {err} (hsql : cString sql = .error err) : OwnError S f c sql params err
  | unbound {text fresh err} (hsql : cString sql = .ok text)
      (hrc : (S.prepareV2 f c text).rc = sqliteOk)
      (hstmt : (S.prepareV2 f c text).stmt = some fresh)
      (hbind : (bindAll S fresh params).2 = .error err) : OwnError S f c sql params err
  | several {text rest run} (h : Several S f c sql params text rest run) :
      OwnError S f c sql params "bound parameters require a single statement"

theorem executeInner_ok (hsql : cString sql = .ok text) :
    executeInner S sql params f c = executeLoop S text params 0 [] [] f c := by
  rw [executeInner, hsql]

theorem executeInner_several {run : StmtRun S} (h : Several S f c sql params text rest run)
    (hparams : params ≠ []) : executeInner S sql params f c =
      ⟨.error (1, "bound parameters require a single statement"), run.closed.1,
        run.closed.2⟩ := by
  obtain ⟨htext, rfl, rfl, hran, hdone, hmore⟩ := h
  rw [executeInner_ok htext, executeLoop_bound hran hparams, if_pos hdone, if_pos hmore]

theorem OwnError.result {msg : String} (h : OwnError S f c sql params msg)
    (hparams : params ≠ []) : (executeInner S sql params f c).result = .error (1, msg) := by
  cases h with
  | nul hsql => rw [executeInner, hsql]
  | unbound hsql hrc hstmt hbind =>
    rw [executeInner_ok hsql, executeLoop_unbound hparams hrc hstmt hbind]
  | several h => rw [executeInner_several h hparams]

end Errors

section Effects

/-- The statements that binding makes of a fresh one. -/
inductive BoundFrom (S : Sqlite) (fresh : S.Stmt) : S.Stmt → Prop
  | fresh : BoundFrom S fresh fresh
  | null {st} (h : BoundFrom S fresh st) (i) : BoundFrom S fresh (S.bindNull st i).2
  | int64 {st} (h : BoundFrom S fresh st) (i v) : BoundFrom S fresh (S.bindInt64 st i v).2
  | double {st} (h : BoundFrom S fresh st) (i v) : BoundFrom S fresh (S.bindDouble st i v).2
  | text {st} (h : BoundFrom S fresh st) (i bytes) : BoundFrom S fresh (S.bindText st i bytes).2
  | blob {st} (h : BoundFrom S fresh st) (i ptr) : BoundFrom S fresh (S.bindBlob st i ptr).2

/-- Compiling, and finalizing a statement that was never stepped, keep the data that a
connection sees. -/
structure Quiet {View : Type} (S : Sqlite) (view : S.File → S.Conn → View) : Prop where
  prepare : ∀ f c text, view (S.prepareV2 f c text).file (S.prepareV2 f c text).conn = view f c
  finalize : ∀ f c text fresh st, (S.prepareV2 f c text).stmt = some fresh →
    BoundFrom S fresh st →
    let closed := S.finalize (S.prepareV2 f c text).file (S.prepareV2 f c text).conn st
    view closed.1 closed.2 = view f c

variable {fresh st : S.Stmt}

end Effects

section Results

variable {holds : CStr → Prop} {View : Type} {view : S.File → S.Conn → View}

end Results

section Examples

open SqlValues Bindings

open ScriptSqlite (firstStmt isBlank isBlank_firstStmt prepareV2_encode firstStmt_firstStmt)

end Examples

end SqliteBroker.Refusals
