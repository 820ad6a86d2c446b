import SqliteBroker.Projections
import SqliteBroker.Utf8Reading

/-!
The statements of a script. What SQLite promises of compiling a text one statement at a
time is a structure of laws over a view, the database state as a connection sees it. An
engine can be made to record the statements it steps; the record changes nothing else.
-/
namespace SqliteBroker.Statements

open Utf8 Messages Engine Execution Projections

variable {S : Sqlite} {V : Type} {view : S.File → S.Conn → V}

/-- Compiling and stepping depend on the text, the statement and the view alone. A
statement ends between two characters, and its own text compiles to it. -/
structure Deterministic (S : Sqlite) {V : Type} (view : S.File → S.Conn → V) : Prop where
  prepare_view : ∀ f c sql, view (S.prepareV2 f c sql).file (S.prepareV2 f c sql).conn = view f c
  prepare_same : ∀ f c f' c' sql, view f c = view f' c' →
    (S.prepareV2 f c sql).rc = (S.prepareV2 f' c' sql).rc ∧
      (S.prepareV2 f c sql).stmt = (S.prepareV2 f' c' sql).stmt ∧
      (S.prepareV2 f c sql).tail = (S.prepareV2 f' c' sql).tail
  consumes : ∀ f c text st, (S.prepareV2 f c (encode text)).rc = sqliteOk →
    (S.prepareV2 f c (encode text)).stmt = some st →
    ∃ own rest, own ≠ [] ∧ text = own ++ rest ∧
      (S.prepareV2 f c (encode text)).tail = some (byteLen own) ∧
      (S.prepareV2 f c (encode own)).rc = sqliteOk ∧
      (S.prepareV2 f c (encode own)).stmt = some st ∧
      (S.prepareV2 f c (encode own)).tail = some (byteLen own)
  step_same : ∀ f c f' c' st, view f c = view f' c' →
    (S.step f c st).rc = (S.step f' c' st).rc ∧
      (S.step f c st).stmt = (S.step f' c' st).stmt ∧
      view (S.step f c st).file (S.step f c st).conn =
        view (S.step f' c' st).file (S.step f' c' st).conn
  finalize_same : ∀ f c f' c' st, view f c = view f' c' →
    view (S.finalize f c st).1 (S.finalize f c st).2 =
      view (S.finalize f' c' st).1 (S.finalize f' c' st).2
  finalize_view : ∀ f c sql st, (S.prepareV2 f c sql).stmt = some st →
    view (S.finalize (S.prepareV2 f c sql).file (S.prepareV2 f c sql).conn st).1
      (S.finalize (S.prepareV2 f c sql).file (S.prepareV2 f c sql).conn st).2 = view f c

theorem byteLen_pos {text : List Char} (h : text ≠ []) : 0 < byteLen text := by
  cases text with
  | nil => exact absurd rfl h
  | cons c rest =>
    have hsize := c.utf8Size_pos
    rw [byteLen_cons]
    omega

section Stepping

variable {f f' : S.File} {c c' : S.Conn}

/-- Whether the rows have an end is seen by the view. -/
theorem rowsLeft_same (hS : Deterministic S view) (st : S.Stmt) (h : view f c = view f' c') :
    S.rowsLeft f c st = none ↔ S.rowsLeft f' c' st = none := by
  have hstep : ∀ f c st f' c' st', view f c = view f' c' ∧ st = st' →
      (S.step f c st).rc = (S.step f' c' st').rc ∧
        view (S.step f c st).file (S.step f c st).conn =
          view (S.step f' c' st').file (S.step f' c' st').conn ∧
        (S.step f c st).stmt = (S.step f' c' st').stmt := by
    rintro f c st f' c' _ ⟨hview, rfl⟩
    obtain ⟨hrc, hstmt, hnext⟩ := hS.step_same f c f' c' st hview
    exact ⟨hrc, hnext, hstmt⟩
  exact ⟨endless_of_alike hstep ⟨h.symm, rfl⟩, endless_of_alike hstep ⟨h, rfl⟩⟩

/-- The rows collected and the number of columns have no part in the steps. -/
theorem stepRows_same (hS : Deterministic S view) (ncols ncols' : Int32) (st : S.Stmt)
    (rows rows' : List (List Cell)) (h : view f c = view f' c') :
    let out := stepRows S ncols f c st rows
    let out' := stepRows S ncols' f' c' st rows'
    out.result.1 = out'.result.1 ∧ view out.file out.conn = view out'.file out'.conn ∧
      out.result.2.isOk = out'.result.2.isOk := by
  fun_induction stepRows S ncols f c st rows generalizing f' c' rows' with
  | case1 f c st rows hend =>
    rw [stepRows.eq_def S ncols' f' c' st, dif_pos ((rowsLeft_same hS st h).mp hend)]
    exact ⟨rfl, h, rfl⟩
  | case2 f c st rows hend out hrow =>
    rename_i ih
    obtain ⟨hrc, hstmt, hview⟩ := hS.step_same f c f' c' st h
    have hrow' : (S.step f' c' st).rc = sqliteRow := hrc.symm.trans hrow
    rw [stepRows.eq_def S ncols' f' c' st, dif_neg (mt (rowsLeft_same hS st h).mpr hend)]
    dsimp only
    rw [dif_pos hrow', ← hstmt]
    exact ih _ hview
  | case3 f c st rows hend out hrow =>
    rename_i hdone
    obtain ⟨hrc, hstmt, hview⟩ := hS.step_same f c f' c' st h
    rw [stepRows.eq_def S ncols' f' c' st, dif_neg (mt (rowsLeft_same hS st h).mpr hend)]
    dsimp only
    rw [dif_neg (by rwa [← hrc]), if_pos (hrc.symm.trans hdone)]
    exact ⟨hstmt, hview, rfl⟩
  | case4 f c st rows hend out hrow =>
    rename_i hdone
    obtain ⟨hrc, hstmt, hview⟩ := hS.step_same f c f' c' st h
    rw [stepRows.eq_def S ncols' f' c' st, dif_neg (mt (rowsLeft_same hS st h).mpr hend)]
    dsimp only
    rw [dif_neg (by rwa [← hrc]), if_neg (by rwa [← hrc])]
    exact ⟨hstmt, hview, rfl⟩

/-- One statement, compiled, run to its end and finalized. -/
def runStmt (prep : Prepared S.File S.Conn S.Stmt) (st : S.Stmt) : Outcome S Bool :=
  let out := stepRows S (S.columnCount st) prep.file prep.conn st []
  let (f, c) := S.finalize out.file out.conn out.result.1
  ⟨out.result.2.isOk, f, c⟩

theorem runStmt_same (hS : Deterministic S view) {prep prep' : Prepared S.File S.Conn S.Stmt}
    (st : S.Stmt) (h : view prep.file prep.conn = view prep'.file prep'.conn) :
    (runStmt prep st).result = (runStmt prep' st).result ∧
      view (runStmt prep st).file (runStmt prep st).conn =
        view (runStmt prep' st).file (runStmt prep' st).conn := by
  obtain ⟨hstmt, hview, hok⟩ :=
    stepRows_same hS (S.columnCount st) (S.columnCount st) st [] [] h
  refine ⟨hok, ?_⟩
  unfold runStmt
  dsimp only
  rw [hstmt]
  exact hS.finalize_same _ _ _ _ _ hview

end Stepping

section Script

variable {f f' : S.File} {c c' : S.Conn} {sql : CStr} {pos : ℕ} {columns : List String}
  {rows : List (List Cell)} {text own rest : List Char} {st : S.Stmt}

/-- A script ends well or not, in a state with this view. -/
def Ends (view : S.File → S.Conn → V) (out : Outcome S (Except SqlError Collected)) (ok : Bool)
    (v : V) : Prop :=
  out.result.isOk = ok ∧ view out.file out.conn = v

/-- A text that does not compile ends the script. -/
theorem executeLoop_invalid (hS : Deterministic S view) (hsql : sql.drop pos = encode text)
    (h : view f c = view f' c') (hrc : (S.prepareV2 f' c' (encode text)).rc ≠ sqliteOk) :
    Ends view (executeLoop S sql [] pos columns rows f c) false (view f' c') := by
  have hrc' : (S.prepareV2 f c (encode text)).rc ≠ sqliteOk := by
    rwa [(hS.prepare_same f c f' c' _ h).1]
  rw [executeLoop, hsql]
  dsimp only
  rw [if_pos hrc']
  exact ⟨rfl, (hS.prepare_view ..).trans h⟩

/-- So does a text without a statement. -/
theorem executeLoop_blank (hS : Deterministic S view) (hsql : sql.drop pos = encode text)
    (h : view f c = view f' c') (hrc : (S.prepareV2 f' c' (encode text)).rc = sqliteOk)
    (hstmt : (S.prepareV2 f' c' (encode text)).stmt = none) :
    Ends view (executeLoop S sql [] pos columns rows f c) true (view f' c') := by
  obtain ⟨hrc', hstmt', _⟩ := hS.prepare_same f c f' c' (encode text) h
  rw [executeLoop, hsql]
  dsimp only
  rw [if_neg (not_not_intro (hrc'.trans hrc)), hstmt'.trans hstmt]
  exact ⟨rfl, (hS.prepare_view ..).trans h⟩

/-- A statement is run; the script ends with its failure or with its last byte, and goes
on behind it otherwise. -/
theorem executeLoop_stmt (hS : Deterministic S view) (hsql : sql.drop pos = encode text)
    (h : view f c = view f' c')
    (hrc : (S.prepareV2 f' c' (encode text)).rc = sqliteOk)
    (hstmt : (S.prepareV2 f' c' (encode text)).stmt = some st)
    (htail : (S.prepareV2 f' c' (encode text)).tail = some (byteLen own)) (hown : own ≠ [])
    (htext : text = own ++ rest) :
    let ran := runStmt (S.prepareV2 f' c' (encode text)) st
    let out := executeLoop S sql [] pos columns rows f c
    if ran.result = true ∧ rest ≠ [] then
      ∃ f₁ c₁ columns₁ rows₁, view f₁ c₁ = view ran.file ran.conn ∧
        out = executeLoop S sql [] (pos + byteLen own) columns₁ rows₁ f₁ c₁
    else Ends view out ran.result (view ran.file ran.conn) := by
  obtain ⟨hrc', hstmt', htail'⟩ := hS.prepare_same f c f' c' (encode text) h
  have hview : view (S.prepareV2 f c (encode text)).file (S.prepareV2 f c (encode text)).conn =
      view (S.prepareV2 f' c' (encode text)).file (S.prepareV2 f' c' (encode text)).conn := by
    rw [hS.prepare_view, hS.prepare_view, h]
  obtain ⟨hleft, hran, hok⟩ :=
    stepRows_same hS (S.columnCount st) (S.columnCount st) st rows [] hview
  have hdrop : sql.drop (pos + byteLen own) = encode rest := by
    rw [← List.drop_drop, hsql, htext, encode_append, ← length_encode, List.drop_left]
  intro ran out
  have hout : out = executeLoop S sql [] pos columns rows f c := rfl
  rw [executeLoop, hsql] at hout
  dsimp only at hout
  rw [if_neg (not_not_intro (hrc'.trans hrc)), hstmt'.trans hstmt] at hout
  simp only [List.isEmpty_nil, if_true, htail'.trans htail, hdrop] at hout
  generalize stepRows S (S.columnCount st) (S.prepareV2 f c (encode text)).file
    (S.prepareV2 f c (encode text)).conn st rows = done at hleft hran hok hout
  have hend : view (S.finalize done.file done.conn done.result.1).1
      (S.finalize done.file done.conn done.result.1).2 = view ran.file ran.conn := by
    rw [hleft]
    exact hS.finalize_same _ _ _ _ _ hran
  have hresult : done.result.2.isOk = ran.result := hok
  cases hdone : done.result.2 with
  | error err =>
    rw [hdone] at hresult hout
    rw [if_neg (by simp [← hresult, Except.isOk, Except.toBool]), hout]
    exact ⟨hresult, hend⟩
  | ok rows' =>
    rw [hdone] at hresult hout
    dsimp only at hout
    by_cases hrest : rest = []
    · subst hrest
      rw [if_neg (by simp), hout]
      exact ⟨hresult, hend⟩
    · have hmore : ¬ (encode rest).isEmpty = true := by
        simpa using fun hnil => hrest (encode_injective (b := []) hnil)
      have hpos := byteLen_pos hown
      have hinside : pos + byteLen own ≤ sql.length := by
        have hlen := congrArg List.length hdrop
        rw [List.length_drop, length_encode] at hlen
        have := byteLen_pos hrest
        omega
      rw [if_pos ⟨hresult.symm, hrest⟩]
      rw [if_neg hmore, if_neg (by simp), dif_neg (by omega)] at hout
      exact ⟨_, _, _, _, hend, hout⟩

/-- What the broker says of a text that it compiles, and that compiling changes nothing. -/
theorem prepareMeta_cases (hS : Deterministic S view) {script : String}
    (hscript : cString script = .ok sql) :
    let prep := S.prepareV2 f c sql
    let out := prepareMeta S f c script
    view out.file out.conn = view f c ∧ out.result.ok = decide (prep.rc = sqliteOk) ∧
      (prep.rc = sqliteOk → out.result.empty = prep.stmt.isNone ∧
        out.result.tail = .ofNat (prep.tail.getD sql.length)) := by
  intro prep out
  have hout : out = prepareMeta S f c script := rfl
  unfold prepareMeta at hout
  rw [hscript] at hout
  dsimp only at hout
  by_cases hrc : prep.rc = sqliteOk
  · rw [if_neg (not_not_intro hrc)] at hout
    cases hstmt : prep.stmt with
    | none =>
      rw [hstmt] at hout
      rw [hout]
      exact ⟨hS.prepare_view .., (decide_eq_true hrc).symm, fun _ => ⟨rfl, rfl⟩⟩
    | some st =>
      rw [hstmt] at hout
      rw [hout]
      exact ⟨hS.finalize_view f c sql st hstmt, (decide_eq_true hrc).symm, fun _ => ⟨rfl, rfl⟩⟩
  · rw [if_pos hrc] at hout
    rw [hout]
    exact ⟨hS.prepare_view .., (decide_eq_false hrc).symm, fun h => absurd h hrc⟩

theorem execute_ends {script : String} (hscript : cString script = .ok sql) {ok : Bool} {v : V}
    (h : Ends view (executeLoop S sql [] 0 [] [] f c) ok v) :
    (execute S f c script []).result.ok = ok ∧
      view (execute S f c script []).file (execute S f c script []).conn = v := by
  unfold execute executeInner
  rw [hscript]
  refine ⟨?_, h.2⟩
  rw [← h.1]
  dsimp only
  cases (executeLoop S sql [] 0 [] [] f c).result <;> rfl

/-- A statement executed alone does what it does inside the script. -/
theorem execute_stmt (hS : Deterministic S view) (hview : view f c = view f' c')
    {script : String} (hscript : cString script = .ok (encode own)) (hown : own ≠ [])
    (hrc : (S.prepareV2 f' c' (encode own)).rc = sqliteOk)
    (hstmt : (S.prepareV2 f' c' (encode own)).stmt = some st)
    (htail : (S.prepareV2 f' c' (encode own)).tail = some (byteLen own)) :
    let ran := runStmt (S.prepareV2 f' c' (encode text)) st
    let out := execute S f c script []
    out.result.ok = ran.result ∧ view out.file out.conn = view ran.file ran.conn := by
  have hloop := @executeLoop_stmt S V view f f' c c' (encode own) 0 [] [] own own [] st hS
    List.drop_zero hview hrc hstmt htail hown (List.append_nil own).symm
  rw [if_neg (by simp)] at hloop
  have hsame : view (S.prepareV2 f' c' (encode own)).file (S.prepareV2 f' c' (encode own)).conn =
      view (S.prepareV2 f' c' (encode text)).file (S.prepareV2 f' c' (encode text)).conn := by
    rw [hS.prepare_view, hS.prepare_view]
  obtain ⟨hresult, hran⟩ := runStmt_same hS st hsame
  obtain ⟨hok, hend⟩ := execute_ends hscript hloop
  exact ⟨hok.trans hresult, hend.trans hran⟩

end Script

section Logged

/-- The engine that records every statement it is asked to step. -/
abbrev logged (S : Sqlite) : Sqlite where
  File := S.File
  Conn := S.Conn × List S.Stmt
  Stmt := S.Stmt
  connectionOpen f := ((S.connectionOpen f).1.map (·, []), (S.connectionOpen f).2)
  busyTimeout c := (S.busyTimeout c.1).map (·, c.2)
  closeConnection f c := S.closeConnection f c.1
  isAutocommit c := S.isAutocommit c.1
  changes c := S.changes c.1
  lastInsertRowid c := S.lastInsertRowid c.1
  totalChanges c := S.totalChanges c.1
  errcode c := S.errcode c.1
  errmsg c := S.errmsg c.1
  prepareV2 f c sql :=
    let out := S.prepareV2 f c.1 sql
    ⟨out.rc, out.stmt, out.tail, out.file, (out.conn, c.2)⟩
  bindNull := S.bindNull
  bindInt64 := S.bindInt64
  bindDouble := S.bindDouble
  bindText := S.bindText
  bindBlob := S.bindBlob
  bindParameterCount := S.bindParameterCount
  bindParameterName := S.bindParameterName
  columnCount := S.columnCount
  columnName := S.columnName
  columnDecltype := S.columnDecltype
  step f c st :=
    let out := S.step f c.1 st
    ⟨out.rc, out.file, (out.conn, c.2 ++ [st]), out.stmt⟩
  columnType := S.columnType
  columnInt64 := S.columnInt64
  columnDouble := S.columnDouble
  columnBytes := S.columnBytes
  columnBlob := S.columnBlob
  columnText := S.columnText
  finalize f c st := ((S.finalize f c.1 st).1, ((S.finalize f c.1 st).2, c.2))
  rowsLeft f c st := S.rowsLeft f c.1 st
  open_autocommit := by
    intro f c h
    cases hopen : (S.connectionOpen f).1 with
    | error err =>
      rw [hopen] at h
      cases h
    | ok conn =>
      rw [hopen] at h
      cases h
      exact S.open_autocommit f conn hopen
  busyTimeout_autocommit := by
    intro c c' h
    cases hbusy : S.busyTimeout c.1 with
    | error err =>
      rw [hbusy] at h
      cases h
    | ok conn =>
      rw [hbusy] at h
      cases h
      exact S.busyTimeout_autocommit c.1 conn hbusy
  prepare_autocommit f c sql := S.prepare_autocommit f c.1 sql
  finalize_autocommit f c st := S.finalize_autocommit f c.1 st
  step_row f c st := S.step_row f c.1 st
  step_endless f c st := S.step_endless f c.1 st

theorem logged_prepareV2 {f f' : S.File} {c : (logged S).Conn} {c' : S.Conn} {sql : CStr}
    {rc : Int32} {stmt : Option S.Stmt} {tail : Option ℕ}
    (h : S.prepareV2 f c.1 sql = ⟨rc, stmt, tail, f', c'⟩) :
    (logged S).prepareV2 f c sql = ⟨rc, stmt, tail, f', (c', c.2)⟩ := by
  have hfields : (logged S).prepareV2 f c sql =
      ⟨(S.prepareV2 f c.1 sql).rc, (S.prepareV2 f c.1 sql).stmt, (S.prepareV2 f c.1 sql).tail,
        (S.prepareV2 f c.1 sql).file, ((S.prepareV2 f c.1 sql).conn, c.2)⟩ := rfl
  rw [hfields, h]

/-- The view with the record beside it. -/
def withLog (view : S.File → S.Conn → V) (f : (logged S).File) (c : (logged S).Conn) :
    V × List S.Stmt :=
  (view f c.1, c.2)

theorem Deterministic.withLog (hS : Deterministic S view) :
    Deterministic (logged S) (withLog view) where
  prepare_view f c sql := congrArg (·, c.2) (hS.prepare_view f c.1 sql)
  prepare_same f c f' c' sql h := hS.prepare_same f c.1 f' c'.1 sql (congrArg Prod.fst h)
  consumes f c := hS.consumes f c.1
  step_same := by
    intro f c f' c' st h
    have hlog : c.2 = c'.2 := (Prod.ext_iff.mp h).2
    obtain ⟨hrc, hstmt, hview⟩ := hS.step_same f c.1 f' c'.1 st (congrArg Prod.fst h)
    exact ⟨hrc, hstmt, Prod.ext hview (congrArg (· ++ [st]) hlog)⟩
  finalize_same := by
    intro f c f' c' st h
    have hlog : c.2 = c'.2 := (Prod.ext_iff.mp h).2
    exact Prod.ext (hS.finalize_same f c.1 f' c'.1 st (congrArg Prod.fst h)) hlog
  finalize_view f c sql st h := congrArg (·, c.2) (hS.finalize_view f c.1 sql st h)

/-- Forgetting the record. -/
def unlogged (S : Sqlite) : Projection (logged S) S where
  file f := f
  conn c := c.1
  stmt st := st
  isAutocommit _ := rfl
  changes _ := rfl
  lastInsertRowid _ := rfl
  totalChanges _ := rfl
  errcode _ := rfl
  errmsg _ := rfl
  prepareV2 _ _ _ := by simp
  bindNull _ _ := rfl
  bindInt64 _ _ _ := rfl
  bindDouble _ _ _ := rfl
  bindText _ _ _ := rfl
  bindBlob _ _ _ := rfl
  bindParameterCount _ := rfl
  bindParameterName _ := rfl
  columnCount _ := rfl
  columnName _ := rfl
  columnDecltype _ := rfl
  step _ _ _ := rfl
  columnType _ := rfl
  columnInt64 _ := rfl
  columnDouble _ := rfl
  columnBytes _ := rfl
  columnBlob _ := rfl
  columnText _ := rfl
  finalize _ _ _ := rfl

/-- The record has no part in what the broker answers or in what SQLite does. -/
theorem execute_logged (f : S.File) (c : (logged S).Conn) (sql : String) (params : List Param) :
    ∃ log, execute (logged S) f c sql params =
      ⟨(execute S f c.1 sql params).result, (execute S f c.1 sql params).file,
        ((execute S f c.1 sql params).conn, log)⟩ := by
  have hforget := (unlogged S).execute f c sql params
  refine ⟨(execute (logged S) f c sql params).conn.2, ?_⟩
  rw [show execute S f c.1 sql params = _ from hforget]
  rfl

theorem prepareMeta_log (f : S.File) (c : (logged S).Conn) (sql : String) :
    (prepareMeta (logged S) f c sql).conn.2 = c.2 := by
  unfold prepareMeta
  cases cString sql with
  | error err => rfl
  | ok cSql =>
    dsimp only
    split
    · rfl
    · cases (S.prepareV2 f c.1 cSql).stmt <;> rfl

theorem prepareMeta_logged (f : S.File) (c : (logged S).Conn) (sql : String) :
    prepareMeta (logged S) f c sql =
      ⟨(prepareMeta S f c.1 sql).result, (prepareMeta S f c.1 sql).file,
        ((prepareMeta S f c.1 sql).conn, c.2)⟩ := by
  have hforget := (unlogged S).prepareMeta f c sql
  rw [show prepareMeta S f c.1 sql = _ from hforget, ← prepareMeta_log f c sql]
  rfl

end Logged

end SqliteBroker.Statements
