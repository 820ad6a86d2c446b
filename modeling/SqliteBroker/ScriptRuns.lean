import SqliteBroker.BoundValues
import SqliteBroker.Projections
import SqliteBroker.ScriptSqlite

/-!
How `execute_inner` runs a script. The successive statements of a text are described
apart from the code: each is compiled from what the ones before it have left, stepped
until it gives no row, and finalized; the first failure ends the script. The loop runs
exactly these statements, and an engine that records its calls shows each of them
compiled and finalized once.
-/
namespace SqliteBroker.ScriptRuns

open Utf8 Messages Engine Execution Projections

/-- What SQLite promises of compiling: a statement takes a nonempty part of the text, and a
null statement stands for a text that holds none. -/
structure Compiles (S : Sqlite) (holds : CStr → Prop) : Prop where
  stmt : ∀ f c text st, (S.prepareV2 f c text).rc = sqliteOk →
    (S.prepareV2 f c text).stmt = some st →
    ∃ own rest, own ≠ [] ∧ text = own ++ rest ∧ (S.prepareV2 f c text).tail = some own.length
  blank : ∀ f c text, (S.prepareV2 f c text).rc = sqliteOk →
    (S.prepareV2 f c text).stmt = none → ¬ holds text
  empty : ¬ holds []

variable (S : Sqlite)

/-- Stepping a statement: the statement at each of its rows, and the step that gives none. -/
inductive Steps : S.File → S.Conn → S.Stmt → List S.Stmt → Stepped S.File S.Conn S.Stmt → Prop
  | last {f c st} (hrc : (S.step f c st).rc ≠ sqliteRow) : Steps f c st [] (S.step f c st)
  | row {f c st onRows last} (hrc : (S.step f c st).rc = sqliteRow)
      (hmore : Steps (S.step f c st).file (S.step f c st).conn (S.step f c st).stmt onRows last) :
      Steps f c st ((S.step f c st).stmt :: onRows) last

/-- The statement has finitely many rows. -/
def Ends (f : S.File) (c : S.Conn) (st : S.Stmt) : Prop :=
  ∃ onRows last, Steps S f c st onRows last

/-- One statement of a script: its text, the state it was compiled in, the statement as
compiled and at each of its rows, and its last step. -/
structure StmtRun where
  own : CStr
  file : S.File
  conn : S.Conn
  stmt : S.Stmt
  onRows : List S.Stmt
  last : Stepped S.File S.Conn S.Stmt

variable {S}

namespace StmtRun

def rows (run : StmtRun S) : List (List Cell) :=
  run.onRows.map (fun st => readRow S st (S.columnCount run.stmt))

def names (run : StmtRun S) : List String := columnNames S run.stmt (S.columnCount run.stmt)

/-- The state after the statement has been finalized. -/
def closed (run : StmtRun S) : S.File × S.Conn :=
  S.finalize run.last.file run.last.conn run.last.stmt

end StmtRun

/-- The first statement of the text, run to its end; `rest` is the text behind it. -/
structure RunsStmt (run : StmtRun S) (text rest : CStr) : Prop where
  split : text = run.own ++ rest
  nonempty : run.own ≠ []
  rc : (S.prepareV2 run.file run.conn text).rc = sqliteOk
  stmt : (S.prepareV2 run.file run.conn text).stmt = some run.stmt
  tail : (S.prepareV2 run.file run.conn text).tail = some run.own.length
  steps : Steps S (S.prepareV2 run.file run.conn text).file
    (S.prepareV2 run.file run.conn text).conn run.stmt run.onRows run.last

/-- How a script ends: the text that is left, the error if there is one, and the state. -/
structure Ended (S : Sqlite) where
  left : CStr
  result : Except SqlError Unit
  file : S.File
  conn : S.Conn

/-- The successive statements of a text, from this state on. -/
inductive Script : S.File → S.Conn → CStr → List (StmtRun S) → Ended S → Prop
  | invalid {f c text} (hrc : (S.prepareV2 f c text).rc ≠ sqliteOk) :
      Script f c text [] ⟨text, .error (sqliteError S (S.prepareV2 f c text).conn),
        (S.prepareV2 f c text).file, (S.prepareV2 f c text).conn⟩
  | blank {f c text} (hrc : (S.prepareV2 f c text).rc = sqliteOk)
      (hstmt : (S.prepareV2 f c text).stmt = none) :
      Script f c text [] ⟨text, .ok (), (S.prepareV2 f c text).file, (S.prepareV2 f c text).conn⟩
  | failed {run : StmtRun S} {text rest} (hrun : RunsStmt run text rest)
      (hlast : run.last.rc ≠ sqliteDone) :
      Script run.file run.conn text [run] ⟨rest, .error (sqliteError S run.last.conn),
        run.closed.1, run.closed.2⟩
  | done {run : StmtRun S} {text} (hrun : RunsStmt run text [])
      (hlast : run.last.rc = sqliteDone) :
      Script run.file run.conn text [run] ⟨[], .ok (), run.closed.1, run.closed.2⟩
  | next {run : StmtRun S} {text rest runs ended} (hrun : RunsStmt run text rest)
      (hlast : run.last.rc = sqliteDone) (hmore : rest ≠ [])
      (hrest : Script run.closed.1 run.closed.2 rest runs ended) :
      Script run.file run.conn text (run :: runs) ended

/-- The states in which a script comes to a text that is not used up. -/
inductive Reaches : S.File → S.Conn → CStr → S.File → S.Conn → CStr → Prop
  | here {f c text} : Reaches f c text f c text
  | later {run : StmtRun S} {text rest f' c' text'} (hrun : RunsStmt run text rest)
      (hlast : run.last.rc = sqliteDone) (hmore : rest ≠ [])
      (hrest : Reaches run.closed.1 run.closed.2 rest f' c' text') :
      Reaches run.file run.conn text f' c' text'

/-- Every statement that the script comes to has finitely many rows. -/
def FiniteRows (f : S.File) (c : S.Conn) (text : CStr) : Prop :=
  ∀ f' c' text' st, Reaches f c text f' c' text' → (S.prepareV2 f' c' text').rc = sqliteOk →
    (S.prepareV2 f' c' text').stmt = some st →
    Ends S (S.prepareV2 f' c' text').file (S.prepareV2 f' c' text').conn st

section Stepping

variable {f : S.File} {c : S.Conn} {st : S.Stmt} {onRows : List S.Stmt}
  {last : Stepped S.File S.Conn S.Stmt}

theorem Steps.rowsLeft (h : Steps S f c st onRows last) : S.rowsLeft f c st ≠ none := by
  induction h with
  | last hrc => exact fun hend => hrc (S.step_endless _ _ _ hend).1
  | row hrc _ ih => exact fun hend => ih (S.step_endless _ _ _ hend).2

/-- The count of the rows that are left tells whether a statement has finitely many. -/
theorem ends_iff : Ends S f c st ↔ S.rowsLeft f c st ≠ none := by
  constructor
  · rintro ⟨onRows, last, hsteps⟩
    exact hsteps.rowsLeft
  · intro hsome
    obtain ⟨n, hn⟩ := Option.ne_none_iff_exists'.mp hsome
    clear hsome
    induction n using Nat.strongRecOn generalizing f c st with
    | ind n ih =>
      by_cases hrc : (S.step f c st).rc = sqliteRow
      · obtain ⟨m, hlt, hm⟩ := S.step_row f c st n hn hrc
        obtain ⟨onRows, last, hmore⟩ := ih m hlt hm
        exact ⟨_, _, .row hrc hmore⟩
      · exact ⟨_, _, .last hrc⟩

/-- The inner loop collects the rows of the statement. -/
theorem stepRows_eq (h : Steps S f c st onRows last) (ncols : Int32) (rows : List (List Cell)) :
    stepRows S ncols f c st rows =
      ⟨(last.stmt, if last.rc = sqliteDone
          then .ok (rows ++ onRows.map (fun st => readRow S st ncols))
          else .error (sqliteError S last.conn)), last.file, last.conn⟩ := by
  induction h generalizing rows with
  | last hrc =>
    rw [stepRows.eq_def, dif_neg (Steps.last hrc).rowsLeft]
    dsimp only
    rw [dif_neg hrc, List.map_nil, List.append_nil]
    split <;> rfl
  | row hrc hmore ih =>
    rw [stepRows.eq_def, dif_neg (Steps.row hrc hmore).rowsLeft]
    dsimp only
    rw [dif_pos hrc, ih, List.map_cons, List.append_assoc, List.singleton_append]

end Stepping

section Loop

variable {f : S.File} {c : S.Conn} {text rest : CStr} {runs : List (StmtRun S)} {ended : Ended S}
  {holds : CStr → Prop}

/-- The column names that the loop keeps: those of the first statement that has columns. -/
def firstNames : List (StmtRun S) → List String
  | [] => []
  | run :: rest => if 0 < S.columnCount run.stmt then run.names else firstNames rest

theorem names_eq_nil_iff (run : StmtRun S) : run.names = [] ↔ ¬ 0 < S.columnCount run.stmt := by
  rw [StmtRun.names, columnNames, upTo, List.map_eq_nil_iff, List.map_eq_nil_iff,
    List.range_eq_nil, Int32.lt_iff_toInt_lt, Int32.toInt_zero]
  omega

/-- One round of the outer loop. -/
theorem executeLoop_round {run : StmtRun S} (h : RunsStmt run text rest) {sql : CStr} {pos : ℕ}
    (hsql : sql.drop pos = text) (columns : List String) (rows : List (List Cell)) :
    executeLoop S sql [] pos columns rows run.file run.conn =
      if run.last.rc = sqliteDone then
        if rest = [] then
          ⟨.ok (if columns = [] then firstNames [run] else columns, rows ++ run.rows),
            run.closed.1, run.closed.2⟩
        else executeLoop S sql [] (pos + run.own.length)
          (if columns = [] then firstNames [run] else columns) (rows ++ run.rows)
          run.closed.1 run.closed.2
      else ⟨.error (sqliteError S run.last.conn), run.closed.1, run.closed.2⟩ := by
  have hrest : sql.drop (pos + run.own.length) = rest := by
    rw [← List.drop_drop, hsql, h.split, List.drop_left]
  have hcolumns : (if columns.isEmpty ∧ 0 < S.columnCount run.stmt
        then columnNames S run.stmt (S.columnCount run.stmt) else columns) =
      if columns = [] then firstNames [run] else columns := by
    cases columns with
    | nil =>
      by_cases hpos : 0 < S.columnCount run.stmt
      · simp [firstNames, hpos, StmtRun.names]
      · simp [firstNames, hpos]
    | cons name more => simp
  have hpos : 0 < run.own.length := List.length_pos_iff.mpr h.nonempty
  rw [executeLoop, hsql]
  dsimp only
  rw [if_neg (not_not_intro h.rc), h.stmt, h.tail]
  simp only [List.isEmpty_nil, if_true, stepRows_eq h.steps, hcolumns]
  by_cases hdone : run.last.rc = sqliteDone
  · simp only [if_pos hdone, hrest]
    by_cases hnil : rest = []
    · simp only [hnil, List.isEmpty_nil, if_true]
      rfl
    · have hinside : pos + run.own.length ≤ sql.length := by
        have hlen := congrArg List.length hrest
        rw [List.length_drop] at hlen
        have := List.length_pos_iff.mpr hnil
        omega
      rw [if_neg (by simpa using hnil), if_neg (by simp), dif_neg (by omega), if_neg hnil]
      rfl
  · simp only [if_neg hdone]
    rfl

/-- The loop runs the successive statements of the text. -/
theorem executeLoop_eq (h : Script f c text runs ended) {sql : CStr} {pos : ℕ}
    (hsql : sql.drop pos = text) (columns : List String) (rows : List (List Cell)) :
    executeLoop S sql [] pos columns rows f c =
      ⟨ended.result.map (fun _ => (if columns = [] then firstNames runs else columns,
        rows ++ runs.flatMap StmtRun.rows)), ended.file, ended.conn⟩ := by
  induction h generalizing pos columns rows with
  | invalid hrc =>
    rw [executeLoop, hsql]
    dsimp only
    rw [if_pos hrc]
    rfl
  | blank hrc hstmt =>
    rw [executeLoop, hsql]
    dsimp only
    rw [if_neg (not_not_intro hrc), hstmt]
    cases columns <;> simp [Except.map, firstNames]
  | failed hrun hlast =>
    rw [executeLoop_round hrun hsql, if_neg hlast]
    rfl
  | @done run text hrun hlast =>
    rw [executeLoop_round hrun hsql, if_pos hlast, if_pos rfl, List.flatMap_singleton]
    rfl
  | @next run text rest runs ended hrun hlast hmore _ ih =>
    have hrest : sql.drop (pos + run.own.length) = rest := by
      rw [← List.drop_drop, hsql, hrun.split, List.drop_left]
    have hnames : (if (if columns = [] then firstNames [run] else columns) = []
        then firstNames runs else if columns = [] then firstNames [run] else columns) =
        if columns = [] then firstNames (run :: runs) else columns := by
      by_cases hnil : columns = []
      · by_cases hpos : 0 < S.columnCount run.stmt
        · have hne : run.names ≠ [] := fun heq => (names_eq_nil_iff run).mp heq hpos
          simp [hnil, firstNames, hpos, hne]
        · simp [hnil, firstNames, hpos]
      · simp [hnil]
    rw [executeLoop_round hrun hsql, if_pos hlast, if_neg hmore, ih hrest, hnames,
      List.flatMap_cons, List.append_assoc]

/-- The loop does not get past a statement with rows without end. -/
theorem executeLoop_endless {f' : S.File} {c' : S.Conn} {text' : CStr} {st : S.Stmt}
    (h : Reaches f c text f' c' text') (hrc : (S.prepareV2 f' c' text').rc = sqliteOk)
    (hstmt : (S.prepareV2 f' c' text').stmt = some st)
    (hend : ¬ Ends S (S.prepareV2 f' c' text').file (S.prepareV2 f' c' text').conn st)
    {sql : CStr} {pos : ℕ} (hsql : sql.drop pos = text) (columns : List String)
    (rows : List (List Cell)) :
    ∃ err, (executeLoop S sql [] pos columns rows f c).result = .error err := by
  induction h generalizing pos columns rows with
  | here =>
    have hnone := not_not.mp (mt ends_iff.mpr hend)
    rw [executeLoop, hsql]
    dsimp only
    rw [if_neg (not_not_intro hrc), hstmt]
    simp only [List.isEmpty_nil, if_true]
    rw [stepRows.eq_def, dif_pos hnone]
    exact ⟨_, rfl⟩
  | @later run text rest _ _ _ hrun hlast hmore _ ih =>
    have hrest : sql.drop (pos + run.own.length) = rest := by
      rw [← List.drop_drop, hsql, hrun.split, List.drop_left]
    rw [executeLoop_round hrun hsql, if_pos hlast, if_neg hmore]
    exact ih hrc hstmt hend hrest _ _

/-- Every text whose statements have finitely many rows has its statements. -/
theorem script_exists (hS : Compiles S holds) (hends : FiniteRows f c text) :
    ∃ runs ended, Script f c text runs ended := by
  induction hlen : text.length using Nat.strongRecOn generalizing f c text with
  | ind n ih =>
    by_cases hrc : (S.prepareV2 f c text).rc = sqliteOk
    · cases hstmt : (S.prepareV2 f c text).stmt with
      | none => exact ⟨[], _, .blank hrc hstmt⟩
      | some st =>
        obtain ⟨own, rest, hown, hsplit, htail⟩ := hS.stmt f c text st hrc hstmt
        obtain ⟨onRows, last, hsteps⟩ := hends f c text st .here hrc hstmt
        let run : StmtRun S := ⟨own, f, c, st, onRows, last⟩
        have hrun : RunsStmt run text rest := ⟨hsplit, hown, hrc, hstmt, htail, hsteps⟩
        by_cases hlast : last.rc = sqliteDone
        · by_cases hmore : rest = []
          · subst hmore
            exact ⟨[run], _, .done hrun hlast⟩
          · have hshorter : rest.length < n := by
              have := List.length_pos_iff.mpr hown
              rw [← hlen, hsplit, List.length_append]
              omega
            have hlater : FiniteRows run.closed.1 run.closed.2 rest :=
              fun f' c' text' st' hreach => hends f' c' text' st' (.later hrun hlast hmore hreach)
            obtain ⟨runs, ended, hrest⟩ := ih _ hshorter hlater rfl
            exact ⟨run :: runs, ended, .next hrun hlast hmore hrest⟩
        · exact ⟨[run], _, .failed hrun hlast⟩
    · exact ⟨[], _, .invalid hrc⟩

/-- The first statement of a text that has its statements has finitely many rows. -/
theorem Script.first_ends (h : Script f c text runs ended) {st : S.Stmt}
    (hrc : (S.prepareV2 f c text).rc = sqliteOk) (hstmt : (S.prepareV2 f c text).stmt = some st) :
    Ends S (S.prepareV2 f c text).file (S.prepareV2 f c text).conn st := by
  have hrun : ∀ {run : StmtRun S} {rest}, RunsStmt run text rest → run.file = f → run.conn = c →
      Ends S (S.prepareV2 f c text).file (S.prepareV2 f c text).conn st := by
    rintro run rest hrun rfl rfl
    obtain rfl := Option.some.inj (hrun.stmt.symm.trans hstmt)
    exact ⟨_, _, hrun.steps⟩
  cases h with
  | invalid hbad => exact absurd hrc hbad
  | blank _ hnone =>
    rw [hnone] at hstmt
    cases hstmt
  | failed hfirst _ => exact hrun hfirst rfl rfl
  | done hfirst _ => exact hrun hfirst rfl rfl
  | next hfirst _ _ _ => exact hrun hfirst rfl rfl

/-- The statements and what is left make up the text. -/
theorem Script.text_eq (h : Script f c text runs ended) :
    text = runs.flatMap StmtRun.own ++ ended.left := by
  induction h with
  | invalid hrc => rfl
  | blank hrc hstmt => rfl
  | failed hrun hlast => rw [List.flatMap_singleton, ← hrun.split]
  | done hrun hlast => rw [List.flatMap_singleton, ← hrun.split]
  | next hrun hlast hmore _ ih => rw [List.flatMap_cons, List.append_assoc, ← ih, hrun.split]

/-- After a script that ends well no statement is left. -/
theorem Script.left_blank (hS : Compiles S holds) (h : Script f c text runs ended)
    (hok : ended.result = .ok ()) : ¬ holds ended.left := by
  induction h with
  | invalid hrc => cases hok
  | blank hrc hstmt => exact hS.blank _ _ _ hrc hstmt
  | failed hrun hlast => cases hok
  | done hrun hlast => exact hS.empty
  | next hrun hlast hmore _ ih => exact ih hok

/-- Only the last statement of a script can have failed. -/
theorem Script.earlier_done (h : Script f c text runs ended) :
    ∀ run ∈ runs.dropLast, run.last.rc = sqliteDone := by
  induction h with
  | invalid hrc => simp
  | blank hrc hstmt => simp
  | failed hrun hlast => simp
  | done hrun hlast => simp
  | @next run text rest runs ended hrun hlast hmore _ ih =>
    intro earlier hearlier
    cases runs with
    | nil => simp at hearlier
    | cons second more =>
      rw [List.dropLast_cons_cons] at hearlier
      rcases List.mem_cons.mp hearlier with rfl | hlater
      · exact hlast
      · exact ih earlier hlater

end Loop

section Unique

variable {f : S.File} {c : S.Conn} {st : S.Stmt} {text rest rest' : CStr}

theorem Steps.det {onRows onRows' : List S.Stmt} {last last' : Stepped S.File S.Conn S.Stmt}
    (h : Steps S f c st onRows last) (h' : Steps S f c st onRows' last') :
    onRows = onRows' ∧ last = last' := by
  induction h generalizing onRows' with
  | last hrc =>
    cases h' with
    | last hrc' => exact ⟨rfl, rfl⟩
    | row hrc' hmore => exact absurd hrc' hrc
  | row hrc _ ih =>
    cases h' with
    | last hrc' => exact absurd hrc hrc'
    | row hrc' hmore =>
      obtain ⟨rfl, rfl⟩ := ih hmore
      exact ⟨rfl, rfl⟩

theorem RunsStmt.det {run run' : StmtRun S} (h : RunsStmt run text rest)
    (h' : RunsStmt run' text rest') (hfile : run.file = run'.file) (hconn : run.conn = run'.conn) :
    run = run' ∧ rest = rest' := by
  obtain ⟨own, file, conn, stmt, onRows, last⟩ := run
  obtain ⟨own', file', conn', stmt', onRows', last'⟩ := run'
  obtain ⟨hsplit, _, _, hstmt, htail, hsteps⟩ := h
  obtain ⟨hsplit', _, _, hstmt', htail', hsteps'⟩ := h'
  dsimp only at hfile hconn hsplit hsplit' hstmt hstmt' htail htail' hsteps hsteps'
  subst hfile hconn
  obtain rfl := Option.some.inj (hstmt.symm.trans hstmt')
  have hlen : own.length = own'.length := Option.some.inj (htail.symm.trans htail')
  obtain ⟨rfl, rfl⟩ := List.append_inj (hsplit.symm.trans hsplit') hlen
  obtain ⟨rfl, rfl⟩ := hsteps.det hsteps'
  exact ⟨rfl, rfl⟩

/-- A script whose text starts with a statement. -/
theorem Script.of_runsStmt {run : StmtRun S} {runs : List (StmtRun S)} {ended : Ended S}
    (h : Script f c text runs ended) (hrun : RunsStmt run text rest) (hfile : run.file = f)
    (hconn : run.conn = c) :
    (run.last.rc ≠ sqliteDone ∧ runs = [run] ∧
      ended = ⟨rest, .error (sqliteError S run.last.conn), run.closed.1, run.closed.2⟩) ∨
    (run.last.rc = sqliteDone ∧ rest = [] ∧ runs = [run] ∧
      ended = ⟨[], .ok (), run.closed.1, run.closed.2⟩) ∨
    (run.last.rc = sqliteDone ∧ rest ≠ [] ∧ ∃ more, runs = run :: more ∧
      Script run.closed.1 run.closed.2 rest more ended) := by
  cases h with
  | invalid hrc =>
    subst hfile hconn
    exact absurd hrun.rc hrc
  | blank hrc hstmt =>
    subst hfile hconn
    exact absurd (hstmt.symm.trans hrun.stmt) (by simp)
  | failed hrun' hlast =>
    obtain ⟨rfl, rfl⟩ := hrun.det hrun' hfile hconn
    exact .inl ⟨hlast, rfl, rfl⟩
  | done hrun' hlast =>
    obtain ⟨rfl, rfl⟩ := hrun.det hrun' hfile hconn
    exact .inr (.inl ⟨hlast, rfl, rfl, rfl⟩)
  | next hrun' hlast hmore hrest =>
    obtain ⟨rfl, rfl⟩ := hrun.det hrun' hfile hconn
    exact .inr (.inr ⟨hlast, hmore, _, rfl, hrest⟩)

/-- A text has one sequence of statements. -/
theorem Script.det {runs runs' : List (StmtRun S)} {ended ended' : Ended S}
    (h : Script f c text runs ended) (h' : Script f c text runs' ended') :
    runs = runs' ∧ ended = ended' := by
  induction h generalizing runs' with
  | invalid hrc =>
    cases h' with
    | invalid _ => exact ⟨rfl, rfl⟩
    | blank hrc' _ => exact absurd hrc' hrc
    | failed hrun _ => exact absurd hrun.rc hrc
    | done hrun _ => exact absurd hrun.rc hrc
    | next hrun _ _ _ => exact absurd hrun.rc hrc
  | blank hrc hstmt =>
    cases h' with
    | invalid hrc' => exact absurd hrc hrc'
    | blank _ _ => exact ⟨rfl, rfl⟩
    | failed hrun _ => exact absurd (hstmt.symm.trans hrun.stmt) (by simp)
    | done hrun _ => exact absurd (hstmt.symm.trans hrun.stmt) (by simp)
    | next hrun _ _ _ => exact absurd (hstmt.symm.trans hrun.stmt) (by simp)
  | failed hrun hlast =>
    rcases h'.of_runsStmt hrun rfl rfl with ⟨_, rfl, rfl⟩ | ⟨hdone, _⟩ | ⟨hdone, _⟩
    · exact ⟨rfl, rfl⟩
    · exact absurd hdone hlast
    · exact absurd hdone hlast
  | done hrun hlast =>
    rcases h'.of_runsStmt hrun rfl rfl with ⟨hfail, _⟩ | ⟨_, _, rfl, rfl⟩ | ⟨_, hmore, _⟩
    · exact absurd hlast hfail
    · exact ⟨rfl, rfl⟩
    · exact absurd rfl hmore
  | next hrun hlast hmore _ ih =>
    rcases h'.of_runsStmt hrun rfl rfl with ⟨hfail, _⟩ | ⟨_, hnil, _⟩ | ⟨_, _, more, rfl, hrest⟩
    · exact absurd hlast hfail
    · exact absurd hnil hmore
    · obtain ⟨rfl, rfl⟩ := ih hrest
      exact ⟨rfl, rfl⟩

end Unique

section Traced

/-- A call of SQLite about the `n`-th statement that a connection has compiled. -/
inductive Event
  | compiled (n : ℕ) (own : CStr)
  | stepped (n : ℕ)
  | finalized (n : ℕ)
  deriving DecidableEq

namespace Event

def compiledId : Event → Option ℕ
  | .compiled n _ => some n
  | _ => none

def steppedId : Event → Option ℕ
  | .stepped n => some n
  | _ => none

def finalizedId : Event → Option ℕ
  | .finalized n => some n
  | _ => none

end Event

/-- The number of the next statement. -/
def nextId (log : List Event) : ℕ := (log.filterMap Event.compiledId).length

theorem ok_of_map_fst {α β : Type} {result : Except String α} {b : β} {c : α × β}
    (h : result.map (·, b) = .ok c) : result = .ok c.1 := by
  cases result with
  | error err => cases h
  | ok a =>
    cases h
    rfl

/-- The engine that numbers the statements it compiles and records what is done with them. -/
abbrev traced (S : Sqlite) : Sqlite where
  File := S.File
  Conn := S.Conn × List Event
  Stmt := ℕ × S.Stmt
  connectionOpen f := ((S.connectionOpen f).1.map (·, []), (S.connectionOpen f).2)
  busyTimeout c := (S.busyTimeout c.1).map (·, c.2)
  closeConnection f c := S.closeConnection f c.1
  isAutocommit c := S.isAutocommit c.1
  changes c := S.changes c.1
  lastInsertRowid c := S.lastInsertRowid c.1
  totalChanges c := S.totalChanges c.1
  errcode c := S.errcode c.1
  errmsg c := S.errmsg c.1
  prepareV2 f c sql :=
    let out := S.prepareV2 f c.1 sql
    let log :=
      if out.rc = sqliteOk ∧ out.stmt.isSome then
        c.2 ++ [.compiled (nextId c.2) (sql.take (out.tail.getD 0))]
      else c.2
    ⟨out.rc, out.stmt.map (nextId c.2, ·), out.tail, out.file, (out.conn, log)⟩
  bindNull st i := ((S.bindNull st.2 i).1, (st.1, (S.bindNull st.2 i).2))
  bindInt64 st i v := ((S.bindInt64 st.2 i v).1, (st.1, (S.bindInt64 st.2 i v).2))
  bindDouble st i v := ((S.bindDouble st.2 i v).1, (st.1, (S.bindDouble st.2 i v).2))
  bindText st i v := ((S.bindText st.2 i v).1, (st.1, (S.bindText st.2 i v).2))
  bindBlob st i v := ((S.bindBlob st.2 i v).1, (st.1, (S.bindBlob st.2 i v).2))
  bindParameterCount st := S.bindParameterCount st.2
  bindParameterName st := S.bindParameterName st.2
  columnCount st := S.columnCount st.2
  columnName st := S.columnName st.2
  columnDecltype st := S.columnDecltype st.2
  step f c st :=
    let out := S.step f c.1 st.2
    ⟨out.rc, out.file, (out.conn, c.2 ++ [.stepped st.1]), (st.1, out.stmt)⟩
  columnType st := S.columnType st.2
  columnInt64 st := S.columnInt64 st.2
  columnDouble st := S.columnDouble st.2
  columnBytes st := S.columnBytes st.2
  columnBlob st := S.columnBlob st.2
  columnText st := S.columnText st.2
  finalize f c st :=
    ((S.finalize f c.1 st.2).1, ((S.finalize f c.1 st.2).2, c.2 ++ [.finalized st.1]))
  rowsLeft f c st := S.rowsLeft f c.1 st.2
  open_autocommit f c h := S.open_autocommit f c.1 (ok_of_map_fst h)
  busyTimeout_autocommit c c' h := S.busyTimeout_autocommit c.1 c'.1 (ok_of_map_fst h)
  prepare_autocommit f c sql := S.prepare_autocommit f c.1 sql
  finalize_autocommit f c st := S.finalize_autocommit f c.1 st.2
  step_row f c st := S.step_row f c.1 st.2
  step_endless f c st := S.step_endless f c.1 st.2

/-- Forgetting the numbers and the record. -/
def untraced (S : Sqlite) : Projection (traced S) S where
  file f := f
  conn c := c.1
  stmt st := st.2
  isAutocommit _ := rfl
  changes _ := rfl
  lastInsertRowid _ := rfl
  totalChanges _ := rfl
  errcode _ := rfl
  errmsg _ := rfl
  prepareV2 _ _ _ := by simp [Function.comp_def]
  bindNull _ _ := rfl
  bindInt64 _ _ _ := rfl
  bindDouble _ _ _ := rfl
  bindText _ _ _ := rfl
  bindBlob _ _ _ := rfl
  bindParameterCount _ := rfl
  bindParameterName _ := rfl
  columnCount _ := rfl
  columnName _ := rfl
  columnDecltype _ := rfl
  step _ _ _ := rfl
  columnType _ := rfl
  columnInt64 _ := rfl
  columnDouble _ := rfl
  columnBytes _ := rfl
  columnBlob _ := rfl
  columnText _ := rfl
  finalize _ _ _ := rfl

/-- What is done with a statement: it is compiled, stepped once for each row and once more,
and finalized. -/
def StmtRun.events (run : StmtRun S) (n : ℕ) : List Event :=
  .compiled n run.own :: (List.replicate (run.onRows.length + 1) (.stepped n) ++ [.finalized n])

/-- The record of a script whose first statement has number `n`. -/
def traceOf : ℕ → List (StmtRun S) → List Event
  | _, [] => []
  | n, run :: rest => run.events n ++ traceOf (n + 1) rest

theorem filterMap_events (run : StmtRun S) (n : ℕ) :
    (run.events n).filterMap Event.compiledId = [n] ∧
      (run.events n).filterMap Event.steppedId = List.replicate (run.onRows.length + 1) n ∧
      (run.events n).filterMap Event.finalizedId = [n] := by
  simp [StmtRun.events, Event.compiledId, Event.steppedId, Event.finalizedId,
    List.filterMap_cons, List.filterMap_replicate]

/-- Each statement of a script is compiled once and finalized once, in order. -/
theorem filterMap_traceOf (n : ℕ) (runs : List (StmtRun S)) :
    (traceOf n runs).filterMap Event.compiledId = List.range' n runs.length ∧
      (traceOf n runs).filterMap Event.finalizedId = List.range' n runs.length := by
  induction runs generalizing n with
  | nil => exact ⟨rfl, rfl⟩
  | cons run rest ih =>
    obtain ⟨hcompiled, hfinalized⟩ := ih (n + 1)
    obtain ⟨hone, _, hlast⟩ := filterMap_events run n
    rw [traceOf, List.filterMap_append, List.filterMap_append, hcompiled, hfinalized, hone, hlast]
    exact ⟨rfl, rfl⟩

theorem nextId_append (log : List Event) (run : StmtRun S) :
    nextId (log ++ run.events (nextId log)) = nextId log + 1 := by
  rw [nextId, List.filterMap_append, List.length_append, (filterMap_events run _).1]
  rfl

variable {f : S.File} {c : S.Conn} {text rest : CStr}

theorem traced_steps {st : S.Stmt} {onRows : List S.Stmt}
    {last : Stepped S.File S.Conn S.Stmt} (h : Steps S f c st onRows last) (n : ℕ)
    (log : List Event) :
    Steps (traced S) f (c, log) (n, st) (onRows.map (n, ·))
      ⟨last.rc, last.file,
        (last.conn, log ++ List.replicate (onRows.length + 1) (.stepped n)), (n, last.stmt)⟩ := by
  induction h generalizing log with
  | last hrc => exact .last (S := traced S) hrc
  | @row f c st onRows last hrc _ ih =>
    have hmore := ih (log ++ [.stepped n])
    rw [List.append_assoc, List.singleton_append, ← List.replicate_succ] at hmore
    exact .row (S := traced S) hrc hmore

/-- The same run of a statement in the engine that records. -/
def StmtRun.lift (run : StmtRun S) (log : List Event) : StmtRun (traced S) where
  own := run.own
  file := run.file
  conn := (run.conn, log)
  stmt := (nextId log, run.stmt)
  onRows := run.onRows.map (nextId log, ·)
  last := ⟨run.last.rc, run.last.file,
    (run.last.conn, log ++ [.compiled (nextId log) run.own] ++
      List.replicate (run.onRows.length + 1) (.stepped (nextId log))),
    (nextId log, run.last.stmt)⟩

theorem traced_prepare {run : StmtRun S} (h : RunsStmt run text rest) (log : List Event) :
    (traced S).prepareV2 run.file (run.conn, log) text =
      ⟨sqliteOk, some (nextId log, run.stmt), some run.own.length,
        (S.prepareV2 run.file run.conn text).file,
        ((S.prepareV2 run.file run.conn text).conn,
          log ++ [.compiled (nextId log) run.own])⟩ := by
  have hown : text.take run.own.length = run.own := by rw [h.split, List.take_left' rfl]
  simp [h.rc, h.stmt, h.tail, hown]

theorem traced_runsStmt {run : StmtRun S} (h : RunsStmt run text rest) (log : List Event) :
    RunsStmt (run.lift log) text rest := by
  have hprep := traced_prepare h log
  refine ⟨h.split, h.nonempty, ?_, ?_, ?_, ?_⟩
  · exact congrArg Prepared.rc hprep
  · exact congrArg Prepared.stmt hprep
  · exact congrArg Prepared.tail hprep
  · have hsteps := traced_steps h.steps (nextId log) (log ++ [.compiled (nextId log) run.own])
    change Steps (traced S) ((traced S).prepareV2 run.file (run.conn, log) text).file
      ((traced S).prepareV2 run.file (run.conn, log) text).conn _ _ _
    rw [hprep]
    exact hsteps

theorem lift_closed (run : StmtRun S) (log : List Event) : (run.lift log).closed =
    (run.closed.1, (run.closed.2, log ++ run.events (nextId log))) := by
  simp [StmtRun.closed, StmtRun.lift, StmtRun.events]

/-- The record of a script is that of its statements. -/
theorem traced_script {runs : List (StmtRun S)} {ended : Ended S}
    (h : Script f c text runs ended) (log : List Event) :
    ∃ runs', @Script (traced S) f (c, log) text runs'
      ⟨ended.left, ended.result, ended.file, (ended.conn, log ++ traceOf (nextId log) runs)⟩ := by
  induction h generalizing log with
  | @invalid f c text hrc =>
    have hprep : ((traced S).prepareV2 f (c, log) text).conn =
        ((S.prepareV2 f c text).conn, log) := by simp [hrc]
    have hscript := @Script.invalid (traced S) f (c, log) text hrc
    rw [hprep] at hscript
    exact ⟨[], by rw [traceOf, List.append_nil]; exact hscript⟩
  | @blank f c text hrc hstmt =>
    have hprep : ((traced S).prepareV2 f (c, log) text).conn =
        ((S.prepareV2 f c text).conn, log) := by simp [hstmt]
    have hscript := @Script.blank (traced S) f (c, log) text hrc (by simp [hstmt])
    rw [hprep] at hscript
    exact ⟨[], by rw [traceOf, List.append_nil]; exact hscript⟩
  | @failed run text rest hrun hlast =>
    have hscript := Script.failed (traced_runsStmt hrun log) hlast
    rw [lift_closed] at hscript
    exact ⟨_, by rw [traceOf, traceOf, List.append_nil]; exact hscript⟩
  | @done run text hrun hlast =>
    have hscript := Script.done (traced_runsStmt hrun log) hlast
    rw [lift_closed] at hscript
    exact ⟨_, by rw [traceOf, traceOf, List.append_nil]; exact hscript⟩
  | @next run text rest runs ended hrun hlast hmore _ ih =>
    obtain ⟨runs', hrest⟩ := ih (log ++ run.events (nextId log))
    rw [nextId_append] at hrest
    refine ⟨run.lift log :: runs', ?_⟩
    rw [traceOf, ← List.append_assoc]
    refine Script.next (traced_runsStmt hrun log) hlast hmore ?_
    rw [lift_closed]
    exact hrest

end Traced

section Results

variable {holds : CStr → Prop}

/-- `execute` without parameters is the loop on the bytes of the text. -/
theorem execute_eq {f : S.File} {c : S.Conn} {sql : String} {runs : List (StmtRun S)}
    {ended : Ended S} (hnul : '\x00' ∉ sql.toList)
    (h : Script f c (encode sql.toList) runs ended) :
    execute S f c sql [] =
      ⟨executeResponse S ended.conn
        (ended.result.map (fun _ => (firstNames runs, runs.flatMap StmtRun.rows))),
        ended.file, ended.conn⟩ := by
  rw [execute, executeInner, BoundValues.cString_of_no_nul hnul]
  dsimp only
  rw [executeLoop_eq h List.drop_zero, if_pos rfl, List.nil_append]

/-- A script with rows without end gets no good response. -/
theorem execute_endless {f : S.File} {c : S.Conn} {sql : String} (hnul : '\x00' ∉ sql.toList)
    (h : ¬ FiniteRows f c (encode sql.toList)) : (execute S f c sql []).result.ok = false := by
  unfold FiniteRows at h
  push Not at h
  obtain ⟨f', c', text', st, hreach, hrc, hstmt, hend⟩ := h
  obtain ⟨err, herr⟩ := executeLoop_endless hreach hrc hstmt hend List.drop_zero [] []
  rw [execute, executeInner, BoundValues.cString_of_no_nul hnul]
  dsimp only
  rw [herr]
  rfl

/-- A text without NUL and without parameters, whose statements have finitely many rows: its
successive statements are run, each is compiled, stepped to its end and finalized once, none
after a failure and none left out otherwise, and the rows are theirs in order. -/
theorem script_run_once (hS : Compiles S holds) (f : S.File) (c : S.Conn) (sql : String)
    (hnul : '\x00' ∉ sql.toList) (hends : FiniteRows f c (encode sql.toList)) :
    let out := execute S f c sql []
    ∃ runs ended, Script f c (encode sql.toList) runs ended ∧
      encode sql.toList = runs.flatMap StmtRun.own ++ ended.left ∧
      (∀ run ∈ runs.dropLast, run.last.rc = sqliteDone) ∧
      out.file = ended.file ∧ out.conn = ended.conn ∧
      (out.result.ok = true ↔ ended.result = .ok ()) ∧
      (out.result.ok = true →
        out.result.rows = runs.flatMap StmtRun.rows ∧ ¬ holds ended.left) ∧
      execute (traced S) f (c, []) sql [] = ⟨out.result, out.file, (out.conn, traceOf 0 runs)⟩ ∧
      (traceOf 0 runs).filterMap Event.compiledId = List.range runs.length ∧
      (traceOf 0 runs).filterMap Event.finalizedId = List.range runs.length := by
  intro out
  obtain ⟨runs, ended, hscript⟩ := script_exists hS hends
  have hout : out = _ := execute_eq hnul hscript
  have htraced : execute (traced S) f (c, []) sql [] =
      ⟨out.result, out.file, (out.conn, traceOf 0 runs)⟩ := by
    obtain ⟨runs', hlogged⟩ := traced_script hscript []
    have hforget : out = _ := (untraced S).execute f (c, []) sql []
    have hconn := congrArg Outcome.conn (execute_eq hnul hlogged)
    generalize execute (traced S) f (c, []) sql [] = recorded at hforget hconn ⊢
    obtain ⟨result, f', c', log⟩ := recorded
    obtain rfl : log = traceOf 0 runs := (Prod.mk.inj hconn).2
    rw [hforget]
    rfl
  have hok : out.result.ok = true ↔ ended.result = .ok () := by
    rw [hout]
    cases ended.result with
    | error err => simp [Except.map, executeResponse]
    | ok u => simp [Except.map, executeResponse]
  refine ⟨runs, ended, hscript, hscript.text_eq, hscript.earlier_done, by rw [hout], by rw [hout],
    hok, fun h => ⟨?_, hscript.left_blank hS (hok.mp h)⟩, htraced, ?_, ?_⟩
  · rw [hout, hok.mp h]
    rfl
  · rw [(filterMap_traceOf 0 runs).1, List.range_eq_range']
  · rw [(filterMap_traceOf 0 runs).2, List.range_eq_range']

end Results

section Examples

open ScriptSqlite (firstStmt isBlank isBlank_firstStmt prepareV2_encode text_of_prepare selects
  counting countingSql counting_rows counting_rowsLeft)

theorem scripts_compile :
    Compiles ScriptSqlite.engine (fun rest => isBlank (lossy rest) = false) where
  stmt f c sql st hrc hstmt := by
    obtain ⟨text, rfl⟩ := text_of_prepare hrc
    cases hblank : isBlank text with
    | true =>
      change (ScriptSqlite.prepareV2 f c (encode text)).stmt = _ at hstmt
      rw [prepareV2_encode, if_pos hblank] at hstmt
      cases hstmt
    | false =>
      obtain ⟨rest, hrest⟩ := ScriptSqlite.firstStmt_append text
      refine ⟨encode (firstStmt text), encode rest, ?_, ?_, ?_⟩
      · intro hnil
        have hown := isBlank_firstStmt hblank
        rw [encode_injective (b := []) hnil] at hown
        cases hown
      · rw [← encode_append, ← hrest]
      · change (ScriptSqlite.prepareV2 f c (encode text)).tail = _
        rw [prepareV2_encode, if_neg (by rw [hblank]; decide), length_encode]
  blank f c sql hrc hstmt := by
    obtain ⟨text, rfl⟩ := text_of_prepare hrc
    change (ScriptSqlite.prepareV2 f c (encode text)).stmt = _ at hstmt
    rw [prepareV2_encode] at hstmt
    rw [lossy_encode]
    cases hblank : isBlank text with
    | true => simp
    | false =>
      rw [if_neg (by rw [hblank]; decide)] at hstmt
      cases hstmt
  empty := by decide

theorem selects_compile : Compiles selects (fun rest => isBlank (lossy rest) = false) where
  stmt := scripts_compile.stmt
  blank := scripts_compile.blank
  empty := scripts_compile.empty

theorem selects_end (f : selects.File) (c : selects.Conn) (text : CStr) :
    FiniteRows (S := selects) f c text :=
  fun _ _ _ _ _ _ _ => ends_iff.mpr (Option.some_ne_none _)

/-- The run of a `SELECT`. -/
def selectRun (own : List Char) : StmtRun selects :=
  ⟨encode own, [], (), own, [own.dropLast], ⟨sqliteDone, [], (), own.dropLast⟩⟩

theorem selectRun_runs {own rest : List Char} (hblank : isBlank (own ++ rest) = false)
    (hown : firstStmt (own ++ rest) = own) (hne : encode own ≠ [])
    (hlast : own.getLast? = some ';') (honce : own.dropLast.getLast? ≠ some ';') :
    RunsStmt (selectRun own) (encode (own ++ rest)) (encode rest) := by
  have hprep : ScriptSqlite.prepareV2 [] () (encode (own ++ rest)) =
      ⟨sqliteOk, some own, some (encode own).length, [], ()⟩ := by
    rw [prepareV2_encode, if_neg (by rw [hblank]; decide), hown, length_encode]
  have hrow : selects.step [] () own = ⟨sqliteRow, [], (), own.dropLast⟩ := if_pos hlast
  have hdone : selects.step [] () own.dropLast = ⟨sqliteDone, [], (), own.dropLast⟩ :=
    if_neg honce
  refine ⟨encode_append .., hne, congrArg Prepared.rc hprep, congrArg Prepared.stmt hprep,
    congrArg Prepared.tail hprep, ?_⟩
  change Steps selects (ScriptSqlite.prepareV2 [] () (encode (own ++ rest))).file () own
    [own.dropLast] ⟨sqliteDone, [], (), own.dropLast⟩
  rw [hprep]
  have hend : Steps selects [] () own.dropLast [] ⟨sqliteDone, [], (), own.dropLast⟩ := by
    rw [← hdone]
    exact .last (S := selects) (by rw [hdone]; exact show sqliteDone ≠ sqliteRow by decide)
  have hsteps := @Steps.row selects [] () own [] ⟨sqliteDone, [], (), own.dropLast⟩
  rw [hrow] at hsteps
  exact hsteps rfl hend

/-- The run of the script with two `SELECT`s. -/
theorem two_selects : Script [] () (encode "SELECT 1;SELECT 2;".toList)
    [selectRun "SELECT 1;".toList, selectRun "SELECT 2;".toList] ⟨[], .ok (), [], ()⟩ :=
  .next (@selectRun_runs "SELECT 1;".toList "SELECT 2;".toList rfl rfl (by decide) rfl
    (by decide)) rfl (by decide)
    (.done (@selectRun_runs "SELECT 2;".toList [] rfl rfl (by decide) rfl (by decide)) rfl)

/-- Both statements of a script are compiled, stepped to their rows and behind them, and
finalized. -/
theorem two_statements_run :
    (execute selects [] () "SELECT 1;SELECT 2;" []).result.rows = [[.int 1], [.int 2]] ∧
      (execute (traced selects) [] ((), []) "SELECT 1;SELECT 2;" []).conn.2 =
        [.compiled 0 (encode "SELECT 1;".toList), .stepped 0, .stepped 0, .finalized 0,
          .compiled 1 (encode "SELECT 2;".toList), .stepped 1, .stepped 1, .finalized 1] := by
  obtain ⟨runs, ended, hscript, _, _, _, _, hok, hrows, htraced, _⟩ :=
    script_run_once selects_compile [] () "SELECT 1;SELECT 2;" (by decide) (selects_end _ _ _)
  obtain ⟨rfl, rfl⟩ := hscript.det two_selects
  exact ⟨(hrows (hok.mpr rfl)).1, congrArg (fun out => out.conn.2) htraced⟩

theorem counting_compile : Compiles counting (fun rest => isBlank (lossy rest) = false) where
  stmt := scripts_compile.stmt
  blank := scripts_compile.blank
  empty := scripts_compile.empty

/-- The loop never gets past a recursive query without a limit: each of its steps gives a row. -/
theorem counting_never_ends :
    Compiles counting (fun rest => isBlank (lossy rest) = false) ∧
    '\x00' ∉ countingSql.toList ∧
    (counting.prepareV2 [] () (encode countingSql.toList)).stmt = some countingSql.toList ∧
    (∀ n, (stepAfter counting.step n [] () countingSql.toList).rc = sqliteRow) ∧
    ¬ ∃ runs ended, Script (S := counting) [] () (encode countingSql.toList) runs ended := by
  have hprep : counting.prepareV2 [] () (encode countingSql.toList) =
      ⟨sqliteOk, some countingSql.toList, some (byteLen countingSql.toList), [], ()⟩ := by
    have hown : firstStmt countingSql.toList = countingSql.toList := by decide
    change ScriptSqlite.prepareV2 [] () (encode countingSql.toList) = _
    rw [prepareV2_encode, if_neg (by decide), hown]
  refine ⟨counting_compile, by decide, congrArg Prepared.stmt hprep,
    counting_rows List.prefix_rfl, ?_⟩
  rintro ⟨runs, ended, hscript⟩
  have hends := hscript.first_ends (congrArg Prepared.rc hprep) (congrArg Prepared.stmt hprep)
  exact ends_iff.mp hends (counting_rowsLeft List.prefix_rfl)

end Examples

end SqliteBroker.ScriptRuns
