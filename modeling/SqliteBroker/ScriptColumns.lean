import SqliteBroker.Bindings
import SqliteBroker.ExecCallback
import SqliteBroker.ScriptRuns
import SqliteBroker.ScriptSqlite

/-!
The column names that the callback of `sqlite3_exec` gets with a row. The broker collects
the rows of all statements of a script and keeps the names of the first statement that has
columns; the shim pads these names to the width of each row.
-/
namespace SqliteBroker.ScriptColumns

open Utf8 Messages Engine ShimConnection ShimStatement ScriptRuns ExecCallback
open Execution hiding sqliteError

/-- What SQLite promises of columns: a statement has those of its own text, and each of
them has a name. -/
structure Describes (S : Sqlite) : Prop where
  alone : ∀ f c text st, (S.prepareV2 f c (encode text)).rc = sqliteOk →
    (S.prepareV2 f c (encode text)).stmt = some st →
    ∃ own rest st', text = own ++ rest ∧
      (S.prepareV2 f c (encode text)).tail = some (byteLen own) ∧
      (S.prepareV2 f c (encode own)).rc = sqliteOk ∧
      (S.prepareV2 f c (encode own)).stmt = some st' ∧
      S.columnCount st' = S.columnCount st ∧ S.columnName st' = S.columnName st
  named : ∀ f c text st i, (S.prepareV2 f c (encode text)).stmt = some st → 0 ≤ i →
    i < S.columnCount st → S.columnName st i ≠ none

/-- `sqlite3_column_name`: `none` is a null pointer. -/
def columnName (stmt : ProxyStmt) (i : Int32) : Option String :=
  if i < 0 then none else stmt.columns[i.toInt.toNat]?

section Rows

variable {S : Sqlite} {runs : List (StmtRun S)} {run : StmtRun S} {k : ℕ}

/-- Row `k` of the script is one of this statement. -/
def Produces (runs : List (StmtRun S)) (run : StmtRun S) (k : ℕ) : Prop :=
  ∃ before after, runs = before ++ run :: after ∧
    (before.flatMap StmtRun.rows).length ≤ k ∧
    k < (before.flatMap StmtRun.rows).length + run.rows.length

theorem produces_exists (hk : k < (runs.flatMap StmtRun.rows).length) :
    ∃ run, Produces runs run k := by
  induction runs generalizing k with
  | nil => simp at hk
  | cons first rest ih =>
    rw [List.flatMap_cons, List.length_append] at hk
    by_cases hfirst : k < first.rows.length
    · exact ⟨first, [], rest, rfl, Nat.zero_le k, by simpa using hfirst⟩
    · obtain ⟨run, before, after, rfl, hle, hlt⟩ := ih (k := k - first.rows.length) (by omega)
      refine ⟨run, first :: before, after, rfl, ?_, ?_⟩
      · rw [List.flatMap_cons, List.length_append]
        omega
      · rw [List.flatMap_cons, List.length_append]
        omega

theorem Produces.mem (h : Produces runs run k) : run ∈ runs := by
  obtain ⟨before, after, rfl, _⟩ := h
  exact List.mem_append_right before (List.mem_cons_self ..)

theorem Produces.row (h : Produces runs run k) :
    ∃ row ∈ run.rows, (runs.flatMap StmtRun.rows)[k]? = some row := by
  obtain ⟨before, after, rfl, hle, hlt⟩ := h
  have hin : k - (before.flatMap StmtRun.rows).length < run.rows.length := by omega
  refine ⟨_, List.getElem_mem hin, ?_⟩
  rw [List.flatMap_append, List.flatMap_cons, List.getElem?_append_right hle,
    List.getElem?_append_left hin, List.getElem?_eq_getElem hin]

theorem produces_of_rows (hrun : run ∈ runs) (hrows : run.onRows ≠ []) :
    ∃ k, Produces runs run k := by
  obtain ⟨before, after, hruns⟩ := List.append_of_mem hrun
  have hpos : 0 < run.rows.length := by
    rw [StmtRun.rows, List.length_map]
    exact List.length_pos_iff.mpr hrows
  exact ⟨_, before, after, hruns, Nat.le_refl _, by omega⟩

theorem rows_width {row : List Cell} (h : row ∈ run.rows) : row.length = run.names.length := by
  obtain ⟨st, _, rfl⟩ := List.mem_map.mp h
  rw [readRow, StmtRun.names, columnNames, List.length_map, List.length_map]

/-- The names that the loop keeps are those of the first statement with columns. -/
theorem firstNames_eq (runs : List (StmtRun S)) : firstNames runs =
    ((runs.find? (fun run => 0 < S.columnCount run.stmt)).map StmtRun.names).getD [] := by
  induction runs with
  | nil => rfl
  | cons run rest ih =>
    rw [firstNames, List.find?_cons]
    by_cases hpos : 0 < S.columnCount run.stmt
    · simp [hpos]
    · simp [hpos, ih]

end Rows

section Alone

variable {S : Sqlite} {f : S.File} {c : S.Conn} {runs : List (StmtRun S)} {ended : Ended S}
  {run : StmtRun S} {chars : List Char} {rest : CStr}

/-- The statement that the shim prepares of this text alone, in the state in which the
script came to it. -/
def aloneStmt (run : StmtRun S) : ProxyStmt :=
  .create (lossyString run.own)
    (prepareMeta S run.file run.conn (lossyString run.own)).result

theorem runsStmt_chars (hD : Describes S) (h : RunsStmt run (encode chars) rest) :
    ∃ own more st', chars = own ++ more ∧ run.own = encode own ∧ rest = encode more ∧
      (S.prepareV2 run.file run.conn (encode own)).rc = sqliteOk ∧
      (S.prepareV2 run.file run.conn (encode own)).stmt = some st' ∧
      S.columnCount st' = S.columnCount run.stmt ∧ S.columnName st' = S.columnName run.stmt := by
  obtain ⟨own, more, st', rfl, htail, hrc, hstmt, hcount, hname⟩ :=
    hD.alone run.file run.conn chars run.stmt h.rc h.stmt
  have hlen : run.own.length = (encode own).length := by
    rw [length_encode]
    exact Option.some.inj (h.tail.symm.trans htail)
  have hsplit := h.split
  rw [encode_append] at hsplit
  obtain ⟨hown, hrest⟩ := List.append_inj hsplit.symm hlen
  exact ⟨own, more, st', rfl, hown, hrest, hrc, hstmt, hcount, hname⟩

/-- Prepared alone, a statement has the names that the broker reads when it runs it. -/
theorem alone_columns (hD : Describes S) (h : RunsStmt run (encode chars) rest)
    (hnul : '\x00' ∉ chars) : (aloneStmt run).columns = run.names.map cstringLossy := by
  obtain ⟨own, more, st', rfl, hown, _, hrc, hstmt, hcount, hname⟩ := runsStmt_chars hD h
  have htext : (lossyString run.own).toList = own := by
    rw [lossyString, hown, lossy_encode, String.toList_ofList]
  have hsql : cString (lossyString run.own) = .ok (encode own) := by
    rw [BoundValues.cString_of_no_nul, htext]
    rw [htext]
    exact fun hmem => hnul (List.mem_append_left more hmem)
  have hnames : (upTo (S.columnCount st')).map (fun i => cstrAt (S.columnName st' i)) =
      run.names := by
    rw [StmtRun.names, columnNames, hcount, hname]
    apply List.map_congr_left
    intro i hi
    have hsome : S.columnName run.stmt i ≠ none := by
      obtain ⟨n, hn, rfl⟩ := List.mem_map.mp hi
      have hlt := List.mem_range.mp hn
      have hmax := (S.columnCount run.stmt).toInt_lt
      have hint : (Int32.ofNat n).toInt = n := Int32.toInt_ofNat_of_lt (by omega)
      apply hD.named run.file run.conn (own ++ more) run.stmt _ h.stmt
      · rw [Int32.le_iff_toInt_le, hint, Int32.toInt_zero]
        omega
      · rw [Int32.lt_iff_toInt_lt, hint]
        omega
    cases hcol : S.columnName run.stmt i with
    | none => exact absurd hcol hsome
    | some name => rfl
  rw [aloneStmt, ProxyStmt.create, prepareMeta, hsql]
  dsimp only
  rw [if_neg (not_not_intro hrc), hstmt]
  dsimp only
  rw [hnames]

/-- Every statement of a script starts a text of characters. -/
theorem script_chars (hD : Describes S) {text : CStr} (h : Script f c text runs ended)
    (htext : text = encode chars) (hnul : '\x00' ∉ chars) :
    ∀ run ∈ runs, ∃ chars rest, RunsStmt run (encode chars) rest ∧ '\x00' ∉ chars := by
  induction h generalizing chars with
  | invalid hrc => simp
  | blank hrc hstmt => simp
  | failed hrun hlast =>
    subst htext
    intro run hmem
    obtain rfl := List.mem_singleton.mp hmem
    exact ⟨chars, _, hrun, hnul⟩
  | done hrun hlast =>
    subst htext
    intro run hmem
    obtain rfl := List.mem_singleton.mp hmem
    exact ⟨chars, _, hrun, hnul⟩
  | next hrun hlast hmore _ ih =>
    subst htext
    intro run hmem
    rcases List.mem_cons.mp hmem with rfl | hlater
    · exact ⟨chars, _, hrun, hnul⟩
    · obtain ⟨own, more, _, rfl, _, hrest, _⟩ := runsStmt_chars hD hrun
      exact ih hrest (fun hmem => hnul (List.mem_append_right own hmem)) run hlater

end Alone

section Names

theorem rowNames_getElem? {columns : List String} {width k : ℕ} (hk : k < width) :
    (rowNames columns width)[k]? =
      if k < columns.length then (columns.map cstringLossy)[k]? else some "" := by
  rw [rowNames]
  split
  · next hin => rw [List.getElem?_append_left (by rwa [List.length_map])]
  · next hout =>
    rw [List.getElem?_append_right (by rw [List.length_map]; omega), List.length_map,
      List.getElem?_replicate, if_pos (by omega)]

theorem textPtr_injective {a b : String} (h : textPtr a = textPtr b) : a = b :=
  String.toList_injective (encode_injective (Option.some.inj h))

variable {floats : FloatText} {resp : Response}

/-- A callback that never aborts gets all rows. -/
theorem accepting_calls (rows : List (List Cell)) :
    callbackLoop floats accepting resp () rows = (rows.map (rowCall floats resp), false) := by
  induction rows with
  | nil => rfl
  | cons row rest ih =>
    rw [callbackLoop]
    simp only [accepting, ne_eq, not_true, if_false]
    rw [ih]
    rfl

variable {S : Sqlite} {first run : StmtRun S} {i : Int32}

/-- The column counts of C are less than `2 ^ 31`. -/
theorem names_length_lt (run : StmtRun S) : run.names.length < 2 ^ 31 := by
  have hmax := (S.columnCount run.stmt).toInt_lt
  rw [StmtRun.names, columnNames, upTo, List.length_map, List.length_map, List.length_range]
  omega

theorem lt_columnCount_iff (hcolumns : (aloneStmt run).columns = run.names.map cstringLossy)
    (hi : 0 ≤ i) : i < (aloneStmt run).columnCount ↔ i.toInt.toNat < run.names.length := by
  rw [Int32.le_iff_toInt_le, Int32.toInt_zero] at hi
  rw [ProxyStmt.columnCount, hcolumns, List.length_map, Int32.lt_iff_toInt_lt,
    Int32.toInt_ofNat_of_lt (names_length_lt run)]
  omega

theorem columnName_alone (hcolumns : (aloneStmt run).columns = run.names.map cstringLossy)
    (hi : 0 ≤ i) :
    columnName (aloneStmt run) i = (run.names.map cstringLossy)[i.toInt.toNat]? := by
  rw [columnName, if_neg (Int32.not_lt.mpr hi), hcolumns]

/-- The statement has the names of the first one, and empty names behind them. -/
def HasNames (first run : StmtRun S) : Prop :=
  ∀ i : Int32, 0 ≤ i → i < (aloneStmt run).columnCount →
    columnName (aloneStmt run) i =
      if i < (aloneStmt first).columnCount then columnName (aloneStmt first) i else some ""

/-- The call passes the names that `sqlite3_column_name` reports. -/
def PassesNames (call : RowCall) (stmt : ProxyStmt) : Prop :=
  ∀ i : Int32, 0 ≤ i → i < call.argc →
    call.names[i.toInt.toNat]? = some ((columnName stmt i).bind textPtr)

theorem rowCall_argc {row : List Cell}
    (hcolumns : (aloneStmt run).columns = run.names.map cstringLossy) (hrow : row ∈ run.rows) :
    (rowCall floats resp row).argc = (aloneStmt run).columnCount := by
  rw [rowCall, rows_width hrow, ProxyStmt.columnCount, hcolumns, List.length_map]

theorem passesNames_iff {row : List Cell}
    (hrun : (aloneStmt run).columns = run.names.map cstringLossy)
    (hfirst : (aloneStmt first).columns = first.names.map cstringLossy)
    (hrow : row ∈ run.rows) (hresp : resp.columns = first.names) :
    PassesNames (rowCall floats resp row) (aloneStmt run) ↔ HasNames first run := by
  unfold PassesNames HasNames
  rw [rowCall_argc hrun hrow]
  refine forall_congr' fun i => forall_congr' fun hi => forall_congr' fun hlt => ?_
  have hk := (lt_columnCount_iff hrun hi).mp hlt
  have hpassed : (rowCall floats resp row).names[i.toInt.toNat]? =
      (if i < (aloneStmt first).columnCount then columnName (aloneStmt first) i
        else some "").map textPtr := by
    rw [rowCall, List.getElem?_map, rowNames_getElem? (by rwa [rows_width hrow]), hresp,
      columnName_alone hfirst hi]
    simp only [lt_columnCount_iff hfirst hi]
  have hown := columnName_alone hrun hi
  rw [List.getElem?_map, List.getElem?_eq_getElem hk, Option.map_some] at hown
  rw [hpassed, hown, Option.bind_some]
  cases (if i < (aloneStmt first).columnCount then columnName (aloneStmt first) i
    else some "") with
  | none => simp
  | some name =>
    rw [Option.map_some, Option.some_inj, Option.some_inj]
    exact ⟨fun h => (textPtr_injective h).symm, fun h => by rw [h]⟩

end Names

section Results

variable {S : Sqlite} {holds : CStr → Prop}

/-- The answer that `exec_sql` gets from its request. -/
def answerOf (resp : Response) : Except (Int32 × String) Response :=
  if resp.ok then .ok resp else .error (resp.code, resp.message)

/-- Call `k` of some callback, given the rows of this response. -/
def Called (floats : FloatText) (sql : Bytes) (resp : Response) (k : ℕ) (call : RowCall) : Prop :=
  ∃ (σ : Type) (callback : σ → RowCall → Int32 × σ) (s : σ),
    (execSql floats (some sql) (some callback) s (answerOf resp)).calls[k]? = some call

theorem Called.row {floats : FloatText} {sql : Bytes} {resp : Response} {k : ℕ} {call : RowCall}
    (h : Called floats sql resp k call) :
    resp.ok = true ∧ ∃ row, resp.rows[k]? = some row ∧ call = rowCall floats resp row := by
  obtain ⟨σ, callback, s, hcall⟩ := h
  unfold answerOf at hcall
  split at hcall
  · next hok => exact ⟨hok, execSql_call hcall⟩
  · cases hcall

theorem called_of_row {floats : FloatText} {resp : Response} {k : ℕ} {row : List Cell}
    (sql : Bytes) (hok : resp.ok = true) (hrow : resp.rows[k]? = some row) :
    Called floats sql resp k (rowCall floats resp row) := by
  refine ⟨Unit, accepting, (), ?_⟩
  simp only [answerOf, hok, if_true, execSql, accepting_calls, Bool.false_eq_true, if_false]
  rw [List.getElem?_map, hrow]
  rfl

/-- Each row comes to the callback with the column count of its own statement. It comes with
that statement's names exactly when the statements that return rows all have the names of the
first statement with columns. Behind rows without end there is no callback. -/
theorem callback_names_iff (hC : Compiles S holds) (hD : Describes S) (floats : FloatText)
    (f : S.File) (c : S.Conn) (sql : Bytes) :
    let text := sqlFrom (some sql) (-1)
    let resp := (execute S f c text []).result
    (¬ FiniteRows f c (encode text.toList) → ∀ k call, ¬ Called floats sql resp k call) ∧
    (FiniteRows f c (encode text.toList) →
      ∃ runs ended, Script f c (encode text.toList) runs ended ∧
        (∀ k call, Called floats sql resp k call → (∃ run, Produces runs run k) ∧
          ∀ run, Produces runs run k → call.argc = (aloneStmt run).columnCount) ∧
        ((∀ k call, Called floats sql resp k call →
            ∀ run, Produces runs run k → PassesNames call (aloneStmt run)) ↔
          (ended.result = .ok () → ∀ run ∈ runs, run.onRows ≠ [] →
            ∀ first, runs.find? (fun run => 0 < S.columnCount run.stmt) = some first →
              HasNames first run))) := by
  intro text resp
  have hnul : '\x00' ∉ text.toList := Bindings.sqlFrom_no_nul _ _
  refine ⟨fun hendless k call hcalled => ?_, fun hends => ?_⟩
  · have hfailed : resp.ok = false := execute_endless hnul hendless
    exact absurd (hcalled.row.1.symm.trans hfailed) (by decide)
  obtain ⟨runs, ended, hscript⟩ := script_exists hC hends
  have hresp : resp = _ := congrArg Outcome.result (execute_eq hnul hscript)
  have hcolumns : ∀ run ∈ runs, (aloneStmt run).columns = run.names.map cstringLossy := by
    intro run hrun
    obtain ⟨chars, rest, hstarts, hchars⟩ := script_chars hD hscript rfl hnul run hrun
    exact alone_columns hD hstarts hchars
  have hended : resp.ok = true ↔ ended.result = .ok () := by
    rw [hresp]
    cases ended.result with
    | error err => simp [Except.map, executeResponse]
    | ok u => simp [Except.map, executeResponse]
  have hfilled : resp.ok = true →
      resp.columns = firstNames runs ∧ resp.rows = runs.flatMap StmtRun.rows := by
    intro hok
    rw [hresp, hended.mp hok]
    exact ⟨rfl, rfl⟩
  have hcall : ∀ k call run, Called floats sql resp k call → Produces runs run k →
      resp.ok = true ∧ ∃ row ∈ run.rows, call = rowCall floats resp row := by
    intro k call run hcalled hrun
    obtain ⟨hok, row, hrow, rfl⟩ := hcalled.row
    obtain ⟨row', hmem, hrow'⟩ := hrun.row
    rw [(hfilled hok).2, hrow'] at hrow
    obtain rfl := Option.some.inj hrow
    exact ⟨hok, row', hmem, rfl⟩
  refine ⟨runs, ended, hscript, ?_, ?_, ?_⟩
  · intro k call hcalled
    refine ⟨?_, fun run hrun => ?_⟩
    · obtain ⟨hok, row, hrow, _⟩ := hcalled.row
      rw [(hfilled hok).2] at hrow
      exact produces_exists (List.getElem?_eq_some_iff.mp hrow).1
    · obtain ⟨_, row, hrow, rfl⟩ := hcall k call run hcalled hrun
      exact rowCall_argc (hcolumns run hrun.mem) hrow
  · intro hpasses hok run hrun hrows first hfirst
    obtain ⟨k, hproduces⟩ := produces_of_rows hrun hrows
    obtain ⟨row, hmem, hrow⟩ := hproduces.row
    obtain ⟨hnames, hlist⟩ := hfilled (hended.mpr hok)
    rw [← hlist] at hrow
    rw [firstNames_eq, hfirst, Option.map_some, Option.getD_some] at hnames
    exact (passesNames_iff (hcolumns run hrun) (hcolumns first (List.mem_of_find?_eq_some hfirst))
      hmem hnames).mp (hpasses k _ (called_of_row sql (hended.mpr hok) hrow) run hproduces)
  · intro hnames k call hcalled run hrun
    obtain ⟨hok, row, hmem, rfl⟩ := hcall k call run hcalled hrun
    have hlist := (hfilled hok).1
    rw [firstNames_eq] at hlist
    cases hfirst : runs.find? (fun run => 0 < S.columnCount run.stmt) with
    | none =>
      have hnone : ¬ 0 < S.columnCount run.stmt := by
        simpa using List.find?_eq_none.mp hfirst run hrun.mem
      intro i hi hlt
      rw [rowCall_argc (hcolumns run hrun.mem) hmem,
        lt_columnCount_iff (hcolumns run hrun.mem) hi, (names_eq_nil_iff run).mpr hnone] at hlt
      cases hlt
    | some first =>
      rw [hfirst, Option.map_some, Option.getD_some] at hlist
      have hrows : run.onRows ≠ [] := by
        intro hnil
        rw [StmtRun.rows, hnil] at hmem
        cases hmem
      exact (passesNames_iff (hcolumns run hrun.mem)
        (hcolumns first (List.mem_of_find?_eq_some hfirst)) hmem hlist).mpr
        (hnames (hended.mp hok) run hrun.mem hrows first hfirst)

end Results

section Examples

open StepCycle (noFloats)
open ScriptSqlite (selects)

theorem selects_describe : Describes selects where
  alone f c text st hrc hstmt := by
    obtain ⟨own, rest, _, htext, htail, hown, hstmt', _⟩ :=
      ScriptSqlite.deterministic.consumes f c text st hrc hstmt
    exact ⟨own, rest, st, htext, htail, hown, hstmt', rfl, rfl⟩
  named _ _ _ _ _ _ _ _ := Option.some_ne_none _

/-- The row of the second statement comes with its own name where the first has that, too. -/
theorem same_names_passed : ∃ call run,
    Called noFloats (encode "SELECT 1;SELECT 1;".toList)
      (execute selects [] () "SELECT 1;SELECT 1;" []).result 1 call ∧
    Produces [selectRun "SELECT 1;".toList, selectRun "SELECT 1;".toList] run 1 ∧
    PassesNames call (aloneStmt run) := by
  let one : StmtRun selects := selectRun "SELECT 1;".toList
  have htwo : Script [] () (encode "SELECT 1;SELECT 1;".toList) [one, one] ⟨[], .ok (), [], ()⟩ :=
    .next (@selectRun_runs "SELECT 1;".toList "SELECT 1;".toList rfl rfl (by decide) rfl
      (by decide)) rfl (by decide)
      (.done (@selectRun_runs "SELECT 1;".toList [] rfl rfl (by decide) rfl (by decide)) rfl)
  obtain ⟨runs, ended, hscript, hcount, hiff⟩ :=
    (callback_names_iff selects_compile selects_describe noFloats [] ()
      (encode "SELECT 1;SELECT 1;".toList)).2 (selects_end _ _ _)
  obtain ⟨rfl, rfl⟩ := hscript.det htwo
  have hresp : (execute selects [] () "SELECT 1;SELECT 1;" []).result = _ :=
    congrArg Outcome.result (execute_eq (by decide) htwo)
  have hrow : (execute selects [] () "SELECT 1;SELECT 1;" []).result.rows[1]? =
      some [.int 1] := by
    rw [hresp]
    rfl
  have hcalled := @called_of_row noFloats _ _ _ (encode "SELECT 1;SELECT 1;".toList)
    (by rw [hresp]; rfl) hrow
  obtain ⟨run, hrun⟩ := (hcount 1 _ hcalled).1
  refine ⟨_, run, hcalled, hrun, hiff.mpr ?_ 1 _ hcalled run hrun⟩
  intro _ run hrun _ first hfirst
  obtain rfl : run = one := by simpa using hrun
  obtain rfl : first = one := by simpa using List.mem_of_find?_eq_some hfirst
  intro i _ hlt
  rw [if_pos hlt]

/-- The row of the second statement comes with the name of the first one's column. -/
theorem second_row_misnamed :
    let resp := (execute selects [] () "SELECT 1;SELECT 2;" []).result
    let alone := ProxyStmt.create "SELECT 2;" (prepareMeta selects [] () "SELECT 2;").result
    (execSql noFloats (some (encode "SELECT 1;SELECT 2;".toList)) (some accepting) ()
        (answerOf resp)).calls.map RowCall.names =
      [[textPtr "1"], [textPtr "1"]] ∧ columnName alone 0 = some "2" := by
  intro resp alone
  have hresp : resp = _ := congrArg Outcome.result (execute_eq (by decide) two_selects)
  constructor
  · rw [hresp]
    rfl
  · decide

end Examples

end SqliteBroker.ScriptColumns
