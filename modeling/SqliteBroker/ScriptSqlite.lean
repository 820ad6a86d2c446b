import SqliteBroker.SharedHandle
import SqliteBroker.Statements

/-!
An engine for scripts. A statement reaches up to its semicolon, a text that begins with
two dashes is a comment, bytes that are no text are refused, and the file is the list of
the statements that have run.
-/
namespace SqliteBroker.ScriptSqlite

open Utf8 Messages Engine Execution Statements
open SharedHandle (FailureCodes)

/-- The first statement of a text, with its semicolon. -/
def firstStmt : List Char → List Char
  | [] => []
  | c :: rest => if c = ';' then [c] else c :: firstStmt rest

def isBlank (text : List Char) : Bool := text = [] ∨ text.take 2 = ['-', '-']

def prepareV2 (f : List (List Char)) (c : Unit) (sql : CStr) :
    Prepared (List (List Char)) Unit (List Char) :=
  let text := lossy sql
  if encode text ≠ sql then ⟨1, none, none, f, c⟩
  else if isBlank text then ⟨sqliteOk, none, some sql.length, f, c⟩
  else ⟨sqliteOk, some (firstStmt text), some (byteLen (firstStmt text)), f, c⟩

abbrev engine : Sqlite where
  File := List (List Char)
  Conn := Unit
  Stmt := List Char
  connectionOpen f := (.ok (), f)
  busyTimeout c := .ok c
  closeConnection f _ := f
  isAutocommit _ := true
  changes _ := 0
  lastInsertRowid _ := 0
  totalChanges _ := 0
  errcode _ := 0
  errmsg _ := none
  prepareV2 := prepareV2
  bindNull st _ := (0, st)
  bindInt64 st _ _ := (0, st)
  bindDouble st _ _ := (0, st)
  bindText st _ _ := (0, st)
  bindBlob st _ _ := (0, st)
  bindParameterCount _ := 0
  bindParameterName _ _ := none
  columnCount _ := 0
  columnName _ _ := none
  columnDecltype _ _ := none
  step f c st := ⟨sqliteDone, f ++ [st], c, st⟩
  columnType _ _ := sqliteNull
  columnInt64 _ _ := 0
  columnDouble _ _ := F64.ofInt 0
  columnBytes _ _ := 0
  columnBlob _ _ := none
  columnText _ _ := none
  finalize f c _ := (f, c)
  rowsLeft _ _ _ := some 0
  open_autocommit := fun _ _ _ => rfl
  busyTimeout_autocommit := fun _ _ _ => rfl
  prepare_autocommit := fun _ _ _ => rfl
  finalize_autocommit := fun _ _ _ => rfl
  step_row := by
    intro f c st n hleft h
    cases h
  step_endless := fun _ _ _ h => nomatch h

/-- The expression of a `SELECT`. -/
def selected (st : List Char) : List Char := (st.drop 7).takeWhile (· ≠ ';')

/-- The engine for scripts of `SELECT`s of a number: each has one column, named by its
expression, and one row. A statement has given its row when its semicolon is gone. -/
abbrev selects : Sqlite :=
  { engine with
    columnCount := fun _ => 1
    columnName := fun st _ => some (encode (selected st))
    columnType := fun _ _ => sqliteInteger
    columnInt64 := fun st _ =>
      .ofNat ((selected st).foldl (fun n digit => 10 * n + (digit.toNat - '0'.toNat)) 0)
    step := fun f c st =>
      if st.getLast? = some ';' then ⟨sqliteRow, f, c, st.dropLast⟩ else ⟨sqliteDone, f, c, st⟩
    rowsLeft := fun _ _ st => some st.length
    step_row := by
      intro f c st n hleft h
      refine lt_rowsLeft hleft ?_
      split at h
      · next hlast =>
        rw [if_pos hlast, List.length_dropLast]
        have := List.length_pos_of_mem (List.mem_of_getLast? hlast)
        omega
      · cases h
    step_endless := fun _ _ _ h => nomatch h }

/-- A recursive query that nothing stops. -/
def countingSql : String :=
  "WITH RECURSIVE n(i) AS (SELECT 1 UNION ALL SELECT i + 1 FROM n) SELECT i FROM n;"

/-- The engine for scripts with that query, which gives the numbers from 1 on. Each row adds a
mark to the statement. -/
abbrev counting : Sqlite :=
  { engine with
    columnCount := fun st => if countingSql.toList <+: st then 1 else 0
    columnName := fun _ _ => some (encode "i".toList)
    columnType := fun _ _ => sqliteInteger
    columnInt64 := fun st _ => .ofNat (st.length - countingSql.length)
    step := fun f c st =>
      if countingSql.toList <+: st then ⟨sqliteRow, f, c, st ++ ['+']⟩
      else ⟨sqliteDone, f ++ [st], c, st⟩
    rowsLeft := fun _ _ st => if countingSql.toList <+: st then none else some 0
    step_row := by
      intro f c st n hleft h
      dsimp only at hleft h
      split at hleft
      · cases hleft
      · next hother =>
        rw [if_neg hother] at h
        cases h
    step_endless := by
      intro f c st hleft
      dsimp only at hleft ⊢
      split at hleft
      · next hcounts =>
        rw [if_pos hcounts]
        exact ⟨rfl, if_pos (hcounts.trans (List.prefix_append st ['+']))⟩
      · cases hleft }

section Counting

variable {f : List (List Char)} {c : Unit} {st : List Char}

theorem counting_step (h : countingSql.toList <+: st) :
    counting.step f c st = ⟨sqliteRow, f, c, st ++ ['+']⟩ := if_pos h

theorem counting_rowsLeft (h : countingSql.toList <+: st) : counting.rowsLeft f c st = none :=
  if_pos h

/-- Every step of the query gives a row. -/
theorem counting_rows (h : countingSql.toList <+: st) (n : ℕ) :
    (stepAfter counting.step n f c st).rc = sqliteRow := by
  induction n generalizing st with
  | zero => exact congrArg Stepped.rc (counting_step h)
  | succ n ih =>
    rw [stepAfter, counting_step h]
    exact ih (h.trans (List.prefix_append st ['+']))

end Counting

theorem firstStmt_append (text : List Char) : ∃ rest, text = firstStmt text ++ rest := by
  induction text with
  | nil => exact ⟨[], rfl⟩
  | cons c rest ih =>
    unfold firstStmt
    split
    · exact ⟨rest, rfl⟩
    · obtain ⟨more, hmore⟩ := ih
      exact ⟨more, congrArg (c :: ·) hmore⟩

theorem firstStmt_firstStmt (text : List Char) : firstStmt (firstStmt text) = firstStmt text := by
  induction text with
  | nil => rfl
  | cons c rest ih =>
    by_cases hc : c = ';'
    · simp [firstStmt, hc]
    · simp [firstStmt, hc, ih]

/-- A first statement is no comment. -/
theorem isBlank_firstStmt {text : List Char} (h : isBlank text = false) :
    isBlank (firstStmt text) = false := by
  simp only [isBlank, decide_eq_false_iff_not, not_or] at h ⊢
  obtain ⟨hsome, hdashes⟩ := h
  cases text with
  | nil => exact absurd rfl hsome
  | cons c rest =>
    unfold firstStmt
    split
    · simp
    · cases rest with
      | nil => simp [firstStmt]
      | cons d more =>
        unfold firstStmt
        split <;> simp_all

theorem prepareV2_encode (f : List (List Char)) (c : Unit) (text : List Char) :
    prepareV2 f c (encode text) =
      if isBlank text then ⟨sqliteOk, none, some (encode text).length, f, c⟩
      else ⟨sqliteOk, some (firstStmt text), some (byteLen (firstStmt text)), f, c⟩ := by
  rw [prepareV2, lossy_encode]
  rw [if_neg (not_not_intro rfl)]

/-- A call that compiles a text. -/
theorem text_of_prepare {f : List (List Char)} {c : Unit} {sql : CStr}
    (h : (prepareV2 f c sql).rc = sqliteOk) : ∃ text, sql = encode text := by
  unfold prepareV2 at h
  dsimp only at h
  split at h
  · cases h
  · next hvalid => exact ⟨_, (not_not.mp hvalid).symm⟩

theorem file_prepareV2 (f : List (List Char)) (c : Unit) (sql : CStr) :
    (prepareV2 f c sql).file = f := by
  unfold prepareV2
  dsimp only
  split
  · rfl
  · split <;> rfl

/-- The engine compiles as SQLite documents it. -/
theorem deterministic : Deterministic engine (fun f _ => f) where
  prepare_view := file_prepareV2
  prepare_same f c f' c' sql h := by
    cases h
    exact ⟨rfl, rfl, rfl⟩
  consumes f c text st hrc hstmt := by
    change (prepareV2 f c (encode text)).stmt = some st at hstmt
    cases hblank : isBlank text with
    | true =>
      rw [prepareV2_encode, if_pos hblank] at hstmt
      cases hstmt
    | false =>
      have hcompiled : prepareV2 f c (encode text) =
          ⟨sqliteOk, some (firstStmt text), some (byteLen (firstStmt text)), f, c⟩ := by
        rw [prepareV2_encode, if_neg (by rw [hblank]; decide)]
      have halone : prepareV2 f c (encode (firstStmt text)) =
          ⟨sqliteOk, some (firstStmt text), some (byteLen (firstStmt text)), f, c⟩ := by
        rw [prepareV2_encode, if_neg (by rw [isBlank_firstStmt hblank]; decide),
          firstStmt_firstStmt]
      rw [hcompiled] at hstmt
      cases hstmt
      obtain ⟨rest, hrest⟩ := firstStmt_append text
      refine ⟨firstStmt text, rest, ?_, hrest, ?_, ?_, ?_, ?_⟩
      · intro hnil
        have hown := isBlank_firstStmt hblank
        rw [hnil] at hown
        cases hown
      · change (prepareV2 f c (encode text)).tail = _
        rw [hcompiled]
      · change (prepareV2 f c (encode (firstStmt text))).rc = _
        rw [halone]
      · change (prepareV2 f c (encode (firstStmt text))).stmt = _
        rw [halone]
      · change (prepareV2 f c (encode (firstStmt text))).tail = _
        rw [halone]
  step_same f c f' c' st h := by
    cases h
    exact ⟨rfl, rfl, rfl⟩
  finalize_same f c f' c' st h := h
  finalize_view f c sql _ _ := file_prepareV2 f c sql

theorem failureCodes : FailureCodes engine := by
  have hcode : (0 : Int32) ≠ sqliteRow ∧ (0 : Int32) ≠ sqliteDone := by decide
  exact ⟨fun _ _ _ _ => hcode, fun _ _ _ _ _ => hcode⟩

/-- The response to a prepare of this statement. -/
def compiled (st : List Char) : Response := { okClosed with tail := .ofNat (byteLen st) }

section Runs

variable {f : List (List Char)} {c : Unit} {text : List Char} {script : String}

/-- One round of the broker's loop. -/
theorem executeLoop_first {sql : CStr} {pos : ℕ} {rest : List Char}
    (hsql : sql.drop pos = encode text) (hblank : isBlank text = false)
    (htext : text = firstStmt text ++ rest) :
    executeLoop engine sql [] pos [] [] f c =
      if rest = [] then ⟨.ok ([], []), f ++ [firstStmt text], c⟩
      else executeLoop engine sql [] (pos + byteLen (firstStmt text)) [] []
        (f ++ [firstStmt text]) c := by
  have hprep : prepareV2 f c (sql.drop pos) =
      ⟨sqliteOk, some (firstStmt text), some (byteLen (firstStmt text)), f, c⟩ := by
    rw [hsql, prepareV2_encode, if_neg (by rw [hblank]; decide)]
  have hrows : stepRows engine 0 f c (firstStmt text) [] =
      ⟨(firstStmt text, .ok []), f ++ [firstStmt text], c⟩ := by
    rw [stepRows]
    rfl
  have hdrop : sql.drop (pos + byteLen (firstStmt text)) = encode rest := by
    rw [← List.drop_drop, hsql]
    nth_rewrite 2 [htext]
    rw [encode_append, ← length_encode, List.drop_left]
  have hown : firstStmt text ≠ [] := by
    intro hnil
    have hsome := isBlank_firstStmt hblank
    rw [hnil] at hsome
    cases hsome
  have hpos := byteLen_pos hown
  rw [executeLoop]
  simp only [hprep, ne_eq, not_true, if_false, List.isEmpty_nil, if_true, hrows, hdrop]
  by_cases hrest : rest = []
  · subst hrest
    rfl
  · have hmore := byteLen_pos hrest
    have hinside := congrArg List.length hdrop
    rw [List.length_drop, length_encode] at hinside
    have hsome : ¬ (encode rest).isEmpty = true := by
      rw [List.isEmpty_iff]
      exact fun hnil => hrest (encode_injective (b := []) hnil)
    rw [if_neg hsome, dif_neg (by omega), if_neg hrest]
    rfl

/-- A script that the loop gets through is answered. -/
theorem execute_script {f' : List (List Char)} (hscript : cString script = .ok (encode text))
    (hloop : executeLoop engine (encode text) [] 0 [] [] f c = ⟨.ok ([], []), f', c⟩) :
    execute engine f c script [] = ⟨okClosed, f', c⟩ := by
  rw [execute, executeInner, hscript]
  dsimp only
  rw [hloop]
  rfl

theorem prepareMeta_one (hscript : cString script = .ok (encode text))
    (hblank : isBlank text = false) :
    prepareMeta engine f c script = ⟨compiled (firstStmt text), f, c⟩ := by
  have hprep : prepareV2 f c (encode text) =
      ⟨sqliteOk, some (firstStmt text), some (byteLen (firstStmt text)), f, c⟩ := by
    rw [prepareV2_encode, if_neg (by rw [hblank]; decide)]
  rw [prepareMeta, hscript]
  simp only [hprep]
  rfl

end Runs

end SqliteBroker.ScriptSqlite
