import SqliteBroker.AsciiBytes
import SqliteBroker.Schemas

/-!
An engine that knows the statements of a worker's start and keeps nothing but the schema. A
statement reaches up to its semicolon, and a second writer is turned away.
-/
namespace SqliteBroker.SchemaSqlite

open Utf8 Messages Engine Execution ScriptRuns Schemas

structure File where
  schema : Schema
  writer : Bool

structure Conn where
  own : Option Schema

/-- A statement as it is compiled, or at its only row. -/
inductive Stmt
  | ready (cmd : Command)
  | row (cmd : Command) (n : Int64)

def commands : List Command :=
  [.foreignKeys, .begin, .commit, .rollback, .createMigration, .countVersion .baseTables,
    .countVersion .addSeen, .countVersion .indexSeen, .insertVersion .baseTables,
    .insertVersion .addSeen, .insertVersion .indexSeen, .createItem, .createEvent,
    .createItemWorker, .createItemCount, .addSeen, .createItemSeen]

def parse (text : Bytes) : Option Command :=
  commands.find? (fun cmd => encode cmd.sql.toList = text)

def prepareV2 (f : File) (c : Conn) (sql : CStr) : Prepared File Conn Stmt :=
  let text := sql.takeWhile (· ≠ 59)
  let own := text ++ (sql.drop text.length).take 1
  match parse text with
  | some cmd => ⟨sqliteOk, some (.ready cmd), some own.length, f, c⟩
  | none => ⟨1, none, some 0, f, c⟩

def start (f : File) (c : Conn) (cmd : Command) : Stepped File Conn Stmt :=
  if f.writer = c.own.isSome then
    match cmd.run ⟨f.schema, c.own⟩ with
    | some ([], db) => ⟨sqliteDone, ⟨db.committed, db.own.isSome⟩, ⟨db.own⟩, .ready cmd⟩
    | some (n :: _, db) => ⟨sqliteRow, ⟨db.committed, db.own.isSome⟩, ⟨db.own⟩, .row cmd n⟩
    | none => ⟨1, f, c, .ready cmd⟩
  else ⟨5, f, c, .ready cmd⟩

def step (f : File) (c : Conn) : Stmt → Stepped File Conn Stmt
  | .ready cmd => start f c cmd
  | .row cmd n => ⟨sqliteDone, f, c, .row cmd n⟩

def Stmt.command : Stmt → Command
  | .ready cmd => cmd
  | .row cmd _ => cmd

def columnInt64 : Stmt → Int64
  | .ready _ => 0
  | .row _ n => n

def rowsLeft : Stmt → ℕ
  | .ready _ => 1
  | .row _ _ => 0

theorem start_row {f : File} {c : Conn} {cmd : Command} (h : (start f c cmd).rc = sqliteRow) :
    ∃ n, (start f c cmd).stmt = .row cmd n := by
  unfold start at h ⊢
  by_cases hfree : f.writer = c.own.isSome
  · rw [if_pos hfree] at h ⊢
    split
    · next heq =>
      rw [heq] at h
      cases h
    · next n _ _ _ => exact ⟨n, rfl⟩
    · next heq =>
      rw [heq] at h
      cases h
  · rw [if_neg hfree] at h
    cases h

abbrev engine : Sqlite where
  File := File
  Conn := Conn
  Stmt := Stmt
  connectionOpen f := (.ok ⟨none⟩, f)
  busyTimeout c := .ok c
  closeConnection f c := { f with writer := f.writer && c.own.isNone }
  isAutocommit c := c.own.isNone
  changes _ := 0
  lastInsertRowid _ := 0
  totalChanges _ := 0
  errcode _ := 0
  errmsg _ := none
  prepareV2 := prepareV2
  bindNull st _ := (0, st)
  bindInt64 st _ _ := (0, st)
  bindDouble st _ _ := (0, st)
  bindText st _ _ := (0, st)
  bindBlob st _ _ := (0, st)
  bindParameterCount _ := 0
  bindParameterName _ _ := none
  columnCount st := .ofNat st.command.width
  columnName _ _ := none
  columnDecltype _ _ := none
  step := step
  columnType _ _ := sqliteInteger
  columnInt64 st _ := columnInt64 st
  columnDouble _ _ := F64.ofInt 0
  columnBytes _ _ := 0
  columnBlob _ _ := none
  columnText _ _ := none
  finalize f c _ := (f, c)
  rowsLeft _ _ st := some (rowsLeft st)
  open_autocommit := by
    intro f c h
    cases h
    rfl
  busyTimeout_autocommit := by
    intro c c' h
    cases h
    rfl
  prepare_autocommit := by
    intro f c sql
    unfold prepareV2
    dsimp only
    split <;> rfl
  finalize_autocommit := fun _ _ _ => rfl
  step_row := by
    intro f c st n hleft h
    cases st with
    | row cmd n => cases h
    | ready cmd =>
      obtain ⟨n, hn⟩ := start_row h
      refine lt_rowsLeft hleft ?_
      change rowsLeft (start f c cmd).stmt < 1
      rw [hn]
      exact Nat.zero_lt_one
  step_endless := fun _ _ _ h => nomatch h

def newFile : File := ⟨.empty, false⟩

section Laws

theorem commands_nodup : (commands.map Command.sql).Nodup := by decide +kernel

theorem mem_commands (cmd : Command) : cmd ∈ commands := by
  cases cmd with
  | countVersion m => cases m <;> decide
  | insertVersion m => cases m <;> decide
  | _ => decide

theorem parse_sql (cmd : Command) : parse (encode cmd.sql.toList) = some cmd := by
  obtain ⟨found, hfound⟩ : ∃ found, parse (encode cmd.sql.toList) = some found :=
    Option.isSome_iff_exists.mp (List.find?_isSome.mpr ⟨cmd, mem_commands cmd, by simp⟩)
  have hsql : encode found.sql.toList = encode cmd.sql.toList := by
    simpa using List.find?_some hfound
  have hsame := List.inj_on_of_nodup_map commands_nodup (mem_commands found) (mem_commands cmd)
    (String.toList_inj.mp (encode_injective hsql))
  rw [hfound, hsame]

theorem no_semicolon_ofList {text : List Char} (h : ';' ∉ text) :
    ';' ∉ (String.ofList text).toList := by
  rwa [String.toList_ofList]

set_option maxRecDepth 20000 in
theorem no_semicolon (cmd : Command) : ';' ∉ cmd.sql.toList := by
  cases cmd with
  | countVersion m => cases m <;> decide +kernel
  | insertVersion m => cases m <;> decide +kernel
  | _ => exact no_semicolon_ofList (by decide)

theorem takeWhile_sql (cmd : Command) {rest : Bytes}
    (hrest : rest = [] ∨ ∃ more, rest = 59 :: more) :
    (encode cmd.sql.toList ++ rest).takeWhile (· ≠ 59) = encode cmd.sql.toList := by
  have hsql : ∀ b ∈ encode cmd.sql.toList, decide (b ≠ 59) = true := by
    intro b hb
    refine decide_eq_true ?_
    rintro rfl
    exact no_semicolon cmd (mem_of_ascii (by decide) hb)
  rw [List.takeWhile_append_of_pos hsql]
  obtain rfl | ⟨more, rfl⟩ := hrest
  · exact List.append_nil _
  · simp

theorem prepare_sql (f : File) (c : Conn) (cmd : Command) {rest : Bytes}
    (hrest : rest = [] ∨ ∃ more, rest = 59 :: more) :
    prepareV2 f c (encode cmd.sql.toList ++ rest) =
      ⟨sqliteOk, some (.ready cmd), some (encode cmd.sql.toList ++ rest.take 1).length, f, c⟩ := by
  rw [prepareV2, takeWhile_sql cmd hrest, parse_sql, List.drop_left]

def reading : Reading engine where
  schema f := f.schema
  writer f := f.writer
  own c := c.own

/-- A statement that succeeds has at most one row. -/
theorem rows_length {cmd : Command} {db db' : Db} {rows : List Int64}
    (h : cmd.run db = some (rows, db')) : rows = [] ∨ ∃ n, rows = [n] := by
  rw [(Command.run_eq_some h).2]
  cases cmd with
  | countVersion m => exact Or.inr ⟨_, rfl⟩
  | _ => exact Or.inl rfl

/-- The engine keeps the laws that are assumed of SQLite. -/
theorem obeys : Obeys reading where
  autocommit _ := rfl
  opened _ := ⟨rfl, rfl⟩
  closed _ _ := ⟨rfl, rfl⟩
  compiled f c db text st hshows _ := by
    change reading.Shows (prepareV2 f c text).file (prepareV2 f c text).conn db
    unfold prepareV2
    dsimp only
    split <;> exact hshows
  ran cmd f c db rest rows db' hshows hrest hrun := by
    have hprepare := prepare_sql f c cmd hrest
    have hfree : f.writer = c.own.isSome := by
      rw [show f.writer = db.own.isSome from hshows.writer, show c.own = db.own from hshows.own]
    have hview : (⟨f.schema, c.own⟩ : Db) = db := by
      rw [show f.schema = db.committed from hshows.committed, show c.own = db.own from hshows.own]
    have hne : encode cmd.sql.toList ++ rest.take 1 ≠ [] := by
      intro hnil
      have hsql := (List.append_eq_nil_iff.mp hnil).1
      exact cmd.sql_ne_empty (String.toList_eq_nil_iff.mp (encode_injective (b := []) hsql))
    have hsplit : encode cmd.sql.toList ++ rest =
        (encode cmd.sql.toList ++ rest.take 1) ++ rest.drop 1 := by
      rw [List.append_assoc, List.take_append_drop]
    have hleft : reading.Shows ⟨db'.committed, db'.own.isSome⟩ ⟨db'.own⟩ db' := ⟨rfl, rfl, rfl⟩
    have hdone : sqliteDone ≠ sqliteRow := by decide
    obtain rfl | ⟨n, rfl⟩ := rows_length hrun
    · have hstart : start f c cmd =
          ⟨sqliteDone, ⟨db'.committed, db'.own.isSome⟩, ⟨db'.own⟩, .ready cmd⟩ := by
        rw [start, if_pos hfree, hview, hrun]
      have hsteps : Steps engine f c (.ready cmd) [] (start f c cmd) :=
        .last (by change (start f c cmd).rc ≠ _; rw [hstart]; exact hdone)
      refine ⟨⟨encode cmd.sql.toList ++ rest.take 1, f, c, .ready cmd, [], start f c cmd⟩, rfl,
        rfl, ⟨hsplit, hne, ?_, ?_, ?_, ?_⟩, ?_, rfl, .nil, ?_⟩
      · exact congrArg Prepared.rc hprepare
      · exact congrArg Prepared.stmt hprepare
      · exact congrArg Prepared.tail hprepare
      · change Steps engine (prepareV2 f c _).file (prepareV2 f c _).conn _ _ _
        rw [hprepare]
        exact hsteps
      · exact congrArg Stepped.rc hstart
      · change reading.Shows (start f c cmd).file (start f c cmd).conn db'
        rw [hstart]
        exact hleft
    · have hstart : start f c cmd =
          ⟨sqliteRow, ⟨db'.committed, db'.own.isSome⟩, ⟨db'.own⟩, .row cmd n⟩ := by
        rw [start, if_pos hfree, hview, hrun]
      have hsteps : Steps engine f c (.ready cmd) [.row cmd n]
          ⟨sqliteDone, ⟨db'.committed, db'.own.isSome⟩, ⟨db'.own⟩, .row cmd n⟩ := by
        have hrow : engine.step f c (.ready cmd) = _ := hstart
        have hlast : Steps engine ⟨db'.committed, db'.own.isSome⟩ ⟨db'.own⟩ (.row cmd n) []
            ⟨sqliteDone, ⟨db'.committed, db'.own.isSome⟩, ⟨db'.own⟩, .row cmd n⟩ :=
          .last hdone
        have hmore : Steps engine f c (.ready cmd) ((engine.step f c (.ready cmd)).stmt :: [])
            ⟨sqliteDone, ⟨db'.committed, db'.own.isSome⟩, ⟨db'.own⟩, .row cmd n⟩ :=
          .row (by rw [hrow]) (by rw [hrow]; exact hlast)
        rwa [hrow] at hmore
      refine ⟨⟨encode cmd.sql.toList ++ rest.take 1, f, c, .ready cmd, [.row cmd n],
        ⟨sqliteDone, ⟨db'.committed, db'.own.isSome⟩, ⟨db'.own⟩, .row cmd n⟩⟩, rfl,
        rfl, ⟨hsplit, hne, ?_, ?_, ?_, ?_⟩, rfl, rfl, .cons ⟨rfl, rfl⟩ .nil, hleft⟩
      · exact congrArg Prepared.rc hprepare
      · exact congrArg Prepared.stmt hprepare
      · exact congrArg Prepared.tail hprepare
      · change Steps engine (prepareV2 f c _).file (prepareV2 f c _).conn _ _ _
        rw [hprepare]
        exact hsteps

end Laws

end SqliteBroker.SchemaSqlite
