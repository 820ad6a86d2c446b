import SqliteBroker.Boot
import SqliteBroker.Panics
import SqliteBroker.ScriptRuns

/-!
The statements of a worker's start, what each of them does to the schema, and what SQLite
promises of them. A schema is as far as the migrations reach; a connection that has begun a
transaction changes its own schema until it commits. The journal keeps the texts of every
transaction that has been committed.
-/
namespace SqliteBroker.Schemas

open Utf8 Messages Engine Execution BrokerWorker Panics ScriptRuns

/-- `migrations` are the rows of `schema_migration`, if that table is there. -/
structure Schema where
  migrations : Option (List (ℕ × String))
  item : Bool
  event : Bool
  itemWorker : Bool
  itemCount : Bool
  seen : Bool
  itemSeen : Bool
  deriving DecidableEq

def Schema.empty : Schema := ⟨none, false, false, false, false, false, false⟩

inductive Migration
  | baseTables
  | addSeen
  | indexSeen
  deriving DecidableEq

namespace Migration

def version : Migration → ℕ
  | .baseTables => 1
  | .addSeen => 2
  | .indexSeen => 3

def name : Migration → String
  | .baseTables => "base tables"
  | .addSeen => "add item.seen"
  | .indexSeen => "index item.seen"

def text : Migration → String
  | .baseTables => Boot.baseTables
  | .addSeen => Boot.addSeen
  | .indexSeen => Boot.indexSeen

end Migration

inductive Command
  | foreignKeys
  | begin
  | commit
  | rollback
  | createMigration
  | countVersion (m : Migration)
  | insertVersion (m : Migration)
  | createItem
  | createEvent
  | createItemWorker
  | createItemCount
  | addSeen
  | createItemSeen
  deriving DecidableEq

/-- A file as one connection sees it. -/
structure Db where
  committed : Schema
  own : Option Schema
  deriving DecidableEq

namespace Db

def view (db : Db) : Schema := db.own.getD db.committed

/-- A statement outside a transaction is one by itself. -/
def write (db : Db) (schema : Schema) : Db :=
  match db.own with
  | some _ => { db with own := some schema }
  | none => { db with committed := schema }

end Db

namespace Command

def sql : Command → String
  | .foreignKeys => "PRAGMA foreign_keys = ON"
  | .begin => "BEGIN IMMEDIATE"
  | .commit => "COMMIT"
  | .rollback => "ROLLBACK"
  | .createMigration => Boot.createMigration
  | .countVersion m => Boot.countVersion m.version
  | .insertVersion m => Boot.insertVersion m.version m.name
  | .createItem =>
    "CREATE TABLE IF NOT EXISTS item (
            id INTEGER PRIMARY KEY,
            worker INTEGER NOT NULL,
            n INTEGER NOT NULL,
            name TEXT NOT NULL UNIQUE,
            note TEXT,
            price REAL,
            flag INTEGER NOT NULL DEFAULT 0
        )"
  | .createEvent =>
    "
        CREATE TABLE IF NOT EXISTS event (
            worker INTEGER NOT NULL,
            seq INTEGER NOT NULL,
            kind TEXT NOT NULL,
            token TEXT NOT NULL,
            PRIMARY KEY (worker, seq)
        )"
  | .createItemWorker =>
    "
        CREATE INDEX IF NOT EXISTS item_worker ON item(worker, name)"
  | .createItemCount =>
    "
        CREATE VIEW IF NOT EXISTS item_count AS
            SELECT worker, count(*) AS c FROM item GROUP BY worker"
  | .addSeen => Boot.addSeen
  | .createItemSeen => Boot.indexSeen

/-- The number of result columns. -/
def width : Command → ℕ
  | .countVersion _ => 1
  | _ => 0

/-- What a statement makes of a schema, outside of `BEGIN` and its ends. `none` is a failure:
a table or a column is missing or already there. -/
def change (cmd : Command) (schema : Schema) : Option Schema :=
  match cmd with
  | .createMigration => some { schema with migrations := some (schema.migrations.getD []) }
  | .countVersion _ => if schema.migrations.isSome then some schema else none
  | .insertVersion m =>
    schema.migrations.map (fun rows =>
      if m.version ∈ rows.map Prod.fst then schema
      else { schema with migrations := some (rows ++ [(m.version, m.name)]) })
  | .createItem => some { schema with item := true }
  | .createEvent => some { schema with event := true }
  | .createItemWorker => if schema.item then some { schema with itemWorker := true } else none
  | .createItemCount => some { schema with itemCount := true }
  | .addSeen => if schema.item ∧ ¬ schema.seen then some { schema with seen := true } else none
  | .createItemSeen =>
    if schema.item ∧ schema.seen then some { schema with itemSeen := true } else none
  | _ => some schema

/-- What a statement leaves; there is no transaction within another. -/
def effect (cmd : Command) (db : Db) : Option Db :=
  match cmd, db.own with
  | .begin, none => some { db with own := some db.committed }
  | .begin, some _ => none
  | .commit, some schema => some ⟨schema, none⟩
  | .commit, none => none
  | .rollback, some _ => some { db with own := none }
  | .rollback, none => none
  | cmd, _ => (cmd.change db.view).map db.write

def rows (cmd : Command) (db : Db) : List Int64 :=
  match cmd with
  | .countVersion m => [.ofNat (((db.view.migrations.getD []).map Prod.fst).count m.version)]
  | _ => []

def run (cmd : Command) (db : Db) : Option (List Int64 × Db) :=
  (cmd.effect db).map (fun db' => (cmd.rows db, db'))

theorem run_eq_some {cmd : Command} {db db' : Db} {rows : List Int64}
    (h : cmd.run db = some (rows, db')) : cmd.effect db = some db' ∧ rows = cmd.rows db := by
  obtain ⟨left, heffect, heq⟩ := Option.map_eq_some_iff.mp h
  obtain ⟨rfl, rfl⟩ := Prod.mk.inj heq
  exact ⟨heffect, rfl⟩

end Command

section Scripts

def single (cmd : Command) : String × List Command := (cmd.sql, [cmd])

/-- The texts that a worker sends, with the statements they hold. -/
def scripts : List (String × List Command) :=
  [single .foreignKeys, single .begin, single .commit, single .rollback, single .createMigration,
    single (.countVersion .baseTables), single (.countVersion .addSeen),
    single (.countVersion .indexSeen), single (.insertVersion .baseTables),
    single (.insertVersion .addSeen), single (.insertVersion .indexSeen),
    (Boot.baseTables, [.createItem, .createEvent, .createItemWorker, .createItemCount]),
    single .addSeen, single .createItemSeen]

def script (sql : String) : Option (List Command) :=
  (scripts.find? (fun entry => entry.1 = sql)).map Prod.snd

/-- Statements as one text. -/
def joined (cmds : List Command) : List Char :=
  [';'].intercalate (cmds.map (fun cmd => cmd.sql.toList))

def runAll : List Command → Db → Option (List Int64 × Db)
  | [], db => some ([], db)
  | cmd :: rest, db => do
    let (rows, db') ← cmd.run db
    let (more, db'') ← runAll rest db'
    return (rows ++ more, db'')

/-- The width of the first query. -/
def width : List Command → ℕ
  | [] => 0
  | cmd :: rest => if 0 < cmd.width then cmd.width else width rest

theorem scripts_nodup : (scripts.map Prod.fst).Nodup := by decide +kernel

theorem script_of_mem {sql : String} {cmds : List Command} (h : (sql, cmds) ∈ scripts) :
    script sql = some cmds := by
  obtain ⟨entry, hentry⟩ : ∃ entry, scripts.find? (fun entry => entry.1 = sql) = some entry :=
    Option.isSome_iff_exists.mp (List.find?_isSome.mpr ⟨_, h, by simp⟩)
  have hmem := List.mem_of_find?_eq_some hentry
  have hsql : entry.1 = sql := by simpa using List.find?_some hentry
  have hsame := List.inj_on_of_nodup_map scripts_nodup hmem h hsql
  rw [script, hentry, hsame]
  rfl

set_option maxRecDepth 20000 in
theorem joined_baseTables :
    joined [.createItem, .createEvent, .createItemWorker, .createItemCount] =
      Boot.baseTables.toList := by
  have hitem : Command.createItem.sql.toList = _ := String.toList_ofList
  have hevent : Command.createEvent.sql.toList = _ := String.toList_ofList
  have hworker : Command.createItemWorker.sql.toList = _ := String.toList_ofList
  have hcount : Command.createItemCount.sql.toList = _ := String.toList_ofList
  have hall : Boot.baseTables.toList = _ := String.toList_ofList
  rw [joined, List.map_cons, List.map_cons, List.map_cons, List.map_cons, hitem, hevent, hworker,
    hcount, hall]
  decide +kernel

theorem joined_single (cmd : Command) : joined [cmd] = (single cmd).1.toList :=
  List.intercalate_singleton

/-- A text of a script is made of its statements. -/
theorem scripts_joined : ∀ entry ∈ scripts, joined entry.2 = entry.1.toList := by
  simp only [scripts, List.forall_mem_cons]
  exact ⟨joined_single _, joined_single _, joined_single _, joined_single _, joined_single _,
    joined_single _, joined_single _, joined_single _, joined_single _, joined_single _,
    joined_single _, joined_baseTables, joined_single _, joined_single _, by simp⟩

def onOneLine (text : List Char) : List Char := [' '].intercalate (splitWhitespace text)

/-- A text that reaches the broker as it is and fits the event line. -/
def Sendable (text : List Char) : Prop :=
  '\x00' ∉ text ∧ (byteLen (onOneLine text) ≤ 120 ∨ (sliceTo (onOneLine text) 120).isSome = true)

instance (text : List Char) : Decidable (Sendable text) :=
  inferInstanceAs (Decidable ('\x00' ∉ text ∧
    (byteLen (onOneLine text) ≤ 120 ∨ (sliceTo (onOneLine text) 120).isSome = true)))

theorem sendable_ofList {text : List Char} (h : Sendable text) :
    Sendable (String.ofList text).toList := by
  rwa [String.toList_ofList]

set_option maxRecDepth 20000 in
theorem scripts_sendable : ∀ entry ∈ scripts, Sendable entry.1.toList := by
  have hcounts : ∀ m : Migration, Sendable (Boot.countVersion m.version).toList := by
    intro m
    cases m <;> decide +kernel
  have hinserts : ∀ m : Migration, Sendable (Boot.insertVersion m.version m.name).toList := by
    intro m
    cases m <;> decide +kernel
  simp only [scripts, List.forall_mem_cons]
  refine ⟨?_, ?_, ?_, ?_, ?_, hcounts _, hcounts _, hcounts _, hinserts _, hinserts _, hinserts _,
    ?_, ?_, ?_, by simp⟩
  all_goals exact sendable_ofList (by decide +kernel)

theorem Command.sql_ne_empty (cmd : Command) : cmd.sql ≠ "" := by
  cases cmd with
  | countVersion m => cases m <;> decide +kernel
  | insertVersion m => cases m <;> decide +kernel
  | _ => decide +kernel

theorem joined_ne_nil (cmd : Command) (rest : List Command) : joined (cmd :: rest) ≠ [] := by
  have hsql : cmd.sql.toList ≠ [] := by
    rw [ne_eq, String.toList_eq_nil_iff]
    exact cmd.sql_ne_empty
  cases rest with
  | nil => rwa [joined, List.map_singleton, List.intercalate_singleton]
  | cons next others =>
    rw [joined, List.map_cons, List.map_cons, List.intercalate_cons_cons, List.append_assoc]
    exact List.append_ne_nil_of_left_ne_nil hsql _
section Lookup

variable {sql : String} {cmds : List Command}

theorem mem_of_script (h : script sql = some cmds) : (sql, cmds) ∈ scripts := by
  obtain ⟨entry, hentry, rfl⟩ := Option.map_eq_some_iff.mp h
  have hsql : entry.1 = sql := by simpa using List.find?_some hentry
  rw [← hsql]
  exact List.mem_of_find?_eq_some hentry

theorem script_single {cmd : Command} (h : single cmd ∈ scripts) : script cmd.sql = some [cmd] :=
  script_of_mem h

/-- A text of a script is the text of a single statement only for that script. -/
theorem ne_of_script (h : script sql = some cmds) (cmd : Command) (hcmd : single cmd ∈ scripts)
    (hne : cmds ≠ [cmd]) : sql ≠ cmd.sql := by
  rintro rfl
  rw [script_single hcmd] at h
  exact hne (Option.some.inj h).symm

/-- The statements of a migration. -/
def Migration.commands : Migration → List Command
  | .baseTables => [.createItem, .createEvent, .createItemWorker, .createItemCount]
  | .addSeen => [.addSeen]
  | .indexSeen => [.createItemSeen]

theorem script_text (m : Migration) : script m.text = some m.commands := by
  have hmem : (m.text, m.commands) ∈ scripts := by
    cases m <;> simp [scripts, Migration.text, Migration.commands, single, Command.sql]
  exact script_of_mem hmem

theorem script_count (m : Migration) :
    script (Boot.countVersion m.version) = some [.countVersion m] := by
  have hmem : single (.countVersion m) ∈ scripts := by cases m <;> simp [scripts]
  exact script_of_mem hmem

theorem script_insert (m : Migration) :
    script (Boot.insertVersion m.version m.name) = some [.insertVersion m] := by
  have hmem : single (.insertVersion m) ∈ scripts := by cases m <;> simp [scripts]
  exact script_of_mem hmem

theorem script_no_nul (h : script sql = some cmds) : '\x00' ∉ sql.toList :=
  (scripts_sendable _ (mem_of_script h)).1

theorem script_fits (h : script sql = some cmds) : Fits sql := by
  have hsend := (scripts_sendable _ (mem_of_script h)).2
  rwa [sliceTo_isSome_iff] at hsend

theorem script_ne_nil (h : script sql = some cmds) : cmds ≠ [] := by
  have hall : ∀ entry ∈ scripts, entry.2 ≠ [] := by simp [scripts, single]
  exact hall _ (mem_of_script h)

theorem script_joined (h : script sql = some cmds) : joined cmds = sql.toList :=
  scripts_joined _ (mem_of_script h)

end Lookup

end Scripts

section Laws

variable {S : Sqlite}

/-- One row for each number, with the number as its only column. -/
def Counts (onRows : List S.Stmt) (rows : List Int64) : Prop :=
  List.Forall₂ (fun st n => S.columnType st 0 = sqliteInteger ∧ S.columnInt64 st 0 = n) onRows rows

variable (S) in
/-- How a file and its connections stand for schemas: `writer` says that some connection is
inside a transaction, `own` what that transaction has made of the schema. -/
structure Reading where
  schema : S.File → Schema
  writer : S.File → Bool
  own : S.Conn → Option Schema

/-- A connection sees `db`, and no other connection is inside a transaction. -/
structure Reading.Shows (R : Reading S) (f : S.File) (c : S.Conn) (db : Db) : Prop where
  committed : R.schema f = db.committed
  writer : R.writer f = db.own.isSome
  own : R.own c = db.own

/-- What SQLite documents of these statements. -/
structure Obeys (R : Reading S) : Prop where
  autocommit : ∀ c, S.isAutocommit c = (R.own c).isNone
  opened : ∀ f, R.schema (S.connectionOpen f).2 = R.schema f ∧
    R.writer (S.connectionOpen f).2 = R.writer f
  closed : ∀ f c, R.schema (S.closeConnection f c) = R.schema f ∧
    R.writer (S.closeConnection f c) = (R.writer f && (R.own c).isNone)
  compiled : ∀ f c db text st, R.Shows f c db → (S.prepareV2 f c text).stmt = some st →
    let left := S.finalize (S.prepareV2 f c text).file (S.prepareV2 f c text).conn st
    R.Shows left.1 left.2 db
  ran : ∀ (cmd : Command) f c db rest rows db', R.Shows f c db →
    (rest = [] ∨ ∃ more, rest = 59 :: more) → cmd.run db = some (rows, db') →
    ∃ run : StmtRun S, run.file = f ∧ run.conn = c ∧
      RunsStmt run (encode cmd.sql.toList ++ rest) (rest.drop 1) ∧ run.last.rc = sqliteDone ∧
      S.columnCount run.stmt = Int32.ofNat cmd.width ∧ Counts run.onRows rows ∧
      R.Shows run.closed.1 run.closed.2 db'

section Runs

variable {R : Reading S} {f : S.File} {c : S.Conn} {db db' : Db} {rows : List Int64}

theorem Counts.cells {onRows : List S.Stmt} (h : Counts onRows rows) :
    onRows.map (fun st => readRow S st 1) = rows.map (fun n => [.int n]) := by
  induction h with
  | nil => rfl
  | cons hrow _ ih =>
    have hupTo : upTo 1 = [0] := by decide
    rw [List.map_cons, List.map_cons, ih, readRow, hupTo, List.map_singleton, readCell, hrow.1,
      hrow.2]
    rfl

/-- The rows of a statement, as `execute` reads them. -/
theorem Counts.run_rows {run : StmtRun S} (h : Counts run.onRows rows) {cmd : Command}
    (hrows : rows = cmd.rows db) (hcount : S.columnCount run.stmt = Int32.ofNat cmd.width) :
    run.rows = rows.map (fun n => [.int n]) := by
  cases cmd with
  | countVersion m =>
    have hone : S.columnCount run.stmt = 1 := hcount
    rw [StmtRun.rows, hone]
    exact h.cells
  | _ =>
    have hnil : run.onRows = [] := by
      rw [hrows] at h
      exact List.forall₂_nil_right_iff.mp h
    rw [StmtRun.rows, hnil, hrows]
    rfl

theorem firstNames_length {run : StmtRun S} {runs : List (StmtRun S)} {cmd : Command}
    {rest : List Command} (hcount : S.columnCount run.stmt = Int32.ofNat cmd.width)
    (hrest : (firstNames runs).length = width rest) :
    (firstNames (run :: runs)).length = width (cmd :: rest) := by
  cases cmd with
  | countVersion m =>
    have hone : S.columnCount run.stmt = 1 := hcount
    rw [firstNames, hone, if_pos (by decide), StmtRun.names, hone]
    rfl
  | _ =>
    have hzero : S.columnCount run.stmt = 0 := hcount
    rw [firstNames, hzero, if_neg (by decide), hrest]
    rfl

/-- A script whose statements all succeed. -/
theorem Obeys.script (hS : Obeys R) {cmds : List Command} (hcmds : cmds ≠ [])
    (hshows : R.Shows f c db) (hrun : runAll cmds db = some (rows, db')) :
    ∃ runs ended, Script f c (encode (joined cmds)) runs ended ∧ ended.result = .ok () ∧
      runs.flatMap StmtRun.rows = rows.map (fun n => [.int n]) ∧
      (firstNames runs).length = width cmds ∧ R.Shows ended.file ended.conn db' := by
  induction cmds generalizing f c db rows with
  | nil => exact absurd rfl hcmds
  | cons cmd rest ih =>
    obtain ⟨⟨first, mid⟩, hcmd, hrest⟩ := Option.bind_eq_some_iff.mp hrun
    obtain ⟨⟨more, last⟩, hmore, hpair⟩ := Option.bind_eq_some_iff.mp hrest
    obtain ⟨rfl, rfl⟩ := Prod.mk.inj (Option.some.inj hpair)
    have hfirst := (Command.run_eq_some hcmd).2
    cases rest with
    | nil =>
      cases hmore
      obtain ⟨run, rfl, rfl, hrun, hdone, hcount, hcounts, hleft⟩ :=
        hS.ran cmd f c db [] first mid hshows (Or.inl rfl) hcmd
      rw [List.append_nil] at hrun
      refine ⟨[run], _, .done ?_ hdone, rfl, ?_, firstNames_length hcount rfl, hleft⟩
      · rwa [joined, List.map_singleton, List.intercalate_singleton]
      · rw [List.flatMap_singleton, hcounts.run_rows hfirst hcount, List.append_nil]
    | cons next others =>
      have htext : encode (joined (cmd :: next :: others)) =
          encode cmd.sql.toList ++ 59 :: encode (joined (next :: others)) := by
        rw [joined, List.map_cons, List.map_cons, List.intercalate_cons_cons, encode_append,
          encode_append, List.append_assoc]
        rfl
      obtain ⟨run, rfl, rfl, hrun, hdone, hcount, hcounts, hleft⟩ :=
        hS.ran cmd f c db (59 :: encode (joined (next :: others))) first mid hshows
          (Or.inr ⟨_, rfl⟩) hcmd
      obtain ⟨runs, ended, hscript, hok, hrows, hwidth, hend⟩ :=
        ih (List.cons_ne_nil _ _) hleft hmore
      rw [htext]
      refine ⟨run :: runs, ended, .next hrun hdone ?_ hscript, hok, ?_,
        firstNames_length hcount hwidth, hend⟩
      · exact fun hnil => joined_ne_nil next others (encode_injective (b := []) hnil)
      · rw [List.flatMap_cons, hcounts.run_rows hfirst hcount, hrows, List.map_append]

/-- `execute` on a script whose statements all succeed. -/
theorem Obeys.execute (hS : Obeys R) {sql : String} {cmds : List Command}
    (hscript : Schemas.script sql = some cmds) (hshows : R.Shows f c db)
    (hrun : runAll cmds db = some (rows, db')) :
    let out := execute S f c sql []
    out.result.ok = true ∧ out.result.rows = rows.map (fun n => [.int n]) ∧
      out.result.columns.length = width cmds ∧ out.result.autocommit = db'.own.isNone ∧
      R.Shows out.file out.conn db' := by
  intro out
  obtain ⟨runs, ended, hruns, hok, hrows, hwidth, hend⟩ :=
    hS.script (script_ne_nil hscript) hshows hrun
  rw [script_joined hscript] at hruns
  have hout : out = _ := execute_eq (script_no_nul hscript) hruns
  rw [hok] at hout
  refine ⟨?_, ?_, ?_, ?_, ?_⟩
  · rw [hout]
    rfl
  · rw [hout]
    exact hrows
  · rw [hout]
    exact hwidth
  · rw [hout]
    change S.isAutocommit ended.conn = _
    rw [hS.autocommit, hend.own]
  · rw [hout]
    exact hend

theorem countVersion_length (m : Migration) :
    byteLen (Boot.countVersion m.version).toList < 2 ^ 64 := by
  cases m <;> decide +kernel

/-- `prepare_meta` on the query of a version. -/
theorem Obeys.prepareMeta (hS : Obeys R) {m : Migration} (hshows : R.Shows f c db)
    (hrun : (Command.countVersion m).run db = some (rows, db')) :
    let out := prepareMeta S f c (Boot.countVersion m.version)
    out.result.ok = true ∧ out.result.empty = false ∧
      out.result.tail.toNat = byteLen (Boot.countVersion m.version).toList ∧
      out.result.columns.length = 1 ∧ out.result.autocommit = db.own.isNone ∧
      R.Shows out.file out.conn db := by
  have hscript := script_count m
  obtain ⟨run, rfl, rfl, hstmt, _, hcount, _, _⟩ :=
    hS.ran (.countVersion m) f c db [] rows db' hshows (Or.inl rfl) hrun
  change RunsStmt run (encode (Boot.countVersion m.version).toList ++ []) [] at hstmt
  rw [List.append_nil] at hstmt
  have hone : S.columnCount run.stmt = 1 := hcount
  have hown : run.own.length = byteLen (Boot.countVersion m.version).toList := by
    rw [← length_encode, ← List.append_nil run.own]
    exact congrArg List.length hstmt.split.symm
  have hleft := hS.compiled run.file run.conn db _ run.stmt hshows hstmt.stmt
  rw [Execution.prepareMeta, BoundValues.cString_of_no_nul (script_no_nul hscript)]
  dsimp only
  rw [if_neg (not_not_intro hstmt.rc), hstmt.stmt, hstmt.tail]
  refine ⟨rfl, rfl, ?_, ?_, ?_, hleft⟩
  · change (UInt64.ofNat run.own.length).toNat = _
    rw [hown, UInt64.toNat_ofNat', Nat.mod_eq_of_lt (countVersion_length m)]
  · dsimp only
    rw [hone]
    rfl
  · change S.isAutocommit run.conn = _
    rw [hS.autocommit, hshows.own]

end Runs

end Laws

end SqliteBroker.Schemas
