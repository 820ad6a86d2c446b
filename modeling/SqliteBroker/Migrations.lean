import SqliteBroker.Schemas
import SqliteBroker.Scripts

/-!
The start of a worker in a store that keeps the schema. The store answers the texts of the
scripts and keeps a journal, the texts of every transaction that has been committed. Its
schema passes through five stages, and from each of them the start of a worker is safe:
it reaches the last stage, and each migration is in one transaction of the journal.
-/
namespace SqliteBroker.Migrations

open Utf8 Messages Engine ShimConnection ShimStatement ExecCallback Programs Boot Schemas
open Execution hiding sqliteError

/-- The shared part: the committed schema and the texts of the transactions behind it. -/
structure Ledger where
  schema : Schema
  journal : List (List String)

/-- A transaction that has not been committed. -/
structure Txn where
  schema : Schema
  texts : List String

/-- A text is executed, by a session that is inside a transaction with these texts or
outside of one. -/
def record (sql : String) (journal : List (List String)) :
    Option (List String) → List (List String) × Option (List String)
  | none => if sql = Command.begin.sql then (journal, some []) else (journal ++ [[sql]], none)
  | some texts =>
    if sql = Command.commit.sql then (journal ++ [texts], none)
    else if sql = Command.rollback.sql then (journal, none)
    else (journal, some (texts ++ [sql]))

theorem record_begin (journal : List (List String)) :
    record Command.begin.sql journal none = (journal, some []) := by
  rw [record, if_pos rfl]

theorem record_commit (journal : List (List String)) (texts : List String) :
    record Command.commit.sql journal (some texts) = (journal ++ [texts], none) := by
  rw [record, if_pos rfl]

theorem record_inside {sql : String} {cmds : List Command} (h : script sql = some cmds)
    (hcommit : cmds ≠ [.commit]) (hrollback : cmds ≠ [.rollback]) (journal : List (List String))
    (texts : List String) :
    record sql journal (some texts) = (journal, some (texts ++ [sql])) := by
  have hnot := ne_of_script h .commit (by simp [scripts]) hcommit
  have hnor := ne_of_script h .rollback (by simp [scripts]) hrollback
  rw [record, if_neg hnot, if_neg hnor]

/-- An outcome: the width of the result and its rows, or the text that has been compiled. -/
inductive Out
  | ran (width : ℕ) (rows : List Int64)
  | compiled (sql : String)

def Fits (resp : Response) : Out → Prop
  | .ran width rows => resp.ok = true ∧ resp.rows = rows.map (fun n => [.int n]) ∧
      resp.columns.length = width
  | .compiled sql => resp.ok = true ∧ resp.empty = false ∧
      resp.tail.toNat = byteLen sql.toList ∧ resp.columns.length = 1

def together : Option Schema → Option (List String) → Option (Option Txn)
  | some schema, some texts => some (some ⟨schema, texts⟩)
  | none, none => some none
  | _, _ => none

def runScript (sql : String) (cmds : List Command) (s : Ledger) (own : Option Txn) :
    Option (Out × Ledger × Option Txn) := do
  let (rows, db) ← runAll cmds ⟨s.schema, own.map Txn.schema⟩
  let (journal, texts) := record sql s.journal (own.map Txn.texts)
  let own' ← together db.own texts
  return (.ran (width cmds) rows, ⟨db.committed, journal⟩, own')

def runRequest (req : Request) (s : Ledger) (own : Option Txn) :
    Option (Out × Ledger × Option Txn) :=
  match req with
  | .exec sql [] => (script sql).bind (fun cmds => runScript sql cmds s own)
  | .prepare sql =>
    match script sql with
    | some [.countVersion m] =>
      ((Command.countVersion m).run ⟨s.schema, own.map Txn.schema⟩).map
        (fun _ => (.compiled sql, s, own))
    | _ => none
  | _ => none

def store : Store Request Response Out Ledger Txn := ⟨runRequest, Fits⟩

section Answers

variable {s : Ledger} {own : Option Txn}

theorem store_run (req : Request) : store.run req s own = runRequest req s own := rfl

theorem run_exec {sql : String} {cmds : List Command} (h : script sql = some cmds) :
    store.run (.exec sql []) s own = runScript sql cmds s own := by
  rw [store_run, runRequest, h]
  rfl

theorem runScript_eq (s : Ledger) (own : Option Txn) {sql : String} {cmds : List Command}
    {rows : List Int64} {db : Db}
    {journal : List (List String)} {texts : Option (List String)} {own' : Option Txn}
    (hrun : runAll cmds ⟨s.schema, own.map Txn.schema⟩ = some (rows, db))
    (hrecord : record sql s.journal (own.map Txn.texts) = (journal, texts))
    (hown : together db.own texts = some own') :
    runScript sql cmds s own = some (.ran (width cmds) rows, ⟨db.committed, journal⟩, own') := by
  rw [runScript, hrun, hrecord]
  change (together db.own texts).bind _ = _
  rw [hown]
  rfl

theorem runAll_single {cmd : Command} {db db' : Db} {rows : List Int64}
    (h : cmd.run db = some (rows, db')) : runAll [cmd] db = some (rows, db') := by
  rw [runAll, h]
  change some (rows ++ [], db') = _
  rw [List.append_nil]

theorem run_prepare {m : Migration} {rows : List Int64} {db : Db}
    (h : (Command.countVersion m).run ⟨s.schema, own.map Txn.schema⟩ = some (rows, db)) :
    store.run (.prepare (countVersion m.version)) s own =
      some (.compiled (countVersion m.version), s, own) := by
  rw [store_run, runRequest, script_count]
  dsimp only
  rw [h]
  rfl

theorem together_eq_some {schema : Option Schema} {texts : Option (List String)}
    (h : together schema texts = some own) :
    schema = own.map Txn.schema ∧ texts = own.map Txn.texts := by
  cases schema with
  | none =>
    cases texts with
    | none =>
      cases h
      exact ⟨rfl, rfl⟩
    | some texts => cases h
  | some schema =>
    cases texts with
    | none => cases h
    | some texts =>
      cases h
      exact ⟨rfl, rfl⟩

theorem runScript_eq_some {sql : String} {cmds : List Command} {out : Out} {s' : Ledger}
    {own' : Option Txn} (h : runScript sql cmds s own = some (out, s', own')) :
    ∃ rows, runAll cmds ⟨s.schema, own.map Txn.schema⟩ =
        some (rows, ⟨s'.schema, own'.map Txn.schema⟩) ∧ out = .ran (width cmds) rows ∧
      record sql s.journal (own.map Txn.texts) = (s'.journal, own'.map Txn.texts) := by
  obtain ⟨⟨rows, db⟩, hrun, hrest⟩ := Option.bind_eq_some_iff.mp h
  obtain ⟨journal, texts, hrecord⟩ : ∃ journal texts,
      record sql s.journal (own.map Txn.texts) = (journal, texts) := ⟨_, _, rfl⟩
  dsimp only at hrest
  rw [hrecord] at hrest
  obtain ⟨own₁, htogether, heq⟩ := Option.bind_eq_some_iff.mp hrest
  obtain ⟨hschema, htexts⟩ := together_eq_some htogether
  cases heq
  refine ⟨rows, ?_, rfl, ?_⟩
  · rw [← hschema]
    exact hrun
  · rw [← htexts]
    exact hrecord

theorem sql_of_script {sql : String} {cmd : Command} (h : script sql = some [cmd]) :
    sql = cmd.sql := by
  have hjoined := script_joined h
  rw [joined, List.map_singleton, List.intercalate_singleton] at hjoined
  exact (String.toList_inj.mp hjoined).symm

/-- The requests that the store answers. -/
theorem store_cases {req : Request} {out : Out} {s' : Ledger} {own' : Option Txn}
    (h : store.run req s own = some (out, s', own')) :
    (∃ sql cmds, req = .exec sql [] ∧ script sql = some cmds ∧
      runScript sql cmds s own = some (out, s', own')) ∨
    ∃ m rows db, req = .prepare (countVersion m.version) ∧
      (Command.countVersion m).run ⟨s.schema, own.map Txn.schema⟩ = some (rows, db) ∧
      out = .compiled (countVersion m.version) ∧ s' = s ∧ own' = own := by
  rw [store_run, runRequest.eq_def] at h
  split at h
  · next sql =>
    obtain ⟨cmds, hscript, hrun⟩ := Option.bind_eq_some_iff.mp h
    exact Or.inl ⟨sql, cmds, rfl, hscript, hrun⟩
  · next sql =>
    split at h
    · next m hscript =>
      obtain ⟨⟨rows, db⟩, hrun, heq⟩ := Option.map_eq_some_iff.mp h
      obtain rfl := sql_of_script hscript
      cases heq
      exact Or.inr ⟨m, rows, db, rfl, hrun, rfl, rfl, rfl⟩
    · cases h
  · cases h

end Answers

section Stages

def schemaAt : ℕ → Schema
  | 0 => .empty
  | 1 => { Schema.empty with migrations := some [] }
  | 2 => ⟨some [(1, "base tables")], true, true, true, true, false, false⟩
  | 3 => ⟨some [(1, "base tables"), (2, "add item.seen")], true, true, true, true, true, false⟩
  | _ =>
    ⟨some [(1, "base tables"), (2, "add item.seen"), (3, "index item.seen")],
      true, true, true, true, true, true⟩

/-- The committed migrations are those below `k`, each in the journal once. -/
structure At (k : ℕ) (s : Ledger) : Prop where
  bound : k ≤ 4
  schema : s.schema = schemaAt k
  once : ∀ m : Migration, s.journal.flatten.count m.text = if m.version < k then 1 else 0

instance : Preorder Ledger where
  le s s' := ∀ k, At k s → ∃ k', k ≤ k' ∧ At k' s'
  le_refl _ k hk := ⟨k, Nat.le_refl k, hk⟩
  le_trans s s' s'' h h' k hk := by
    obtain ⟨k', hle, hk'⟩ := h k hk
    obtain ⟨k'', hle', hk''⟩ := h' k' hk'
    exact ⟨k'', Nat.le_trans hle hle', hk''⟩

/-- A stage after the first statement counts each version that it has reached. -/
theorem counted (m : Migration) {k : ℕ} (hpos : 0 < k) (hk : k ≤ 4) :
    ∃ rows, (schemaAt k).migrations = some rows ∧
      (rows.map Prod.fst).count m.version = if m.version < k then 1 else 0 := by
  obtain rfl | rfl | rfl | rfl : k = 1 ∨ k = 2 ∨ k = 3 ∨ k = 4 := by omega
  all_goals cases m <;> exact ⟨_, rfl, by decide⟩

/-- The schema between the statements of a migration and its version. -/
def changed : Migration → Schema
  | .baseTables => { schemaAt 2 with migrations := some [] }
  | .addSeen => { schemaAt 3 with migrations := (schemaAt 2).migrations }
  | .indexSeen => { schemaAt 4 with migrations := (schemaAt 3).migrations }

theorem runAll_commands (m : Migration) (committed : Schema) :
    runAll m.commands ⟨committed, some (schemaAt m.version)⟩ =
      some ([], ⟨committed, some (changed m)⟩) := by
  cases m <;> rfl

theorem runAll_insert (m : Migration) (committed : Schema) :
    runAll [.insertVersion m] ⟨committed, some (changed m)⟩ =
      some ([], ⟨committed, some (schemaAt (m.version + 1))⟩) := by
  cases m <;> rfl

theorem schemaAt_inj : ∀ k ≤ 4, ∀ k' ≤ 4, schemaAt k = schemaAt k' → k = k' := by decide

theorem At.le {k k' : ℕ} {s s' : Ledger} (h : At k s) (h' : At k' s') (hle : k ≤ k') : s ≤ s' := by
  intro k₀ h₀
  have hsame := schemaAt_inj k₀ h₀.bound k h.bound (h₀.schema.symm.trans h.schema)
  exact ⟨k', hsame ▸ hle, h'⟩

theorem text_ne {m m' : Migration} (h : m ≠ m') : m.text ≠ m'.text := by
  intro heq
  have hcommands := script_text m
  rw [heq, script_text m'] at hcommands
  cases m <;> cases m' <;> first | exact h rfl | cases hcommands

theorem text_ne_count (m m' : Migration) : countVersion m'.version ≠ m.text := by
  have hmem : single (.countVersion m') ∈ scripts := by cases m' <;> simp [scripts]
  exact (ne_of_script (script_text m) _ hmem (by cases m <;> simp [Migration.commands])).symm

theorem text_ne_insert (m m' : Migration) : insertVersion m'.version m'.name ≠ m.text := by
  have hmem : single (.insertVersion m') ∈ scripts := by cases m' <;> simp [scripts]
  exact (ne_of_script (script_text m) _ hmem (by cases m <;> simp [Migration.commands])).symm

/-- A transaction that only counts commits no migration. -/
theorem At.counting {k : ℕ} {s : Ledger} (h : At k s) (m : Migration) :
    At k ⟨schemaAt k, s.journal ++ [[countVersion m.version]]⟩ := by
  refine ⟨h.bound, rfl, ?_⟩
  intro m'
  rw [List.flatten_append, List.count_append, h.once m', List.flatten_singleton,
    List.count_cons_of_ne (text_ne_count m' m), List.count_nil, Nat.add_zero]

theorem version_inj {m m' : Migration} (h : m.version = m'.version) : m = m' := by
  cases m <;> cases m' <;> first | rfl | cases h

/-- A statement by itself that is no migration; the first one makes the table of versions. -/
theorem At.single {k k' : ℕ} {s : Ledger} (h : At k s) {sql : String}
    (hne : ∀ m : Migration, sql ≠ m.text) (hk' : k' = k ∨ k = 0 ∧ k' = 1) :
    At k' ⟨schemaAt k', s.journal ++ [[sql]]⟩ := by
  have hbound := h.bound
  refine ⟨by omega, rfl, ?_⟩
  intro m
  have hpos : 0 < m.version := by cases m <;> decide
  rw [List.flatten_append, List.count_append, h.once m, List.flatten_singleton,
    List.count_cons_of_ne (hne m), List.count_nil, Nat.add_zero]
  obtain rfl | ⟨rfl, rfl⟩ := hk'
  · rfl
  · rw [if_neg (by omega), if_neg (by omega)]

/-- The transaction of a migration takes the schema to the next stage. -/
theorem At.migrated {m : Migration} {s : Ledger} (h : At m.version s) :
    At (m.version + 1) ⟨schemaAt (m.version + 1), s.journal ++
      [[countVersion m.version, m.text, insertVersion m.version m.name]]⟩ := by
  refine ⟨by cases m <;> decide, rfl, ?_⟩
  intro m'
  rw [List.flatten_append, List.count_append, h.once m', List.flatten_singleton,
    List.count_cons_of_ne (text_ne_count m' m)]
  by_cases hm : m = m'
  · subst hm
    rw [List.count_cons_self, List.count_cons_of_ne (text_ne_insert m m)]
    simp
  · have hversion : m'.version ≠ m.version := fun heq => hm (version_inj heq).symm
    rw [List.count_cons_of_ne (text_ne hm), List.count_cons_of_ne (text_ne_insert m' m)]
    simp only [List.count_nil, Nat.add_zero]
    split <;> split <;> first | rfl | omega

end Stages

section Programs

variable (floats : FloatText)

/-- The client, on any open handle, is safe and ends in `post`. -/
structure Goes {α : Type} (p : Client α) (s : Ledger) (own : Option Txn)
    (post : α → Ledger → Option Txn → Prop) : Prop where
  safe : ∀ db : ProxyDb, db.closed = false →
    Safe store (fun r s own => r.2.closed = false ∧ post r.1 s own) (p.run db) s own

variable {α β : Type} {p : Client α} {s : Ledger} {own : Option Txn}

theorem Goes.bind {k : α → Client β} {post : β → Ledger → Option Txn → Prop}
    (h : Goes p s own (fun a s own => Goes (k a) s own post)) : Goes (p >>= k) s own post := by
  refine ⟨fun db hdb => ?_⟩
  exact Safe.bind ((h.safe db hdb).weaken (fun r s own hr => hr.2.safe r.2 hr.1))

theorem Goes.weaken {post post' : α → Ledger → Option Txn → Prop} (h : Goes p s own post)
    (himp : ∀ a s own, post a s own → post' a s own) : Goes p s own post' :=
  ⟨fun db hdb => (h.safe db hdb).weaken (fun r s own hr => ⟨hr.1, himp r.1 s own hr.2⟩)⟩

theorem Goes.pure {a : α} {post : α → Ledger → Option Txn → Prop}
    (h : ∀ s', Moved s own s' → post a s' own) : Goes (Pure.pure a) s own post :=
  ⟨fun _ hdb s' hs => ⟨hdb, h s' hs⟩⟩

theorem apply_closed (db : ProxyDb) (resp : Response) : (db.apply resp).closed = db.closed := by
  unfold ProxyDb.apply
  cases resp.ok <;> rfl

/-- What `rpcCode` makes of a response. -/
def received (db : ProxyDb) (resp : Response) : Except (Int32 × String) Response :=
  if resp.ok then .ok resp
  else .error ((db.apply resp).errcode, if resp.message = "" then "sql error" else resp.message)

theorem rpcCode_run {db : ProxyDb} (h : db.closed = false) (req : Request) :
    (rpcCode req).run db = .ask req (fun resp => .done (received db resp, db.apply resp)) := by
  unfold rpcCode rpc
  simp only [StateT.run_bind, StateT.run_get, Prog.pure_eq, Prog.done_bind, h, Bool.false_eq_true,
    if_false, StateT.run_lift, Prog.call, Prog.ask_bind, StateT.run_modify, StateT.run_pure]
  congr 1
  funext resp
  unfold received
  cases resp.ok <;> rfl

theorem Goes.rpc {req : Request}
    {post : Except (Int32 × String) Response → Ledger → Option Txn → Prop}
    (h : ∀ s', Moved s own s' → ∃ out s'' own', store.run req s' own = some (out, s'', own') ∧
      s' ≤ s'' ∧ ∀ resp, resp.ok = true → Fits resp out → ∀ s₃, Moved s'' own' s₃ →
        post (.ok resp) s₃ own') : Goes (rpcCode req) s own post := by
  refine ⟨fun db hdb => ?_⟩
  rw [rpcCode_run hdb]
  intro s' hs
  obtain ⟨out, s'', own', hrun, hle, hpost⟩ := h s' hs
  refine ⟨out, s'', own', hrun, hle, ?_⟩
  intro resp hresp s₃ hs₃
  have hok : resp.ok = true := by
    cases out with
    | ran width rows => exact hresp.1
    | compiled sql => exact hresp.1
  refine ⟨(apply_closed db resp).trans hdb, ?_⟩
  rw [received, if_pos hok]
  exact hpost resp hok hresp s₃ hs₃

/-- A text of a script is sent as it is. -/
theorem sentText {sql : String} {cmds : List Command} (h : script sql = some cmds) :
    prepareText (some (encode sql.toList)) (-1) = sql := by
  rw [Scripts.Session.prepareText_rest (script_no_nul h), String.ofList_toList]

theorem Goes.exec {sql : String} {cmds : List Command} (hscript : script sql = some cmds)
    {post : Except String Unit → Ledger → Option Txn → Prop}
    (h : ∀ s', Moved s own s' → ∃ out s'' own', runScript sql cmds s' own = some (out, s'', own') ∧
      s' ≤ s'' ∧ ∀ s₃, Moved s'' own' s₃ → post (.ok ()) s₃ own') :
    Goes (exec floats sql) s own post := by
  unfold Boot.exec
  rw [BoundValues.cString_of_no_nul (script_no_nul hscript)]
  change Goes (rpcCode (.exec (prepareText (some (encode sql.toList)) (-1)) []) >>= _) s own post
  rw [sentText hscript]
  refine Goes.bind (Goes.rpc ?_)
  intro s' hs
  obtain ⟨out, s'', own', hrun, hle, hpost⟩ := h s' hs
  refine ⟨out, s'', own', (run_exec hscript).trans hrun, hle, ?_⟩
  intro resp hok _ s₃ hs₃
  exact Goes.pure (fun s₄ hs₄ => hpost s₄ (hs₃.trans hs₄))

/-- A count, as `Db::query` shows it. -/
def shownCount (n : Int64) : String :=
  lossyString (fromPtr (encode (cachedText floats (.int n)).toList))

theorem rowTexts_count {stmt : ProxyStmt} {n : Int64} (hcolumns : stmt.columns.length = 1)
    (hstep : stmt.lastStep = sqliteRow) (hpos : stmt.pos = 1) (hrows : stmt.rows = [[.int n]])
    (htexts : stmt.texts = [cachedText floats (.int n)]) :
    rowTexts stmt = [shownCount floats n] := by
  have hupTo : upTo stmt.columnCount = [0] := by
    rw [ProxyStmt.columnCount, hcolumns]
    decide
  have hcell : stmt.cellAt 0 = some (.int n) := by
    simp [ProxyStmt.cellAt, hstep, hpos, hrows]
  have htext : stmt.columnText 0 = some (encode (cachedText floats (.int n)).toList) := by
    simp [ProxyStmt.columnText, hcell, ProxyStmt.textPtr, htexts]
  rw [rowTexts, hupTo, List.map_singleton, htext]
  rfl

/-- The loop of `Db::query` on a count. -/
theorem readRows_count (sql : String) (first : Response) {resp : Response} {n : Int64}
    (hrows : resp.rows = [[.int n]]) (hcolumns : resp.columns.length = 1) :
    let (rc, stmt) := (ProxyStmt.create sql first).step floats (.ok resp)
    readRows floats (stmt.rows.length + 2) rc stmt [] = .ok [[shownCount floats n]] := by
  have hne : resp.columns ≠ [] := by
    intro hnil
    rw [hnil] at hcolumns
    cases hcolumns
  obtain ⟨stmt, hstep, hwidth, hlast, hpos, hone, htexts, hfailed⟩ : ∃ stmt : ProxyStmt,
      (ProxyStmt.create sql first).step floats (.ok resp) = (sqliteRow, stmt) ∧
        stmt.columns.length = 1 ∧ stmt.lastStep = sqliteRow ∧ stmt.pos = 1 ∧
        stmt.rows = [[.int n]] ∧ stmt.texts = [cachedText floats (.int n)] ∧
        stmt.failed = false := by
    refine ⟨((ProxyStmt.create sql first).step floats (.ok resp)).2, ?_⟩
    simp [ProxyStmt.step, ProxyStmt.create, ProxyStmt.advance, ProxyStmt.executed,
      ProxyStmt.cacheRow, hrows, hne, hcolumns]
  have hdone : stmt.advance floats = (sqliteDone, { stmt with lastStep := sqliteDone }) := by
    simp [ProxyStmt.advance, hfailed, hpos, hone]
  have hne : sqliteDone ≠ sqliteRow := by decide
  rw [hstep]
  simp only [hone, List.length_singleton, readRows, if_true, hdone, if_neg hne,
    rowTexts_count floats hwidth hlast hpos hone htexts, List.nil_append]

theorem moved_some {t : Txn} {s' : Ledger} (h : Moved s (some t) s') : s' = s := h

theorem Goes.query {m : Migration} {t : Txn} {rows : List (ℕ × String)}
    (hrows : t.schema.migrations = some rows)
    {post : Except String (List (List String)) → Ledger → Option Txn → Prop}
    (h : post (.ok [[shownCount floats (.ofNat ((rows.map Prod.fst).count m.version))]]) s
      (some ⟨t.schema, t.texts ++ [countVersion m.version]⟩)) :
    Goes (query floats (countVersion m.version)) s (some t) post := by
  have hscript := script_count m
  have hrun : (Command.countVersion m).run ⟨s.schema, some t.schema⟩ =
      some ([.ofNat ((rows.map Prod.fst).count m.version)], ⟨s.schema, some t.schema⟩) := by
    simp [Command.run, Command.effect, Command.change, Command.rows, Db.view, Db.write, hrows]
  have hrecord : record (countVersion m.version) s.journal (some t.texts) =
      (s.journal, some (t.texts ++ [countVersion m.version])) :=
    record_inside hscript (by simp) (by simp) _ _
  unfold Boot.query
  rw [BoundValues.cString_of_no_nul (script_no_nul hscript)]
  dsimp only
  rw [sentText hscript]
  refine Goes.bind (Goes.rpc ?_)
  intro s' hs'
  obtain rfl := moved_some hs'
  refine ⟨.compiled (countVersion m.version), s', some t, run_prepare hrun, le_refl s', ?_⟩
  intro first hok hfirst s₃ hs₃
  obtain rfl := moved_some hs₃
  have hprepared : prepareV2 (some (encode (countVersion m.version).toList)) (-1) (.ok first) =
      ⟨sqliteOk, some (.create (countVersion m.version) first),
        some (byteLen (countVersion m.version).toList)⟩ := by
    rw [Scripts.Session.prepareV2_stmt (script_no_nul hscript) (List.append_nil _).symm ?_
      hfirst.2.1 hfirst.2.2.1, String.ofList_toList]
    rw [← script_joined hscript]
    exact joined_ne_nil _ _
  simp only [Except.mapError, hprepared, ne_eq, not_true_eq_false, if_false]
  refine Goes.bind ?_
  have hrequest : (ProxyStmt.create (countVersion m.version) first).request =
      some (.exec (countVersion m.version) []) := rfl
  unfold stepStmt
  rw [hrequest]
  refine Goes.bind (Goes.rpc ?_)
  intro s₄ hs₄
  obtain rfl := moved_some hs₄
  refine ⟨.ran 1 [.ofNat ((rows.map Prod.fst).count m.version)], s₄,
    some ⟨t.schema, t.texts ++ [countVersion m.version]⟩, ?_, le_refl s₄, ?_⟩
  · rw [run_exec hscript]
    exact runScript_eq s₄ (some t) (runAll_single hrun) hrecord rfl
  intro resp hok hresp s₅ hs₅
  obtain rfl := moved_some hs₅
  refine Goes.pure ?_
  intro s₆ hs₆
  obtain rfl := moved_some hs₆
  have hread := readRows_count floats (countVersion m.version) first hresp.2.1 hresp.2.2
  simp only [Except.mapError, hread]
  refine Goes.pure ?_
  intro s₇ hs₇
  obtain rfl := moved_some hs₇
  exact h

theorem Goes.begin {post : Except String Unit → Ledger → Option Txn → Prop}
    (h : ∀ s', s ≤ s' → post (.ok ()) s' (some ⟨s'.schema, []⟩)) :
    Goes (Boot.exec floats Command.begin.sql) s none post := by
  have hscript : script Command.begin.sql = some [.begin] := script_single (by simp [scripts])
  refine @Goes.exec floats s none _ _ hscript post ?_
  intro s' hs'
  refine ⟨.ran 0 [], s', some ⟨s'.schema, []⟩, ?_, le_refl s', ?_⟩
  · have hrun : runAll [.begin] ⟨s'.schema, none⟩ = some ([], ⟨s'.schema, some s'.schema⟩) := rfl
    exact runScript_eq s' none hrun (record_begin s'.journal) rfl
  · intro s₃ hs₃
    obtain rfl := moved_some hs₃
    exact h s₃ hs'

/-- A statement inside a transaction. -/
theorem Goes.inside {sql : String} {cmds : List Command} (hscript : script sql = some cmds)
    (hcommit : cmds ≠ [.commit]) (hrollback : cmds ≠ [.rollback]) {t : Txn} {schema : Schema}
    {rows : List Int64}
    (hrun : runAll cmds ⟨s.schema, some t.schema⟩ = some (rows, ⟨s.schema, some schema⟩))
    {post : Except String Unit → Ledger → Option Txn → Prop}
    (h : post (.ok ()) s (some ⟨schema, t.texts ++ [sql]⟩)) :
    Goes (Boot.exec floats sql) s (some t) post := by
  refine Goes.exec floats hscript ?_
  intro s' hs'
  obtain rfl := moved_some hs'
  refine ⟨.ran (width cmds) rows, s', some ⟨schema, t.texts ++ [sql]⟩, ?_, le_refl s', ?_⟩
  · exact runScript_eq s' (some t) hrun (record_inside hscript hcommit hrollback _ _) rfl
  · intro s₃ hs₃
    obtain rfl := moved_some hs₃
    exact h

theorem Goes.commit {t : Txn} (hle : s ≤ ⟨t.schema, s.journal ++ [t.texts]⟩)
    {post : Except String Unit → Ledger → Option Txn → Prop}
    (h : ∀ s', Ledger.mk t.schema (s.journal ++ [t.texts]) ≤ s' → post (.ok ()) s' none) :
    Goes (Boot.exec floats Command.commit.sql) s (some t) post := by
  have hscript : script Command.commit.sql = some [.commit] := script_single (by simp [scripts])
  refine Goes.exec floats hscript ?_
  intro s' hs'
  obtain rfl := moved_some hs'
  refine ⟨.ran 0 [], _, none, ?_, hle, h⟩
  have hrun : runAll [.commit] ⟨s'.schema, some t.schema⟩ = some ([], ⟨t.schema, none⟩) := rfl
  exact runScript_eq s' (some t) hrun (record_commit s'.journal t.texts) rfl

/-- The test of `migrate` for a version that is already there. -/
theorem shownCount_iff (n : ℕ) (h : n ≤ 1) :
    [[shownCount floats (.ofNat n)]].head?.bind List.head? = some "1" ↔ n = 1 := by
  have htext : ∀ n : Int64, shownCount floats n =
      lossyString (fromPtr (encode (cstringLossy (toString n)).toList)) := fun _ => rfl
  rw [List.head?_cons, Option.bind_some, List.head?_cons, htext, Option.some_inj]
  obtain rfl | rfl : n = 0 ∨ n = 1 := by omega
  · decide +kernel
  · decide +kernel

/-- What a worker knows after a migration. -/
def Reached (k : ℕ) (result : Except String ℕ) (s : Ledger) (own : Option Txn) : Prop :=
  own = none ∧ (∃ n, result = .ok n) ∧ ∃ k', k ≤ k' ∧ At k' s

/-- The end of a migration that has changed the schema. -/
theorem goes_record (m : Migration) (hat : At m.version s) :
    Goes (recordVersion floats m.version m.name) s
      (some ⟨changed m, [countVersion m.version, m.text]⟩) (Reached (m.version + 1)) := by
  have hmigrated := hat.migrated
  unfold recordVersion
  refine Goes.bind ?_
  refine Goes.inside floats (script_insert m) (by simp) (by simp) (runAll_insert m s.schema) ?_
  refine Goes.bind ?_
  refine Goes.commit floats ?_ ?_
  · exact hat.le hmigrated (Nat.le_succ _)
  · intro s₃ hs₃
    obtain ⟨k₃, hk₃, hat₃⟩ := hs₃ _ hmigrated
    refine Goes.pure ?_
    intro s₄ hs₄
    obtain ⟨k₄, hk₄, hat₄⟩ := hs₄ k₃ hat₃
    exact ⟨rfl, ⟨1, rfl⟩, k₄, by omega, hat₄⟩

/-- A migration takes a stage that is ready for it to the next one, or finds it done. -/
theorem goes_migrate (m : Migration) {k : ℕ} (hk : At k s) (hle : m.version ≤ k) :
    Goes (migrate floats m.version m.name m.text) s none (Reached (m.version + 1)) := by
  unfold migrate
  refine Goes.bind (Goes.begin floats ?_)
  intro s' hs'
  obtain ⟨k', hk', hat⟩ := hs' k hk
  have hpos : 0 < k' := by
    have : 0 < m.version := by cases m <;> decide
    omega
  obtain ⟨rows, hrows, hcount⟩ := counted m hpos hat.bound
  rw [hat.schema]
  refine Goes.bind (Goes.query floats (t := ⟨schemaAt k', []⟩) hrows ?_)
  rw [hcount]
  rcases Nat.lt_or_ge m.version k' with hdone | hready
  · rw [if_pos hdone]
    dsimp only
    rw [if_pos ((shownCount_iff floats 1 (Nat.le_refl 1)).mpr rfl)]
    have hcounted := hat.counting m
    refine Goes.bind (Goes.commit floats ?_ ?_)
    · exact hat.le hcounted (Nat.le_refl k')
    · intro s₃ hs₃
      obtain ⟨k₃, hk₃, hat₃⟩ := hs₃ k' hcounted
      refine Goes.pure ?_
      intro s₄ hs₄
      obtain ⟨k₄, hk₄, hat₄⟩ := hs₄ k₃ hat₃
      exact ⟨rfl, ⟨0, rfl⟩, k₄, by omega, hat₄⟩
  · obtain rfl : k' = m.version := by omega
    rw [if_neg (Nat.lt_irrefl _)]
    dsimp only
    rw [if_neg (fun heq => absurd ((shownCount_iff floats 0 (Nat.zero_le 1)).mp heq) (by decide))]
    refine Goes.bind ?_
    refine Goes.inside floats (script_text m) (by cases m <;> simp [Migration.commands])
      (by cases m <;> simp [Migration.commands]) (runAll_commands m s'.schema) ?_
    dsimp only [List.nil_append, List.singleton_append]
    exact goes_record floats m hat

/-- A statement outside of a transaction. -/
theorem Goes.alone (cmd : Command) (hmem : single cmd ∈ scripts) (hbegin : cmd ≠ .begin)
    {post : Except String Unit → Ledger → Option Txn → Prop}
    (h : ∀ s', s ≤ s' → ∃ schema rows, cmd.run ⟨s'.schema, none⟩ = some (rows, ⟨schema, none⟩) ∧
      s' ≤ ⟨schema, s'.journal ++ [[cmd.sql]]⟩ ∧
      ∀ s₃, Ledger.mk schema (s'.journal ++ [[cmd.sql]]) ≤ s₃ → post (.ok ()) s₃ none) :
    Goes (Boot.exec floats cmd.sql) s none post := by
  have hscript := script_single hmem
  refine Goes.exec floats hscript ?_
  intro s' hs'
  obtain ⟨schema, rows, hrun, hle, hpost⟩ := h s' hs'
  refine ⟨.ran (width [cmd]) rows, _, none, ?_, hle, hpost⟩
  have hne := ne_of_script hscript .begin (by simp [scripts]) (by simpa using hbegin)
  have hrecord : record cmd.sql s'.journal none = (s'.journal ++ [[cmd.sql]], none) := by
    rw [record, if_neg hne]
  exact runScript_eq s' none (runAll_single hrun) hrecord rfl

theorem run_createMigration : ∀ k ≤ 4, Command.createMigration.run ⟨schemaAt k, none⟩ =
    some ([], ⟨schemaAt (max k 1), none⟩) := by decide

theorem run_foreignKeys (schema : Schema) :
    Command.foreignKeys.run ⟨schema, none⟩ = some ([], ⟨schema, none⟩) := rfl

/-- What is not the text of a migration. -/
theorem text_ne_single (cmd : Command) (hmem : single cmd ∈ scripts)
    (hcmd : ∀ m : Migration, m.commands ≠ [cmd]) (m : Migration) : cmd.sql ≠ m.text :=
  (ne_of_script (script_text m) cmd hmem (hcmd m)).symm

/-- From every stage a worker that starts comes to the last one. -/
theorem goes_boot {k : ℕ} (hk : At k s) : Goes (boot floats) s none (Reached 4) := by
  unfold boot
  refine Goes.bind ?_
  refine Goes.alone floats .createMigration (by simp [scripts]) (by simp) ?_
  intro s' hs'
  obtain ⟨k', _, hat⟩ := hs' k hk
  have hne := text_ne_single .createMigration (by simp [scripts])
    (fun m => by cases m <;> simp [Migration.commands])
  have hmade : At (max k' 1) ⟨schemaAt (max k' 1), s'.journal ++ [[Command.createMigration.sql]]⟩ :=
    hat.single hne (by omega)
  refine ⟨schemaAt (max k' 1), [], ?_, hat.le hmade (Nat.le_max_left k' 1), ?_⟩
  · rw [hat.schema]
    exact run_createMigration k' hat.bound
  intro s₁ hs₁
  obtain ⟨k₁, hk₁, hat₁⟩ := hs₁ _ hmade
  have hready : Migration.baseTables.version ≤ k₁ := Nat.le_trans (Nat.le_max_right k' 1) hk₁
  dsimp only
  refine Goes.bind ((goes_migrate floats .baseTables hat₁ hready).weaken ?_)
  rintro result s₂ own ⟨rfl, ⟨first, rfl⟩, k₂, hk₂, hat₂⟩
  dsimp only
  refine Goes.bind ((goes_migrate floats .addSeen hat₂ hk₂).weaken ?_)
  rintro result s₃ own ⟨rfl, ⟨second, rfl⟩, k₃, hk₃, hat₃⟩
  dsimp only
  refine Goes.bind ((goes_migrate floats .indexSeen hat₃ hk₃).weaken ?_)
  rintro result s₄ own ⟨rfl, ⟨third, rfl⟩, k₄, hk₄, hat₄⟩
  refine Goes.pure (fun s₅ hs₅ => ?_)
  obtain ⟨k₅, hk₅, hat₅⟩ := hs₅ k₄ hat₄
  exact ⟨rfl, ⟨_, rfl⟩, k₅, Nat.le_trans hk₄ hk₅, hat₅⟩

theorem goes_startup {k : ℕ} (hk : At k s) : Goes (startup floats) s none (Reached 4) := by
  unfold startup
  refine Goes.bind ?_
  refine Goes.alone floats .foreignKeys (by simp [scripts]) (by simp) ?_
  intro s' hs'
  obtain ⟨k', _, hat⟩ := hs' k hk
  have hne := text_ne_single .foreignKeys (by simp [scripts])
    (fun m => by cases m <;> simp [Migration.commands])
  have hset : At k' ⟨schemaAt k', s'.journal ++ [[Command.foreignKeys.sql]]⟩ :=
    hat.single hne (Or.inl rfl)
  refine ⟨schemaAt k', [], ?_, hat.le hset (Nat.le_refl k'), ?_⟩
  · rw [hat.schema]
    exact run_foreignKeys _
  intro s₁ hs₁
  obtain ⟨k₁, _, hat₁⟩ := hs₁ _ hset
  exact goes_boot floats hat₁

end Programs

end SqliteBroker.Migrations
