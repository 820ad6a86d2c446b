import SqliteBroker.BoundValues
import SqliteBroker.LossyUnits

/-!
The bindings of a statement over any sequence of calls: the parameters are a map from
indices to the cells of their last accepted binds. The broker gives them to SQLite one
after the other; that succeeds exactly when the statement has all of these parameters,
and then their order has no part in what is bound.
-/
namespace SqliteBroker.Bindings

open Utf8 Messages Engine Execution SqlValues ShimStatement StepCycle BoundValues

section Map

variable {floats : FloatText} {start stmt : ProxyStmt} {calls : List StmtCall} {i : Int32}
  {cell : Cell}

/-- Of two entries for one index an upsert leaves the new one. -/
theorem mem_upsertParam_iff {params : List Param} {p : Param} {v : Cell}
    (h : (params.map Param.index).Nodup) :
    p ∈ upsertParam params i v ↔ p = ⟨i, v⟩ ∨ (p.index ≠ i ∧ p ∈ params) := by
  constructor
  · intro hp
    by_cases hi : p.index = i
    · exact .inl (List.inj_on_of_nodup_map (upsertParam_nodup h) hp (mem_upsertParam_self ..) hi)
    · exact .inr ⟨hi, (index_of_mem_upsertParam hp).resolve_left hi⟩
  · rintro (rfl | ⟨hi, hp⟩)
    · exact mem_upsertParam_self ..
    · exact mem_upsertParam_of_ne hp hi

/-- The call binds `i` anew or clears the bindings. -/
def Replaces (stmt : ProxyStmt) (i : Int32) : StmtCall → Prop
  | .bind j call => j = i ∧ (call.run stmt j).rc = sqliteOk
  | .clearBindings => True
  | _ => False

/-- The call is an accepted bind of `i` to this cell. -/
def Stores (stmt : ProxyStmt) (i : Int32) (cell : Cell) : StmtCall → Prop
  | .bind j call => j = i ∧ (call.run stmt j).rc = sqliteOk ∧ storedCell call = some cell
  | _ => False

/-- What one call makes of the entries. -/
theorem mem_call_iff (call : StmtCall) (h : (stmt.params.map Param.index).Nodup) :
    ⟨i, cell⟩ ∈ (call.run floats stmt).params ↔
      Stores stmt i cell call ∨ (¬ Replaces stmt i call ∧ ⟨i, cell⟩ ∈ stmt.params) := by
  cases call with
  | step answer =>
    rw [StmtCall.run, step_params]
    simp [Stores, Replaces]
  | reset => simp [StmtCall.run, ProxyStmt.reset, Stores, Replaces]
  | clearBindings => simp [StmtCall.run, ProxyStmt.clearBindings, Stores, Replaces]
  | column j => simp [StmtCall.run, Stores, Replaces]
  | bind j call =>
    simp only [StmtCall.run, Stores, Replaces]
    by_cases hrc : (call.run stmt j).rc = sqliteOk
    · obtain ⟨stored, hstored, hstmt⟩ := accepted_stmt hrc
      rw [hstmt, mem_upsertParam_iff h, hstored, Param.mk.injEq, Option.some.injEq]
      simp only [hrc, true_and, and_true]
      constructor
      · rintro (⟨rfl, rfl⟩ | ⟨hne, hmem⟩)
        · exact .inl ⟨rfl, rfl⟩
        · exact .inr ⟨Ne.symm hne, hmem⟩
      · rintro (⟨rfl, rfl⟩ | ⟨hne, hmem⟩)
        · exact .inl ⟨rfl, rfl⟩
        · exact .inr ⟨Ne.symm hne, hmem⟩
    · rw [refused_stmt hrc]
      simp [hrc]

/-- The last accepted bind of `i`, since the bindings were cleared, was to this cell. -/
def LatestBind (floats : FloatText) (start : ProxyStmt) (calls : List StmtCall) (i : Int32)
    (cell : Cell) : Prop :=
  ∃ before call after, calls = before ++ call :: after ∧
    Stores (runCalls floats start before) i cell call ∧
    ∀ mid next rest, after = mid ++ next :: rest →
      ¬ Replaces (runCalls floats start (before ++ call :: mid)) i next

theorem latestBind_append (call : StmtCall) :
    LatestBind floats start (calls ++ [call]) i cell ↔
      Stores (runCalls floats start calls) i cell call ∨
        (¬ Replaces (runCalls floats start calls) i call ∧
          LatestBind floats start calls i cell) := by
  constructor
  · rintro ⟨before, first, after, hcalls, hstores, hlater⟩
    rcases List.eq_nil_or_concat after with rfl | ⟨init, last, rfl⟩
    · obtain ⟨rfl, hlast⟩ := List.append_inj' hcalls rfl
      obtain rfl := List.singleton_inj.mp hlast
      exact .inl hstores
    · rw [List.concat_eq_append, ← List.cons_append, ← List.append_assoc] at hcalls
      obtain ⟨rfl, hlast⟩ := List.append_inj' hcalls rfl
      obtain rfl := List.singleton_inj.mp hlast
      refine .inr ⟨hlater init call [] List.concat_eq_append, before, first, init, rfl, hstores, ?_⟩
      intro mid next rest hinit
      apply hlater mid next (rest ++ [call])
      rw [List.concat_eq_append, hinit, List.append_assoc, List.cons_append]
  · rintro (hstores | ⟨hkeeps, before, first, after, rfl, hstores, hlater⟩)
    · exact ⟨calls, call, [], rfl, hstores, by simp⟩
    · refine ⟨before, first, after ++ [call], by simp, hstores, ?_⟩
      intro mid next rest hafter
      rcases List.eq_nil_or_concat rest with rfl | ⟨init, last, rfl⟩
      · obtain ⟨rfl, hlast⟩ := List.append_inj' hafter rfl
        obtain rfl := List.singleton_inj.mp hlast
        exact hkeeps
      · rw [List.concat_eq_append, ← List.cons_append, ← List.append_assoc] at hafter
        obtain ⟨rfl, _⟩ := List.append_inj' hafter rfl
        exact hlater mid next init rfl

/-- The entries of a statement are its last accepted binds. -/
theorem mem_params_iff (hempty : start.params = []) (calls : List StmtCall) :
    ⟨i, cell⟩ ∈ (runCalls floats start calls).params ↔
      LatestBind floats start calls i cell := by
  induction calls using List.reverseRecOn with
  | nil =>
    constructor
    · intro hmem
      rw [runCalls, List.foldl_nil, hempty] at hmem
      cases hmem
    · rintro ⟨before, call, after, hcalls, _⟩
      exact absurd hcalls (by simp)
  | append_singleton calls call ih =>
    have hnodup : ((runCalls floats start calls).params.map Param.index).Nodup :=
      run_nodup calls (by rw [hempty]; exact List.nodup_nil)
    rw [latestBind_append, runCalls_append, ← ih]
    exact mem_call_iff call hnodup

/-- An index has an entry exactly when it was bound since the bindings were cleared. -/
theorem index_mem_iff (hempty : start.params = []) (calls : List StmtCall) :
    (∃ p ∈ (runCalls floats start calls).params, p.index = i) ↔
      ∃ before call after, calls = before ++ .bind i call :: after ∧
        (call.run (runCalls floats start before) i).rc = sqliteOk ∧ .clearBindings ∉ after := by
  have hentry : (∃ p ∈ (runCalls floats start calls).params, p.index = i) ↔
      ∃ cell, LatestBind floats start calls i cell := by
    simp only [← mem_params_iff hempty]
    constructor
    · rintro ⟨p, hp, rfl⟩
      exact ⟨p.value, hp⟩
    · rintro ⟨cell, hmem⟩
      exact ⟨_, hmem, rfl⟩
  rw [hentry]
  constructor
  · rintro ⟨cell, before, call, after, hcalls, hstores, hlater⟩
    have hclear : .clearBindings ∉ after := by
      intro hmem
      obtain ⟨mid, rest, hafter⟩ := List.append_of_mem hmem
      exact hlater mid _ rest hafter trivial
    cases call with
    | bind j call =>
      obtain ⟨rfl, hrc, _⟩ := hstores
      exact ⟨before, call, after, hcalls, hrc, hclear⟩
    | step answer => exact hstores.elim
    | reset => exact hstores.elim
    | clearBindings => exact hstores.elim
    | column j => exact hstores.elim
  · clear hentry
    rintro ⟨before, call, after, rfl, hrc, hclear⟩
    induction after using List.reverseRecOn with
    | nil =>
      obtain ⟨cell, hcell, _⟩ := accepted_stmt hrc
      exact ⟨cell, latestBind_append _ |>.mpr (.inl ⟨rfl, hrc, hcell⟩)⟩
    | append_singleton init next ih =>
      obtain ⟨hinit, hnext⟩ : .clearBindings ∉ init ∧ .clearBindings ≠ next := by
        simpa using hclear
      obtain ⟨cell, hlatest⟩ := ih hinit
      rw [← List.cons_append, ← List.append_assoc]
      by_cases hreplaces :
          Replaces (runCalls floats start (before ++ .bind i call :: init)) i next
      · cases next with
        | bind j later =>
          obtain ⟨rfl, hlater⟩ := hreplaces
          obtain ⟨stored, hstored, _⟩ := accepted_stmt hlater
          exact ⟨stored, (latestBind_append _).mpr (.inl ⟨rfl, hlater, hstored⟩)⟩
        | clearBindings => exact absurd rfl hnext
        | step answer => exact hreplaces.elim
        | reset => exact hreplaces.elim
        | column j => exact hreplaces.elim
      · exact ⟨cell, (latestBind_append _).mpr (.inr ⟨hreplaces, hlatest⟩)⟩

end Map

section Ranges

variable (S : Sqlite)

def sqliteRange : Int32 := 25

def HasParam (st : S.Stmt) (i : Int32) : Prop := 0 < i ∧ i ≤ S.bindParameterCount st

instance (st : S.Stmt) (i : Int32) : Decidable (HasParam S st i) :=
  inferInstanceAs (Decidable (0 < i ∧ i ≤ S.bindParameterCount st))

/-- What a bind function returns, and that the statement keeps its parameters. -/
def RangeChecked (st : S.Stmt) (i : Int32) (bound : Int32 × S.Stmt) : Prop :=
  bound.1 = (if HasParam S st i then sqliteOk else sqliteRange) ∧
    S.bindParameterCount bound.2 = S.bindParameterCount st

/-- A bind fails exactly when the statement has no parameter of that index. -/
structure Ranged : Prop where
  null : ∀ st i, RangeChecked S st i (S.bindNull st i)
  int64 : ∀ st i v, RangeChecked S st i (S.bindInt64 st i v)
  double : ∀ st i v, RangeChecked S st i (S.bindDouble st i v)
  text : ∀ st i bytes, RangeChecked S st i (S.bindText st i bytes)
  blob : ∀ st i ptr, RangeChecked S st i (S.bindBlob st i ptr)

variable {S} {st mid : S.Stmt} {p : Param}

/-- The broker refuses an ill-formed cell, a blob that is no base64 or a text with a NUL; it
hands every other to a bind function. -/
theorem bindOne_ranged (hS : Ranged S) (st : S.Stmt) (p : Param) :
    (boundValue p.value = none ∧ ∃ err, bindOne S st p = .error err) ∨
      (boundValue p.value ≠ none ∧
        ∃ bound, bindOne S st p = .ok bound ∧ RangeChecked S st p.index bound) := by
  obtain ⟨i, cell⟩ := p
  cases cell with
  | null => exact .inr ⟨by simp [boundValue], _, rfl, hS.null st i⟩
  | int v => exact .inr ⟨by simp [boundValue], _, rfl, hS.int64 st i v⟩
  | real v => exact .inr ⟨by simp [boundValue], _, rfl, hS.double st i v⟩
  | text v =>
    have hone : bindOne S st ⟨i, .text v⟩ = (cString v).map (S.bindText st i) := rfl
    rw [hone, boundValue]
    cases cString v with
    | error err => exact .inl ⟨rfl, err, rfl⟩
    | ok bytes => exact .inr ⟨by simp [Except.toOption], _, rfl, hS.text st i bytes⟩
  | blob v =>
    simp only [bindOne, boundValue]
    cases Base64.decodeBase64 v with
    | none => exact .inl ⟨rfl, _, rfl⟩
    | some bytes => exact .inr ⟨by simp, _, rfl, hS.blob st i _⟩

theorem bindOne_iff (hS : Ranged S) :
    (∃ mid, bindOne S st p = .ok (sqliteOk, mid)) ↔
      HasParam S st p.index ∧ boundValue p.value ≠ none := by
  rcases bindOne_ranged hS st p with ⟨hcell, err, hone⟩ | ⟨hcell, ⟨rc, bound⟩, hone, hrc, _⟩
  · simp [hcell, hone]
  · rw [hone]
    rw [show rc = _ from hrc]
    by_cases hhas : HasParam S st p.index
    · simp [hhas, hcell]
    · simp [hhas, sqliteOk, sqliteRange]

theorem bindOne_count (hS : Ranged S) {rc : Int32} (h : bindOne S st p = .ok (rc, mid)) :
    S.bindParameterCount mid = S.bindParameterCount st := by
  rcases bindOne_ranged hS st p with ⟨_, err, hone⟩ | ⟨_, bound, hone, _, hcount⟩
  · rw [hone] at h
    cases h
  · rw [hone] at h
    cases h
    exact hcount

/-- `bind_all` succeeds exactly when it can bind every parameter of the list. -/
theorem bindAll_ok_iff (hS : Ranged S) (params : List Param) :
    (bindAll S st params).2 = .ok () ↔
      ∀ p ∈ params, HasParam S st p.index ∧ boundValue p.value ≠ none := by
  induction params generalizing st with
  | nil => simp [bindAll]
  | cons p rest ih =>
    rw [List.forall_mem_cons, ← bindOne_iff hS, bindAll]
    cases hone : bindOne S st p with
    | error err => simp
    | ok bound =>
      obtain ⟨rc, mid⟩ := bound
      have hhas : ∀ i, HasParam S mid i ↔ HasParam S st i := by
        intro i
        rw [HasParam, HasParam, bindOne_count hS hone]
      simp only [← hhas]
      by_cases hrc : rc = sqliteOk
      · simp only [hrc, ne_eq, not_true, if_false]
        rw [ih]
        simp
      · simp [hrc]

/-- Whether a list can be bound does not depend on its order. -/
theorem bindAll_ok_perm (hS : Ranged S) {params order : List Param} (hperm : order.Perm params) :
    (bindAll S st order).2 = .ok () ↔ (bindAll S st params).2 = .ok () := by
  rw [bindAll_ok_iff hS, bindAll_ok_iff hS]
  exact forall_congr' fun p => by rw [hperm.mem_iff]

/-- What is bound, if the list can be bound, does not depend on its order. -/
theorem bindAll_perm {bound : S.Stmt → Int32 → Value} (hB : Binds S bound)
    {params order : List Param} (hnodup : (params.map Param.index).Nodup)
    (hperm : order.Perm params) {st₁ st₂ : S.Stmt} (h₁ : bindAll S st params = (st₁, .ok ()))
    (h₂ : bindAll S st order = (st₂, .ok ())) : bound st₁ = bound st₂ := by
  have hnodup' : (order.map Param.index).Nodup := ((hperm.map _).nodup_iff).mpr hnodup
  funext i
  by_cases hi : ∃ p ∈ params, p.index = i
  · obtain ⟨p, hp, rfl⟩ := hi
    have hvalue := bindAll_bound hB h₁ hp hnodup
    rw [bindAll_bound hB h₂ (hperm.mem_iff.mpr hp) hnodup'] at hvalue
    exact (Option.some.inj hvalue).symm
  · have hother : ∀ p ∈ params, p.index ≠ i := fun p hp heq => hi ⟨p, hp, heq⟩
    rw [bindAll_other hB h₁ hother,
      bindAll_other hB h₂ (fun p hp => hother p (hperm.mem_iff.mp hp))]

end Ranges

section Stored

theorem sqlFrom_no_nul (bytes : Option Bytes) (n : Int32) :
    '\x00' ∉ (sqlFrom bytes n).toList := by
  have hcut : ∀ mem : Bytes, '\x00' ∉ (lossyString (fromPtr mem)).toList := by
    intro mem hmem
    rw [lossyString, String.toList_ofList] at hmem
    have hzero := List.mem_takeWhile_imp (nul_mem_lossy hmem)
    simp at hzero
  cases bytes with
  | none => exact List.not_mem_nil
  | some mem =>
    rw [sqlFrom]
    split
    · exact hcut mem
    · exact hcut _

/-- What a bind stores is well formed. -/
theorem boundValue_of_stored {call : BindCall} {cell : Cell} (h : storedCell call = some cell) :
    boundValue cell ≠ none := by
  have hblob : ∀ bytes, boundValue (.blob (Base64.encodeBase64 bytes)) ≠ none := by
    intro bytes
    rw [blob_value]
    exact Option.some_ne_none _
  cases call with
  | text mem n dtor =>
    cases mem with
    | none =>
      cases h
      simp [boundValue]
    | some mem =>
      cases h
      rw [boundValue, cString_of_no_nul (sqlFrom_no_nul _ _)]
      simp [Except.toOption]
  | blob mem n dtor =>
    rw [storedCell] at h
    split at h
    · cases h
    · cases h
      exact hblob _
  | zeroblob n =>
    rw [storedCell] at h
    split at h
    · cases h
    · cases h
      exact hblob _
  | double v =>
    cases h
    simp [boundValue]
  | int64 v =>
    cases h
    simp [boundValue]
  | int v =>
    cases h
    simp [boundValue]
  | null =>
    cases h
    simp [boundValue]

theorem pos_of_accepted {stmt : ProxyStmt} {i : Int32} {call : BindCall}
    (h : (call.run stmt i).rc = sqliteOk) : 0 < i := by
  obtain ⟨value, released, hrun, _⟩ := run_eq_storedCell call
  rw [hrun] at h
  unfold bindCell at h
  split at h
  · cases h
  · next hchecks =>
    rw [Int32.le_iff_toInt_le] at hchecks
    rw [Int32.lt_iff_toInt_lt]
    have := not_or.mp hchecks
    omega

end Stored

section Results

variable {S : Sqlite} {bound : S.Stmt → Int32 → Value}

/-- After any calls the parameters that an Exec carries are a map of the last accepted binds,
which only binds and `sqlite3_clear_bindings` change. The broker binds the same values in
every order of the list that it can bind, and it can bind all orders or none. -/
theorem bindings_last_write_wins (hB : Binds S bound) (floats : FloatText) (sql : String)
    (prepared : Response) (calls : List StmtCall) :
    let start := ProxyStmt.create sql prepared
    let stmt := runCalls floats start calls
    (∀ req, stmt.request = some req → req = .exec sql stmt.params) ∧
    (stmt.params.map Param.index).Nodup ∧
    (∀ i, (∃ p ∈ stmt.params, p.index = i) ↔
      ∃ before call after, calls = before ++ .bind i call :: after ∧
        (call.run (runCalls floats start before) i).rc = sqliteOk ∧ .clearBindings ∉ after) ∧
    (∀ i cell, ⟨i, cell⟩ ∈ stmt.params ↔ LatestBind floats start calls i cell) ∧
    (stmt.reset.params = stmt.params ∧
      ∀ answer, (stmt.step floats answer).2.params = stmt.params) ∧
    (∀ i (call : BindCall), (call.run stmt i).rc = sqliteMisuse → (call.run stmt i).stmt = stmt) ∧
    ∀ order, order.Perm stmt.params → ∀ st,
      (Ranged S →
        ((bindAll S st order).2 = .ok () ↔ (bindAll S st stmt.params).2 = .ok ())) ∧
      ∀ st₁ st₂, bindAll S st stmt.params = (st₁, .ok ()) →
        bindAll S st order = (st₂, .ok ()) → bound st₁ = bound st₂ := by
  intro start stmt
  have hnodup : (stmt.params.map Param.index).Nodup := run_nodup calls List.nodup_nil
  have hsql : stmt.sql = sql := (run_prepared calls start).1
  refine ⟨?_, hnodup, fun i => index_mem_iff rfl calls, fun i cell => mem_params_iff rfl calls,
    ⟨rfl, step_params stmt⟩, ?_, fun order hperm st =>
      ⟨fun hS => bindAll_ok_perm hS hperm, fun _ _ => bindAll_perm hB hnodup hperm⟩⟩
  · intro req hreq
    rw [ProxyStmt.request, hsql] at hreq
    split at hreq
    · cases hreq
    · exact (Option.some.inj hreq).symm
  · intro i call hrc
    apply refused_stmt
    rw [hrc]
    decide

/-- The broker binds what the shim has accepted exactly when no accepted bind, since the
bindings were cleared, was beyond the parameters of the statement. -/
theorem accepted_binds_iff (hS : Ranged S) (floats : FloatText) (sql : String)
    (prepared : Response) (calls : List StmtCall) (fresh : S.Stmt)
    (hcount : S.bindParameterCount fresh = prepared.paramCount) :
    (bindAll S fresh (runCalls floats (.create sql prepared) calls).params).2 = .ok () ↔
      ∀ before i call after, calls = before ++ .bind i call :: after →
        (call.run (runCalls floats (.create sql prepared) before) i).rc = sqliteOk →
        .clearBindings ∉ after → i ≤ prepared.paramCount := by
  have hindex := fun i => @index_mem_iff floats (.create sql prepared) i rfl calls
  rw [bindAll_ok_iff hS]
  constructor
  · intro hall before i call after hcalls hrc hclear
    obtain ⟨p, hp, rfl⟩ := (hindex i).mpr ⟨before, call, after, hcalls, hrc, hclear⟩
    rw [← hcount]
    exact (hall p hp).1.2
  · rintro hrange ⟨i, cell⟩ hp
    obtain ⟨before, call, after, hcalls, hrc, hclear⟩ := (hindex i).mp ⟨_, hp, rfl⟩
    refine ⟨⟨pos_of_accepted hrc, ?_⟩, ?_⟩
    · rw [hcount]
      exact hrange before i call after hcalls hrc hclear
    · obtain ⟨_, call', _, _, hstores, _⟩ := (mem_params_iff rfl calls).mp hp
      cases call' with
      | bind j call' => exact boundValue_of_stored hstores.2.2
      | step answer => exact hstores.elim
      | reset => exact hstores.elim
      | clearBindings => exact hstores.elim
      | column j => exact hstores.elim

end Results

section Examples

open EchoSqlite (engine)

/-- The bind function of the echo engine behind a check of the index. -/
def bindWithin (n : Int32) (st : EchoSqlite.Stmt) (i : Int32) (v : Value) :
    Int32 × EchoSqlite.Stmt :=
  if 0 < i ∧ i ≤ n then st.bind i v else (sqliteRange, st)

/-- The echo engine for statements of `n` parameters. -/
abbrev withParams (n : Int32) : Sqlite :=
  { engine with
    bindNull := fun st i => bindWithin n st i .null
    bindInt64 := fun st i v => bindWithin n st i (.int v)
    bindDouble := fun st i v => bindWithin n st i (.real v)
    bindText := fun st i bytes => bindWithin n st i (.text bytes)
    bindBlob := fun st i ptr => bindWithin n st i (match ptr with
      | none => .null
      | some bytes => .blob bytes)
    bindParameterCount := fun _ => n }

theorem bindWithin_checked (n : Int32) (st : EchoSqlite.Stmt) (i : Int32) (v : Value) :
    RangeChecked (withParams n) st i (bindWithin n st i v) := by
  refine ⟨?_, rfl⟩
  change _ = if 0 < i ∧ i ≤ n then sqliteOk else sqliteRange
  unfold bindWithin
  split <;> rfl

theorem withParams_ranged (n : Int32) : Ranged (withParams n) where
  null st i := bindWithin_checked n st i .null
  int64 st i v := bindWithin_checked n st i (.int v)
  double st i v := bindWithin_checked n st i (.real v)
  text st i bytes := bindWithin_checked n st i (.text bytes)
  blob st i _ := bindWithin_checked n st i _

theorem bindWithin_ok {n : Int32} {st : EchoSqlite.Stmt} {i : Int32} {v : Value}
    (h : (bindWithin n st i v).1 = sqliteOk) :
    (bindWithin n st i v).2.params = Function.update st.params i v := by
  unfold bindWithin at h ⊢
  split
  · rfl
  · next hrange =>
    rw [if_neg hrange] at h
    cases h

theorem withParams_binds (n : Int32) : Binds (withParams n) EchoSqlite.Stmt.params where
  null _ _ h := bindWithin_ok h
  int64 _ _ _ h := bindWithin_ok h
  double _ _ _ h := bindWithin_ok h
  text _ _ _ h := bindWithin_ok h
  blob _ _ _ h := bindWithin_ok h

def oneParam : Response := { okClosed with paramCount := 1 }

def freshStmt : EchoSqlite.Stmt := ⟨fun _ => .null, [], false⟩

/-- The second bind of parameter 1 is the one that counts, also after a reset. -/
theorem rebound_value : LatestBind noFloats (.create insertText oneParam)
    [.bind 1 (.int 7), .reset, .bind 1 (.int 8)] 1 (.int 8) := by
  have h := bindings_last_write_wins (withParams_binds 1) noFloats insertText oneParam
    [.bind 1 (.int 7), .reset, .bind 1 (.int 8)]
  exact (h.2.2.2.1 1 (.int 8)).mp (by decide)

/-- A list with an index that the statement lacks leaves other values bound in another order:
`bind_all` stops at the failure. -/
theorem failing_order_matters :
    let stmt := runCalls noFloats (.create insertText oneParam) [.bind 1 (.int 7), .bind 2 .null]
    stmt.params = [⟨1, .int 7⟩, ⟨2, .null⟩] ∧
      (bindAll (withParams 1) freshStmt stmt.params).1.params 1 = .int 7 ∧
      (bindAll (withParams 1) freshStmt stmt.params.reverse).1.params 1 = .null := by
  decide

/-- A bind within the parameters of the statement is bound by the broker. -/
theorem bind_within_accepted :
    (bindAll (withParams 1) freshStmt
      (runCalls noFloats (.create insertText oneParam) [.bind 1 (.int 7)]).params).2 = .ok () := by
  apply (accepted_binds_iff (withParams_ranged 1) noFloats insertText oneParam [.bind 1 (.int 7)]
    freshStmt rfl).mpr
  intro before i call after hcalls _ _
  cases before with
  | nil =>
    obtain ⟨rfl, _⟩ := StmtCall.bind.inj (List.cons.inj hcalls).1
    decide
  | cons c before => simp at hcalls

/-- The shim accepts a bind of parameter 2 of a statement that has one parameter; the broker
then cannot bind it. -/
theorem bind_beyond_accepted :
    let stmt := ProxyStmt.create insertText oneParam
    (bindInt stmt 2 7).rc = sqliteOk ∧
      (bindAll (withParams 1) freshStmt (bindInt stmt 2 7).stmt.params).2 =
        .error "bind 2 failed (25)" := by
  decide

end Examples

end SqliteBroker.Bindings
