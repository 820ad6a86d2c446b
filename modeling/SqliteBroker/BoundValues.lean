import SqliteBroker.ResultRows

/-!
A bound value on its way from the application to SQLite: the shim keeps it among the
parameters of the statement, the Exec request carries it, and `bind_all` gives it to the
statement that the broker steps. The parameters are a map: each index has one entry, that
of its last bind.
-/
namespace SqliteBroker.BoundValues

open Utf8 Messages Engine Execution Serde Wire RealValues Blank Frames SqlValues ShimStatement
  StepCycle ResultRows
open MessageTexts (ascii bindText bind_sized)

section Parameters

variable {params : List Param} {i : Int32} {v : Cell}

theorem mem_upsertParam_self (params : List Param) (i : Int32) (v : Cell) :
    ⟨i, v⟩ ∈ upsertParam params i v := by
  induction params with
  | nil => exact List.mem_singleton.mpr rfl
  | cons p rest ih =>
    unfold upsertParam
    split
    · next heq => exact heq ▸ List.mem_cons_self ..
    · exact List.mem_cons_of_mem _ ih

theorem mem_upsertParam_of_ne {p : Param} (hp : p ∈ params) (hne : p.index ≠ i) :
    p ∈ upsertParam params i v := by
  induction params with
  | nil => cases hp
  | cons q rest ih =>
    unfold upsertParam
    rcases List.mem_cons.mp hp with rfl | htail
    · rw [if_neg hne]
      exact List.mem_cons_self ..
    · split
      · exact List.mem_cons_of_mem _ htail
      · exact List.mem_cons_of_mem _ (ih htail)

theorem index_of_mem_upsertParam {p : Param} (hp : p ∈ upsertParam params i v) :
    p.index = i ∨ p ∈ params := by
  induction params with
  | nil => exact .inl (by rw [List.mem_singleton.mp hp])
  | cons q rest ih =>
    unfold upsertParam at hp
    split at hp
    · next heq =>
      rcases List.mem_cons.mp hp with rfl | htail
      · exact .inl heq
      · exact .inr (List.mem_cons_of_mem _ htail)
    · rcases List.mem_cons.mp hp with rfl | htail
      · exact .inr (List.mem_cons_self ..)
      · exact (ih htail).imp_right (List.mem_cons_of_mem _)

theorem upsertParam_nodup (h : (params.map Param.index).Nodup) :
    ((upsertParam params i v).map Param.index).Nodup := by
  induction params with
  | nil => exact List.nodup_singleton _
  | cons q rest ih =>
    obtain ⟨hq, hrest⟩ := List.nodup_cons.mp h
    unfold upsertParam
    split
    · exact List.nodup_cons.mpr ⟨hq, hrest⟩
    · next hne =>
      refine List.nodup_cons.mpr ⟨fun hmem => ?_, ih hrest⟩
      obtain ⟨p, hp, hindex⟩ := List.mem_map.mp hmem
      rcases index_of_mem_upsertParam hp with heq | hold
      · exact hne (hindex.symm.trans heq)
      · exact hq (List.mem_map.mpr ⟨p, hold, hindex⟩)

end Parameters

section Runs

variable {floats : FloatText} {stmt : ProxyStmt}

theorem advance_params (stmt : ProxyStmt) : (stmt.advance floats).2.params = stmt.params := by
  unfold ProxyStmt.advance
  split
  · rfl
  · split
    · unfold ProxyStmt.cacheRow
      dsimp only
      split <;> rfl
    · rfl

theorem step_params (stmt : ProxyStmt) (answer : Except Int32 Response) :
    (stmt.step floats answer).2.params = stmt.params := by
  unfold ProxyStmt.step
  split
  · exact advance_params stmt
  · cases answer with
    | ok resp => exact advance_params (stmt.executed resp)
    | error errcode => rfl

theorem bindCell_params (stmt : ProxyStmt) (i : Int32) (value : Except Int32 Cell)
    (released : ℕ) : (bindCell stmt i value released).stmt.params = stmt.params ∨
      ∃ cell, value = .ok cell ∧
        (bindCell stmt i value released).stmt.params = upsertParam stmt.params i cell := by
  unfold bindCell
  split
  · exact .inl rfl
  · cases value with
    | error code => exact .inl rfl
    | ok cell => exact .inr ⟨cell, rfl, rfl⟩

/-- Every call leaves at most one entry for each index. -/
theorem call_nodup (call : StmtCall) (h : (stmt.params.map Param.index).Nodup) :
    ((call.run floats stmt).params.map Param.index).Nodup := by
  cases call with
  | step answer =>
    rw [StmtCall.run, step_params]
    exact h
  | reset => exact h
  | bind i call =>
    obtain ⟨value, released, hrun⟩ := call.run_eq
    rw [StmtCall.run, hrun]
    rcases bindCell_params stmt i value released with hsame | ⟨cell, _, hup⟩
    · rwa [hsame]
    · rw [hup]
      exact upsertParam_nodup h
  | clearBindings => exact List.nodup_nil
  | column i => exact h

theorem run_nodup (calls : List StmtCall) (h : (stmt.params.map Param.index).Nodup) :
    ((runCalls floats stmt calls).params.map Param.index).Nodup := by
  induction calls generalizing stmt with
  | nil => exact h
  | cons call rest ih => exact ih (call_nodup call h)

/-- The call is no other bind of the index and does not clear the bindings. -/
def Keeps (i : Int32) : StmtCall → Prop
  | .bind j _ => j ≠ i
  | .clearBindings => False
  | _ => True

theorem call_keeps {call : StmtCall} {p : Param} (hp : p ∈ stmt.params)
    (hcall : Keeps p.index call) : p ∈ (call.run floats stmt).params := by
  cases call with
  | step answer =>
    rw [StmtCall.run, step_params]
    exact hp
  | reset => exact hp
  | bind j call =>
    obtain ⟨value, released, hrun⟩ := call.run_eq
    rw [StmtCall.run, hrun]
    rcases bindCell_params stmt j value released with hsame | ⟨cell, _, hup⟩
    · rwa [hsame]
    · rw [hup]
      exact mem_upsertParam_of_ne hp (Ne.symm hcall)
  | clearBindings => exact hcall.elim
  | column j => exact hp

theorem run_keeps {calls : List StmtCall} {p : Param} (hp : p ∈ stmt.params)
    (hcalls : ∀ call ∈ calls, Keeps p.index call) : p ∈ (runCalls floats stmt calls).params := by
  induction calls generalizing stmt with
  | nil => exact hp
  | cons call rest ih =>
    exact ih (call_keeps hp (hcalls call (List.mem_cons_self ..)))
      (fun c hc => hcalls c (List.mem_cons_of_mem _ hc))

end Runs

/-- The cell that a bind call stores, if its own checks let it. -/
def storedCell : BindCall → Option Cell
  | .text none _ _ => some .null
  | .text (some mem) n _ => some (.text (sqlFrom (some mem) n))
  | .blob mem n _ =>
    if n < 0 ∨ (mem = none ∧ 0 < n) then none
    else some (.blob (Base64.encodeBase64 ((mem.getD []).take n.toInt.toNat)))
  | .zeroblob n =>
    if n < 0 ∨ 8 * 1024 * 1024 < n then none
    else some (.blob (Base64.encodeBase64 (List.replicate n.toInt.toNat 0)))
  | .double v => some (.real v)
  | .int64 v => some (.int v)
  | .int v => some (.int v.toInt64)
  | .null => some .null

section Binding

variable {stmt : ProxyStmt} {i : Int32} {call : BindCall}

/-- What the own checks of a bind give: the cell, or a code that is not `SQLITE_OK`. -/
theorem run_eq_storedCell (call : BindCall) : ∃ value released,
    (∀ stmt i, call.run stmt i = bindCell stmt i value released) ∧
      value.toOption = storedCell call ∧ ∀ code, value = .error code → code ≠ sqliteOk := by
  cases call with
  | text mem n dtor =>
    cases mem with
    | none => exact ⟨.ok .null, releaseDestructor dtor none, fun _ _ => rfl, rfl, nofun⟩
    | some bytes =>
      exact ⟨.ok (.text (sqlFrom (some bytes) n)), releaseDestructor dtor (some bytes),
        fun _ _ => rfl, rfl, nofun⟩
  | blob mem n dtor =>
    by_cases hnull : mem = none ∧ 0 < n
    · refine ⟨.error sqliteMisuse, releaseDestructor dtor mem, fun _ _ => ?_, ?_, ?_⟩
      · rw [BindCall.run, bindBlob, if_pos hnull]
      · rw [storedCell, if_pos (.inr hnull)]
        rfl
      · rintro code ⟨⟩
        decide
    · by_cases hneg : n < 0
      · refine ⟨.error sqliteTooBig, releaseDestructor dtor mem, fun _ _ => ?_, ?_, ?_⟩
        · rw [BindCall.run, bindBlob, if_neg hnull, if_pos hneg]
        · rw [storedCell, if_pos (.inl hneg)]
          rfl
        · rintro code ⟨⟩
          decide
      · refine ⟨.ok (.blob (Base64.encodeBase64 ((mem.getD []).take n.toInt.toNat))),
          releaseDestructor dtor mem, fun _ _ => ?_, ?_, nofun⟩
        · rw [BindCall.run, bindBlob, if_neg hnull, if_neg hneg]
        · rw [storedCell, if_neg (by simp only [hneg, hnull, or_self, not_false_eq_true])]
          rfl
  | zeroblob n =>
    by_cases hsize : n < 0 ∨ 8 * 1024 * 1024 < n
    · refine ⟨.error sqliteTooBig, 0, fun _ _ => ?_, ?_, ?_⟩
      · rw [BindCall.run, bindZeroblob, if_pos hsize]
      · rw [storedCell, if_pos hsize]
        rfl
      · rintro code ⟨⟩
        decide
    · refine ⟨.ok (.blob (Base64.encodeBase64 (List.replicate n.toInt.toNat 0))), 0,
        fun _ _ => ?_, ?_, nofun⟩
      · rw [BindCall.run, bindZeroblob, if_neg hsize]
      · rw [storedCell, if_neg hsize]
        rfl
  | double v => exact ⟨.ok (.real v), 0, fun _ _ => rfl, rfl, nofun⟩
  | int64 v => exact ⟨.ok (.int v), 0, fun _ _ => rfl, rfl, nofun⟩
  | int v => exact ⟨.ok (.int v.toInt64), 0, fun _ _ => rfl, rfl, nofun⟩
  | null => exact ⟨.ok .null, 0, fun _ _ => rfl, rfl, nofun⟩

/-- A bind of a storable value is accepted before the first step. -/
theorem bind_accepted {cell : Cell} (hcell : storedCell call = some cell)
    (hstarted : stmt.started = false) (hi : 0 < i) : (call.run stmt i).rc = sqliteOk := by
  obtain ⟨value, released, hrun, hvalue, _⟩ := run_eq_storedCell call
  have hok : ¬ (stmt.started = true ∨ i ≤ 0) := by
    rw [hstarted, Int32.le_iff_toInt_le]
    rw [Int32.lt_iff_toInt_lt] at hi
    simp only [Bool.false_eq_true, false_or]
    omega
  rw [hrun]
  unfold bindCell
  rw [if_neg hok]
  cases value with
  | ok c => rfl
  | error code =>
    rw [hcell] at hvalue
    cases hvalue

/-- An accepted bind puts its cell among the parameters and changes nothing else. -/
theorem accepted_stmt (h : (call.run stmt i).rc = sqliteOk) :
    ∃ cell, storedCell call = some cell ∧
      (call.run stmt i).stmt = { stmt with params := upsertParam stmt.params i cell } := by
  obtain ⟨value, released, hrun, hvalue, hcode⟩ := run_eq_storedCell call
  rw [hrun] at h ⊢
  unfold bindCell at h ⊢
  by_cases hrefused : stmt.started = true ∨ i ≤ 0
  · rw [if_pos hrefused] at h
    cases h
  · rw [if_neg hrefused] at h ⊢
    cases value with
    | error code => exact absurd h (hcode code rfl)
    | ok cell => exact ⟨cell, hvalue.symm, rfl⟩

/-- A bind that is not accepted changes nothing. -/
theorem refused_stmt (h : (call.run stmt i).rc ≠ sqliteOk) : (call.run stmt i).stmt = stmt := by
  obtain ⟨value, released, hrun, _⟩ := run_eq_storedCell call
  rw [hrun] at h ⊢
  unfold bindCell at h ⊢
  split
  · rfl
  · next hchecks =>
    rw [if_neg hchecks] at h
    cases value with
    | error code => rfl
    | ok cell => exact absurd rfl h

end Binding

section Arrival

variable (S : Sqlite) (bound : S.Stmt → Int32 → Value) (J : SerdeJson) (floats : FloatText)

/-- The call has bound parameter `i`, and `v` is what the database has for it: the bind is
accepted, no later call binds `i` again or clears the bindings, the Exec of a later step
crosses the connection, and the broker binds its parameters to the statement it has compiled
and is about to step. -/
def Arrives (call : BindCall) (i : Int32) (v : Value) : Prop :=
  ∃ sql prepared past later params bytes got fresh st,
    (call.run (runCalls floats (.create sql prepared) past) i).rc = sqliteOk ∧
    (∀ c ∈ later, Keeps i c) ∧
    (runCalls floats (.create sql prepared) (past ++ .bind i call :: later)).request =
      some (.exec sql params) ∧
    writeMsg J (Request.exec sql params) = .ok bytes ∧
    readMsg J bytes = some (.ok (Request.exec sql got), []) ∧
    bindAll S fresh got = (st, .ok ()) ∧ v = bound st i

variable {S bound J floats} {call : BindCall} {i : Int32} {v : Value}

theorem index_of_blank {p q : Param} (h : blank p = blank q) : p.index = q.index :=
  (Param.mk.inj h).1

/-- What arrives is the value of the stored cell, or of the one that serde_json reads for
it: the same cell, but for its doubles. -/
theorem arrives_value (hS : Binds S bound) (hJ : ∀ r : Request, J.Keeps (toJson r)) {cell : Cell}
    (hcell : storedCell call = some cell) (h : Arrives S bound J floats call i v) :
    ∃ read, blank read = blank cell ∧ boundValue read = some v := by
  obtain ⟨sql, prepared, past, later, params, bytes, got, fresh, st, hrc, hlater, hreq, hwrite,
    hread, hbind, rfl⟩ := h
  have hgot : blank got = blank params := by
    have hwhole := readMsg_writeMsg hwrite []
    rw [List.append_nil, hread] at hwhole
    have hbody := (Prod.mk.inj (Option.some.inj hwhole)).1
    have hblank : blank (Request.exec sql got) = blank (Request.exec sql params) :=
      decodeBody_sound (hJ _) hbody.symm
    exact (Request.exec.inj hblank).2
  have hindex : got.map Param.index = params.map Param.index := by
    have hboth := congrArg (List.map Param.index) hgot
    simpa only [blank, List.map_map, Function.comp_def] using hboth
  obtain ⟨cell', hcell', hstmt⟩ := accepted_stmt hrc
  obtain rfl := Option.some.inj (hcell.symm.trans hcell')
  have hsent : params = (runCalls floats (.create sql prepared)
      (past ++ .bind i call :: later)).params := by
    unfold ProxyStmt.request at hreq
    split at hreq
    · cases hreq
    · exact (Request.exec.inj (Option.some.inj hreq)).2.symm
  have hmem : ⟨i, cell⟩ ∈ params := by
    rw [hsent, runCalls_append, runCalls_cons]
    have hstored : ⟨i, cell⟩ ∈ ((StmtCall.bind i call).run floats
        (runCalls floats (.create sql prepared) past)).params := by
      rw [StmtCall.run, hstmt]
      exact mem_upsertParam_self ..
    exact run_keeps (p := ⟨i, cell⟩) hstored hlater
  have hnodup : (got.map Param.index).Nodup := by
    rw [hindex, hsent]
    exact run_nodup _ List.nodup_nil
  -- the parameter that the broker has read for it
  have hread : blank (⟨i, cell⟩ : Param) ∈ got.map blank := by
    rw [show got.map blank = params.map blank from hgot]
    exact List.mem_map_of_mem hmem
  obtain ⟨⟨i', read⟩, hmem', hsame⟩ := List.mem_map.mp hread
  obtain rfl : i' = i := index_of_blank hsame
  exact ⟨read, (Param.mk.inj hsame).2, bindAll_bound hS hbind hmem' hnodup⟩

/-- A blob or a text is read as it is. -/
theorem arrives_exact (hS : Binds S bound) (hJ : ∀ r : Request, J.Keeps (toJson r)) {cell : Cell}
    (hcell : storedCell call = some cell) (hreal : ∀ x, cell ≠ .real x)
    (h : Arrives S bound J floats call i v) : boundValue cell = some v := by
  obtain ⟨read, hblank, hv⟩ := arrives_value hS hJ hcell h
  have hsame : read = cell := by
    cases cell with
    | real x => exact absurd rfl (hreal x)
    | _ => cases read <;> simp_all [blank]
  rw [← hsame]
  exact hv

/-- The calls that bind the blob `b`: with a pointer to its bytes, or as a zeroblob within
the limit of the shim. -/
inductive BlobCall : BindCall → Bytes → Prop
  | blob (b more : Bytes) (dtor : Destructor) (hlen : b.length < 2 ^ 31) :
      BlobCall (.blob (some (b ++ more)) (Int32.ofNat b.length) dtor) b
  | zeroblob (n : Int32) (hlow : 0 ≤ n) (hhigh : n ≤ 8 * 1024 * 1024) :
      BlobCall (.zeroblob n) (List.replicate n.toInt.toNat 0)

theorem blobCall_cell {b : Bytes} (h : BlobCall call b) :
    storedCell call = some (.blob (Base64.encodeBase64 b)) := by
  cases h with
  | blob b more dtor hlen =>
    have hn : (Int32.ofNat b.length).toInt = b.length := Int32.toInt_ofNat_of_lt hlen
    have hneg : ¬ Int32.ofNat b.length < 0 := by
      rw [Int32.lt_iff_toInt_lt, hn, Int32.toInt_zero]
      omega
    rw [storedCell, if_neg (by simp [hneg]), hn, Int.toNat_natCast, Option.getD_some,
      List.take_left' rfl]
  | zeroblob n hlow hhigh =>
    have hchecks : ¬ (n < 0 ∨ 8 * 1024 * 1024 < n) := by
      rw [Int32.lt_iff_toInt_lt, Int32.lt_iff_toInt_lt]
      rw [Int32.le_iff_toInt_le] at hlow hhigh
      omega
    rw [storedCell, if_neg hchecks]

theorem blob_value (b : Bytes) : boundValue (.blob (Base64.encodeBase64 b)) =
    some (if b = [] then .null else .blob b) := by
  rw [boundValue, Base64.decodeBase64_encodeBase64]
  cases b <;> rfl

/-- A bound blob is accepted, and it arrives as it is exactly when it is not empty: an
empty one reaches SQLite as a null pointer. -/
theorem blob_arrives_iff (hS : Binds S bound) (hJ : ∀ r : Request, J.Keeps (toJson r)) {b : Bytes}
    (hcall : BlobCall call b) :
    (∀ stmt : ProxyStmt, stmt.started = false → 0 < i → (call.run stmt i).rc = sqliteOk) ∧
    ∀ v, Arrives S bound J floats call i v → (v = .blob b ↔ b ≠ []) := by
  refine ⟨fun stmt hstarted hi => bind_accepted (blobCall_cell hcall) hstarted hi, ?_⟩
  intro v harrives
  have hvalue := arrives_exact hS hJ (blobCall_cell hcall) nofun harrives
  rw [blob_value] at hvalue
  rw [← Option.some.inj hvalue]
  by_cases hempty : b = []
  · simp [hempty]
  · simp [hempty]

/-- The call that binds the text `t` with its length. -/
def textCall (t more : Bytes) (dtor : Destructor) : BindCall :=
  .text (some (t ++ more)) (Int32.ofNat t.length) dtor

theorem cString_of_no_nul {text : String} (h : '\x00' ∉ text.toList) :
    cString text = .ok (encode text.toList) := by
  have hnone : (encode text.toList).findIdx? (· = 0) = none := by
    rw [List.findIdx?_eq_none_iff]
    intro b hb
    apply decide_eq_false
    rintro rfl
    exact h ((zero_mem_encode _).mp hb)
  rw [cString, hnone]

/-- A text is bound as what stands before its first NUL. -/
theorem text_value (cs : List Char) (more : Bytes) (dtor : Destructor)
    (hlen : (encode cs).length < 2 ^ 31) :
    ∃ cell, storedCell (textCall (encode cs) more dtor) = some cell ∧ (∀ x, cell ≠ .real x) ∧
      boundValue cell = some (.text ((encode cs).takeWhile (· ≠ 0))) := by
  have hn : (Int32.ofNat (encode cs).length).toInt = (encode cs).length :=
    Int32.toInt_ofNat_of_lt hlen
  have hneg : ¬ Int32.ofNat (encode cs).length < 0 := by
    rw [Int32.lt_iff_toInt_lt, hn, Int32.toInt_zero]
    omega
  have htext : sqlFrom (some (encode cs ++ more)) (Int32.ofNat (encode cs).length) =
      String.ofList (cs.takeWhile (· ≠ '\x00')) := by
    rw [sqlFrom, if_neg hneg, hn, Int.toNat_natCast, List.take_left' rfl, arriving_text]
  have hnul : '\x00' ∉ (String.ofList (cs.takeWhile (· ≠ '\x00'))).toList := by
    rw [String.toList_ofList]
    intro hmem
    have := List.mem_takeWhile_imp hmem
    simp at this
  refine ⟨_, rfl, nofun, ?_⟩
  rw [htext, boundValue, cString_of_no_nul hnul, String.toList_ofList, takeWhile_encode]
  rfl

/-- A bound text arrives as it is exactly when it holds no NUL, and two bound texts reach
the database as one exactly when they agree up to their first NUL. -/
theorem text_arrives_iff (hS : Binds S bound) (hJ : ∀ r : Request, J.Keeps (toJson r))
    {cs : List Char} {more : Bytes} {dtor : Destructor} (hlen : (encode cs).length < 2 ^ 31)
    (h : Arrives S bound J floats (textCall (encode cs) more dtor) i v) :
    (v = .text (encode cs) ↔ 0 ∉ encode cs) ∧
    ∀ cs' more' dtor' i' v', (encode cs').length < 2 ^ 31 →
      Arrives S bound J floats (textCall (encode cs') more' dtor') i' v' →
      (v = v' ↔ (encode cs).takeWhile (· ≠ 0) = (encode cs').takeWhile (· ≠ 0)) := by
  have hvalue : ∀ {cs more dtor i v}, (encode cs).length < 2 ^ 31 →
      Arrives S bound J floats (textCall (encode cs) more dtor) i v →
      v = .text ((encode cs).takeWhile (· ≠ 0)) := by
    intro cs more dtor i v hlen h
    obtain ⟨cell, hcell, hreal, hbound⟩ := text_value _ more dtor hlen
    exact (Option.some.inj (hbound.symm.trans (arrives_exact hS hJ hcell hreal h))).symm
  refine ⟨?_, fun cs' more' dtor' i' v' hlen' h' => ?_⟩
  · rw [hvalue hlen h, Value.text.injEq, List.takeWhile_eq_self_iff]
    constructor
    · intro hall hzero
      simpa using hall 0 hzero
    · intro hzero b hb
      exact decide_eq_true (fun heq : b = 0 => hzero (heq ▸ hb))
  · rw [hvalue hlen h, hvalue hlen' h', Value.text.injEq]

end Arrival

section Examples

open EchoSqlite (engine)

def insertText : String := "INSERT INTO t VALUES (?1)"

/-- The Exec that carries one parameter. -/
def insertExec (cell : Cell) : Request := .exec insertText [⟨1, cell⟩]

/-- The text of that Exec: `kind` and `v` are the JSON texts of the parameter. -/
def insertBytes (kind v : Bytes) : Bytes :=
  bindText (ascii insertText)
    (ascii "\x7b\"t\":\"" ++ kind ++ ascii "\",\"v\":\"" ++ v ++ ascii "\"\x7d")

noncomputable def insertJson (cell : Cell) (kind v : Bytes) : SerdeJson :=
  .table [(toJson (insertExec cell), insertBytes kind v)]

section Written

variable {cell : Cell} {kind v : Bytes}

theorem insertBytes_sized (hkind : kind.length + v.length ≤ 512) :
    insertBytes kind v ≠ [] ∧ (insertBytes kind v).length ≤ frameLimit := by
  apply bind_sized
  simp only [List.length_append, show (ascii insertText).length = 25 from rfl,
    show (ascii "\x7b\"t\":\"").length = 6 from rfl,
    show (ascii "\",\"v\":\"").length = 7 from rfl, show (ascii "\"\x7d").length = 2 from rfl]
  omega

theorem insertJson_keeps (hkind : kind.length + v.length ≤ 512) (r : Request) :
    (insertJson cell kind v).Keeps (toJson r) := by
  refine table_keeps (by simp) ?_ _
  intro hnil
  exact (insertBytes_sized hkind).1 (List.mem_singleton.mp hnil).symm

theorem insertJson_reads (hkind : kind.length + v.length ≤ 512) (hfinite : cell.finite = true) :
    ∃ bytes, writeMsg (insertJson cell kind v) (insertExec cell) = .ok bytes ∧
      readMsg (insertJson cell kind v) bytes = some (.ok (insertExec cell), []) := by
  have hvec : (insertJson cell kind v).toVec (toJson (insertExec cell)) = insertBytes kind v :=
    table_toVec (List.nodup_singleton _) (List.mem_singleton.mpr rfl)
  have hwrite : writeMsg (insertJson cell kind v) (insertExec cell) =
      .ok (toLeBytes (insertBytes kind v).length ++ insertBytes kind v) := by
    rw [writeMsg_ok_iff, hvec]
    exact ⟨(insertBytes_sized hkind).2, rfl⟩
  have hJ : (insertJson cell kind v).ReadsBack (toJson (insertExec cell)) :=
    table_readsBack (List.nodup_singleton _) (List.nodup_singleton _) (List.mem_singleton.mpr rfl)
  refine ⟨_, hwrite, (readMsg_written_iff hJ hwrite).mpr ?_⟩
  change ([⟨1, cell⟩] : List Param).all Param.finite = true
  simp [Param.finite, hfinite]

end Written

theorem bindAll_echo {st : EchoSqlite.Stmt} {i : Int32} {cell : Cell} {v : Value}
    (h : boundValue cell = some v) : bindAll engine st [⟨i, cell⟩] =
      ({ st with params := Function.update st.params i v }, .ok ()) := by
  have hone : bindOne engine st ⟨i, cell⟩ = .ok (st.bind i v) := by
    cases cell with
    | null => exact congrArg (fun v => Except.ok (st.bind i v)) (Option.some.inj h)
    | int n => exact congrArg (fun v => Except.ok (st.bind i v)) (Option.some.inj h)
    | real x => exact congrArg (fun v => Except.ok (st.bind i v)) (Option.some.inj h)
    | text t =>
      cases hc : cString t with
      | error err => simp [boundValue, hc, Except.toOption] at h
      | ok bytes =>
        have hv : Value.text bytes = v := by simpa [boundValue, hc, Except.toOption] using h
        change (cString t).map _ = _
        rw [hc, ← hv]
        rfl
    | blob t =>
      cases hd : Base64.decodeBase64 t with
      | none => simp [boundValue, hd] at h
      | some bytes =>
        have hv : (if bytes.isEmpty then Value.null else .blob bytes) = v := by
          simpa [boundValue, hd] using h
        simp only [bindOne, hd, ← hv]
        cases bytes <;> rfl
  rw [bindAll, hone]
  rfl

/-- On the echo engine every storable bind arrives. -/
theorem echo_arrives {call : BindCall} {cell : Cell} {v : Value} {kind text : Bytes}
    (hcell : storedCell call = some cell) (hkind : kind.length + text.length ≤ 512)
    (hfinite : cell.finite = true) (hv : boundValue cell = some v) :
    Arrives engine EchoSqlite.Stmt.params (insertJson cell kind text) noFloats call 1 v := by
  obtain ⟨bytes, hwrite, hread⟩ := insertJson_reads hkind hfinite
  obtain ⟨value, released, hrun, hvalue, _⟩ := run_eq_storedCell call
  obtain rfl : value = .ok cell := by
    rw [hcell] at hvalue
    cases value with
    | ok c => exact congrArg Except.ok (Option.some.inj hvalue)
    | error code => cases hvalue
  refine ⟨insertText, okClosed, [], [], [⟨1, cell⟩], bytes, [⟨1, cell⟩],
    ⟨fun _ => .null, [], false⟩, _, bind_accepted hcell rfl (by decide), by simp, ?_, hwrite,
    hread, bindAll_echo hv, ?_⟩
  · change ((call.run (.create insertText okClosed) 1).stmt).request = _
    rw [hrun]
    rfl
  · change v = Function.update (fun _ : Int32 => Value.null) 1 v 1
    rw [Function.update_self]

noncomputable def blobJson (b : Bytes) : SerdeJson :=
  insertJson (.blob (Base64.encodeBase64 b)) (ascii "blob") (ascii (Base64.encodeBase64 b))

/-- Three bytes arrive; so does a zeroblob. -/
theorem three_bytes_arrive :
    (∃ v, Arrives engine EchoSqlite.Stmt.params (blobJson [0, 1, 2]) noFloats
      (.blob (some [0, 1, 2]) 3 .static) 1 v ∧ v = .blob [0, 1, 2]) ∧
    ∃ v, Arrives engine EchoSqlite.Stmt.params (blobJson [0, 0]) noFloats (.zeroblob 2) 1 v ∧
      v = .blob [0, 0] := by
  have hblob : BlobCall (.blob (some [0, 1, 2]) 3 .static) [0, 1, 2] :=
    .blob [0, 1, 2] [] .static (by decide)
  have hzero : BlobCall (.zeroblob 2) [0, 0] := .zeroblob 2 (by decide) (by decide)
  have hthree : Arrives engine EchoSqlite.Stmt.params (blobJson [0, 1, 2]) noFloats
      (.blob (some [0, 1, 2]) 3 .static) 1 _ :=
    echo_arrives (blobCall_cell hblob) (by decide) rfl (blob_value _)
  have htwo : Arrives engine EchoSqlite.Stmt.params (blobJson [0, 0]) noFloats (.zeroblob 2) 1 _ :=
    echo_arrives (blobCall_cell hzero) (by decide) rfl (blob_value _)
  exact ⟨⟨_, hthree, ((blob_arrives_iff EchoSqlite.binds (insertJson_keeps (by decide)) hblob).2 _
      hthree).mpr (by simp)⟩,
    ⟨_, htwo, ((blob_arrives_iff EchoSqlite.binds (insertJson_keeps (by decide)) hzero).2 _
      htwo).mpr (by simp)⟩⟩

/-- The empty blob arrives as NULL, from a pointer and as a zeroblob. -/
theorem empty_blob_lost :
    (∀ r : Request, (blobJson []).Keeps (toJson r)) ∧
    Arrives engine EchoSqlite.Stmt.params (blobJson []) noFloats (.blob (some [7]) 0 .static) 1
      .null ∧
    Arrives engine EchoSqlite.Stmt.params (blobJson []) noFloats (.zeroblob 0) 1 .null := by
  have hblob : BlobCall (.blob (some [7]) 0 .static) [] := .blob [] [7] .static (by decide)
  have hzero : BlobCall (.zeroblob 0) [] := .zeroblob 0 (by decide) (by decide)
  exact ⟨insertJson_keeps (by decide),
    echo_arrives (blobCall_cell hblob) (by decide) rfl (blob_value _),
    echo_arrives (blobCall_cell hzero) (by decide) rfl (blob_value _)⟩

noncomputable def textJson (text : String) : SerdeJson :=
  insertJson (.text text) (ascii "text") (ascii text)

/-- A text without NUL arrives. -/
theorem plain_text_arrives : ∃ v, Arrives engine EchoSqlite.Stmt.params (textJson "ab") noFloats
    (textCall (encode ['a', 'b']) [] .static) 1 v ∧ v = .text (encode ['a', 'b']) := by
  have hcell : storedCell (textCall (encode ['a', 'b']) [] .static) = some (.text "ab") := by decide
  have harrives : Arrives engine EchoSqlite.Stmt.params (textJson "ab") noFloats
      (textCall (encode ['a', 'b']) [] .static) 1 (.text (encode ['a', 'b'])) :=
    echo_arrives hcell (by decide) rfl (by decide)
  exact ⟨_, harrives, ((text_arrives_iff EchoSqlite.binds (insertJson_keeps (by decide)) (by decide)
    harrives).1).mpr (by decide)⟩

/-- `a`, NUL, `b` and `a`, NUL, `c` both arrive as `a`. -/
theorem nul_texts_merge :
    (∀ r : Request, (textJson "a").Keeps (toJson r)) ∧
    Arrives engine EchoSqlite.Stmt.params (textJson "a") noFloats
      (textCall (encode ['a', '\x00', 'b']) [] .static) 1 (.text [0x61]) ∧
    Arrives engine EchoSqlite.Stmt.params (textJson "a") noFloats
      (textCall (encode ['a', '\x00', 'c']) [] .static) 1 (.text [0x61]) :=
  ⟨insertJson_keeps (by decide), echo_arrives (by decide) (by decide) rfl (by decide),
    echo_arrives (by decide) (by decide) rfl (by decide)⟩

end Examples

end SqliteBroker.BoundValues
