import SqliteBroker.ShimStatement

/-!
The cycle of a statement from its creation or a reset to the next reset. An abstract
cycle knows the response of its one execution and how many steps have been made; the
seven fields of the shim's statement follow it through every sequence of calls.
-/
namespace SqliteBroker.StepCycle

open Utf8 Messages Engine ShimConnection SqlValues ShimStatement
open Execution (okClosed)

/-- The calls on a statement. A column function reads the statement only. -/
inductive StmtCall
  | step (answer : Except Int32 Response)
  | reset
  | bind (index : Int32) (call : BindCall)
  | clearBindings
  | column (i : Int32)

def StmtCall.isStep : StmtCall → Bool
  | .step _ => true
  | _ => false

def StmtCall.isReset : StmtCall → Bool
  | .reset => true
  | _ => false

/-- The abstract cycle: `steps` counts the steps since the execution, its own included. -/
inductive Cycle
  | fresh
  | ran (resp : Response) (steps : ℕ)
  | failed (code : Int32)

namespace Cycle

def step (cycle : Cycle) (answer : Except Int32 Response) : Cycle :=
  match cycle, answer with
  | .fresh, .ok resp => .ran resp 1
  | .fresh, .error errcode => .failed (if errcode = 0 then sqliteError else errcode)
  | .ran resp steps, _ => .ran resp (steps + 1)
  | .failed code, _ => .failed code

/-- What the last step has returned. -/
def code : Cycle → Int32
  | .fresh => 0
  | .ran resp steps => if steps ≤ resp.rows.length then sqliteRow else sqliteDone
  | .failed code => code

/-- The row that the accessors show. -/
def row : Cycle → List Cell
  | .ran resp steps => resp.rows[steps - 1]?.getD []
  | _ => []

end Cycle

variable (floats : FloatText)

section Shown

/-- What the column functions make of the cells of a row; past its end there is no value. -/
def cellIn (cells : List Cell) (i : Int32) : Option Cell :=
  if i < 0 then none else cells[i.toInt.toNat]?

def shown (cells : List Cell) : Columns where
  type i := match cellIn cells i with
    | some (.int _) => sqliteInteger
    | some (.real _) => sqliteFloat
    | some (.text _) => sqliteText
    | some (.blob _) => sqliteBlob
    | _ => sqliteNull
  int64 i := match cellIn cells i with
    | some (.int v) => v
    | some (.real v) => toInt64 v
    | some (.text v) => ((Decimal.parseSigned 64 v.toList).map Int64.ofInt).getD 0
    | _ => 0
  double i := match cellIn cells i with
    | some (.real v) => v
    | some (.int v) => F64.ofInt v.toInt
    | some (.text v) => (floats.parse v).getD (F64.ofInt 0)
    | _ => F64.ofInt 0
  text i := match cellIn cells i with
    | some .null => none
    | none => none
    | some cell => some (encode (cachedText floats cell).toList)
  bytes i := match cellIn cells i with
    | some (.blob v) => Int32.ofNat (cachedBlob (.blob v)).length
    | some .null => 0
    | none => 0
    | some cell => Int32.ofNat (byteLen (cachedText floats cell).toList)
  blob i := match cellIn cells i with
    | some (.blob v) =>
      if cachedBlob (.blob v) = [] then none else some (cachedBlob (.blob v))
    | some .null => none
    | none => none
    | some cell => some (encode (cachedText floats cell).toList)

variable {floats} {stmt : ProxyStmt}

/-- Accessors of a statement without a current row. -/
theorem accessors_of_no_row (h : ∀ i, stmt.cellAt i = none) :
    stmt.accessors floats = shown floats [] := by
  have hnone : ∀ i, cellIn [] i = none := by
    intro i
    simp [cellIn]
  simp only [ProxyStmt.accessors, shown, hnone]
  congr 1
  · funext i
    simp [ProxyStmt.columnType, h]
  · funext i
    simp [ProxyStmt.columnInt64, h]
  · funext i
    simp [ProxyStmt.columnDouble, h]
  · funext i
    simp [ProxyStmt.columnText, h]
  · funext i
    simp [ProxyStmt.columnBytes, h]
  · funext i
    simp [ProxyStmt.columnBlob, h]

/-- Accessors of a statement whose caches are those of its current row. -/
theorem accessors_of_row {row : List Cell} (hcell : ∀ i, stmt.cellAt i = cellIn row i)
    (htexts : stmt.texts = row.map (cachedText floats))
    (hblobs : stmt.blobs = row.map cachedBlob) : stmt.accessors floats = shown floats row := by
  have hindex : ∀ {i : Int32} {cell : Cell}, cellIn row i = some cell →
      ¬ i < 0 ∧ row[i.toInt.toNat]? = some cell := by
    intro i cell hi
    unfold cellIn at hi
    split at hi
    · cases hi
    · next hneg => exact ⟨hneg, hi⟩
  have htext : ∀ {i : Int32} {cell : Cell}, cellIn row i = some cell →
      stmt.texts[i.toInt.toNat]? = some (cachedText floats cell) := by
    intro i cell hi
    rw [htexts, List.getElem?_map, (hindex hi).2]
    rfl
  have hblob : ∀ {i : Int32} {cell : Cell}, cellIn row i = some cell →
      stmt.blobs[i.toInt.toNat]? = some (cachedBlob cell) := by
    intro i cell hi
    rw [hblobs, List.getElem?_map, (hindex hi).2]
    rfl
  have hptr : ∀ {i : Int32} {cell : Cell}, cellIn row i = some cell →
      stmt.textPtr i = some (encode (cachedText floats cell).toList) := by
    intro i cell hi
    rw [ProxyStmt.textPtr, if_neg (hindex hi).1, htext hi]
    rfl
  simp only [ProxyStmt.accessors, shown]
  congr 1
  · funext i
    simp only [ProxyStmt.columnType, hcell]
    cases hi : cellIn row i with
    | none => rfl
    | some cell => cases cell <;> rfl
  · funext i
    cases hi : cellIn row i with
    | none => simp only [ProxyStmt.columnInt64, hcell, hi]
    | some cell => cases cell <;> simp only [ProxyStmt.columnInt64, hcell, hi]
  · funext i
    cases hi : cellIn row i with
    | none => simp only [ProxyStmt.columnDouble, hcell, hi]
    | some cell => cases cell <;> simp only [ProxyStmt.columnDouble, hcell, hi]
  · funext i
    simp only [ProxyStmt.columnText, hcell]
    cases hi : cellIn row i with
    | none => rfl
    | some cell =>
      have hp := hptr hi
      cases cell <;> first | rfl | exact hp
  · funext i
    simp only [ProxyStmt.columnBytes, hcell]
    cases hi : cellIn row i with
    | none => rfl
    | some cell =>
      have ht := htext hi
      have hb := hblob hi
      cases cell <;> simp only [ht, hb, Option.map_some, Option.getD_some]
  · funext i
    simp only [ProxyStmt.columnBlob, hcell]
    cases hi : cellIn row i with
    | none => rfl
    | some cell =>
      have hp := hptr hi
      have hb := hblob hi
      cases cell with
      | null => rfl
      | int v => exact hp
      | real v => exact hp
      | text v => exact hp
      | blob v =>
        simp only [hb, Option.filter_some]
        cases cachedBlob (.blob v) <;> rfl

end Shown

/-- The statement after a call. -/
def StmtCall.run (stmt : ProxyStmt) : StmtCall → ProxyStmt
  | .step answer => (stmt.step floats answer).2
  | .reset => stmt.reset
  | .bind index call => (call.run stmt index).stmt
  | .clearBindings => stmt.clearBindings
  | .column _ => stmt

/-- The request that a call sends. -/
def StmtCall.request (stmt : ProxyStmt) : StmtCall → Option Request
  | .step _ => stmt.request
  | _ => none

def StmtCall.code (stmt : ProxyStmt) : StmtCall → Option Int32
  | .step answer => some (stmt.step floats answer).1
  | _ => none

def runCalls (stmt : ProxyStmt) (calls : List StmtCall) : ProxyStmt :=
  calls.foldl (StmtCall.run floats) stmt

/-- The requests that a sequence of calls sends, in order. -/
def requests : ProxyStmt → List StmtCall → List Request
  | _, [] => []
  | stmt, call :: rest => (call.request stmt).toList ++ requests (call.run floats stmt) rest

/-- What the steps of a sequence of calls return, in order. -/
def stepCodes : ProxyStmt → List StmtCall → List Int32
  | _, [] => []
  | stmt, call :: rest => (call.code floats stmt).toList ++ stepCodes (call.run floats stmt) rest

/-- The statement is where the cycle is. -/
def Agrees (stmt : ProxyStmt) : Cycle → Prop
  | .fresh => stmt.started = false ∧ stmt.failed = false ∧ stmt.rows = [] ∧ stmt.texts = [] ∧
      stmt.blobs = [] ∧ stmt.pos = 0 ∧ stmt.lastStep = 0
  | .ran resp steps => stmt.started = true ∧ stmt.failed = false ∧ stmt.rows = resp.rows ∧
      0 < steps ∧ stmt.pos = min steps resp.rows.length ∧
      stmt.lastStep = (Cycle.ran resp steps).code ∧
      (steps ≤ resp.rows.length →
        stmt.texts = (Cycle.ran resp steps).row.map (cachedText floats) ∧
          stmt.blobs = (Cycle.ran resp steps).row.map cachedBlob)
  | .failed code => stmt.started = true ∧ stmt.failed = true ∧ code ≠ 0 ∧
      stmt.lastStep = code ∧ stmt.rows = [] ∧ stmt.pos = 0

section Steps

variable {floats} {stmt : ProxyStmt} {cycle : Cycle}

theorem advance_row {row : List Cell} (hfailed : stmt.failed = false)
    (hrow : stmt.rows[stmt.pos]? = some row) :
    stmt.advance floats = (sqliteRow,
      { stmt with
        pos := stmt.pos + 1, texts := row.map (cachedText floats), blobs := row.map cachedBlob,
        lastStep := sqliteRow }) := by
  have hmore : stmt.pos < stmt.rows.length := (List.getElem?_eq_some_iff.mp hrow).1
  unfold ProxyStmt.advance
  rw [if_neg (by simp [hfailed]), if_pos hmore]
  simp only [ProxyStmt.cacheRow, Nat.add_sub_cancel, hrow]

theorem advance_done (hfailed : stmt.failed = false) (h : stmt.rows.length ≤ stmt.pos) :
    stmt.advance floats = (sqliteDone, { stmt with lastStep := sqliteDone }) := by
  unfold ProxyStmt.advance
  rw [if_neg (by simp [hfailed]), if_neg (Nat.not_lt.mpr h)]

/-- One more step of a statement that has been executed. -/
theorem advance_agrees {resp : Response} {steps : ℕ} (hstarted : stmt.started = true)
    (hfailed : stmt.failed = false) (hrows : stmt.rows = resp.rows)
    (hpos : stmt.pos = min steps resp.rows.length) :
    Agrees floats (stmt.advance floats).2 (.ran resp (steps + 1)) ∧
      (stmt.advance floats).1 = (Cycle.ran resp (steps + 1)).code := by
  by_cases hmore : steps < resp.rows.length
  · have hpos' : stmt.pos = steps := by omega
    have hrow : stmt.rows[stmt.pos]? = some resp.rows[steps] := by
      rw [hrows, hpos', List.getElem?_eq_getElem hmore]
    have hcode : (Cycle.ran resp (steps + 1)).code = sqliteRow := if_pos hmore
    have hcells : (Cycle.ran resp (steps + 1)).row = resp.rows[steps] := by
      rw [Cycle.row, Nat.add_sub_cancel, List.getElem?_eq_getElem hmore, Option.getD_some]
    rw [advance_row hfailed hrow]
    refine ⟨⟨hstarted, hfailed, hrows, Nat.succ_pos _, ?_, hcode.symm, fun _ => ?_⟩, hcode.symm⟩
    · change stmt.pos + 1 = _
      omega
    · rw [hcells]
      exact ⟨rfl, rfl⟩
  · have hcode : (Cycle.ran resp (steps + 1)).code = sqliteDone := if_neg hmore
    rw [advance_done hfailed (by rw [hrows]; omega)]
    refine ⟨⟨hstarted, hfailed, hrows, Nat.succ_pos _, ?_, hcode.symm, fun h => ?_⟩, hcode.symm⟩
    · rw [hpos]
      omega
    · exact absurd h hmore

/-- A step follows the cycle and returns what the cycle says. -/
theorem step_agrees (h : Agrees floats stmt cycle) (answer : Except Int32 Response) :
    Agrees floats (stmt.step floats answer).2 (cycle.step answer) ∧
      (stmt.step floats answer).1 = (cycle.step answer).code := by
  cases cycle with
  | fresh =>
    obtain ⟨hstarted, _, hrows, _, _, hpos, _⟩ := h
    simp only [ProxyStmt.step, hstarted, Bool.false_eq_true, if_false]
    cases answer with
    | ok resp =>
      have hpos' : (stmt.executed resp).pos = min 0 resp.rows.length := (Nat.zero_min _).symm
      exact advance_agrees rfl rfl rfl hpos'
    | error errcode =>
      refine ⟨⟨rfl, rfl, ?_, rfl, hrows, hpos⟩, rfl⟩
      split
      · decide
      · next hne => exact hne
  | ran resp steps =>
    obtain ⟨hstarted, hfailed, hrows, _, hpos, _, _⟩ := h
    simp only [ProxyStmt.step, hstarted, if_true]
    exact advance_agrees hstarted hfailed hrows hpos
  | failed code =>
    obtain ⟨hstarted, hfailed, hcode, hlast, hrows, hpos⟩ := h
    have hne : stmt.lastStep ≠ 0 := by rwa [hlast]
    simp only [ProxyStmt.step, hstarted, if_true, ProxyStmt.advance, hfailed, if_neg hne]
    exact ⟨⟨hstarted, hfailed, hcode, hlast, hrows, hpos⟩, hlast⟩

/-- The cycle does not depend on the bindings. -/
theorem agrees_of_params (params : List Param) (h : Agrees floats stmt cycle) :
    Agrees floats { stmt with params := params } cycle := by
  cases cycle <;> exact h

theorem bindCell_stmt (stmt : ProxyStmt) (index : Int32) (value : Except Int32 Cell)
    (released : ℕ) :
    ∃ params, (bindCell stmt index value released).stmt = { stmt with params := params } := by
  unfold bindCell
  split
  · exact ⟨stmt.params, rfl⟩
  · cases value with
    | error code => exact ⟨stmt.params, rfl⟩
    | ok cell => exact ⟨_, rfl⟩

theorem reset_agrees (stmt : ProxyStmt) : Agrees floats stmt.reset .fresh :=
  ⟨rfl, rfl, rfl, rfl, rfl, rfl, rfl⟩

theorem create_agrees (sql : String) (resp : Response) :
    Agrees floats (.create sql resp) .fresh := ⟨rfl, rfl, rfl, rfl, rfl, rfl, rfl⟩

variable (floats) in
/-- A call that is no step and no reset changes at most the bindings. -/
theorem quiet_call {call : StmtCall} (hstep : call.isStep = false) (hreset : call.isReset = false)
    (stmt : ProxyStmt) : ∃ params, call.run floats stmt = { stmt with params := params } := by
  cases call with
  | step answer => cases hstep
  | reset => cases hreset
  | bind index call =>
    obtain ⟨value, released, hrun⟩ := call.run_eq
    rw [StmtCall.run, hrun]
    exact bindCell_stmt stmt index value released
  | clearBindings => exact ⟨[], rfl⟩
  | column i => exact ⟨stmt.params, rfl⟩

/-- The accessors show the row of the cycle, and the data count is that of the columns
exactly while there is one. -/
theorem agrees_accessors (h : Agrees floats stmt cycle) :
    stmt.accessors floats = shown floats cycle.row := by
  cases cycle with
  | fresh =>
    obtain ⟨_, _, _, _, _, _, hlast⟩ := h
    exact accessors_of_no_row (fun i => if_pos (.inl (by rw [hlast]; decide)))
  | failed code =>
    obtain ⟨_, _, _, _, _, hpos⟩ := h
    exact accessors_of_no_row (fun i => if_pos (.inr (.inl hpos)))
  | ran resp steps =>
    obtain ⟨_, _, hrows, hsteps, hpos, hlast, hcaches⟩ := h
    by_cases hrow : steps ≤ resp.rows.length
    · obtain ⟨htexts, hblobs⟩ := hcaches hrow
      have hlast' : stmt.lastStep = sqliteRow := hlast.trans (if_pos hrow)
      have hpos' : stmt.pos = steps := by omega
      have hlt : steps - 1 < resp.rows.length := by omega
      have hcells : (Cycle.ran resp steps).row = resp.rows[steps - 1] := by
        rw [Cycle.row, List.getElem?_eq_getElem hlt, Option.getD_some]
      apply accessors_of_row _ htexts hblobs
      intro i
      rw [hcells]
      unfold ProxyStmt.cellAt cellIn
      by_cases hi : i < 0
      · rw [if_pos (.inr (.inr hi)), if_pos hi]
      · rw [if_neg (by simp [hlast', hpos', hi]; omega), if_neg hi, hrows, hpos',
          List.getElem?_eq_getElem hlt, Option.bind_some]
    · have hlast' : stmt.lastStep = sqliteDone := hlast.trans (if_neg hrow)
      have hcells : (Cycle.ran resp steps).row = [] := by
        rw [Cycle.row, List.getElem?_eq_none (by omega)]
        rfl
      rw [hcells]
      exact accessors_of_no_row (fun i => if_pos (.inl (by rw [hlast']; decide)))

theorem agrees_dataCount (h : Agrees floats stmt cycle) :
    stmt.dataCount = if cycle.code = sqliteRow then stmt.columnCount else 0 := by
  have hlast : stmt.lastStep = cycle.code := by
    cases cycle with
    | fresh => exact h.2.2.2.2.2.2
    | ran resp steps => exact h.2.2.2.2.2.1
    | failed code => exact h.2.2.2.1
  rw [ProxyStmt.dataCount, hlast]

end Steps

section Runs

variable {floats} {stmt : ProxyStmt} {calls more : List StmtCall}

@[simp] theorem runCalls_nil : runCalls floats stmt [] = stmt := rfl

@[simp] theorem runCalls_cons {call : StmtCall} :
    runCalls floats stmt (call :: calls) = runCalls floats (call.run floats stmt) calls := rfl

theorem runCalls_append :
    runCalls floats stmt (calls ++ more) = runCalls floats (runCalls floats stmt calls) more :=
  List.foldl_append ..

theorem requests_append : requests floats stmt (calls ++ more) =
    requests floats stmt calls ++ requests floats (runCalls floats stmt calls) more := by
  induction calls generalizing stmt with
  | nil => rfl
  | cons call rest ih => simp only [List.cons_append, requests, ih, runCalls_cons,
      List.append_assoc]

theorem stepCodes_append : stepCodes floats stmt (calls ++ more) =
    stepCodes floats stmt calls ++ stepCodes floats (runCalls floats stmt calls) more := by
  induction calls generalizing stmt with
  | nil => rfl
  | cons call rest ih => simp only [List.cons_append, stepCodes, ih, runCalls_cons,
      List.append_assoc]

variable (floats) in
/-- Before the first step nothing is sent and only the bindings change. -/
theorem run_before (hquiet : ∀ call ∈ calls, call.isStep = false ∧ call.isReset = false)
    (stmt : ProxyStmt) : (∃ params, runCalls floats stmt calls = { stmt with params := params }) ∧
      requests floats stmt calls = [] ∧ stepCodes floats stmt calls = [] := by
  induction calls generalizing stmt with
  | nil => exact ⟨⟨stmt.params, rfl⟩, rfl, rfl⟩
  | cons call rest ih =>
    obtain ⟨hstep, hreset⟩ := hquiet call (List.mem_cons_self ..)
    obtain ⟨params, hcall⟩ := quiet_call floats hstep hreset stmt
    obtain ⟨⟨params', hrun⟩, hreq, hcodes⟩ :=
      ih (fun c hc => hquiet c (List.mem_cons_of_mem _ hc)) (call.run floats stmt)
    have hnone : call.request stmt = none ∧ call.code floats stmt = none := by
      cases call <;> first | exact ⟨rfl, rfl⟩ | cases hstep
    refine ⟨⟨params', ?_⟩, ?_, ?_⟩
    · rw [runCalls_cons, hrun, hcall]
    · rw [requests, hnone.1, hreq]
      rfl
    · rw [stepCodes, hnone.2, hcodes]
      rfl

/-- The calls that are steps. -/
def stepCount (calls : List StmtCall) : ℕ := calls.countP StmtCall.isStep

/-- The cycle after `n` more steps of an execution. -/
def Cycle.later (cycle : Cycle) (n : ℕ) : Cycle :=
  match cycle with
  | .fresh => .fresh
  | .ran resp steps => .ran resp (steps + n)
  | .failed code => .failed code

theorem Cycle.later_later (cycle : Cycle) (m n : ℕ) :
    (cycle.later m).later n = cycle.later (m + n) := by
  cases cycle with
  | fresh => rfl
  | ran resp steps => simp only [Cycle.later, Nat.add_assoc]
  | failed code => rfl

theorem Cycle.step_later {cycle : Cycle} (hran : cycle ≠ .fresh) (answer : Except Int32 Response) :
    cycle.step answer = cycle.later 1 ∧ cycle.later 1 ≠ .fresh := by
  cases cycle with
  | fresh => exact absurd rfl hran
  | ran resp steps => exact ⟨rfl, nofun⟩
  | failed code => exact ⟨rfl, nofun⟩

theorem agrees_started {cycle : Cycle} (h : Agrees floats stmt cycle) (hran : cycle ≠ .fresh) :
    stmt.started = true := by
  cases cycle with
  | fresh => exact absurd rfl hran
  | ran resp steps => exact h.1
  | failed code => exact h.1

theorem advance_columns (stmt : ProxyStmt) :
    (stmt.advance floats).2.columns = stmt.columns ∧ (stmt.advance floats).2.sql = stmt.sql ∧
      (stmt.advance floats).2.paramNames = stmt.paramNames := by
  unfold ProxyStmt.advance
  split
  · exact ⟨rfl, rfl, rfl⟩
  · split
    · unfold ProxyStmt.cacheRow
      dsimp only
      split <;> exact ⟨rfl, rfl, rfl⟩
    · exact ⟨rfl, rfl, rfl⟩

/-- After the execution the steps walk through its rows, and nothing more is sent. -/
theorem run_after {cycle : Cycle} (hno : ∀ call ∈ calls, call.isReset = false)
    (h : Agrees floats stmt cycle) (hran : cycle ≠ .fresh) :
    Agrees floats (runCalls floats stmt calls) (cycle.later (stepCount calls)) ∧
      (runCalls floats stmt calls).columns = stmt.columns ∧
      requests floats stmt calls = [] ∧
      stepCodes floats stmt calls =
        (List.range (stepCount calls)).map (fun j => (cycle.later (j + 1)).code) := by
  induction calls generalizing stmt cycle with
  | nil =>
    refine ⟨?_, rfl, rfl, rfl⟩
    cases cycle <;> exact h
  | cons call rest ih =>
    have hrest : ∀ c ∈ rest, c.isReset = false := fun c hc => hno c (List.mem_cons_of_mem _ hc)
    cases hstep : call.isStep with
    | false =>
      obtain ⟨params, hcall⟩ := quiet_call floats hstep (hno call (List.mem_cons_self ..)) stmt
      have hsame : Agrees floats (call.run floats stmt) cycle := by
        rw [hcall]
        exact agrees_of_params params h
      have hnone : call.request stmt = none ∧ call.code floats stmt = none := by
        cases call <;> first | exact ⟨rfl, rfl⟩ | cases hstep
      have hcount : stepCount (call :: rest) = stepCount rest := by
        simp [stepCount, hstep]
      obtain ⟨hagrees, hcols, hreq, hcodes⟩ := ih hrest hsame hran
      rw [hcount, runCalls_cons, requests, stepCodes, hnone.1, hnone.2, hreq, hcodes, hcols, hcall]
      exact ⟨hcall ▸ hagrees, rfl, rfl, rfl⟩
    | true =>
      obtain ⟨answer, rfl⟩ : ∃ answer, call = .step answer := by
        cases call <;> first | exact ⟨_, rfl⟩ | cases hstep
      have hstarted := agrees_started h hran
      obtain ⟨hagrees, hcode⟩ := step_agrees h answer
      obtain ⟨hlater, hne⟩ := Cycle.step_later hran answer
      rw [hlater] at hagrees hcode
      have hcount : stepCount (.step answer :: rest) = stepCount rest + 1 :=
        List.countP_cons_of_pos hstep
      obtain ⟨hend, hcols, hreq, hcodes⟩ := ih hrest hagrees hne
      have hfixed : (stmt.step floats answer).2.columns = stmt.columns := by
        unfold ProxyStmt.step
        rw [if_pos hstarted]
        exact (advance_columns stmt).1
      refine ⟨?_, ?_, ?_, ?_⟩
      · rw [hcount, runCalls_cons, Nat.add_comm, ← Cycle.later_later]
        exact hend
      · exact hcols.trans hfixed
      · have hnone : (StmtCall.step answer).request stmt = none := by
          rw [StmtCall.request, ProxyStmt.request, if_pos hstarted]
        rw [requests, hnone]
        exact hreq
      · rw [stepCodes, hcount, List.range_succ_eq_map, List.map_cons, List.map_map]
        have hhead : (StmtCall.step answer).code floats stmt = some (cycle.later 1).code := by
          rw [StmtCall.code, hcode]
        rw [hhead]
        refine congrArg ((cycle.later 1).code :: ·) (hcodes.trans ?_)
        apply List.map_congr_left
        intro j _
        rw [Cycle.later_later, Function.comp_apply, Nat.add_comm 1]

/-- A cycle starts with the creation of the statement or with a reset. -/
theorem start_agrees (sql : String) (prepared : Response) {past : List StmtCall}
    (hstart : past = [] ∨ past.getLast? = some .reset) :
    Agrees floats (runCalls floats (.create sql prepared) past) .fresh := by
  rcases hstart with rfl | hlast
  · exact create_agrees sql prepared
  · obtain ⟨calls, rfl⟩ := List.getLast?_eq_some_iff.mp hlast
    rw [runCalls_append]
    exact reset_agrees _

/-- No call changes the text of a statement or the names of its parameters. -/
theorem run_prepared (calls : List StmtCall) (stmt : ProxyStmt) :
    (runCalls floats stmt calls).sql = stmt.sql ∧
      (runCalls floats stmt calls).paramNames = stmt.paramNames := by
  induction calls generalizing stmt with
  | nil => exact ⟨rfl, rfl⟩
  | cons call rest ih =>
    rw [runCalls_cons, (ih _).1, (ih _).2]
    cases call with
    | step answer =>
      rw [StmtCall.run, ProxyStmt.step.eq_def]
      split
      · exact (advance_columns stmt).2
      · cases answer with
        | ok resp => exact (advance_columns (stmt.executed resp)).2
        | error errcode => exact ⟨rfl, rfl⟩
    | reset => exact ⟨rfl, rfl⟩
    | bind index call =>
      obtain ⟨value, released, hrun⟩ := call.run_eq
      obtain ⟨params, hparams⟩ := bindCell_stmt stmt index value released
      rw [StmtCall.run, hrun, hparams]
      exact ⟨rfl, rfl⟩
    | clearBindings => exact ⟨rfl, rfl⟩
    | column i => exact ⟨rfl, rfl⟩

theorem ran_code (resp : Response) (n : ℕ) :
    ((Cycle.fresh.step (.ok resp)).later n).code =
      if n < resp.rows.length then sqliteRow else sqliteDone := by
  change (if 1 + n ≤ resp.rows.length then sqliteRow else sqliteDone) = _
  rw [Nat.add_comm]
  rfl

theorem ran_row (resp : Response) (n : ℕ) :
    ((Cycle.fresh.step (.ok resp)).later n).row = resp.rows[n]?.getD [] := by
  change resp.rows[1 + n - 1]?.getD [] = _
  rw [Nat.add_sub_cancel_left]

/-- From a fresh statement on: the calls up to the first step, that step, and the calls
after it. -/
theorem cycle_run {start : ProxyStmt} {before after : List StmtCall}
    (hfresh : Agrees floats start .fresh)
    (hbefore : ∀ call ∈ before, call.isStep = false ∧ call.isReset = false)
    (hafter : ∀ call ∈ after, call.isReset = false) (answer : Except Int32 Response) :
    let first := runCalls floats start before
    let calls := before ++ .step answer :: after
    Agrees floats first .fresh ∧ requests floats start before = [] ∧
      requests floats start calls = [.exec start.sql first.params] ∧
      Agrees floats (runCalls floats start calls)
        ((Cycle.fresh.step answer).later (stepCount after)) ∧
      stepCodes floats start calls = (List.range (stepCount after + 1)).map
        (fun j => ((Cycle.fresh.step answer).later j).code) ∧
      (runCalls floats start calls).columns = (first.step floats answer).2.columns := by
  intro first calls
  obtain ⟨⟨params, hparams⟩, hquiet, hnocodes⟩ := run_before floats hbefore start
  have hfirst : Agrees floats first .fresh := by
    rw [show first = { start with params := params } from hparams]
    exact agrees_of_params params hfresh
  have hsql : first.sql = start.sql := (run_prepared before start).1
  obtain ⟨hone, hcode⟩ := step_agrees hfirst answer
  have hne : Cycle.fresh.step answer ≠ .fresh := by cases answer <;> exact nofun
  obtain ⟨hend, hcols, hreq, hcodes⟩ := run_after hafter hone hne
  have hrun : runCalls floats start calls = runCalls floats (first.step floats answer).2 after :=
    runCalls_append
  refine ⟨hfirst, hquiet, ?_, hrun ▸ hend, ?_, hrun ▸ hcols⟩
  · have hsends : (StmtCall.step answer).request first = some (.exec start.sql first.params) := by
      rw [StmtCall.request, ProxyStmt.request, hfirst.1, hsql]
      rfl
    change requests floats start (before ++ .step answer :: after) = _
    rw [requests_append, hquiet, requests, hsends]
    exact congrArg (Request.exec start.sql first.params :: ·) hreq
  · change stepCodes floats start (before ++ .step answer :: after) = _
    rw [stepCodes_append, hnocodes, stepCodes, StmtCall.code, hcode, List.range_succ_eq_map,
      List.map_cons, List.map_map]
    have hzero : (Cycle.fresh.step answer).later 0 = Cycle.fresh.step answer := by
      cases answer <;> rfl
    rw [hzero]
    exact congrArg ((Cycle.fresh.step answer).code :: ·) hcodes

/-- A successful execution gives the columns of its response. -/
theorem step_columns {resp : Response} (hfresh : Agrees floats stmt .fresh)
    (hcolumns : resp.columns ≠ []) :
    (stmt.step floats (.ok resp)).2.columns = resp.columns.map cstringLossy := by
  rw [ProxyStmt.step.eq_def, hfresh.1]
  exact (advance_columns (stmt.executed resp)).1.trans (if_neg hcolumns)

end Runs

/-- A cycle sends one Exec, with its first step, and nothing else. Its steps return the
rows of the response one after the other and then no row; when the Exec has failed they
all return the same error. A row of an earlier cycle is never shown. -/
theorem one_execution_per_cycle (sql : String) (prepared : Response)
    (past before after : List StmtCall) (answer : Except Int32 Response)
    (hstart : past = [] ∨ past.getLast? = some .reset)
    (hbefore : ∀ call ∈ before, call.isStep = false ∧ call.isReset = false)
    (hafter : ∀ call ∈ after, call.isReset = false) :
    let start := runCalls floats (.create sql prepared) past
    let first := runCalls floats start before
    let calls := before ++ .step answer :: after
    let stmt := runCalls floats start calls
    let steps := stepCount after + 1
    (requests floats start before = [] ∧ first.accessors floats = shown floats [] ∧
      first.dataCount = 0) ∧
    requests floats start calls = [.exec sql first.params] ∧
    match answer with
    | .ok resp =>
      stepCodes floats start calls =
        (List.range steps).map (fun j => if j < resp.rows.length then sqliteRow else sqliteDone) ∧
      (∀ row, resp.rows[steps - 1]? = some row →
        stmt.accessors floats = shown floats row ∧ stmt.dataCount = stmt.columnCount) ∧
      (resp.rows.length < steps →
        stmt.accessors floats = shown floats [] ∧ stmt.dataCount = 0) ∧
      (resp.columns ≠ [] → stmt.columnCount = Int32.ofNat resp.columns.length)
    | .error _ => ∃ code, code ≠ 0 ∧ stepCodes floats start calls = List.replicate steps code ∧
      stmt.accessors floats = shown floats [] ∧ (code ≠ sqliteRow → stmt.dataCount = 0) := by
  intro start first calls stmt steps
  have hfresh : Agrees floats start .fresh := start_agrees sql prepared hstart
  have hsql : start.sql = sql := (run_prepared past _).1
  obtain ⟨hfirst, hquiet, hreq, hend, hcodes, hcols⟩ := cycle_run hfresh hbefore hafter answer
  rw [hsql] at hreq
  refine ⟨⟨hquiet, agrees_accessors hfirst, agrees_dataCount hfirst⟩, hreq, ?_⟩
  have hshown := agrees_accessors hend
  have hcount := agrees_dataCount hend
  cases answer with
  | ok resp =>
    simp only [ran_code] at hcodes
    rw [ran_row] at hshown
    rw [ran_code] at hcount
    refine ⟨hcodes, fun row hrow => ?_, fun hdone => ?_, fun hcolumns => ?_⟩
    · have hlt : stepCount after < resp.rows.length := (List.getElem?_eq_some_iff.mp hrow).1
      have hrow' : resp.rows[stepCount after]?.getD [] = row := congrArg (Option.getD · []) hrow
      rw [hrow'] at hshown
      rw [if_pos hlt, if_pos rfl] at hcount
      exact ⟨hshown, hcount⟩
    · have hge : resp.rows.length ≤ stepCount after := Nat.le_of_lt_succ hdone
      rw [List.getElem?_eq_none hge] at hshown
      rw [if_neg (Nat.not_lt.mpr hge), if_neg (by decide)] at hcount
      exact ⟨hshown, hcount⟩
    · rw [ProxyStmt.columnCount, show stmt.columns = _ from hcols, step_columns hfirst hcolumns,
        List.length_map]
  | error errcode =>
    have hcode := (step_agrees hfirst (.error errcode)).1.2.2.1
    refine ⟨_, hcode, ?_, hshown, fun hrow => ?_⟩
    · rw [hcodes]
      apply List.eq_replicate_iff.mpr
      refine ⟨by rw [List.length_map, List.length_range], fun code hmem => ?_⟩
      obtain ⟨j, _, rfl⟩ := List.mem_map.mp hmem
      rfl
    · rw [show stmt.dataCount = _ from hcount]
      exact if_neg hrow

/-- A printer for runs without doubles. -/
def noFloats : FloatText := ⟨fun _ => "", fun _ => none⟩

def twoRows : Response :=
  { okClosed with
    columns := ["n", "note"]
    rows := [[.int 1, .text "one"], [.int 2, .text "two"]] }

/-- A cycle after a failed one: a bind, two steps, and the second row is there. -/
theorem second_row_shown :
    let start := runCalls noFloats (.create "SELECT n, note FROM t WHERE n < ?" twoRows)
      [.step (.error 5), .reset]
    let calls := [.bind 1 (.int 7), .step (.ok twoRows), .column 0, .step (.error 1)]
    requests noFloats start calls =
        [.exec "SELECT n, note FROM t WHERE n < ?" [⟨1, .int 7⟩]] ∧
      stepCodes noFloats start calls = [sqliteRow, sqliteRow] ∧
      (runCalls noFloats start calls).accessors noFloats =
        shown noFloats [.int 2, .text "two"] ∧
      (runCalls noFloats start calls).dataCount = 2 := by
  have h := one_execution_per_cycle noFloats "SELECT n, note FROM t WHERE n < ?" twoRows
    [.step (.error 5), .reset] [.bind 1 (.int 7)] [.column 0, .step (.error 1)] (.ok twoRows)
    (.inr rfl) (by simp [StmtCall.isStep, StmtCall.isReset]) (by simp [StmtCall.isReset])
  obtain ⟨_, hsent, hcodes, hrow, _, hwidth⟩ := h
  obtain ⟨hcells, hcount⟩ := hrow [.int 2, .text "two"] rfl
  exact ⟨hsent, hcodes, hcells, hcount.trans (hwidth (by decide))⟩

end SqliteBroker.StepCycle
