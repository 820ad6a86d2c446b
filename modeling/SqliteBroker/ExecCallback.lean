import SqliteBroker.StepCycle

/-!
The callback of `sqlite3_exec`, and the column functions on the same rows. Both make C
strings of the cells of a response; they differ on NULL alone, which the callback gets as
an empty text.
-/
namespace SqliteBroker.ExecCallback

open Utf8 Messages Engine ShimConnection ShimStatement StepCycle
open Execution (okClosed)

variable (floats : FloatText) {σ : Type}

/-- What the callback is given for one row. A pointer is `none` when it is null; a text is
the memory before its terminator. -/
structure RowCall where
  argc : Int32
  values : List (Option Bytes)
  names : List (Option Bytes)
  deriving DecidableEq

def textPtr (text : String) : Option Bytes := some (encode text.toList)

/-- The column names, padded to the width of the row. -/
def rowNames (columns : List String) (width : ℕ) : List String :=
  columns.map cstringLossy ++ List.replicate (width - columns.length) ""

def rowCall (resp : Response) (row : List Cell) : RowCall where
  argc := Int32.ofNat row.length
  values := row.map (fun cell => textPtr (cstringLossy (render floats cell)))
  names := (rowNames resp.columns row.length).map textPtr

/-- The loop of `exec_sql` over the rows: the calls it makes, and whether the last of them
has aborted it. The callback may keep a state. -/
def callbackLoop (callback : σ → RowCall → Int32 × σ) (resp : Response) :
    σ → List (List Cell) → List RowCall × Bool
  | _, [] => ([], false)
  | s, row :: rest =>
    let call := rowCall floats resp row
    let (rc, s') := callback s call
    if rc ≠ 0 then ([call], true)
    else
      let (calls, aborted) := callbackLoop callback resp s' rest
      (call :: calls, aborted)

/-- What `sqlite3_exec` leaves: its code, the message, the calls of the callback, and the
response that the handle takes over when the callback aborts. -/
structure Executed where
  rc : Int32
  errmsg : Option String
  calls : List RowCall
  aborted : Option Response

/-- `exec_sql` on the answer to its request: the response, or the error code that the
handle has and the message of the failure. -/
def execSql (sql : Option Bytes) (callback : Option (σ → RowCall → Int32 × σ)) (s : σ)
    (answer : Except (Int32 × String) Response) : Executed :=
  match sql with
  | none => ⟨sqliteMisuse, none, [], none⟩
  | some _ =>
    match answer with
    | .error (errcode, message) =>
      ⟨if errcode = 0 then sqliteError else errcode, some message, [], none⟩
    | .ok resp =>
      match callback with
      | none => ⟨sqliteOk, none, [], none⟩
      | some callback =>
        let (calls, aborted) := callbackLoop floats callback resp s resp.rows
        if aborted then
          ⟨sqliteAbort, some "callback aborted", calls, some (callbackAborted resp)⟩
        else ⟨sqliteOk, none, calls, none⟩

variable {floats} {resp : Response} {row : List Cell}

/-- The calls follow the rows, up to the one that aborts. -/
theorem callbackLoop_calls (callback : σ → RowCall → Int32 × σ) (s : σ)
    (rows : List (List Cell)) :
    (callbackLoop floats callback resp s rows).1 <+: rows.map (rowCall floats resp) := by
  induction rows generalizing s with
  | nil => exact List.nil_prefix
  | cons row rest ih =>
    rw [callbackLoop, List.map_cons]
    dsimp only
    split
    · exact List.prefix_append [rowCall floats resp row] _
    · exact List.cons_prefix_cons.mpr ⟨rfl, ih _⟩

/-- Call `k` of the callback is about row `k` of the response. -/
theorem execSql_call {sql : Option Bytes} {callback : Option (σ → RowCall → Int32 × σ)} {s : σ}
    {k : ℕ} {call : RowCall}
    (h : (execSql floats sql callback s (.ok resp)).calls[k]? = some call) :
    ∃ row, resp.rows[k]? = some row ∧ call = rowCall floats resp row := by
  unfold execSql at h
  cases sql with
  | none => cases h
  | some bytes =>
    cases callback with
    | none => cases h
    | some callback =>
      have hmade : (callbackLoop floats callback resp s resp.rows).1[k]? = some call := by
        dsimp only at h
        split at h <;> exact h
      have hlt := (List.getElem?_eq_some_iff.mp hmade).1
      rw [List.getElem?_eq_getElem hlt] at hmade
      have hsame := List.prefix_iff_getElem?.mp (callbackLoop_calls callback s resp.rows) k hlt
      rw [hmade, List.getElem?_map] at hsame
      obtain ⟨row, hrow, rfl⟩ := Option.map_eq_some_iff.mp hsame
      exact ⟨row, hrow, rfl⟩

/-- Both ways make the same C string of a cell. -/
theorem cachedText_eq_render (cell : Cell) :
    cachedText floats cell = cstringLossy (render floats cell) := by
  cases cell with
  | blob v =>
    rw [cachedText, blobBytes, render]
    cases Base64.decodeBase64 v <;> rfl
  | null => rfl
  | int v => rfl
  | real v => rfl
  | text v => rfl

/-- Where the column functions show a row, the callback's values are theirs exactly when
no cell is NULL. A C `int` names the first `2 ^ 31` columns only. -/
theorem values_eq_text_iff (row : List Cell) :
    (∀ i : Int32, 0 ≤ i → i.toInt < row.length →
      (rowCall floats resp row).values[i.toInt.toNat]? = some ((shown floats row).text i)) ↔
    Cell.null ∉ row.take (2 ^ 31) := by
  have hvalue : ∀ (k : ℕ) cell, row[k]? = some cell → (rowCall floats resp row).values[k]? =
      some (textPtr (cstringLossy (render floats cell))) := by
    intro k cell hcell
    rw [rowCall, List.getElem?_map, hcell]
    rfl
  have htext : ∀ i : Int32, 0 ≤ i → ∀ cell, row[i.toInt.toNat]? = some cell →
      (shown floats row).text i =
        if cell = .null then none else textPtr (cstringLossy (render floats cell)) := by
    intro i hi cell hcell
    have hin : cellIn row i = some cell := by
      rw [cellIn, if_neg (Int32.not_lt.mpr hi), hcell]
    simp only [shown, hin, ← cachedText_eq_render]
    cases cell <;> rfl
  constructor
  · intro hagree hnull
    obtain ⟨k, hk⟩ := List.mem_iff_getElem?.mp hnull
    have hlt : k < 2 ^ 31 := by
      have := (List.getElem?_eq_some_iff.mp hk).1
      rw [List.length_take] at this
      omega
    rw [List.getElem?_take_of_lt hlt] at hk
    have hint : (Int32.ofNat k).toInt = k := Int32.toInt_ofNat_of_lt hlt
    have hpos : 0 ≤ Int32.ofNat k := by
      rw [Int32.le_iff_toInt_le, hint, Int32.toInt_zero]
      omega
    have hcell : row[(Int32.ofNat k).toInt.toNat]? = some .null := by
      rw [hint, Int.toNat_natCast, hk]
    have hsame := hagree (Int32.ofNat k) hpos (by
      rw [hint]
      exact_mod_cast (List.getElem?_eq_some_iff.mp hk).1)
    rw [hvalue _ _ hcell, htext _ hpos _ hcell, if_pos rfl] at hsame
    cases hsame
  · intro hnull i hi hlt
    have hpos : 0 ≤ i.toInt := by
      rwa [Int32.le_iff_toInt_le, Int32.toInt_zero] at hi
    obtain ⟨cell, hcell⟩ : ∃ cell, row[i.toInt.toNat]? = some cell :=
      ⟨_, List.getElem?_eq_getElem (by omega)⟩
    have hne : cell ≠ .null := by
      rintro rfl
      have hmax := i.toInt_lt
      apply hnull
      apply List.mem_of_getElem? (i := i.toInt.toNat)
      rw [List.getElem?_take_of_lt (by omega), hcell]
    rw [hvalue _ _ hcell, htext i hi _ hcell, if_neg hne]

/-- One row, given to the callback and shown by a statement that has stepped to it: the
callback gets as many values as the row has cells, and they are what the statement's
columns show exactly when none of them is NULL. -/
theorem callback_agrees_iff (floats : FloatText) (resp : Response)
    (sql : Option Bytes) (callback : Option (σ → RowCall → Int32 × σ)) (s : σ) (call : RowCall)
    (script : String) (prepared : Response) (past before after : List StmtCall)
    (hstart : past = [] ∨ past.getLast? = some .reset)
    (hbefore : ∀ call ∈ before, call.isStep = false ∧ call.isReset = false)
    (hafter : ∀ call ∈ after, call.isReset = false)
    (hcall : (execSql floats sql callback s (.ok resp)).calls[stepCount after]? = some call) :
    let start := runCalls floats (.create script prepared) past
    let stmt := runCalls floats start (before ++ .step (.ok resp) :: after)
    ∃ row, resp.rows[stepCount after]? = some row ∧
      (stepCodes floats start (before ++ .step (.ok resp) :: after)).getLast? = some sqliteRow ∧
      call.values.length = row.length ∧
      ((∀ i : Int32, 0 ≤ i → i.toInt < row.length →
          call.values[i.toInt.toNat]? = some (stmt.columnText i)) ↔
        Cell.null ∉ row.take (2 ^ 31)) := by
  intro start stmt
  obtain ⟨row, hrow, rfl⟩ := execSql_call hcall
  have hfresh : Agrees floats start .fresh := start_agrees script prepared hstart
  obtain ⟨_, _, _, hend, hcodes, _⟩ := cycle_run hfresh hbefore hafter (.ok resp)
  have hlt : stepCount after < resp.rows.length := (List.getElem?_eq_some_iff.mp hrow).1
  have hshown : stmt.accessors floats = shown floats row := by
    rw [agrees_accessors hend, ran_row, hrow]
    rfl
  have htext : ∀ i, stmt.columnText i = (shown floats row).text i :=
    fun i => congrFun (congrArg SqlValues.Columns.text hshown) i
  refine ⟨row, hrow, ?_, List.length_map _, ?_⟩
  · rw [hcodes, List.range_succ, List.map_append, List.getLast?_append]
    simp [ran_code, hlt]
  · simp only [htext]
    exact values_eq_text_iff row

/-- A callback that never aborts and keeps nothing. -/
def accepting : Unit → RowCall → Int32 × Unit := fun _ _ => (0, ())

/-- Two rows, the second one NULL. -/
def nullSecond : Response := { okClosed with columns := ["n"], rows := [[.int 1], [.null]] }

/-- Of two rows the first has no NULL, and its values are those of the columns. -/
theorem plain_row_agrees :
    let stmt := runCalls noFloats (.create "SELECT n FROM t" nullSecond) [.step (.ok nullSecond)]
    (rowCall noFloats nullSecond [.int 1]).values[(0 : Int32).toInt.toNat]? =
      some (stmt.columnText 0) := by
  obtain ⟨row, hrow, _, _, hiff⟩ := callback_agrees_iff noFloats nullSecond (some [])
    (some accepting) () (rowCall noFloats nullSecond [.int 1]) "SELECT n FROM t" nullSecond [] [] []
    (.inl rfl) (by simp) (by simp) rfl
  cases hrow
  exact hiff.mpr (by decide) 0 (by decide) (by decide)

/-- The NULL of the second row is an empty text for the callback and a null pointer for
`sqlite3_column_text`. -/
theorem null_as_empty_text :
    let stmt := runCalls noFloats (.create "SELECT n FROM t" nullSecond)
      [.step (.ok nullSecond), .step (.ok nullSecond)]
    ((execSql noFloats (some []) (some accepting) () (.ok nullSecond)).calls[1]?.map
      RowCall.values = some [some []]) ∧ stmt.columnText 0 = none := by
  decide

end SqliteBroker.ExecCallback
