import SqliteBroker.Execution

/-!
SQL values, how the column functions report them, and what a statement holds for its
parameters. The column functions exist twice, in SQLite and in the shim; one record
describes both.
-/
namespace SqliteBroker.SqlValues

open Utf8 Messages Engine Execution

def sqliteText : Int32 := 3

inductive Value
  | null
  | int (v : Int64)
  | real (v : F64)
  | text (bytes : Bytes)
  | blob (bytes : Bytes)
  deriving DecidableEq

namespace Value

/-- Valid UTF-8 with numbers that are finite and lengths that fit a C `int`. -/
def Storable : Value → Prop
  | .null => True
  | .int _ => True
  | .real v => v.isFinite = true
  | .text bytes => (∃ cs, bytes = encode cs) ∧ bytes.length < 2 ^ 31
  | .blob bytes => bytes.length < 2 ^ 31

end Value

/-- The functions `sqlite3_column_*` on one row. A pointer is `none` when it is null; the
text is the memory before its terminator. -/
structure Columns where
  type : Int32 → Int32
  int64 : Int32 → Int64
  double : Int32 → F64
  text : Int32 → Option Bytes
  bytes : Int32 → Int32
  blob : Int32 → Option Bytes

/-- Column `i` is reported as this value. The pointer to an empty blob is null. -/
def Columns.Report (cols : Columns) (i : Int32) : Value → Prop
  | .null => cols.type i = sqliteNull
  | .int v => cols.type i = sqliteInteger ∧ cols.int64 i = v
  | .real v => cols.type i = sqliteFloat ∧ cols.double i = v
  | .text bytes => cols.type i = sqliteText ∧ cols.text i = some bytes ∧
      cols.bytes i = Int32.ofNat bytes.length
  | .blob bytes => cols.type i = sqliteBlob ∧
      cols.blob i = (if bytes = [] then none else some bytes) ∧
      cols.bytes i = Int32.ofNat bytes.length

variable (S : Sqlite)

def engineColumns (st : S.Stmt) : Columns where
  type := S.columnType st
  int64 := S.columnInt64 st
  double := S.columnDouble st
  text := S.columnText st
  bytes := S.columnBytes st
  blob := S.columnBlob st

/-- The statement stands on a row of these values. -/
def OnRow (st : S.Stmt) (ncols : Int32) (values : List Value) : Prop :=
  ncols.toInt = values.length ∧
    ∀ i v, values[i]? = some v → v.Storable ∧ (engineColumns S st).Report (Int32.ofNat i) v

/-- What SQLite documents of its bind functions: one that succeeds sets its own parameter
only, and a blob at a null pointer is NULL. -/
structure Binds (bound : S.Stmt → Int32 → Value) : Prop where
  null : ∀ st i, (S.bindNull st i).1 = sqliteOk →
    bound (S.bindNull st i).2 = Function.update (bound st) i .null
  int64 : ∀ st i v, (S.bindInt64 st i v).1 = sqliteOk →
    bound (S.bindInt64 st i v).2 = Function.update (bound st) i (.int v)
  double : ∀ st i v, (S.bindDouble st i v).1 = sqliteOk →
    bound (S.bindDouble st i v).2 = Function.update (bound st) i (.real v)
  text : ∀ st i bytes, (S.bindText st i bytes).1 = sqliteOk →
    bound (S.bindText st i bytes).2 = Function.update (bound st) i (.text bytes)
  blob : ∀ st i ptr, (S.bindBlob st i ptr).1 = sqliteOk →
    bound (S.bindBlob st i ptr).2 =
      Function.update (bound st) i (match ptr with
        | none => .null
        | some bytes => .blob bytes)

/-- The value that `bind_all` gives to a parameter, if it can bind the cell. -/
def boundValue : Cell → Option Value
  | .null => some .null
  | .int v => some (.int v)
  | .real v => some (.real v)
  | .text v => (cString v).toOption.map .text
  | .blob v => (Base64.decodeBase64 v).map (fun bytes =>
      if bytes.isEmpty then .null else .blob bytes)

variable {S} {bound : S.Stmt → Int32 → Value}

theorem bindOne_bound (hS : Binds S bound) {st st' : S.Stmt} {p : Param}
    (h : bindOne S st p = .ok (sqliteOk, st')) :
    ∃ v, boundValue p.value = some v ∧ bound st' = Function.update (bound st) p.index v := by
  obtain ⟨index, value⟩ := p
  unfold bindOne at h
  cases value with
  | null =>
    have heq := Except.ok.inj h
    refine ⟨.null, rfl, ?_⟩
    have hbound := hS.null st index (by rw [heq])
    rwa [heq] at hbound
  | int v =>
    have heq := Except.ok.inj h
    refine ⟨.int v, rfl, ?_⟩
    have hbound := hS.int64 st index v (by rw [heq])
    rwa [heq] at hbound
  | real v =>
    have heq := Except.ok.inj h
    refine ⟨.real v, rfl, ?_⟩
    have hbound := hS.double st index v (by rw [heq])
    rwa [heq] at hbound
  | text v =>
    change (cString v).map (S.bindText st index) = _ at h
    cases hc : cString v with
    | error err =>
      rw [hc] at h
      cases h
    | ok bytes =>
      rw [hc] at h
      have heq := Except.ok.inj h
      refine ⟨.text bytes, by simp [boundValue, hc, Except.toOption], ?_⟩
      have hbound := hS.text st index bytes (by rw [heq])
      rwa [heq] at hbound
  | blob v =>
    cases hd : Base64.decodeBase64 v with
    | none =>
      simp only [hd] at h
      cases h
    | some bytes =>
      simp only [hd] at h
      have heq := Except.ok.inj h
      refine ⟨if bytes.isEmpty then .null else .blob bytes, by simp [boundValue, hd], ?_⟩
      have hbound := hS.blob st index (if bytes.isEmpty then none else some bytes) (by rw [heq])
      rw [heq] at hbound
      cases bytes <;> exact hbound

/-- Binding a list succeeds when its first parameter and then the others are bound. -/
theorem bindAll_cons_ok {params : List Param} {st st' : S.Stmt} {p : Param}
    (h : bindAll S st (p :: params) = (st', .ok ())) :
    ∃ mid, bindOne S st p = .ok (sqliteOk, mid) ∧ bindAll S mid params = (st', .ok ()) := by
  rw [bindAll] at h
  cases hone : bindOne S st p with
  | error err =>
    rw [hone] at h
    cases h
  | ok result =>
    obtain ⟨rc, mid⟩ := result
    rw [hone] at h
    dsimp only at h
    by_cases hrc : rc = sqliteOk
    · subst hrc
      simp only [ne_eq, not_true, if_false] at h
      exact ⟨mid, rfl, h⟩
    · rw [if_pos hrc] at h
      cases h

/-- Parameters that are not in the list keep their value. -/
theorem bindAll_other (hS : Binds S bound) {params : List Param} {st st' : S.Stmt} {i : Int32}
    (h : bindAll S st params = (st', .ok ())) (hi : ∀ p ∈ params, p.index ≠ i) :
    bound st' i = bound st i := by
  induction params generalizing st with
  | nil =>
    cases h
    rfl
  | cons p rest ih =>
    obtain ⟨mid, hone, hrest⟩ := bindAll_cons_ok h
    obtain ⟨v, _, hmid⟩ := bindOne_bound hS hone
    rw [ih hrest (fun q hq => hi q (List.mem_cons_of_mem _ hq)), hmid,
      Function.update_of_ne (hi p (List.mem_cons_self ..)).symm]

/-- A parameter of the list is bound to the value of its cell. -/
theorem bindAll_bound (hS : Binds S bound) {params : List Param} {st st' : S.Stmt} {p : Param}
    (h : bindAll S st params = (st', .ok ())) (hp : p ∈ params)
    (hnodup : (params.map Param.index).Nodup) :
    boundValue p.value = some (bound st' p.index) := by
  induction params generalizing st with
  | nil => cases hp
  | cons q rest ih =>
    obtain ⟨hq, hnodup'⟩ := List.nodup_cons.mp hnodup
    obtain ⟨mid, hone, hrest⟩ := bindAll_cons_ok h
    rcases List.mem_cons.mp hp with rfl | htail
    · obtain ⟨v, hv, hmid⟩ := bindOne_bound hS hone
      have hlater : ∀ r ∈ rest, r.index ≠ p.index :=
        fun r hr heq => hq (List.mem_map.mpr ⟨r, hr, heq⟩)
      rw [hv, bindAll_other hS hrest hlater, hmid, Function.update_self]
    · exact ih hrest htail hnodup'

end SqliteBroker.SqlValues
