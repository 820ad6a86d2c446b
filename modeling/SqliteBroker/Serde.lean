import SqliteBroker.Messages

/-!
What the derived serde code makes of the messages: a JSON value for each, with a
decoder. A number that JSON cannot write becomes `null`, which no number reads.
Each instance proves on which values decoding undoes encoding and that it fails
on all others, so a decoded message is never a different one.
-/
namespace SqliteBroker.Serde

open Utf8 Messages

inductive Json
  | null
  | bool (b : Bool)
  | int (i : ℤ)
  | real (x : F64) (finite : x.isFinite = true)
  | str (s : String)
  | arr (items : List Json)
  | obj (fields : List (String × Json))

class Wire (α : Type) where
  toJson : α → Json
  fromJson : Json → Option α
  lossless : α → Bool
  fromJson_toJson : ∀ a, fromJson (toJson a) = if lossless a then some a else none

open Wire

section Fields

variable {α : Type} [Wire α]

/-- The value of a field, if there is one; a repeated field is an error. -/
def field (fields : List (String × Json)) (name : String) : Option (Option Json) :=
  match fields.filter (fun f => f.1 = name) with
  | [] => some none
  | [(_, v)] => some (some v)
  | _ => none

def required (fields : List (String × Json)) (name : String) : Option α :=
  (field fields name).bind (fun v => v.bind fromJson)

/-- A field marked `serde(default)`. -/
def defaulted (fields : List (String × Json)) (name : String) (default : α) : Option α :=
  (field fields name).bind (fun v => (v.map fromJson).getD (some default))

theorem required_eq {fields : List (String × Json)} {name : String} {a : α}
    (h : field fields name = some (some (toJson a))) :
    required fields name = if lossless a then some a else none := by
  simp [required, h, fromJson_toJson]

theorem defaulted_eq {fields : List (String × Json)} {name : String} {a d : α}
    (h : field fields name = some (some (toJson a))) :
    defaulted fields name d = if lossless a then some a else none := by
  simp [defaulted, h, fromJson_toJson]

theorem required_of_lossless {fields : List (String × Json)} {name : String} {a : α}
    (h : field fields name = some (some (toJson a))) (ha : lossless a = true) :
    required fields name = some a := (required_eq h).trans (if_pos ha)

theorem defaulted_of_lossless {fields : List (String × Json)} {name : String} {a d : α}
    (h : field fields name = some (some (toJson a))) (ha : lossless a = true) :
    defaulted fields name d = some a := (defaulted_eq h).trans (if_pos ha)

end Fields

instance : Wire Bool where
  toJson := .bool
  fromJson
    | .bool b => some b
    | _ => none
  lossless _ := true
  fromJson_toJson _ := rfl

instance : Wire String where
  toJson := .str
  fromJson
    | .str s => some s
    | _ => none
  lossless _ := true
  fromJson_toJson _ := rfl

instance : Wire (Option String) where
  toJson v := (v.map Json.str).getD .null
  fromJson
    | .null => some none
    | .str s => some (some s)
    | _ => none
  lossless _ := true
  fromJson_toJson v := by cases v <;> rfl

instance : Wire Int32 where
  toJson v := .int v.toInt
  fromJson
    | .int i => if -2 ^ 31 ≤ i ∧ i < 2 ^ 31 then some (Int32.ofInt i) else none
    | _ => none
  lossless _ := true
  fromJson_toJson v := by
    have hrange : -2 ^ 31 ≤ v.toInt ∧ v.toInt < 2 ^ 31 := ⟨v.le_toInt, v.toInt_lt⟩
    simp only [if_pos hrange, Int32.ofInt_toInt, if_true]

instance : Wire Int64 where
  toJson v := .int v.toInt
  fromJson
    | .int i => if -2 ^ 63 ≤ i ∧ i < 2 ^ 63 then some (Int64.ofInt i) else none
    | _ => none
  lossless _ := true
  fromJson_toJson v := by
    have hrange : -2 ^ 63 ≤ v.toInt ∧ v.toInt < 2 ^ 63 := ⟨v.le_toInt, v.toInt_lt⟩
    simp only [if_pos hrange, Int64.ofInt_toInt, if_true]

instance : Wire UInt64 where
  toJson v := .int v.toNat
  fromJson
    | .int i => if 0 ≤ i ∧ i < 2 ^ 64 then some (UInt64.ofNat i.toNat) else none
    | _ => none
  lossless _ := true
  fromJson_toJson v := by
    have hrange : 0 ≤ (v.toNat : ℤ) ∧ (v.toNat : ℤ) < 2 ^ 64 := by
      have := v.toNat_lt
      omega
    simp only [if_pos hrange, Int.toNat_natCast, UInt64.ofNat_toNat, if_true]

/-- An infinity or a NaN is written as `null`. An integer is read as a double. -/
instance : Wire F64 where
  toJson v := if h : v.isFinite = true then .real v h else .null
  fromJson
    | .real x _ => some x
    | .int i => some (F64.ofInt i)
    | _ => none
  lossless v := v.isFinite
  fromJson_toJson v := by
    by_cases h : v.isFinite = true <;> simp [h]

section Lists

variable {α : Type} [Wire α]

theorem mapM_fromJson (l : List α) :
    (l.map toJson).mapM (fromJson (α := α)) = if l.all lossless then some l else none := by
  induction l with
  | nil => rfl
  | cons a rest ih =>
    rw [List.map_cons, List.mapM_cons, ih, fromJson_toJson]
    by_cases ha : lossless a = true
    · by_cases hrest : rest.all lossless = true
      · simp only [ha, hrest, List.all_cons, Bool.and_self, if_true, Option.pure_def,
          Option.bind_eq_bind, Option.bind_some]
      · simp only [ha, hrest, List.all_cons, Bool.true_and, if_true, Bool.false_eq_true,
          if_false, Option.bind_eq_bind, Option.bind_some, Option.bind_none]
    · simp [ha]

instance : Wire (List α) where
  toJson l := .arr (l.map toJson)
  fromJson
    | .arr items => items.mapM fromJson
    | _ => none
  lossless l := l.all lossless
  fromJson_toJson := mapM_fromJson

theorem lossless_strings (l : List String) : lossless l = true :=
  List.all_eq_true.mpr (fun _ _ => rfl)

end Lists

instance : Wire Cell where
  toJson
    | .null => .obj [("t", toJson "null")]
    | .int v => .obj [("t", toJson "int"), ("v", toJson v)]
    | .real v => .obj [("t", toJson "real"), ("v", toJson v)]
    | .text v => .obj [("t", toJson "text"), ("v", toJson v)]
    | .blob v => .obj [("t", toJson "blob"), ("v", toJson v)]
  fromJson
    | .obj fields => do
      let t : String ← required fields "t"
      match t with
      | "null" => some .null
      | "int" => .int <$> required fields "v"
      | "real" => .real <$> required fields "v"
      | "text" => .text <$> required fields "v"
      | "blob" => .blob <$> required fields "v"
      | _ => none
    | _ => none
  lossless := Cell.finite
  fromJson_toJson c := by
    cases c with
    | null => rfl
    | int v =>
      have hv : required (α := Int64) [("t", toJson "int"), ("v", toJson v)] "v" = some v :=
        required_eq rfl
      exact congrArg (Cell.int <$> ·) hv
    | real v =>
      have hv : required (α := F64) [("t", toJson "real"), ("v", toJson v)] "v" =
          if v.isFinite then some v else none := required_eq rfl
      refine (congrArg (Cell.real <$> ·) hv).trans ?_
      by_cases h : v.isFinite = true <;> simp [h, Cell.finite]
    | text v => rfl
    | blob v => rfl

instance : Wire Param where
  toJson p := .obj [("index", toJson p.index), ("value", toJson p.value)]
  fromJson
    | .obj fields => do
      let index ← required fields "index"
      let value ← required fields "value"
      some { index, value }
    | _ => none
  lossless := Param.finite
  fromJson_toJson p := by
    have hindex : required (α := Int32) [("index", toJson p.index), ("value", toJson p.value)]
        "index" = some p.index := required_eq rfl
    have hvalue : required (α := Cell) [("index", toJson p.index), ("value", toJson p.value)]
        "value" = if p.value.finite then some p.value else none := required_eq rfl
    simp only [hindex, hvalue, Option.bind_eq_bind, Option.bind_some]
    by_cases h : p.value.finite = true <;> simp [h, Param.finite]

instance : Wire Hello where
  toJson h := .obj
    [("ok", toJson h.ok), ("session", toJson h.session), ("error", toJson h.error)]
  fromJson
    | .obj fields => do
      let ok ← required fields "ok"
      let session ← required fields "session"
      let error ← defaulted fields "error" none
      some { ok, session, error }
    | _ => none
  lossless _ := true
  fromJson_toJson h := by
    obtain ⟨ok, session, error⟩ := h
    have hsession : required (α := UInt64)
        [("ok", toJson ok), ("session", toJson session), ("error", toJson error)]
        "session" = some session := required_eq rfl
    have herror : defaulted (α := Option String)
        [("ok", toJson ok), ("session", toJson session), ("error", toJson error)]
        "error" none = some error := defaulted_eq rfl
    have hok : required (α := Bool)
        [("ok", toJson ok), ("session", toJson session), ("error", toJson error)]
        "ok" = some ok := required_eq rfl
    simp only [hok, hsession, herror, Option.bind_eq_bind, Option.bind_some, if_true]

instance : Wire Request where
  toJson
    | .exec sql params =>
      .obj [("op", toJson "exec"), ("sql", toJson sql), ("params", toJson params)]
    | .prepare sql => .obj [("op", toJson "prepare"), ("sql", toJson sql)]
    | .close => .obj [("op", toJson "close")]
  fromJson
    | .obj fields => do
      let op : String ← required fields "op"
      match op with
      | "exec" => do
        let sql ← required fields "sql"
        let params ← defaulted fields "params" []
        some (.exec sql params)
      | "prepare" => .prepare <$> required fields "sql"
      | "close" => some .close
      | _ => none
    | _ => none
  lossless := Request.finite
  fromJson_toJson r := by
    cases r with
    | exec sql params =>
      have hparams : defaulted (α := List Param)
          [("op", toJson "exec"), ("sql", toJson sql), ("params", toJson params)] "params" [] =
          if params.all Param.finite then some params else none := defaulted_eq rfl
      refine (congrArg (fun v : Option (List Param) => v.bind
        (fun params => some (Request.exec sql params))) hparams).trans ?_
      by_cases h : params.all Param.finite = true
      · simp only [h, if_true, Option.bind_some, Request.finite]
      · simp only [h, if_false, Bool.false_eq_true, Option.bind_none, Request.finite]
    | prepare sql => rfl
    | close => rfl

def responseFields (r : Response) : List (String × Json) :=
  [("ok", toJson r.ok), ("message", toJson r.message), ("code", toJson r.code),
    ("columns", toJson r.columns), ("rows", toJson r.rows), ("changes", toJson r.changes),
    ("last_insert_rowid", toJson r.lastInsertRowid), ("autocommit", toJson r.autocommit),
    ("tail", toJson r.tail), ("param_count", toJson r.paramCount),
    ("param_names", toJson r.paramNames), ("decltypes", toJson r.decltypes),
    ("total_changes", toJson r.totalChanges), ("empty", toJson r.empty)]

def responseOf (fields : List (String × Json)) : Option Response := do
  let ok ← required fields "ok"
  let message ← defaulted fields "message" ""
  let code ← defaulted fields "code" 0
  let columns ← defaulted fields "columns" []
  let rows ← defaulted fields "rows" []
  let changes ← defaulted fields "changes" 0
  let lastInsertRowid ← defaulted fields "last_insert_rowid" 0
  let autocommit ← required fields "autocommit"
  let tail ← defaulted fields "tail" 0
  let paramCount ← defaulted fields "param_count" 0
  let paramNames ← defaulted fields "param_names" []
  let decltypes ← defaulted fields "decltypes" []
  let totalChanges ← defaulted fields "total_changes" 0
  let empty ← defaulted fields "empty" false
  some { ok, message, code, columns, rows, changes, lastInsertRowid, autocommit, tail,
         paramCount, paramNames, decltypes, totalChanges, empty }

/-- Only the rows can fail: every other field decodes to what was encoded. -/
theorem responseOf_fields (r : Response) :
    responseOf (responseFields r) = if r.finite then some r else none := by
  have hok : required (responseFields r) "ok" = some r.ok := required_of_lossless rfl rfl
  have hmessage : defaulted (responseFields r) "message" "" = some r.message :=
    defaulted_of_lossless rfl rfl
  have hcode : defaulted (responseFields r) "code" 0 = some r.code :=
    defaulted_of_lossless rfl rfl
  have hcolumns : defaulted (responseFields r) "columns" [] = some r.columns :=
    defaulted_of_lossless rfl (lossless_strings _)
  have hrows : defaulted (α := List (List Cell)) (responseFields r) "rows" [] =
      if r.finite then some r.rows else none := defaulted_eq rfl
  have hchanges : defaulted (responseFields r) "changes" 0 = some r.changes :=
    defaulted_of_lossless rfl rfl
  have hrowid : defaulted (responseFields r) "last_insert_rowid" 0 = some r.lastInsertRowid :=
    defaulted_of_lossless rfl rfl
  have hautocommit : required (responseFields r) "autocommit" = some r.autocommit :=
    required_of_lossless rfl rfl
  have htail : defaulted (responseFields r) "tail" 0 = some r.tail :=
    defaulted_of_lossless rfl rfl
  have hcount : defaulted (responseFields r) "param_count" 0 = some r.paramCount :=
    defaulted_of_lossless rfl rfl
  have hnames : defaulted (responseFields r) "param_names" [] = some r.paramNames :=
    defaulted_of_lossless rfl (lossless_strings _)
  have htypes : defaulted (responseFields r) "decltypes" [] = some r.decltypes :=
    defaulted_of_lossless rfl (lossless_strings _)
  have htotal : defaulted (responseFields r) "total_changes" 0 = some r.totalChanges :=
    defaulted_of_lossless rfl rfl
  have hempty : defaulted (responseFields r) "empty" false = some r.empty :=
    defaulted_of_lossless rfl rfl
  simp only [responseOf, hok, hmessage, hcode, hcolumns, hrows, hchanges, hrowid, hautocommit,
    htail, hcount, hnames, htypes, htotal, hempty, Option.bind_eq_bind, Option.bind_some]
  by_cases h : r.finite = true
  · simp only [h, if_true, Option.bind_some]
  · simp only [h, if_false, Bool.false_eq_true, Option.bind_none]

instance : Wire Response where
  toJson r := .obj (responseFields r)
  fromJson
    | .obj fields => responseOf fields
    | _ => none
  lossless := Response.finite
  fromJson_toJson := responseOf_fields

/-- Different messages have different values. -/
theorem toJson_injective {α : Type} [Wire α] {a b : α} (ha : lossless a = true)
    (h : toJson a = toJson b) : a = b := by
  have hread := fromJson_toJson a
  rw [if_pos ha, h, fromJson_toJson] at hread
  split at hread
  · exact (Option.some.inj hread).symm
  · cases hread

theorem hello_ne_request (h : Hello) (r : Request) : toJson h ≠ toJson r := by
  cases r <;> simp [toJson]

theorem hello_ne_response (h : Hello) (r : Response) : toJson h ≠ toJson r := by
  simp [toJson, responseFields]

theorem request_ne_response (r : Request) (resp : Response) : toJson r ≠ toJson resp := by
  cases r <;> simp [toJson, responseFields]

end SqliteBroker.Serde
