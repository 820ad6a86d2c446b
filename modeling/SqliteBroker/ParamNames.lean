import SqliteBroker.ColumnBuffers

/-!
The names of the parameters of a statement. The broker gives them with the prepare, a name is
found by its index and an index by the name, and a query without a mark also means the first
parameter that has it behind one.
-/
namespace SqliteBroker.ParamNames

open Utf8 Messages Serde Frames Engine ShimConnection ShimStatement StepCycle FrameSizes
open ColumnBuffers (fromPtr_cstringLossy)
open Execution (fromPtr lossyString okClosed)

/-- The first parameter with a name. -/
def findName (names : List (Option String)) (wanted : String) : Option ℕ :=
  names.findIdx? (· = some wanted)

def prefixes : List String := [":", "@", "$"]

def startsWithMark (query : String) : Bool :=
  query.toList.head?.any (fun c => [':', '@', '$', '?'].contains c)

def paramIndex (stmt : ProxyStmt) (query : String) : Int32 :=
  match findName stmt.paramNames query with
  | some i => Int32.ofNat (i + 1)
  | none =>
    if startsWithMark query then 0
    else
      match prefixes.findSome? (fun mark => findName stmt.paramNames (mark ++ query)) with
      | some i => Int32.ofNat (i + 1)
      | none => 0

def bindParameterName (stmt : ProxyStmt) (index : Int32) : Option Bytes :=
  if index ≤ 0 then none
  else (stmt.paramNames[(index - 1).toInt.toNat]?.join).map (fun name => encode name.toList)

def bindParameterIndex (stmt : ProxyStmt) (name : Option Bytes) : Int32 :=
  match name with
  | none => 0
  | some bytes => paramIndex stmt (lossyString (fromPtr bytes))

/-- Parameter `k` has the name `w`. -/
def Named (stmt : ProxyStmt) (k : Int32) (w : String) : Prop :=
  bindParameterName stmt k = some (encode w.toList)

/-- Parameter `k` is the one that a query is for: it has this name, or nothing has it, the query
comes without a mark, and `k` is the first that has it behind a mark. -/
def Means (stmt : ProxyStmt) (query : String) (k : Int32) : Prop :=
  Named stmt k query ∨
    startsWithMark query = false ∧ (∀ j, ¬ Named stmt j query) ∧
      ∃ earlier mark later, prefixes = earlier ++ mark :: later ∧
        Named stmt k (mark ++ query) ∧ ∀ m ∈ earlier, ∀ j, ¬ Named stmt j (m ++ query)

section Lists

variable {names : List (Option String)} {w : String} {i j : ℕ}

/-- In a list without repeated names a name stands at one place. -/
theorem name_unique (hnodup : (names.filterMap id).Nodup) (hi : names[i]? = some (some w))
    (hj : names[j]? = some (some w)) : i = j := by
  induction names generalizing i j with
  | nil => cases hi
  | cons name rest ih =>
    have hrest : (rest.filterMap id).Nodup := by
      refine hnodup.sublist ?_
      exact (List.sublist_cons_self name rest).filterMap id
    have hfirst : ∀ {k : ℕ}, name = some w → ¬ rest[k]? = some (some w) := by
      intro k hname hk
      rw [hname, @List.filterMap_cons_some _ _ id _ _ w rfl, List.nodup_cons] at hnodup
      exact hnodup.1 (List.mem_filterMap.mpr ⟨_, List.mem_of_getElem? hk, rfl⟩)
    cases i with
    | zero =>
      cases j with
      | zero => rfl
      | succ j => exact absurd hj (hfirst (Option.some.inj hi))
    | succ i =>
      cases j with
      | zero => exact absurd hi (hfirst (Option.some.inj hj))
      | succ j => exact congrArg (· + 1) (ih hrest hi hj)

theorem findName_some (h : findName names w = some i) : names[i]? = some (some w) := by
  obtain ⟨hlt, hname, _⟩ := List.findIdx?_eq_some_iff_getElem.mp h
  rw [List.getElem?_eq_getElem hlt, of_decide_eq_true hname]

theorem findName_none (h : findName names w = none) (i : ℕ) : names[i]? ≠ some (some w) := by
  intro hi
  have hother := List.findIdx?_eq_none_iff.mp h _ (List.mem_of_getElem? hi)
  exact of_decide_eq_false hother rfl

/-- Without repeated names the search finds exactly the parameter with the name. -/
theorem findName_iff (hnodup : (names.filterMap id).Nodup) :
    findName names w = some i ↔ names[i]? = some (some w) := by
  refine ⟨findName_some, fun hi => ?_⟩
  cases h : findName names w with
  | none => exact absurd hi (findName_none h i)
  | some j => rw [name_unique hnodup hi (findName_some h)]

end Lists

section Indexes

variable {stmt : ProxyStmt} {k : Int32} {w query : String}

theorem named_pos (h : Named stmt k w) : 0 < k := by
  by_contra hneg
  rw [Named, bindParameterName, if_pos (Int32.not_lt.mp hneg)] at h
  cases h

/-- The name at a one-based index. -/
theorem named_succ {i : ℕ} (hi : i + 1 < 2 ^ 31) :
    Named stmt (Int32.ofNat (i + 1)) w ↔ stmt.paramNames[i]? = some (some w) := by
  have hint : (Int32.ofNat (i + 1)).toInt = i + 1 := Int32.toInt_ofNat_of_lt hi
  have hpos : ¬ Int32.ofNat (i + 1) ≤ 0 := by
    rw [Int32.le_iff_toInt_le, hint, Int32.toInt_zero]
    omega
  have hprev : (Int32.ofNat (i + 1) - 1).toInt.toNat = i := by
    have hsub : Int32.ofNat (i + 1) - 1 = Int32.ofNat i := by
      rw [Int32.ofNat_add]
      exact Int32.add_sub_cancel _ _
    have hlt : i < 2 ^ 31 := by omega
    rw [hsub, Int32.toInt_ofNat_of_lt hlt, Int.toNat_natCast]
  rw [Named, bindParameterName, if_neg hpos, hprev, Option.map_eq_some_iff]
  constructor
  · rintro ⟨name, hname, hencode⟩
    rw [Option.join_eq_some_iff.mp hname, String.toList_injective (encode_injective hencode)]
  · intro hname
    exact ⟨w, Option.join_eq_some_iff.mpr hname, rfl⟩

theorem index_of_pos (h : 0 < k) : ∃ i, i + 1 < 2 ^ 31 ∧ k = Int32.ofNat (i + 1) := by
  have hpos : 0 < k.toInt := Int32.lt_iff_toInt_lt.mp h
  have hhigh := k.toInt_lt
  refine ⟨k.toInt.toNat - 1, by omega, ?_⟩
  apply Int32.toInt_inj.mp
  rw [Int32.toInt_ofNat_of_lt (by omega)]
  omega

variable (hlen : stmt.paramNames.length < 2 ^ 31) (hnodup : (stmt.paramNames.filterMap id).Nodup)
include hlen

theorem index_lt {i : ℕ} (h : stmt.paramNames[i]? = some (some w)) : i + 1 < 2 ^ 31 := by
  obtain ⟨hlt, _⟩ := List.getElem?_eq_some_iff.mp h
  omega

/-- A search that fails is for a name that no index has. -/
theorem findName_none_iff :
    findName stmt.paramNames w = none ↔ ∀ k, ¬ Named stmt k w := by
  constructor
  · intro h k hk
    obtain ⟨i, hi, rfl⟩ := index_of_pos (named_pos hk)
    exact findName_none h i ((named_succ hi).mp hk)
  · intro h
    by_contra hsome
    obtain ⟨i, hi⟩ := Option.ne_none_iff_exists'.mp hsome
    have hname := findName_some hi
    exact h _ ((named_succ (index_lt hlen hname)).mpr hname)

include hnodup

/-- A search that succeeds gives the one index that has the name. -/
theorem findName_index :
    (findName stmt.paramNames w).map (fun i => Int32.ofNat (i + 1)) = some k ↔ Named stmt k w := by
  rw [Option.map_eq_some_iff]
  constructor
  · rintro ⟨i, hi, rfl⟩
    have hname := findName_some hi
    exact (named_succ (index_lt hlen hname)).mpr hname
  · intro hk
    obtain ⟨i, hi, rfl⟩ := index_of_pos (named_pos hk)
    exact ⟨i, (findName_iff hnodup).mpr ((named_succ hi).mp hk), rfl⟩

/-- The search behind the marks gives the index of the first name that it finds. -/
theorem prefixed_index :
    (prefixes.findSome? (fun mark => findName stmt.paramNames (mark ++ query))).map
        (fun i => Int32.ofNat (i + 1)) = some k ↔
      ∃ earlier mark later, prefixes = earlier ++ mark :: later ∧
        Named stmt k (mark ++ query) ∧ ∀ m ∈ earlier, ∀ j, ¬ Named stmt j (m ++ query) := by
  rw [Option.map_eq_some_iff]
  constructor
  · rintro ⟨i, hfirst, rfl⟩
    obtain ⟨earlier, mark, later, heq, hi, hbefore⟩ := List.findSome?_eq_some_iff.mp hfirst
    have hnamed : (findName stmt.paramNames (mark ++ query)).map (fun i => Int32.ofNat (i + 1)) =
        some (Int32.ofNat (i + 1)) := by
      rw [hi]
      rfl
    exact ⟨earlier, mark, later, heq, (findName_index hlen hnodup).mp hnamed,
      fun m hm => (findName_none_iff hlen).mp (hbefore m hm)⟩
  · rintro ⟨earlier, mark, later, heq, hnamed, hbefore⟩
    obtain ⟨i, hi, rfl⟩ := Option.map_eq_some_iff.mp ((findName_index hlen hnodup).mpr hnamed)
    refine ⟨i, List.findSome?_eq_some_iff.mpr ⟨earlier, mark, later, heq, hi, ?_⟩, rfl⟩
    exact fun m hm => (findName_none_iff hlen).mpr (hbefore m hm)

/-- The two searches together find what the query means. -/
theorem paramIndex_iff (hk : k ≠ 0) : paramIndex stmt query = k ↔ Means stmt query k := by
  have hzero : 0 ≠ k := hk.symm
  have hexact := fun k => @findName_index stmt k query hlen hnodup
  have hmissing := @findName_none_iff stmt query hlen
  have hprefixed := @prefixed_index stmt k query hlen hnodup
  unfold paramIndex Means
  cases hfound : findName stmt.paramNames query with
  | some i =>
    rw [hfound] at hexact hmissing
    have hnamed : Named stmt (Int32.ofNat (i + 1)) query := (hexact _).mp rfl
    constructor
    · rintro rfl
      exact .inl hnamed
    · rintro (hk' | ⟨_, hnone, _⟩)
      · exact Option.some.inj ((hexact k).mpr hk')
      · exact absurd hnamed (hnone _)
  | none =>
    rw [hfound] at hmissing
    have hnone := hmissing.mp rfl
    have hother : ¬ Named stmt k query := hnone k
    cases hmark : startsWithMark query with
    | true => simp [hzero, hother]
    | false =>
      rw [← hprefixed]
      simp only [Bool.false_eq_true, if_false, hother, false_or, true_and, hnone, not_false_iff,
        implies_true]
      cases prefixes.findSome? (fun mark => findName stmt.paramNames (mark ++ query)) with
      | none => simp [hzero]
      | some i => simp

end Indexes

section Statements

variable {floats : FloatText} {J : SerdeJson} {prepared : Response} {k : Int32}

/-- A name of a statement is a C string, so it is read back as it is. -/
theorem name_read_back (sql : String) {name : Bytes}
    (h : bindParameterName (.create sql prepared) k = some name) :
    ∃ w : String, name = encode w.toList ∧ lossyString (fromPtr name) = w := by
  unfold bindParameterName at h
  split at h
  · cases h
  · obtain ⟨w, hw, rfl⟩ := Option.map_eq_some_iff.mp h
    have hmem := List.mem_of_getElem? (Option.join_eq_some_iff.mp hw)
    obtain ⟨raw, _, hraw⟩ := List.mem_map.mp hmem
    refine ⟨w, rfl, ?_⟩
    unfold optionalName at hraw
    split at hraw
    · cases hraw
    · obtain rfl := Option.some.inj hraw
      rw [fromPtr_cstringLossy, lossyString, lossy_encode, String.ofList_toList]

/-- The parameters of a statement that was prepared by a response in a frame, after any calls.
When no name is given twice, the index of the name of a parameter is that parameter, a query is
answered by the parameter that it means, and by zero when it means none. -/
theorem names_indexes_inverse (hJ : Compact J) (sql : String) (hprepared : Framed J prepared)
    (calls : List StmtCall) :
    let stmt := runCalls floats (.create sql prepared) calls
    (stmt.paramNames.filterMap id).Nodup →
      (∀ i name, bindParameterName stmt i = some name →
        bindParameterIndex stmt (some name) = i) ∧
      ∀ query : Bytes,
        (∀ k, 0 < k → (bindParameterIndex stmt (some query) = k ↔
          Means stmt (lossyString (fromPtr query)) k)) ∧
        ((∀ k, ¬ Means stmt (lossyString (fromPtr query)) k) →
          bindParameterIndex stmt (some query) = 0) := by
  intro stmt hnodup
  have hnames : stmt.paramNames = prepared.paramNames.map optionalName :=
    (run_prepared calls _).2
  have hlen : stmt.paramNames.length < 2 ^ 31 := by
    rw [hnames, List.length_map]
    exact Nat.lt_of_le_of_lt (framed_names hJ hprepared) (by decide)
  have hindex := fun query k => @paramIndex_iff stmt k query hlen hnodup
  refine ⟨fun i name hname => ?_, fun query => ⟨fun k hk => ?_, fun hnone => ?_⟩⟩
  · have hcreated : bindParameterName (.create sql prepared) i = some name := by
      rw [← hname, bindParameterName, bindParameterName, hnames]
      rfl
    obtain ⟨w, rfl, hread⟩ := name_read_back sql hcreated
    have hnamed : Named stmt i w := hname
    rw [bindParameterIndex, hread]
    exact (hindex w i (Int32.ne_of_lt (named_pos hnamed)).symm).mpr (.inl hnamed)
  · exact hindex _ k (Int32.ne_of_lt hk).symm
  · by_contra hne
    exact hnone _ ((hindex _ _ hne).mp rfl)

end Statements

section Example

/-- The prepare of a statement with three named parameters and one without a name. -/
def namedInsert : Response :=
  { okClosed with paramCount := 4, paramNames := [":a", "", "@b", "$a"] }

def namedText : Bytes :=
  ["\x7b\"ok\":true,\"message\":\"\",\"code\":0,\"columns\":[],\"rows\":[],\"changes\":0,",
    "\"last_insert_rowid\":0,\"autocommit\":true,\"tail\":0,\"param_count\":4,",
    "\"param_names\":[\":a\",\"\",\"@b\",\"$a\"],\"decltypes\":[],\"total_changes\":0,",
    "\"empty\":false\x7d"].flatMap (fun part => encode part.toList)

theorem namedText_length : namedText.length = 214 := by
  rw [namedText, List.length_flatMap]
  simp only [length_encode_toList]
  rfl

theorem named_within {n : ℕ} (h : 4 ≤ n) : Within n (Wire.toJson namedInsert) := by
  have hnone : Within n (Wire.toJson ([] : List String)) := within_strings (Nat.zero_le _) nofun
  have hnames : Within n (Wire.toJson namedInsert.paramNames) :=
    within_strings h (fun s hs => Nat.le_trans
      ((by decide : ∀ s ∈ [":a", "", "@b", "$a"], byteLen s.toList ≤ 4) s hs) h)
  exact response_within (Nat.zero_le _) hnone (.arr (Nat.zero_le _) nofun) hnames hnone

/-- The third name leads to 3, and a bare `b` means the same parameter. -/
theorem named_insert :
    let stmt := runCalls noFloats (.create "INSERT INTO t VALUES (:a, ?, @b, $a)" namedInsert)
      [.bind 3 (.int 7)]
    bindParameterIndex stmt (some (encode "@b".toList)) = 3 ∧ Means stmt "b" 3 := by
  intro stmt
  have hJ : Compact (.table [(Wire.toJson namedInsert, namedText)]) :=
    single_compact (named_within (by rw [namedText_length]; decide))
  have hprepared : Framed (.table [(Wire.toJson namedInsert, namedText)]) namedInsert :=
    single_framed (by rw [namedText_length]; decide) rfl
  obtain ⟨hnames, hqueries⟩ := @names_indexes_inverse noFloats _ _ hJ
    "INSERT INTO t VALUES (:a, ?, @b, $a)" hprepared [.bind 3 (.int 7)] (by decide)
  exact ⟨hnames 3 _ rfl, ((hqueries (encode "b".toList)).1 3 (by decide)).mp rfl⟩

end Example

end SqliteBroker.ParamNames
