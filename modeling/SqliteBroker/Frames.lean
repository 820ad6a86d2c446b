import SqliteBroker.RealValues
import Mathlib.Data.List.Nodup

/-!
Frames: a little-endian length prefix and a JSON body. The text layer of
serde_json is a parameter; what is assumed of it is a named property of it.
A message that is written is read back exactly when it holds finite numbers only.
-/
namespace SqliteBroker.Frames

open Utf8 Messages Serde Wire RealValues Blank

/-- serde_json between JSON values and bytes, and the text of its errors. -/
structure SerdeJson where
  toVec : Json → Bytes
  fromSlice : Bytes → Option Json
  errorText : Bytes → String

namespace SerdeJson

def ReadsBack (J : SerdeJson) (j : Json) : Prop := J.fromSlice (J.toVec j) = some j

/-- Whatever is read from the text of the value is that value, but for its doubles. -/
def Keeps (J : SerdeJson) (j : Json) : Prop :=
  ∀ j', J.fromSlice (J.toVec j) = some j' → blankJson j' = blankJson j

/-- No message is read as another one, but for its doubles: serde_json may read the text
of a double as another double close to it. -/
structure Faithful (J : SerdeJson) : Prop where
  hello : ∀ h : Hello, J.Keeps (toJson h)
  request : ∀ r : Request, J.Keeps (toJson r)
  response : ∀ r : Response, J.Keeps (toJson r)

open Classical in
/-- A serde_json that knows the texts of finitely many values. -/
noncomputable def table (entries : List (Json × Bytes)) : SerdeJson where
  toVec j := ((entries.find? (fun e => e.1 = j)).map Prod.snd).getD []
  fromSlice b := (entries.find? (fun e => e.2 = b)).map Prod.fst
  errorText _ := "expected value at line 1 column 1"

end SerdeJson

def frameLimit : ℕ := 16 * 1024 * 1024

def toLeBytes (n : ℕ) : Bytes :=
  [UInt8.ofNat n, UInt8.ofNat (n >>> 8), UInt8.ofNat (n >>> 16), UInt8.ofNat (n >>> 24)]

def fromLeBytes (bs : Bytes) : ℕ := bs.foldr (fun b acc => b.toNat + 256 * acc) 0

variable {α : Type} [Wire α]

def writeMsg (J : SerdeJson) (msg : α) : Except String Bytes :=
  let body := J.toVec (toJson msg)
  if body.length > frameLimit then .error "message too large"
  else .ok (toLeBytes body.length ++ body)

def decodeBody (J : SerdeJson) (body : Bytes) : Except String α :=
  match (J.fromSlice body).bind fromJson with
  | some msg => .ok msg
  | none => .error (J.errorText body)

/-- What `read_msg` returns and what it leaves of the stream. With `none` it needs
more bytes than the stream has: it waits, or fails when the stream has ended. -/
def readMsg (J : SerdeJson) (stream : Bytes) : Option (Except String α × Bytes) :=
  if stream.length < 4 then none
  else
    let len := fromLeBytes (stream.take 4)
    if len > frameLimit then some (.error "frame too large", stream.drop 4)
    else if (stream.drop 4).length < len then none
    else some (decodeBody J ((stream.drop 4).take len), stream.drop (4 + len))

def unexpectedEof : String := "failed to fill whole buffer"

theorem fromLeBytes_toLeBytes {n : ℕ} (h : n < 2 ^ 32) : fromLeBytes (toLeBytes n) = n := by
  simp only [fromLeBytes, toLeBytes, List.foldr_cons, List.foldr_nil, UInt8.toNat_ofNat',
    Nat.shiftRight_eq_div_pow]
  omega

theorem writeMsg_ok_iff {J : SerdeJson} {m : α} {bytes : Bytes} :
    writeMsg J m = .ok bytes ↔ (J.toVec (toJson m)).length ≤ frameLimit ∧
      bytes = toLeBytes (J.toVec (toJson m)).length ++ J.toVec (toJson m) := by
  unfold writeMsg
  by_cases h : (J.toVec (toJson m)).length > frameLimit
  · have hn : ¬ (J.toVec (toJson m)).length ≤ frameLimit := Nat.not_le.mpr h
    simp [h, hn]
  · simp [h, eq_comm, Nat.not_lt.mp h]

/-- A written frame is read as a whole, and what follows it stays in the stream. -/
theorem readMsg_writeMsg {J : SerdeJson} {m : α} {bytes : Bytes} (h : writeMsg J m = .ok bytes)
    (more : Bytes) :
    readMsg (α := α) J (bytes ++ more) = some (decodeBody J (J.toVec (toJson m)), more) := by
  obtain ⟨hlen, rfl⟩ := writeMsg_ok_iff.mp h
  set body := J.toVec (toJson m)
  have hstart : (toLeBytes body.length).length = 4 := rfl
  have hsize : fromLeBytes (toLeBytes body.length) = body.length :=
    fromLeBytes_toLeBytes (by unfold frameLimit at hlen; omega)
  have htake : ((toLeBytes body.length ++ body ++ more).take 4) = toLeBytes body.length := by
    rw [List.append_assoc, List.take_left' hstart]
  have hdrop : ((toLeBytes body.length ++ body ++ more).drop 4) = body ++ more := by
    rw [List.append_assoc, List.drop_left' hstart]
  have hrest : (toLeBytes body.length ++ body ++ more).drop (4 + body.length) = more := by
    rw [← List.drop_drop, hdrop, List.drop_left' rfl]
  unfold readMsg
  rw [if_neg (by simp only [List.length_append, hstart]; omega), htake, hsize]
  dsimp only
  rw [if_neg (by omega), hdrop, if_neg (by simp), List.take_left' rfl, hrest]

theorem decodeBody_of_readsBack {J : SerdeJson} {m : α} (hJ : J.ReadsBack (toJson m)) :
    decodeBody J (J.toVec (toJson m)) =
      if lossless m then .ok m else .error (J.errorText (J.toVec (toJson m))) := by
  unfold decodeBody
  rw [hJ, Option.bind_some, fromJson_toJson]
  by_cases h : lossless m = true <;> simp [h]

theorem SerdeJson.ReadsBack.keeps {J : SerdeJson} {j : Json} (hJ : J.ReadsBack j) :
    J.Keeps j := by
  intro j' h
  rw [Option.some.inj (h.symm.trans hJ)]

/-- Doubles that are read inexactly do no harm. -/
example (J : SerdeJson) {j : Json} (hJ : J.Keeps j) {inexact : Json → Json}
    (hread : ∀ j, blankJson (inexact j) = blankJson j) :
    SerdeJson.Keeps { J with fromSlice := fun b => (J.fromSlice b).map inexact } j := by
  intro j' h
  obtain ⟨read, hread', rfl⟩ := Option.map_eq_some_iff.mp h
  rw [hread, hJ read hread']

/-- A frame is never read as another message than the one written, but for its doubles. -/
theorem decodeBody_sound [Blank α] {J : SerdeJson} {m m' : α} (hJ : J.Keeps (toJson m))
    (h : decodeBody J (J.toVec (toJson m)) = .ok m') : blank m' = blank m := by
  unfold decodeBody at h
  cases hj : J.fromSlice (J.toVec (toJson m)) with
  | none => simp [hj] at h
  | some j =>
    rw [hj, Option.bind_some] at h
    have hread : (fromJson j : Option α).map blank = (fromJson (toJson m)).map blank := by
      rw [← fromJson_blank, hJ j hj, fromJson_blank]
    rw [fromJson_toJson] at hread
    cases hm : (fromJson j : Option α) with
    | none => simp [hm] at h
    | some got =>
      rw [hm] at h hread
      obtain rfl : got = m' := Except.ok.inj h
      by_cases hlossless : lossless m = true
      · rw [if_pos hlossless] at hread
        exact Option.some.inj hread
      · rw [if_neg hlossless] at hread
        cases hread

theorem readMsg_written_iff {J : SerdeJson} {m : α} {bytes : Bytes}
    (hJ : J.ReadsBack (toJson m)) (h : writeMsg J m = .ok bytes) :
    readMsg (α := α) J bytes = some (.ok m, []) ↔ lossless m = true := by
  have hread := readMsg_writeMsg h []
  rw [List.append_nil, decodeBody_of_readsBack hJ] at hread
  rw [hread]
  by_cases hm : lossless m = true <;> simp [hm]

/-- Every message that is written comes back, exactly when its numbers are finite. -/
theorem round_trip_iff_finite (J : SerdeJson) :
    (∀ (m : Request) (bytes : Bytes), J.ReadsBack (toJson m) → writeMsg J m = .ok bytes →
      (readMsg J bytes = some (.ok m, []) ↔ m.finite = true)) ∧
    (∀ (m : Response) (bytes : Bytes), J.ReadsBack (toJson m) → writeMsg J m = .ok bytes →
      (readMsg J bytes = some (.ok m, []) ↔ m.finite = true)) ∧
    (∀ (m : Hello) (bytes : Bytes), J.ReadsBack (toJson m) → writeMsg J m = .ok bytes →
      readMsg J bytes = some (.ok m, [])) :=
  ⟨fun _ _ => readMsg_written_iff, fun _ _ => readMsg_written_iff,
    fun _ _ hJ h => (readMsg_written_iff hJ h).mpr rfl⟩

theorem find_of_nodup {β γ : Type} [DecidableEq γ] {g : β → γ} {entries : List β} {e : β}
    (hnd : (entries.map g).Nodup) (he : e ∈ entries) :
    entries.find? (fun e' => g e' = g e) = some e := by
  induction entries with
  | nil => cases he
  | cons e' rest ih =>
    obtain ⟨hnot, hrest⟩ := List.nodup_cons.mp hnd
    by_cases heq : g e' = g e
    · have hsame : e' = e := by
        rcases List.mem_cons.mp he with hhead | htail
        · exact hhead.symm
        · exact absurd (List.mem_map.mpr ⟨e, htail, heq.symm⟩) hnot
      simp [hsame]
    · rw [List.find?_cons_of_neg (by simpa using heq)]
      rcases List.mem_cons.mp he with rfl | htail
      · exact absurd rfl heq
      · exact ih hrest htail

/-- The message crosses a connection as it is. -/
def Carries (J : SerdeJson) (m : α) : Prop :=
  ∃ bytes, writeMsg J m = .ok bytes ∧ decodeBody J (J.toVec (toJson m)) = .ok m

section Table

variable {entries : List (Json × Bytes)} {j : Json} {text : Bytes}

theorem table_toVec (hkeys : (entries.map Prod.fst).Nodup) (he : (j, text) ∈ entries) :
    (SerdeJson.table entries).toVec j = text := by
  classical
  have hfind := find_of_nodup hkeys he
  simp only [SerdeJson.table]
  convert congrArg (fun e => (Option.map Prod.snd e).getD []) hfind
  rfl

theorem table_readsBack (hkeys : (entries.map Prod.fst).Nodup)
    (htexts : (entries.map Prod.snd).Nodup) (he : (j, text) ∈ entries) :
    (SerdeJson.table entries).ReadsBack j := by
  have hfind := find_of_nodup htexts he
  rw [SerdeJson.ReadsBack, table_toVec hkeys he]
  simp only [SerdeJson.table]
  rw [show entries.find? (fun e => e.2 = text) = some (j, text) from hfind]
  rfl

theorem table_carries {m : α} (hkeys : (entries.map Prod.fst).Nodup)
    (htexts : (entries.map Prod.snd).Nodup) (hshort : text.length ≤ frameLimit)
    (hm : lossless m = true) (he : (toJson m, text) ∈ entries) :
    Carries (SerdeJson.table entries) m := by
  refine ⟨_, writeMsg_ok_iff.mpr ⟨?_, rfl⟩, ?_⟩
  · rw [table_toVec hkeys he]
    exact hshort
  · rw [decodeBody_of_readsBack (table_readsBack hkeys htexts he), if_pos hm]

theorem table_keeps (htexts : (entries.map Prod.snd).Nodup)
    (hsome : [] ∉ entries.map Prod.snd) (j : Json) : (SerdeJson.table entries).Keeps j := by
  classical
  intro j' h
  simp only [SerdeJson.table] at h
  cases hfind : entries.find? (fun e => e.1 = j) with
  | none =>
    simp only [hfind, Option.map_none, Option.getD_none, Option.map_eq_some_iff] at h
    obtain ⟨e, he, _⟩ := h
    have hempty : e.2 = [] := by simpa using List.find?_some he
    exact absurd (List.mem_map.mpr ⟨e, List.mem_of_find?_eq_some he, hempty⟩) hsome
  | some e =>
    have hkey : e.1 = j := by simpa using List.find?_some hfind
    have htext := find_of_nodup htexts (List.mem_of_find?_eq_some hfind)
    simp only [hfind, Option.map_some, Option.getD_some] at h
    rw [show entries.find? (fun e' => e'.2 = e.2) = some e from htext] at h
    rw [← hkey, ← Option.some.inj h]

theorem table_faithful (htexts : (entries.map Prod.snd).Nodup)
    (hsome : [] ∉ entries.map Prod.snd) : (SerdeJson.table entries).Faithful where
  hello _ := table_keeps htexts hsome _
  request _ := table_keeps htexts hsome _
  response _ := table_keeps htexts hsome _

end Table

/-- Binding positive infinity to the parameter of `SELECT ?`. -/
def infiniteExec : Request := .exec "SELECT ?" [⟨1, .real F64.infinity⟩]

def infiniteText : Bytes := encode
  ("\x7b\"op\":\"exec\",\"sql\":\"SELECT ?\",\"params\":[\x7b\"index\":1,\"value\":" ++
    "\x7b\"t\":\"real\",\"v\":null\x7d\x7d]\x7d").toList

noncomputable def infiniteJson : SerdeJson := .table [(toJson infiniteExec, infiniteText)]

theorem infiniteJson_toVec : infiniteJson.toVec (toJson infiniteExec) = infiniteText := by
  simp [infiniteJson, SerdeJson.table]

theorem infinite_exec_lost : ∃ bytes, infiniteJson.ReadsBack (toJson infiniteExec) ∧
    writeMsg infiniteJson infiniteExec = .ok bytes ∧
    readMsg infiniteJson bytes ≠ some (.ok infiniteExec, []) := by
  have hJ : infiniteJson.ReadsBack (toJson infiniteExec) :=
    table_readsBack (List.nodup_singleton _) (List.nodup_singleton _) (List.mem_singleton.mpr rfl)
  have hsize : (infiniteJson.toVec (toJson infiniteExec)).length ≤ frameLimit := by
    rw [infiniteJson_toVec]
    decide
  have hwrite := writeMsg_ok_iff.mpr ⟨hsize, rfl⟩
  refine ⟨_, hJ, hwrite, ?_⟩
  rw [Ne, readMsg_written_iff hJ hwrite]
  decide

section Halves

/-- One half as a double. -/
def half : F64 := ⟨0x3FE0000000000000⟩

def halfExec : Request := .exec "INSERT INTO t VALUES (?, ?)" [⟨1, .real half⟩, ⟨2, .text "x"⟩]

def halfExecText : Bytes :=
  ["\x7b\"op\":\"exec\",\"sql\":\"INSERT INTO t VALUES (?, ?)\",\"params\":[\x7b\"index\":1,",
    "\"value\":\x7b\"t\":\"real\",\"v\":0.5\x7d\x7d,\x7b\"index\":2,\"value\":\x7b\"t\":\"text\",",
    "\"v\":\"x\"\x7d\x7d]\x7d"].flatMap (fun part => encode part.toList)

/-- The response to `SELECT a, b FROM t` with one row. -/
def halfRow : Response where
  ok := true
  message := ""
  code := 0
  columns := ["a", "b"]
  rows := [[.real half, .null]]
  changes := 1
  lastInsertRowid := 1
  autocommit := true
  tail := 0
  paramCount := 0
  paramNames := []
  decltypes := []
  totalChanges := 1
  empty := false

def halfRowText : Bytes :=
  ["\x7b\"ok\":true,\"message\":\"\",\"code\":0,\"columns\":[\"a\",\"b\"],\"rows\":[[\x7b\"t\":",
    "\"real\",\"v\":0.5\x7d,\x7b\"t\":\"null\"\x7d]],\"changes\":1,\"last_insert_rowid\":1,",
    "\"autocommit\":true,\"tail\":0,\"param_count\":0,\"param_names\":[],\"decltypes\":[],",
    "\"total_changes\":1,\"empty\":false\x7d"].flatMap (fun part => encode part.toList)

theorem half_lengths : halfExecText.length = 142 ∧ halfRowText.length = 239 := by
  rw [halfExecText, halfRowText, List.length_flatMap, List.length_flatMap]
  simp only [length_encode_toList]
  exact ⟨rfl, rfl⟩

noncomputable def halfJson : SerdeJson :=
  .table [(toJson halfExec, halfExecText), (toJson halfRow, halfRowText)]

theorem halfJson_keys :
    ([(toJson halfExec, halfExecText), (toJson halfRow, halfRowText)].map Prod.fst).Nodup := by
  simpa using request_ne_response halfExec halfRow

theorem halfJson_texts :
    ([(toJson halfExec, halfExecText), (toJson halfRow, halfRowText)].map Prod.snd).Nodup := by
  simp only [List.map_cons, List.map_nil, List.nodup_cons, List.mem_singleton]
  refine ⟨fun heq => ?_, List.not_mem_nil, List.nodup_nil⟩
  have hlen := congrArg List.length heq
  rw [half_lengths.1, half_lengths.2] at hlen
  omega

/-- A request and a response with a REAL come back as they were written. -/
theorem half_round_trip :
    (∃ bytes, writeMsg halfJson halfExec = .ok bytes ∧
      readMsg halfJson bytes = some (.ok halfExec, [])) ∧
    (∃ bytes, writeMsg halfJson halfRow = .ok bytes ∧
      readMsg halfJson bytes = some (.ok halfRow, [])) := by
  have hexec := List.mem_cons_self (a := (toJson halfExec, halfExecText))
    (l := [(toJson halfRow, halfRowText)])
  have hrow := List.mem_cons_of_mem (toJson halfExec, halfExecText)
    (List.mem_singleton_self (toJson halfRow, halfRowText))
  have hshort : halfExecText.length ≤ frameLimit ∧ halfRowText.length ≤ frameLimit := by
    rw [half_lengths.1, half_lengths.2]
    decide
  have hwriteExec : writeMsg halfJson halfExec = .ok _ :=
    writeMsg_ok_iff.mpr ⟨by rw [halfJson, table_toVec halfJson_keys hexec]; exact hshort.1, rfl⟩
  have hwriteRow : writeMsg halfJson halfRow = .ok _ :=
    writeMsg_ok_iff.mpr ⟨by rw [halfJson, table_toVec halfJson_keys hrow]; exact hshort.2, rfl⟩
  have hboth := round_trip_iff_finite halfJson
  exact ⟨⟨_, hwriteExec, (hboth.1 _ _
      (table_readsBack halfJson_keys halfJson_texts hexec) hwriteExec).mpr (by decide)⟩,
    ⟨_, hwriteRow, (hboth.2.1 _ _
      (table_readsBack halfJson_keys halfJson_texts hrow) hwriteRow).mpr (by decide)⟩⟩

end Halves

end SqliteBroker.Frames
