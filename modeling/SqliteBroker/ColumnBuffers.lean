import Mathlib.Data.List.TakeWhile
import SqliteBroker.Base64Forms
import SqliteBroker.FrameSizes
import SqliteBroker.LossyUnits
import SqliteBroker.StepCycle

/-!
The buffers behind the column functions. On a row the two caches have an entry for each cell,
and the length that is reported for a column stays within the text it has and is that of its
blob. Replacing ill-formed bytes never makes a text shorter, and a frame bounds all lengths.
-/
namespace SqliteBroker.ColumnBuffers

open Utf8 Messages Serde Frames Engine ShimConnection SqlValues ShimStatement StepCycle FrameSizes
open Execution (fromPtr lossyString)

/-- A printed double is shorter than a C `int` can count. -/
def ShortFloats (floats : FloatText) : Prop :=
  ∀ x, byteLen (floats.display x).toList < 2 ^ 31

/-- The step is answered by a response that has come in a frame. -/
def FramedCall (J : SerdeJson) : StmtCall → Prop
  | .step (.ok resp) => Framed J resp
  | _ => True

section Lengths

theorem byteLen_cstringLossy (text : String) :
    byteLen (cstringLossy text).toList = byteLen text.toList := by
  unfold cstringLossy
  rw [String.toList_ofList]
  induction text.toList with
  | nil => rfl
  | cons c rest ih =>
    rw [List.map_cons, byteLen_cons, byteLen_cons, ih]
    split
    · next hc => rw [hc]; rfl
    · rfl

theorem cstringLossy_no_nul (text : String) : '\x00' ∉ (cstringLossy text).toList := by
  unfold cstringLossy
  rw [String.toList_ofList, List.mem_map]
  rintro ⟨c, _, hc⟩
  split at hc
  · cases hc
  · next hne => exact hne hc

theorem fromPtr_cstringLossy (text : String) :
    fromPtr (encode (cstringLossy text).toList) = encode (cstringLossy text).toList := by
  apply List.takeWhile_eq_self_iff.mpr
  intro b hb
  apply decide_eq_true
  rintro rfl
  exact cstringLossy_no_nul text ((zero_mem_encode _).mp hb)

/-- The reading of any bytes is at least as long as they are. -/
theorem length_le_lossy (bs : Bytes) : bs.length ≤ byteLen (lossy bs) := by
  obtain ⟨hbytes, hchars, hsize⟩ := units_splits bs
  have hle := (length_units_iff hsize).1
  rwa [hbytes, hchars] at hle

theorem groupBytes_length (n : ℕ) (c2 c3 : UInt8) : (Base64.groupBytes n c2 c3).length ≤ 3 := by
  unfold Base64.groupBytes
  split
  · exact Nat.le_refl 3
  · split <;> simp

theorem decodeChunks_length {text bytes : Bytes} (h : Base64.decodeChunks text = some bytes) :
    bytes.length ≤ text.length := by
  induction text using Base64.decodeChunks.induct generalizing bytes with
  | case1 c0 c1 c2 c3 rest hpad => simp [Base64.decodeChunks, hpad] at h
  | case2 c0 c1 c2 c3 rest hpad ih =>
    obtain ⟨g, more, hmore, rfl⟩ := (Base64.decodeChunks_eq_some_iff ..).mp h
    have hgroup := groupBytes_length g.value c2 c3
    have hrest := ih hmore
    simp only [List.length_append, List.length_cons]
    omega
  | case3 =>
    obtain rfl := Option.some.inj h
    exact Nat.le_refl _
  | case4 text hfour hnil =>
    rw [Base64.decodeChunks] at h
    · cases h
    · exact hfour
    · exact hnil

theorem byteLen_le (cs : List Char) : byteLen cs ≤ 4 * cs.length := by
  induction cs with
  | nil => exact Nat.le_refl _
  | cons c rest ih =>
    have hfour := c.utf8Size_le_four
    rw [byteLen_cons, List.length_cons]
    omega

/-- A printed integer has at most twenty characters. -/
theorem byteLen_toString (v : Int64) : byteLen (toString v).toList ≤ 80 := by
  have hdigits : ∀ n : ℕ, n < 10 ^ 19 → n.repr.toList.length ≤ 19 := by
    intro n hn
    rw [Nat.toList_repr]
    exact (Nat.length_toDigits_le_iff (by decide) (by decide)).mpr hn
  have hlow := v.le_toInt
  have hhigh := v.toInt_lt
  have hlen : (toString v).toList.length ≤ 20 := by
    change (toString v.toInt).toList.length ≤ 20
    rw [Int.toString_eq_repr, Int.repr_eq_if]
    split
    · exact Nat.le_succ_of_le (hdigits _ (by omega))
    · have habs := hdigits (-v.toInt).toNat (by omega)
      rw [String.toList_append, List.length_append]
      exact Nat.add_le_add (Nat.le_refl 1) habs
  have hbytes := byteLen_le (toString v).toList
  omega

theorem toInt_ofNat_le (n : ℕ) : (Int32.ofNat n).toInt ≤ n := by
  rw [Int32.toInt_ofNat', Int.bmod]
  simp only [Int32.size]
  split <;> omega

end Lengths

section Cells

variable {floats : FloatText} {J : SerdeJson} {resp : Response} {row : List Cell} {cell : Cell}
  {i : Int32} {buffer : Bytes}

theorem cachedText_length (hcell : ∀ v, cell ≠ .blob v) :
    byteLen (cachedText floats cell).toList = byteLen (render floats cell).toList := by
  cases cell with
  | blob v => exact absurd rfl (hcell v)
  | _ => exact byteLen_cstringLossy _

/-- The text of a cell of a framed response is shorter than a C `int` can count. -/
theorem text_short (hfloats : ShortFloats floats) (hJ : Compact J) (hresp : Framed J resp)
    (hrow : row ∈ resp.rows) (hcell : cell ∈ row) (hother : ∀ v, cell ≠ .blob v) :
    byteLen (cachedText floats cell).toList < 2 ^ 31 := by
  rw [cachedText_length hother]
  cases cell with
  | null => exact Nat.two_pow_pos 31
  | int v => exact Nat.lt_of_le_of_lt (byteLen_toString v) (by decide)
  | real v => exact hfloats v
  | text v => exact Nat.lt_of_le_of_lt (framed_cell hJ hresp hrow hcell (.inl rfl)) (by decide)
  | blob v => exact absurd rfl (hother v)

/-- So is a blob. -/
theorem blob_short {v : String} (hJ : Compact J) (hresp : Framed J resp)
    (hrow : row ∈ resp.rows) (hcell : .blob v ∈ row) :
    (cachedBlob (.blob v)).length < 2 ^ 31 := by
  have hlen : byteLen v.toList < 2 ^ 31 :=
    Nat.lt_of_le_of_lt (framed_cell hJ hresp hrow hcell (.inr rfl)) (by decide)
  rw [cachedBlob, blobBytes, Base64.decodeBase64]
  cases hbytes : Base64.decodeChunks (encode v.toList) with
  | none => exact Nat.two_pow_pos 31
  | some bytes =>
    have hdecoded := decodeChunks_length hbytes
    rw [length_encode] at hdecoded
    exact Nat.lt_of_le_of_lt hdecoded hlen

theorem fromPtr_cachedText (cell : Cell) :
    fromPtr (encode (cachedText floats cell).toList) =
      encode (cachedText floats cell).toList := by
  cases cell <;> exact fromPtr_cstringLossy _

/-- A blob is not longer than the text it is shown as. -/
theorem blob_le_text (v : String) :
    (cachedBlob (.blob v)).length ≤ byteLen (cachedText floats (.blob v)).toList := by
  have hlossy := length_le_lossy (cachedBlob (.blob v))
  rw [cachedText, byteLen_cstringLossy, lossyString, String.toList_ofList]
  exact hlossy

theorem cellIn_mem (h : cellIn row i = some cell) : cell ∈ row := by
  unfold cellIn at h
  split at h
  · cases h
  · exact List.mem_of_getElem? h

/-- The reported length of a column stays within its text. -/
theorem bytes_le_text (h : (shown floats row).text i = some buffer) :
    ((shown floats row).bytes i).toInt ≤ (fromPtr buffer).length := by
  simp only [shown] at h ⊢
  cases hcell : cellIn row i with
  | none => simp [hcell] at h
  | some cell =>
    rw [hcell] at h
    cases cell with
    | null => cases h
    | blob v =>
      obtain rfl := Option.some.inj h
      rw [fromPtr_cachedText, length_encode]
      have hle := @blob_le_text floats v
      have hint := toInt_ofNat_le (cachedBlob (.blob v)).length
      dsimp only
      omega
    | _ =>
      obtain rfl := Option.some.inj h
      rw [fromPtr_cachedText, length_encode]
      exact toInt_ofNat_le _

/-- It is the size of the blob. -/
theorem bytes_eq_blob (hfloats : ShortFloats floats) (hJ : Compact J) (hresp : Framed J resp)
    (hrow : row ∈ resp.rows) (h : (shown floats row).blob i = some buffer) :
    ((shown floats row).bytes i).toInt = buffer.length := by
  simp only [shown] at h ⊢
  cases hcell : cellIn row i with
  | none => simp [hcell] at h
  | some cell =>
    have hmem := cellIn_mem hcell
    rw [hcell] at h
    cases cell with
    | null => cases h
    | blob v =>
      dsimp only at h ⊢
      split at h
      · cases h
      · obtain rfl := Option.some.inj h
        exact Int32.toInt_ofNat_of_lt (blob_short hJ hresp hrow hmem)
    | _ =>
      obtain rfl := Option.some.inj h
      rw [length_encode]
      exact Int32.toInt_ofNat_of_lt
        (text_short hfloats hJ hresp hrow hmem (fun v hv => by cases hv))

end Cells

section Runs

variable {floats : FloatText} {J : SerdeJson} {stmt : ProxyStmt} {cycle : Cycle} {i : Int32}

/-- The response of the cycle has come in a frame. -/
def FramedCycle (J : SerdeJson) : Cycle → Prop
  | .ran resp _ => Framed J resp
  | _ => True

theorem framed_step {answer : Except Int32 Response} (h : FramedCycle J cycle)
    (hcall : FramedCall J (.step answer)) : FramedCycle J (cycle.step answer) := by
  cases cycle with
  | fresh =>
    cases answer with
    | ok resp => exact hcall
    | error code => trivial
  | ran resp steps => exact h
  | failed code => trivial

/-- What a call makes of a cycle with a framed response. -/
theorem call_framed {call : StmtCall} (h : Agrees floats stmt cycle) (hframed : FramedCycle J cycle)
    (hcall : FramedCall J call) :
    ∃ cycle', Agrees floats (call.run floats stmt) cycle' ∧ FramedCycle J cycle' := by
  cases call with
  | step answer =>
    exact ⟨cycle.step answer, (step_agrees h answer).1, framed_step hframed hcall⟩
  | reset => exact ⟨.fresh, reset_agrees stmt, trivial⟩
  | bind index call =>
    obtain ⟨params, hrun⟩ := @quiet_call floats (.bind index call) rfl rfl stmt
    exact ⟨cycle, hrun ▸ agrees_of_params params h, hframed⟩
  | clearBindings => exact ⟨cycle, agrees_of_params [] h, hframed⟩
  | column i => exact ⟨cycle, h, hframed⟩

theorem run_framed {calls : List StmtCall} (h : Agrees floats stmt cycle)
    (hframed : FramedCycle J cycle) (hcalls : ∀ call ∈ calls, FramedCall J call) :
    ∃ cycle', Agrees floats (runCalls floats stmt calls) cycle' ∧ FramedCycle J cycle' := by
  induction calls generalizing stmt cycle with
  | nil => exact ⟨cycle, h, hframed⟩
  | cons call rest ih =>
    obtain ⟨hcall, hrest⟩ := List.forall_mem_cons.mp hcalls
    obtain ⟨cycle', hagrees, hframed'⟩ := call_framed h hframed hcall
    exact ih hagrees hframed' hrest

/-- A statement on a row is in the cycle of a response that has this row. -/
theorem on_row (h : Agrees floats stmt cycle) (hlast : stmt.lastStep = sqliteRow)
    (hpos : stmt.pos ≠ 0) : ∃ resp steps, cycle = .ran resp steps ∧
      stmt.rows[stmt.pos - 1]? = some cycle.row ∧ cycle.row ∈ resp.rows ∧
      stmt.texts = cycle.row.map (cachedText floats) ∧ stmt.blobs = cycle.row.map cachedBlob := by
  cases cycle with
  | fresh =>
    rw [h.2.2.2.2.2.2] at hlast
    cases hlast
  | failed code => exact absurd h.2.2.2.2.2 hpos
  | ran resp steps =>
    obtain ⟨_, _, hrows, hsteps, hat, hcode, hcaches⟩ := h
    have hinside : steps ≤ resp.rows.length := by
      by_contra hbeyond
      rw [hcode, Cycle.code, if_neg hbeyond] at hlast
      cases hlast
    obtain ⟨htexts, hblobs⟩ := hcaches hinside
    have hlt : steps - 1 < resp.rows.length := by omega
    have hrow : resp.rows[steps - 1]? = some (Cycle.ran resp steps).row := by
      rw [Cycle.row, List.getElem?_eq_getElem hlt, Option.getD_some]
    refine ⟨resp, steps, rfl, ?_, List.mem_of_getElem? hrow, htexts, hblobs⟩
    rw [hrows, hat, Nat.min_eq_left hinside]
    exact hrow

theorem no_cell (h : stmt.cellAt i = none ∨ stmt.cellAt i = some .null) :
    stmt.columnText i = none ∧ stmt.columnBlob i = none := by
  unfold ProxyStmt.columnText ProxyStmt.columnBlob
  rcases h with h | h <;> rw [h] <;> exact ⟨rfl, rfl⟩

theorem no_row (h : stmt.lastStep ≠ sqliteRow ∨ stmt.pos = 0) : stmt.cellAt i = none := by
  unfold ProxyStmt.cellAt
  rw [if_pos (h.imp_right .inl)]

/-- A column that has a buffer is one of a current row. -/
theorem row_of_cell (h : stmt.cellAt i ≠ none) : stmt.lastStep = sqliteRow ∧ stmt.pos ≠ 0 := by
  constructor
  · by_contra hlast
    exact h (no_row (.inl hlast))
  · exact fun hpos => h (no_row (.inr hpos))

/-- After any calls whose responses have come in frames: a statement on a row has an entry in
both caches for each cell of the row, no column reports more bytes than its text has, a blob
has exactly the reported bytes, and without a value both pointers are null. -/
theorem buffers_cover (hfloats : ShortFloats floats) (hJ : Compact J) (sql : String)
    (prepared : Response) (calls : List StmtCall) (hcalls : ∀ call ∈ calls, FramedCall J call) :
    let stmt := runCalls floats (.create sql prepared) calls
    (stmt.lastStep = sqliteRow → stmt.pos ≠ 0 → ∃ row, stmt.rows[stmt.pos - 1]? = some row ∧
      stmt.texts.length = row.length ∧ stmt.blobs.length = row.length) ∧
    ∀ i, (∀ buffer, stmt.columnText i = some buffer →
        (stmt.columnBytes i).toInt ≤ (fromPtr buffer).length) ∧
      (∀ buffer, stmt.columnBlob i = some buffer →
        (stmt.columnBytes i).toInt = buffer.length) ∧
      (stmt.lastStep ≠ sqliteRow ∨ stmt.pos = 0 ∨ stmt.cellAt i = none ∨
          stmt.cellAt i = some .null →
        stmt.columnText i = none ∧ stmt.columnBlob i = none) := by
  intro stmt
  obtain ⟨cycle, hagrees, hframed⟩ :=
    run_framed (create_agrees sql prepared) (trivial : FramedCycle J .fresh) hcalls
  have hshown : stmt.accessors floats = shown floats cycle.row := agrees_accessors hagrees
  refine ⟨fun hlast hpos => ?_, fun i => ⟨fun buffer htext => ?_, fun buffer hblob => ?_, ?_⟩⟩
  · obtain ⟨_, _, _, hrow, _, htexts, hblobs⟩ := on_row hagrees hlast hpos
    refine ⟨_, hrow, ?_, ?_⟩
    · rw [htexts, List.length_map]
    · rw [hblobs, List.length_map]
  · have hbytes := @bytes_le_text floats cycle.row i buffer
    rw [← hshown] at hbytes
    exact hbytes htext
  · have hcell : stmt.cellAt i ≠ none := by
      intro hnone
      rw [(no_cell (.inl hnone)).2] at hblob
      cases hblob
    obtain ⟨hlast, hpos⟩ := row_of_cell hcell
    obtain ⟨resp, steps, rfl, _, hmem, _, _⟩ := on_row hagrees hlast hpos
    have hbytes := @bytes_eq_blob floats J resp _ i buffer hfloats hJ hframed hmem
    rw [← hshown] at hbytes
    exact hbytes hblob
  · rintro (hlast | hpos | hcell)
    · exact no_cell (.inl (no_row (.inl hlast)))
    · exact no_cell (.inl (no_row (.inr hpos)))
    · exact no_cell hcell

end Runs

section Example

open Execution (okClosed)

/-- A row of a blob that is no UTF-8, a text with a NUL, and a NULL. -/
def mixedRow : Response :=
  { okClosed with columns := ["b", "t", "n"], rows := [[.blob "/w==", .text "a\x00b", .null]] }

def mixedText : Bytes :=
  ["\x7b\"ok\":true,\"message\":\"\",\"code\":0,\"columns\":[\"b\",\"t\",\"n\"],\"rows\":[[",
    "\x7b\"t\":\"blob\",\"v\":\"/w==\"\x7d,\x7b\"t\":\"text\",\"v\":\"a\\u0000b\"\x7d,",
    "\x7b\"t\":\"null\"\x7d]],\"changes\":0,\"last_insert_rowid\":0,\"autocommit\":true,",
    "\"tail\":0,\"param_count\":0,\"param_names\":[],\"decltypes\":[],\"total_changes\":0,",
    "\"empty\":false\x7d"].flatMap (fun part => encode part.toList)

theorem mixedText_length : mixedText.length = 274 := by
  rw [mixedText, List.length_flatMap]
  simp only [length_encode_toList]
  rfl

noncomputable def mixedJson : SerdeJson := .table [(Wire.toJson mixedRow, mixedText)]

theorem mixed_within {n : ℕ} (h : 4 ≤ n) : Within n (Wire.toJson mixedRow) := by
  have hcells : Wire.toJson (α := List Cell) [.blob "/w==", .text "a\x00b", .null] =
      .arr [.obj [("t", .str "blob"), ("v", .str "/w==")],
        .obj [("t", .str "text"), ("v", .str "a\x00b")], .obj [("t", .str "null")]] := rfl
  have hrow : Within n (Wire.toJson (α := List Cell) [.blob "/w==", .text "a\x00b", .null]) := by
    rw [hcells]
    refine .arr (Nat.le_trans (by decide) h) ?_
    simp only [List.forall_mem_cons]
    refine ⟨.obj ?_, .obj ?_, .obj ?_, nofun⟩
    all_goals simp only [List.forall_mem_cons]
    · exact ⟨.str (Nat.le_trans (by decide) h), .str (Nat.le_trans (by decide) h), nofun⟩
    · exact ⟨.str (Nat.le_trans (by decide) h), .str (Nat.le_trans (by decide) h), nofun⟩
    · exact ⟨.str (Nat.le_trans (by decide) h), nofun⟩
  have hrows : Within n (Wire.toJson mixedRow.rows) :=
    .arr (Nat.le_trans (by decide) h) (List.forall_mem_singleton.mpr hrow)
  have hnames : Within n (Wire.toJson mixedRow.columns) :=
    within_strings (Nat.le_trans (by decide) h) (fun s hs => Nat.le_trans
      ((by decide : ∀ s ∈ ["b", "t", "n"], byteLen s.toList ≤ 4) s hs) h)
  exact response_within (Nat.zero_le _) hnames hrows (within_strings (Nat.zero_le _) nofun)
    (within_strings (Nat.zero_le _) nofun)

theorem mixed_buffers :
    let stmt := runCalls noFloats (.create "SELECT b, t, n FROM r" okClosed) [.step (.ok mixedRow)]
    stmt.texts.length = 3 ∧ stmt.columnText 0 = some [0xEF, 0xBF, 0xBD] ∧
      (stmt.columnBytes 0).toInt ≤ 3 ∧ stmt.columnBlob 0 = some [0xFF] ∧
      (stmt.columnBytes 0).toInt = 1 ∧ stmt.columnText 2 = none := by
  intro stmt
  have hfloats : ShortFloats noFloats := fun _ => Nat.two_pow_pos 31
  have hJ : Compact mixedJson := single_compact (mixed_within (by rw [mixedText_length]; decide))
  have hframed : Framed mixedJson mixedRow :=
    single_framed (by rw [mixedText_length]; decide) rfl
  obtain ⟨hcaches, hcolumns⟩ := buffers_cover hfloats hJ "SELECT b, t, n FROM r" okClosed
    [.step (.ok mixedRow)] (List.forall_mem_singleton.mpr hframed)
  have htext : stmt.columnText 0 = some [0xEF, 0xBF, 0xBD] := rfl
  have hblob : stmt.columnBlob 0 = some [0xFF] := rfl
  obtain ⟨row, hrow, htexts, _⟩ := hcaches rfl (by decide)
  have hlen : row.length = 3 := by
    rw [← Option.some.inj hrow]
    rfl
  exact ⟨htexts.trans hlen, htext, (hcolumns 0).1 _ htext, hblob, (hcolumns 0).2.1 _ hblob,
    ((hcolumns 2).2.2 (.inr (.inr (.inr rfl)))).1⟩

end Example

end SqliteBroker.ColumnBuffers
