import SqliteBroker.Bindings

/-!
The tail pointer of `sqlite3_prepare_v2`. The broker counts it in the text that it was
sent, which the shim has read from the caller's bytes; the shim adds it to the caller's
pointer. The two offsets agree as long as the reading keeps the length.
-/
namespace SqliteBroker.StatementTails

open Utf8 Messages Engine Execution ShimConnection ShimStatement Bindings

/-- What SQLite promises of the tail: it stands between two characters, and behind a
statement that has some. -/
structure CutsTexts (S : Sqlite) : Prop where
  stmt : ∀ f c text st, (S.prepareV2 f c (encode text)).rc = sqliteOk →
    (S.prepareV2 f c (encode text)).stmt = some st →
    ∃ own rest, own ≠ [] ∧ text = own ++ rest ∧
      (S.prepareV2 f c (encode text)).tail = some (byteLen own)
  blank : ∀ f c text, (S.prepareV2 f c (encode text)).rc = sqliteOk →
    (S.prepareV2 f c (encode text)).stmt = none →
    (S.prepareV2 f c (encode text)).tail = none ∨
      ∃ own rest, text = own ++ rest ∧
        (S.prepareV2 f c (encode text)).tail = some (byteLen own)

variable {S : Sqlite}

/-- The tail of a good answer to a prepare is the length of what has been compiled. -/
theorem prepareMeta_tail (hS : CutsTexts S) (f : S.File) (c : S.Conn) {script : String}
    (hnul : '\x00' ∉ script.toList) (hlen : byteLen script.toList < 2 ^ 63)
    (hok : (prepareMeta S f c script).result.ok = true) :
    ∃ own rest, script.toList = own ++ rest ∧
      (prepareMeta S f c script).result.tail.toNat = byteLen own ∧
      ((prepareMeta S f c script).result.empty = false → own ≠ []) := by
  have hwhole : ∀ own rest, script.toList = own ++ rest →
      (UInt64.ofNat (byteLen own)).toNat = byteLen own := by
    intro own rest htext
    have hbytes := congrArg byteLen htext
    rw [byteLen_append] at hbytes
    exact UInt64.toNat_ofNat_of_lt' (show byteLen own < 2 ^ 64 by omega)
  have hresp : ∃ resp, resp = (prepareMeta S f c script).result := ⟨_, rfl⟩
  obtain ⟨resp, hresp⟩ := hresp
  rw [← hresp] at hok ⊢
  unfold prepareMeta at hresp
  rw [BoundValues.cString_of_no_nul hnul] at hresp
  dsimp only at hresp
  by_cases hrc : (S.prepareV2 f c (encode script.toList)).rc ≠ sqliteOk
  · rw [if_pos hrc] at hresp
    rw [hresp] at hok
    cases hok
  · rw [if_neg hrc] at hresp
    have hrc' := not_not.mp hrc
    cases hstmt : (S.prepareV2 f c (encode script.toList)).stmt with
    | none =>
      rw [hstmt] at hresp
      rw [hresp]
      dsimp only
      rcases hS.blank f c _ hrc' hstmt with htail | ⟨own, rest, htext, htail⟩
      · refine ⟨script.toList, [], (List.append_nil _).symm, ?_, nofun⟩
        rw [htail, Option.getD_none, length_encode]
        exact hwhole _ [] (List.append_nil _).symm
      · refine ⟨own, rest, htext, ?_, nofun⟩
        rw [htail, Option.getD_some]
        exact hwhole own rest htext
    | some st =>
      rw [hstmt] at hresp
      rw [hresp]
      obtain ⟨own, rest, hown, htext, htail⟩ := hS.stmt f c _ st hrc' hstmt
      refine ⟨own, rest, htext, ?_, fun _ => hown⟩
      dsimp only
      rw [htail, Option.getD_some]
      exact hwhole own rest htext

/-- The bytes that the caller supplies, up to the first NUL or `nbytes`. -/
def supplied (sql : Bytes) (nbytes : Int32) : Bytes :=
  if nbytes < 0 then fromPtr sql else fromPtr (sql.take nbytes.toInt.toNat)

theorem prepareText_eq (sql : Bytes) (nbytes : Int32) :
    (prepareText (some sql) nbytes).toList = lossy (supplied sql nbytes) := by
  rw [prepareText, sqlFrom, supplied]
  split <;> rw [lossyString, String.toList_ofList]

/-- What `prepare_v2` makes of a tail behind the text `own`. -/
theorem prepareV2_tail {sql : Bytes} {nbytes : Int32} {resp : Response} {own rest : List Char}
    (htext : (prepareText (some sql) nbytes).toList = own ++ rest)
    (htail : resp.tail.toNat = byteLen own) (hown : resp.empty = false → own ≠ []) :
    let prepared := prepareV2 (some sql) nbytes (.ok resp)
    prepared.rc = sqliteOk ∧ prepared.tail = some (byteLen own) ∧
      prepared.stmt.isSome = !resp.empty ∧
      ∀ stmt, prepared.stmt = some stmt → stmt.sql.toList = own := by
  have hmin : min resp.tail.toNat (byteLen (prepareText (some sql) nbytes).toList) =
      byteLen own := by
    rw [htail, htext, byteLen_append]
    omega
  unfold prepareV2
  dsimp only
  rw [hmin]
  cases hempty : resp.empty with
  | true => exact ⟨rfl, rfl, rfl, nofun⟩
  | false =>
    have hne : own ≠ [] := hown hempty
    have hpos : byteLen own ≠ 0 := by
      cases own with
      | nil => exact absurd rfl hne
      | cons c more =>
        have hsize := c.utf8Size_pos
        rw [byteLen_cons]
        omega
    rw [if_neg Bool.false_ne_true, if_neg hpos, htext, sliceTo_append]
    refine ⟨rfl, rfl, rfl, ?_⟩
    rintro stmt ⟨⟩
    exact String.toList_ofList

/-- The tail pointer splits the caller's bytes where the statement ends exactly when no
ill-formed part of them, in what has been compiled, is shorter than the character that it
was replaced by. A text of Rust has less than `2 ^ 63` bytes. -/
theorem tail_splits_iff (hS : CutsTexts S) (f : S.File) (c : S.Conn) (sql : Bytes)
    (nbytes : Int32) (hlen : byteLen (prepareText (some sql) nbytes).toList < 2 ^ 63)
    (hok : (prepareMeta S f c (prepareText (some sql) nbytes)).result.ok = true) :
    let bs := supplied sql nbytes
    let resp := (prepareMeta S f c (prepareText (some sql) nbytes)).result
    let prepared := prepareV2 (some sql) nbytes (.ok resp)
    prepared.rc = sqliteOk ∧ ∃ own rest tail,
      (prepareText (some sql) nbytes).toList = own ++ rest ∧ resp.tail.toNat = byteLen own ∧
      prepared.tail = some tail ∧
      ((tail ≤ bs.length ∧
          (∀ stmt, prepared.stmt = some stmt → stmt.sql.toList = lossy (bs.take tail)) ∧
          bs.drop tail = ((units bs).drop own.length).flatMap Prod.fst) ↔
        KeepsLength ((units bs).take own.length)) := by
  intro bs resp prepared
  have hnul : '\x00' ∉ (prepareText (some sql) nbytes).toList := sqlFrom_no_nul _ _
  obtain ⟨own, rest, htext, htail, hown⟩ := prepareMeta_tail hS f c hnul hlen hok
  obtain ⟨hrc, hptail, _, hstmt⟩ := prepareV2_tail htext htail hown
  refine ⟨hrc, own, rest, byteLen own, htext, htail, hptail, ?_⟩
  have hread : (units bs).map Prod.snd = own ++ rest := by
    rw [(units_splits bs).chars, ← htext, prepareText_eq]
  have hfirst : ((units bs).take own.length).map Prod.snd = own := by
    rw [List.map_take, hread, List.take_left' rfl]
  have hunits := (List.take_append_drop own.length (units bs)).symm
  have hdrop := drop_units_iff hunits
  have htake := lossy_take_units hunits
  rw [hfirst] at hdrop htake
  rw [← hdrop]
  constructor
  · rintro ⟨hinside, _, hleft⟩
    exact ⟨hinside, hleft⟩
  · intro hcut
    refine ⟨hcut.1, fun stmt hmade => ?_, hcut.2⟩
    rw [hstmt stmt hmade, htake (hdrop.mp hcut)]

section Examples

open EchoSqlite (engine)

theorem echo_cutsTexts : CutsTexts engine where
  stmt f c text st _ hstmt := by
    obtain ⟨hne, htail⟩ := EchoSqlite.stmt_of_prepare hstmt
    refine ⟨text, [], fun hnil => hne ?_, (List.append_nil _).symm, ?_⟩
    · rw [hnil, encode_nil]
    · rw [← length_encode]
      exact htail
  blank f c text _ hstmt :=
    .inr ⟨[], text, rfl, (EchoSqlite.blank_of_prepare hstmt).2⟩

/-- `SELECT 'é'` in UTF-8. -/
def utf8Query : Bytes :=
  [0x53, 0x45, 0x4C, 0x45, 0x43, 0x54, 0x20, 0x27, 0xC3, 0xA9, 0x27, 0]

/-- `SELECT 'é'` in Latin-1. -/
def latinQuery : Bytes :=
  [0x53, 0x45, 0x4C, 0x45, 0x43, 0x54, 0x20, 0x27, 0xE9, 0x27, 0]

/-- The answer of the broker to the prepare of a text. -/
def prepareAnswer (sql : Bytes) : Response :=
  (prepareMeta engine [] () (prepareText (some sql) (-1))).result

/-- A valid text is split where it ends. -/
theorem utf8_tail_inside : ∃ own tail, (prepareAnswer utf8Query).tail.toNat = byteLen own ∧
    (prepareV2 (some utf8Query) (-1) (.ok (prepareAnswer utf8Query))).tail = some tail ∧
    tail ≤ (supplied utf8Query (-1)).length := by
  obtain ⟨_, own, _, tail, htext, hresp, htail, hiff⟩ :=
    tail_splits_iff echo_cutsTexts [] () utf8Query (-1) (by decide) rfl
  have hkeeps : KeepsLength ((units (supplied utf8Query (-1))).take own.length) := by
    have hall : KeepsLength (units (supplied utf8Query (-1))) := by decide
    exact fun u hu => hall u (List.mem_of_mem_take hu)
  exact ⟨own, tail, hresp, htail, (hiff.mpr hkeeps).1⟩

/-- The ill-formed byte in the literal is read as a character of three bytes, and the tail
pointer stands behind the NUL that ends the text. -/
theorem latin_tail_outside :
    (prepareV2 (some latinQuery) (-1) (.ok (prepareAnswer latinQuery))).rc = sqliteOk ∧
      (prepareV2 (some latinQuery) (-1) (.ok (prepareAnswer latinQuery))).tail = some 12 ∧
      (supplied latinQuery (-1)).length = 10 ∧ latinQuery.length = 11 := by
  decide

end Examples

end SqliteBroker.StatementTails
