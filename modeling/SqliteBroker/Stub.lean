import SqliteBroker.TextParts
import SqliteBroker.Utf8Reading

/-!
The stub: the text that the broker puts in the place of a database file, with the address that
clients connect to. An address is read back exactly when it is a word, and only words are read.
-/
namespace SqliteBroker.Stub

open Utf8 TextParts

def stubMagic : String := "SQLITEBROKER1"

def formatStub (addr : String) : String := s!"{stubMagic}\n{addr}\n"

/-- `str::from_utf8`. -/
def fromUtf8 (bytes : Bytes) : Option (List Char) :=
  if encode (lossy bytes) = bytes then some (lossy bytes) else none

def parseStub (bytes : Bytes) : Option String := do
  let text ← fromUtf8 bytes
  let first ← (lines text)[0]?
  if first ≠ stubMagic.toList then none
  else
    let addr := trim (← (lines text)[1]?)
    if addr.isEmpty ∨ addr.any isWhitespace then none else some (String.ofList addr)

/-- The body that `write_stub` puts into the file. -/
def stubBytes (addr : String) : Bytes := encode (formatStub addr).toList

/-- The bytes that every SQLite file begins with. -/
def sqliteHeader : Bytes := encode "SQLite format 3\x00".toList

/-- An address that a stub can carry. -/
def IsAddr (addr : String) : Prop := IsWord addr.toList

theorem fromUtf8_eq_some_iff {bytes : Bytes} {text : List Char} :
    fromUtf8 bytes = some text ↔ bytes = encode text := by
  unfold fromUtf8
  constructor
  · intro h
    split at h
    · next heq =>
      obtain rfl := Option.some.inj h
      exact heq.symm
    · cases h
  · rintro rfl
    rw [lossy_encode, if_pos rfl]

/-- What an accepted text looks like. -/
theorem parseStub_eq_some_iff {bytes : Bytes} {addr : String} :
    parseStub bytes = some addr ↔ ∃ text line, bytes = encode text ∧
      (lines text)[0]? = some stubMagic.toList ∧ (lines text)[1]? = some line ∧
      trim line = addr.toList ∧ IsAddr addr := by
  unfold parseStub
  simp only [Option.bind_eq_bind, Option.bind_eq_some_iff, fromUtf8_eq_some_iff]
  constructor
  · rintro ⟨text, rfl, first, hfirst, h⟩
    split at h
    · cases h
    · next hmagic =>
      obtain ⟨line, hline, h⟩ := Option.bind_eq_some_iff.mp h
      split at h
      · cases h
      · next hchecks =>
        obtain rfl := Option.some.inj h
        obtain ⟨hempty, hblank⟩ := not_or.mp hchecks
        refine ⟨text, line, rfl, by rw [hfirst, not_not.mp hmagic], hline, ?_, ?_, ?_⟩
        · rw [String.toList_ofList]
        · rw [String.toList_ofList]
          simpa using hempty
        · rw [String.toList_ofList]
          simpa using hblank
  · rintro ⟨text, line, rfl, hfirst, hline, htrim, hnil, hsolid⟩
    refine ⟨text, rfl, _, hfirst, ?_⟩
    have hchecks : ¬ (addr.toList.isEmpty = true ∨ addr.toList.any isWhitespace = true) := by
      simpa [hnil] using hsolid
    rw [if_neg (not_not_intro rfl), hline, Option.bind_some]
    simp only [htrim]
    rw [if_neg hchecks, String.ofList_toList]

theorem dropWhile_word {w : List Char} (h : ∀ c ∈ w, isWhitespace c = false) :
    w.dropWhile isWhitespace = w := by
  cases w with
  | nil => rfl
  | cons c rest => exact dropWhile_solid rest (h c List.mem_cons_self)

theorem trim_word {w : List Char} (h : ∀ c ∈ w, isWhitespace c = false) : trim w = w := by
  unfold trim
  rw [dropWhile_word h, dropWhile_word (fun c hc => h c (List.mem_reverse.mp hc)),
    List.reverse_reverse]

theorem lines_formatStub {addr : String} (h : IsAddr addr) :
    lines (formatStub addr).toList = [stubMagic.toList, addr.toList] := by
  have hrows : (formatStub addr).toList =
      [stubMagic.toList, addr.toList].flatMap (· ++ ['\n']) := by
    simp [formatStub, toString]
  rw [hrows]
  apply lines_flatMap
  simp only [List.forall_mem_cons]
  refine ⟨by decide, ⟨fun hmem => ?_, fun hmem => ?_⟩, nofun⟩
  · exact absurd (h.solid _ hmem) (by decide)
  · exact absurd (h.solid _ hmem) (by decide)

/-- A word that is written as a stub is read from it. -/
theorem parseStub_stubBytes {addr : String} (h : IsAddr addr) :
    parseStub (stubBytes addr) = some addr := by
  have hlines := lines_formatStub h
  refine parseStub_eq_some_iff.mpr ⟨_, addr.toList, rfl, ?_, ?_, trim_word h.solid, h⟩
  · rw [hlines]
    rfl
  · rw [hlines]
    rfl

theorem chomp_head (line : List Char) : chomp line <+: line := by
  unfold chomp
  split
  · exact List.dropLast_prefix line
  · exact List.prefix_refl line

theorem splitLines_head {line text first : List Char}
    (h : (splitLines line text)[0]? = some first) : first <+: line ++ text := by
  induction text generalizing line with
  | nil =>
    rw [splitLines] at h
    split at h
    · cases h
    · obtain rfl := Option.some.inj h
      exact List.prefix_append _ _
  | cons c rest ih =>
    rw [splitLines] at h
    split at h
    · obtain rfl := Option.some.inj h
      exact (chomp_head line).trans (List.prefix_append _ _)
    · simpa using ih h

/-- The first line is what a text begins with. -/
theorem first_line_head {text first : List Char} (h : (lines text)[0]? = some first) :
    first <+: text :=
  splitLines_head h

/-- A stub and a SQLite file differ in their fourth byte. -/
theorem parseStub_sqliteFile {bytes : Bytes} (h : sqliteHeader <+: bytes) :
    parseStub bytes = none := by
  rw [← Option.not_isSome_iff_eq_none]
  intro hsome
  obtain ⟨addr, haddr⟩ := Option.isSome_iff_exists.mp hsome
  obtain ⟨text, _, rfl, hfirst, _⟩ := parseStub_eq_some_iff.mp haddr
  obtain ⟨more, rfl⟩ := first_line_head hfirst
  rw [encode_append] at h
  have hmagic : encode stubMagic.toList <+: encode stubMagic.toList ++ encode more :=
    List.prefix_append _ _
  rcases List.prefix_or_prefix_of_prefix h hmagic with hprefix | hprefix
  · exact absurd hprefix (by decide)
  · exact absurd hprefix (by decide)

theorem isAddr_iff {addr : String} :
    IsAddr addr ↔ addr ≠ "" ∧ ∀ c ∈ addr.toList, isWhitespace c = false := by
  have hnil : addr.toList ≠ [] ↔ addr ≠ "" := by simp
  exact ⟨fun h => ⟨hnil.mp h.ne_nil, h.solid⟩, fun h => ⟨hnil.mpr h.1, h.2⟩⟩

/-- An address is read back from its stub exactly when it is a word; whatever is read is such
an address, behind the magic word in a valid text; and no SQLite file is read as a stub. -/
theorem stub_round_trip :
    (∀ addr : String, parseStub (encode (formatStub addr).toList) = some addr ↔
      addr ≠ "" ∧ ∀ c ∈ addr.toList, isWhitespace c = false) ∧
    (∀ (bytes : Bytes) (addr : String), parseStub bytes = some addr →
      (∃ text, bytes = encode text ∧ (lines text).head? = some stubMagic.toList) ∧
      addr ≠ "" ∧ (∀ c ∈ addr.toList, isWhitespace c = false) ∧
      parseStub (encode (formatStub addr).toList) = some addr) ∧
    (∀ bytes : Bytes, encode "SQLite format 3\x00".toList <+: bytes → parseStub bytes = none) := by
  refine ⟨fun addr => ⟨fun h => ?_, fun h => parseStub_stubBytes (isAddr_iff.mpr h)⟩,
    fun bytes addr h => ?_, fun bytes h => parseStub_sqliteFile h⟩
  · obtain ⟨_, _, _, _, _, _, haddr⟩ := parseStub_eq_some_iff.mp h
    exact isAddr_iff.mp haddr
  · obtain ⟨text, _, hbytes, hfirst, _, _, haddr⟩ := parseStub_eq_some_iff.mp h
    obtain ⟨hne, hsolid⟩ := isAddr_iff.mp haddr
    refine ⟨⟨text, hbytes, ?_⟩, hne, hsolid, parseStub_stubBytes haddr⟩
    rw [List.head?_eq_getElem?]
    exact hfirst

/-- A stub with carriage returns and blanks around its address, and the header of a file. -/
theorem windows_stub :
    parseStub (stubBytes "127.0.0.1:9") = some "127.0.0.1:9" ∧
      parseStub sqliteHeader = none := by
  obtain ⟨_, haccepted, hheader⟩ := stub_round_trip
  have hstub : parseStub (encode "SQLITEBROKER1\r\n 127.0.0.1:9 \r\n".toList) =
      some "127.0.0.1:9" := rfl
  exact ⟨(haccepted _ _ hstub).2.2.2, hheader _ (List.prefix_refl _)⟩

end SqliteBroker.Stub
