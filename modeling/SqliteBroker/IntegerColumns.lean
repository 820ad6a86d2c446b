import Mathlib.Data.List.TakeWhile
import SqliteBroker.AsciiBytes
import SqliteBroker.StepCycle

/-!
Integers from texts and blobs. SQLite reads an integer off the front of the bytes and ignores
what follows; the shim parses a text as a whole or not at all, and gives zero for every blob.
-/
namespace SqliteBroker.IntegerColumns

open Utf8 Messages Engine ShimConnection SqlValues ShimStatement StepCycle
open Execution (okClosed)

section Conversion

def isSpace (b : UInt8) : Bool := b = 0x20 ∨ (0x09 ≤ b ∧ b ≤ 0x0D)

def isDigit (b : UInt8) : Bool := 0x30 ≤ b ∧ b ≤ 0x39

/-- Whether the bytes begin with a minus, and what stands behind the sign. -/
def splitSign : Bytes → Bool × Bytes
  | [] => (false, [])
  | b :: rest =>
    if b = 0x2D then (true, rest) else if b = 0x2B then (false, rest) else (false, b :: rest)

/-- The digits that the conversion reads. -/
def digitRun (bytes : Bytes) : Bytes :=
  (splitSign (bytes.dropWhile isSpace)).2.takeWhile isDigit

def runValue (run : Bytes) : ℕ := run.foldl (fun n b => 10 * n + (b.toNat - 48)) 0

/-- The conversion that SQLite documents: blanks are skipped, an optional sign and the digits
behind it are read, and the value is clamped. Without digits it is zero. -/
def convert (bytes : Bytes) : Int64 :=
  let value : ℤ := runValue (digitRun bytes)
  Int64.ofIntClamp (if (splitSign (bytes.dropWhile isSpace)).1 then -value else value)

example : convert (encode "\t -12 apples".toList) = -12 := rfl

end Conversion

section Zero

theorem clamp_eq_zero {v : ℤ} : Int64.ofIntClamp v = 0 ↔ v = 0 := by
  constructor
  · intro h
    unfold Int64.ofIntClamp at h
    split at h
    · split at h
      · next hlow hhigh =>
        have hv : (Int64.ofIntLE v hlow hhigh).toInt = v := Int64.toInt_ofIntLE
        rw [h] at hv
        exact hv.symm
      · exact absurd h (by decide)
    · exact absurd h (by decide)
  · rintro rfl
    rfl

theorem foldl_eq_zero {run : Bytes} (hrun : ∀ b ∈ run, isDigit b = true) (n : ℕ) :
    run.foldl (fun n b => 10 * n + (b.toNat - 48)) n = 0 ↔ n = 0 ∧ ∀ b ∈ run, b = 0x30 := by
  induction run generalizing n with
  | nil => simp
  | cons b rest ih =>
    obtain ⟨hb, hrest⟩ := List.forall_mem_cons.mp hrun
    have hdigit : b.toNat - 48 = 0 ↔ b = 0x30 := by
      simp only [isDigit, decide_eq_true_eq, UInt8.le_iff_toNat_le, UInt8.reduceToNat] at hb
      simp only [← UInt8.toNat_inj, UInt8.reduceToNat]
      omega
    rw [List.foldl_cons, ih hrest, List.forall_mem_cons, ← hdigit, Nat.add_eq_zero_iff,
      and_assoc]
    simp

/-- The conversion gives zero exactly when it reads no digit other than 0. -/
theorem convert_eq_zero {bytes : Bytes} : convert bytes = 0 ↔ ∀ b ∈ digitRun bytes, b = 0x30 := by
  have hrun : ∀ b ∈ digitRun bytes, isDigit b = true := fun b hb => List.mem_takeWhile_imp hb
  have hvalue : runValue (digitRun bytes) = 0 ↔ ∀ b ∈ digitRun bytes, b = 0x30 := by
    rw [runValue, foldl_eq_zero hrun]
    simp
  rw [← hvalue, convert, clamp_eq_zero]
  split <;> omega

end Zero

section Numerals

/-- Nothing but digits, and at least one. -/
def Digits (cs : List Char) : Prop := cs ≠ [] ∧ ∀ c ∈ cs, c.isDigit = true

/-- The characters are an integer of 64 bits in full: an optional sign and digits. -/
inductive Numeral : List Char → ℤ → Prop
  | plain {cs : List Char} : Digits cs → Nat.ofDigitChars 10 cs 0 < 2 ^ 63 →
      Numeral cs (Nat.ofDigitChars 10 cs 0)
  | plus {cs : List Char} : Digits cs → Nat.ofDigitChars 10 cs 0 < 2 ^ 63 →
      Numeral ('+' :: cs) (Nat.ofDigitChars 10 cs 0)
  | minus {cs : List Char} : Digits cs → Nat.ofDigitChars 10 cs 0 ≤ 2 ^ 63 →
      Numeral ('-' :: cs) (-(Nat.ofDigitChars 10 cs 0 : ℤ))

variable {cs : List Char} {v : ℤ}

theorem parseDigits_iff {n : ℕ} :
    Decimal.parseDigits cs = some n ↔ Digits cs ∧ Nat.ofDigitChars 10 cs 0 = n := by
  unfold Decimal.parseDigits Digits
  rw [← List.all_eq_true]
  split
  · next h => simp [h]
  · next h => exact iff_of_false (by simp) (fun hcs => h hcs.1)

theorem digit_front {c : Char} (h : Digits (c :: cs)) : c ≠ '+' ∧ c ≠ '-' := by
  have hc := h.2 c List.mem_cons_self
  refine ⟨?_, ?_⟩
  all_goals
    rintro rfl
    exact absurd hc (by decide)

theorem parseUnsigned_iff {n : ℕ} : Decimal.parseUnsigned 63 cs = some n ↔
    n < 2 ^ 63 ∧ ((Digits cs ∧ Nat.ofDigitChars 10 cs 0 = n) ∨
      ∃ rest, cs = '+' :: rest ∧ Digits rest ∧ Nat.ofDigitChars 10 rest 0 = n) := by
  unfold Decimal.parseUnsigned
  rw [Option.filter_eq_some_iff, decide_eq_true_eq, and_comm, and_congr_right_iff]
  intro _
  split
  · next rest =>
    rw [parseDigits_iff]
    constructor
    · intro hrest
      exact .inr ⟨rest, rfl, hrest⟩
    · rintro (⟨hdigits, _⟩ | ⟨_, heq, hrest⟩)
      · exact absurd rfl (digit_front hdigits).1
      · obtain rfl := (List.cons.inj heq).2
        exact hrest
  · next hother =>
    rw [parseDigits_iff]
    constructor
    · exact .inl
    · rintro (hdigits | ⟨rest, rfl, _⟩)
      · exact hdigits
      · exact absurd rfl (hother rest)

/-- The parser accepts exactly the numerals. -/
theorem parseSigned_iff : Decimal.parseSigned 64 cs = some v ↔ Numeral cs v := by
  unfold Decimal.parseSigned
  split
  · next rest =>
    simp only [Option.map_eq_some_iff, Option.bind_eq_bind, Option.bind_eq_some_iff,
      Option.filter_eq_some_iff, parseDigits_iff, decide_eq_true_eq, Option.pure_def,
      Option.some.injEq]
    constructor
    · rintro ⟨_, ⟨n, ⟨⟨hdigits, rfl⟩, hsmall⟩, rfl⟩, rfl⟩
      exact .minus hdigits hsmall
    · intro h
      cases h with
      | plain hdigits hsmall => exact absurd rfl (digit_front hdigits).2
      | minus hdigits hsmall => exact ⟨_, ⟨_, ⟨⟨hdigits, rfl⟩, hsmall⟩, rfl⟩, rfl⟩
  · next hother =>
    simp only [Option.map_eq_some_iff, Option.bind_eq_bind, Option.bind_eq_some_iff,
      Nat.reduceSub, parseUnsigned_iff, Option.pure_def, Option.some.injEq]
    constructor
    · rintro ⟨_, ⟨n, ⟨hsmall, ⟨hdigits, rfl⟩ | ⟨rest, rfl, hdigits, rfl⟩⟩, rfl⟩, rfl⟩
      · exact .plain hdigits hsmall
      · exact .plus hdigits hsmall
    · intro h
      cases h with
      | plain hdigits hsmall => exact ⟨_, ⟨_, ⟨hsmall, .inl ⟨hdigits, rfl⟩⟩, rfl⟩, rfl⟩
      | plus hdigits hsmall => exact ⟨_, ⟨_, ⟨hsmall, .inr ⟨_, rfl, hdigits, rfl⟩⟩, rfl⟩, rfl⟩
      | minus hdigits hsmall => exact absurd rfl (hother _)

theorem digit_byte {c : Char} (h : c.isDigit = true) : String.utf8EncodeChar c =
    [UInt8.ofNat c.toNat] ∧ (UInt8.ofNat c.toNat).toNat = c.toNat ∧
      isDigit (UInt8.ofNat c.toNat) = true := by
  have hrange : 48 ≤ c.toNat ∧ c.toNat ≤ 57 := by
    simpa [Char.isDigit, UInt32.le_iff_toNat_le] using h
  have hbyte : (UInt8.ofNat c.toNat).toNat = c.toNat := toNat_ofNat_byte (by omega)
  refine ⟨encodeChar_ascii (by omega), hbyte, ?_⟩
  rw [isDigit, decide_eq_true_eq, UInt8.le_iff_toNat_le, UInt8.le_iff_toNat_le, hbyte]
  exact hrange

/-- Digits are encoded as digits with the same value. -/
theorem encode_digits (h : ∀ c ∈ cs, c.isDigit = true) :
    (∀ b ∈ encode cs, isDigit b = true) ∧
      ∀ n, (encode cs).foldl (fun n b => 10 * n + (b.toNat - 48)) n =
        Nat.ofDigitChars 10 cs n := by
  induction cs with
  | nil => exact ⟨nofun, fun n => Nat.ofDigitChars_nil.symm⟩
  | cons c rest ih =>
    obtain ⟨hc, hrest⟩ := List.forall_mem_cons.mp h
    obtain ⟨hone, hbyte, hdigit⟩ := digit_byte hc
    obtain ⟨hbytes, hvalue⟩ := ih hrest
    rw [encode_cons, hone, List.singleton_append]
    refine ⟨List.forall_mem_cons.mpr ⟨hdigit, hbytes⟩, fun n => ?_⟩
    rw [List.foldl_cons, hvalue, hbyte, Nat.ofDigitChars_cons]
    rfl

/-- Bytes that are digits behind a sign, or without one, are converted in full. -/
theorem convert_full {bytes : Bytes} {negative : Bool} (h : Digits cs)
    (hfront : bytes.dropWhile isSpace = bytes) (hsplit : splitSign bytes = (negative, encode cs)) :
    convert bytes = Int64.ofIntClamp (if negative then -(Nat.ofDigitChars 10 cs 0 : ℤ)
      else Nat.ofDigitChars 10 cs 0) := by
  obtain ⟨hbytes, hvalue⟩ := encode_digits h.2
  have hrun : (encode cs).takeWhile isDigit = encode cs := List.takeWhile_eq_self_iff.mpr hbytes
  have hvalue : runValue (encode cs) = Nat.ofDigitChars 10 cs 0 := hvalue 0
  rw [convert, digitRun, hfront, hsplit]
  dsimp only
  rw [hrun, hvalue]

theorem clamp_of_range (hlow : -2 ^ 63 ≤ v) (hhigh : v < 2 ^ 63) :
    Int64.ofIntClamp v = Int64.ofInt v := by
  apply Int64.toInt_inj.mp
  rw [Int64.toInt_ofInt_of_le hlow hhigh]
  exact Int64.toInt_ofIntClamp hlow (Int.le_of_lt_add_one hhigh)

theorem digit_bytes {b : UInt8} {rest : Bytes} (h : isDigit b = true) :
    (b :: rest).dropWhile isSpace = b :: rest ∧ splitSign (b :: rest) = (false, b :: rest) := by
  have hspace : isSpace b = false := by
    simp only [isDigit, decide_eq_true_eq, UInt8.le_iff_toNat_le, UInt8.reduceToNat] at h
    simp only [isSpace, decide_eq_false_iff_not, ← UInt8.toNat_inj, UInt8.le_iff_toNat_le,
      UInt8.reduceToNat]
    omega
  refine ⟨List.dropWhile_cons_of_neg (by simp [hspace]), ?_⟩
  rw [splitSign, if_neg, if_neg]
  all_goals
    rintro rfl
    exact absurd h (by decide)

/-- A numeral is converted to the value that the parser gives. -/
theorem numeral_convert (h : Numeral cs v) : convert (encode cs) = Int64.ofInt v := by
  cases h with
  | plain hdigits hsmall =>
    obtain ⟨c, rest, rfl⟩ := List.exists_cons_of_ne_nil hdigits.1
    obtain ⟨hone, _, hdigit⟩ := digit_byte (hdigits.2 c List.mem_cons_self)
    have hbytes : encode (c :: rest) = UInt8.ofNat c.toNat :: encode rest := by
      rw [encode_cons, hone, List.singleton_append]
    obtain ⟨hfront, hsplit⟩ := @digit_bytes _ (encode rest) hdigit
    rw [← hbytes] at hfront hsplit
    rw [convert_full hdigits hfront hsplit, if_neg Bool.false_ne_true]
    exact clamp_of_range (by omega) (by exact_mod_cast hsmall)
  | @plus cs hdigits hsmall =>
    have hfront : (encode ('+' :: cs)).dropWhile isSpace = encode ('+' :: cs) := rfl
    have hsplit : splitSign (encode ('+' :: cs)) = (false, encode cs) := rfl
    rw [convert_full hdigits hfront hsplit, if_neg Bool.false_ne_true]
    exact clamp_of_range (by omega) (by exact_mod_cast hsmall)
  | @minus cs hdigits hsmall =>
    have hfront : (encode ('-' :: cs)).dropWhile isSpace = encode ('-' :: cs) := rfl
    have hsplit : splitSign (encode ('-' :: cs)) = (true, encode cs) := rfl
    rw [convert_full hdigits hfront hsplit, if_pos rfl]
    exact clamp_of_range (by omega) (by omega)

end Numerals

section Columns

/-- The integer of a column. For a text it is SQLite's exactly when the text is an integer in
full, or nothing but zeros is read off its front; for a blob exactly when nothing but zeros is. -/
theorem int64_converts_iff (stmt : ProxyStmt) (i : Int32) :
    (∀ v, stmt.cellAt i = some (.text v) →
      (stmt.columnInt64 i = convert (encode v.toList) ↔
        (∃ n, Numeral v.toList n) ∨ ∀ b ∈ digitRun (encode v.toList), b = 0x30)) ∧
    ∀ v bytes, stmt.cellAt i = some (.blob v) → blobBytes (.blob v) = some bytes →
      (stmt.columnInt64 i = convert bytes ↔ ∀ b ∈ digitRun bytes, b = 0x30) := by
  refine ⟨fun v hcell => ?_, fun v bytes hcell _ => ?_⟩
  · have hcolumn : stmt.columnInt64 i =
        ((Decimal.parseSigned 64 v.toList).map Int64.ofInt).getD 0 := by
      rw [ProxyStmt.columnInt64, hcell]
    rw [hcolumn]
    cases hparse : Decimal.parseSigned 64 v.toList with
    | some n =>
      have hnumeral := parseSigned_iff.mp hparse
      exact iff_of_true (numeral_convert hnumeral).symm (.inl ⟨n, hnumeral⟩)
    | none =>
      have hno : ¬ ∃ n, Numeral v.toList n := by
        rintro ⟨n, hnumeral⟩
        rw [parseSigned_iff.mpr hnumeral] at hparse
        cases hparse
      rw [or_iff_right hno, ← convert_eq_zero]
      exact eq_comm
  · have hcolumn : stmt.columnInt64 i = 0 := by
      rw [ProxyStmt.columnInt64, hcell]
    rw [hcolumn, ← convert_eq_zero]
    exact eq_comm

/-- A statement on a row of one cell. -/
def onCell (cell : Cell) : ProxyStmt :=
  runCalls noFloats (.create "SELECT v FROM t" okClosed)
    [.step (.ok { okClosed with columns := ["v"], rows := [[cell]] })]

/-- The text `12 apples` and the blob `12` are both 12 for SQLite, and zero here. -/
theorem apples_lost :
    (¬ ∀ stmt i v, ProxyStmt.cellAt stmt i = some (.text v) →
      stmt.columnInt64 i = convert (encode v.toList)) ∧
    ¬ ∀ stmt i v bytes, ProxyStmt.cellAt stmt i = some (.blob v) →
      blobBytes (.blob v) = some bytes → stmt.columnInt64 i = convert bytes := by
  constructor
  · intro h
    have hlost := h (onCell (.text "12 apples")) 0 "12 apples" rfl
    revert hlost
    decide
  · intro h
    have hlost := h (onCell (.blob "MTI=")) 0 "MTI=" (encode "12".toList) rfl rfl
    revert hlost
    decide

theorem whole_text_converted :
    (onCell (.text "-12")).columnInt64 0 = convert (encode "-12".toList) ∧
      (onCell (.blob "MDA=")).columnInt64 0 = convert (encode "00".toList) := by
  obtain ⟨htext, _⟩ := int64_converts_iff (onCell (.text "-12")) 0
  obtain ⟨_, hblob⟩ := int64_converts_iff (onCell (.blob "MDA=")) 0
  have hdigits : Digits ['1', '2'] := ⟨by decide, List.all_eq_true.mp rfl⟩
  have hnumeral : Numeral "-12".toList (-12) := .minus hdigits (by decide)
  exact ⟨(htext "-12" rfl).mpr (.inl ⟨_, hnumeral⟩),
    (hblob "MDA=" (encode "00".toList) rfl rfl).mpr
      (by decide +kernel)⟩

end Columns

end SqliteBroker.IntegerColumns
