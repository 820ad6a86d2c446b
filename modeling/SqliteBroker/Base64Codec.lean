import SqliteBroker.Utf8Reading
import SqliteBroker.Messages

/-!
The base64 text of any bytes decodes to those bytes. A group of four digits carries
three bytes; the last group is padded when one or two bytes are left.
-/
namespace SqliteBroker.Messages.Base64

open Utf8

/-- Numbers without a common bit are joined by adding them. -/
theorem or_eq_add {a b i : ℕ} (ha : 2 ^ i ∣ a) (hb : b < 2 ^ i) : a ||| b = a + b := by
  obtain ⟨k, rfl⟩ := ha
  rw [Nat.mul_comm, ← Nat.shiftLeft_eq, Nat.shiftLeft_add_eq_or_of_lt hb]

theorem and_63 (n : ℕ) : n &&& 63 = n % 64 := Nat.and_two_pow_sub_one_eq_mod n 6

def sextet (n shift : ℕ) : ℕ := n / 2 ^ shift % 64

theorem sextet_lt (n shift : ℕ) : sextet n shift < 64 := Nat.mod_lt _ (by decide)

/-- What the table holds: digits that are read back, ASCII, and no padding. -/
theorem table_digit : ∀ k < 64, val (table.getD k 0) = some (UInt8.ofNat k) ∧
    (table.getD k 0).toNat ≤ 0x7F ∧ table.getD k 0 ≠ 61 := by decide +kernel

theorem table_ascii {k : ℕ} (h : k < 64) : (table.getD k 0).toNat ≤ 0x7F := (table_digit k h).2.1

theorem table_ne_pad {k : ℕ} (h : k < 64) : table.getD k 0 ≠ 61 := (table_digit k h).2.2

theorem encodeChar_ascii {b : UInt8} (h : b.toNat ≤ 0x7F) :
    String.utf8EncodeChar (Char.ofNat b.toNat) = [b] := by
  have hscalar : b.toNat.isValidChar := .inl (by omega)
  have hvalid : (Char.ofNat b.toNat).val.toNat = b.toNat := by
    rw [Char.ofNat, dif_pos hscalar]
    rfl
  unfold String.utf8EncodeChar
  rw [hvalid]
  dsimp only
  rw [if_pos h, UInt8.ofNat_toNat]

theorem encodeChar_digit (n shift : ℕ) :
    String.utf8EncodeChar (digit n shift) = [table.getD (sextet n shift) 0] := by
  have hindex : (n >>> shift) &&& 63 = sextet n shift := by
    rw [and_63, Nat.shiftRight_eq_div_pow, sextet]
  rw [digit, hindex]
  exact encodeChar_ascii (table_ascii (sextet_lt n shift))

theorem encodeChar_pad : String.utf8EncodeChar '=' = [61] := by decide

theorem val_digit (n shift : ℕ) :
    val (table.getD (sextet n shift) 0) = some (UInt8.ofNat (sextet n shift)) :=
  (table_digit _ (sextet_lt n shift)).1

theorem valOrPad_digit (n shift : ℕ) :
    valOrPad (table.getD (sextet n shift) 0) = some (UInt8.ofNat (sextet n shift)) := by
  rw [valOrPad, if_neg (table_ne_pad (sextet_lt n shift)), val_digit]

theorem valOrPad_pad : valOrPad 61 = some 0 := rfl

theorem toNat_sextet (n shift : ℕ) : (UInt8.ofNat (sextet n shift)).toNat = sextet n shift :=
  toNat_ofNat_byte (Nat.lt_trans (sextet_lt n shift) (by decide))

/-- Four values of six bits side by side. -/
theorem join_values {v0 v1 v2 v3 : ℕ} (h1 : v1 < 64) (h2 : v2 < 64) (h3 : v3 < 64) :
    (v0 <<< 18) ||| (v1 <<< 12) ||| (v2 <<< 6) ||| v3 =
      v0 * 262144 + v1 * 4096 + v2 * 64 + v3 := by
  simp only [Nat.shiftLeft_eq]
  have first : v0 * 2 ^ 18 ||| v1 * 2 ^ 12 = v0 * 2 ^ 18 + v1 * 2 ^ 12 :=
    or_eq_add (i := 18) (by omega) (by omega)
  rw [first]
  have second : v0 * 2 ^ 18 + v1 * 2 ^ 12 ||| v2 * 2 ^ 6 =
      v0 * 2 ^ 18 + v1 * 2 ^ 12 + v2 * 2 ^ 6 := or_eq_add (i := 12) (by omega) (by omega)
  rw [second, or_eq_add (i := 6) (by omega) (by omega)]
  rfl

/-- Four digits put the 24 bits of a group together again. -/
theorem join_sextets {n : ℕ} (h : n < 2 ^ 24) :
    (sextet n 18 <<< 18) ||| (sextet n 12 <<< 12) ||| (sextet n 6 <<< 6) ||| sextet n 0 = n := by
  rw [join_values (sextet_lt n 12) (sextet_lt n 6) (sextet_lt n 0)]
  simp only [sextet]
  omega

theorem group_eq (b0 b1 b2 : UInt8) : (b0.toNat <<< 16) ||| (b1.toNat <<< 8) ||| b2.toNat =
    b0.toNat * 65536 + b1.toNat * 256 + b2.toNat := by
  have h1 := b1.toNat_lt
  have h2 := b2.toNat_lt
  simp only [Nat.shiftLeft_eq]
  have first : b0.toNat * 2 ^ 16 ||| b1.toNat * 2 ^ 8 =
      b0.toNat * 2 ^ 16 + b1.toNat * 2 ^ 8 := or_eq_add (i := 16) (by omega) (by omega)
  rw [first, or_eq_add (i := 8) (by omega) (by omega)]
  rfl

theorem ofNat_eq_of_mod {n : ℕ} {b : UInt8} (h : n % 256 = b.toNat) : UInt8.ofNat n = b :=
  UInt8.toNat_inj.mp (by rw [UInt8.toNat_ofNat']; exact h)

/-- Decoding the four digits of a full group. -/
theorem decodeChunks_group {n : ℕ} (h : n < 2 ^ 24) (more : Bytes) :
    decodeChunks (table.getD (sextet n 18) 0 :: table.getD (sextet n 12) 0 ::
        table.getD (sextet n 6) 0 :: table.getD (sextet n 0) 0 :: more) =
      (decodeChunks more).map ([UInt8.ofNat (n >>> 16), UInt8.ofNat (n >>> 8), UInt8.ofNat n] ++ ·)
    := by
  have hpad6 := table_ne_pad (sextet_lt n 6)
  have hpad0 := table_ne_pad (sextet_lt n 0)
  rw [decodeChunks, val_digit, val_digit, valOrPad_digit, valOrPad_digit]
  simp only [hpad6, hpad0, false_and, if_false, toNat_sextet, join_sextets h,
    Option.bind_eq_bind, Option.bind_some]
  cases decodeChunks more <;> rfl

/-- Decoding a last group of two bytes. -/
theorem decodeChunks_pair {n : ℕ} (h : n < 2 ^ 24) (h0 : sextet n 0 = 0) :
    decodeChunks [table.getD (sextet n 18) 0, table.getD (sextet n 12) 0,
        table.getD (sextet n 6) 0, 61] = some [UInt8.ofNat (n >>> 16), UInt8.ofNat (n >>> 8)] := by
  have hpad6 := table_ne_pad (sextet_lt n 6)
  have hjoin := join_sextets h
  rw [h0] at hjoin
  rw [decodeChunks, val_digit, val_digit, valOrPad_digit, valOrPad_pad]
  simp only [hpad6, false_and, if_false, if_true, toNat_sextet, Option.bind_eq_bind,
    Option.bind_some, UInt8.toNat_zero, hjoin]
  rfl

/-- Decoding a last group of one byte. -/
theorem decodeChunks_single {n : ℕ} (h : n < 2 ^ 24) (h6 : sextet n 6 = 0) (h0 : sextet n 0 = 0) :
    decodeChunks [table.getD (sextet n 18) 0, table.getD (sextet n 12) 0, 61, 61] =
      some [UInt8.ofNat (n >>> 16)] := by
  have hjoin := join_sextets h
  rw [h6, h0] at hjoin
  rw [decodeChunks, val_digit, val_digit, valOrPad_pad]
  simp only [ne_eq, not_true_eq_false, and_false, if_false, if_true, toNat_sextet,
    Option.bind_eq_bind, Option.bind_some, UInt8.toNat_zero, hjoin]
  rfl

theorem decodeChunks_encodeChunks (data : Bytes) :
    decodeChunks (encode (encodeChunks data)) = some data := by
  induction data using encodeChunks.induct with
  | case1 b0 b1 b2 rest ih =>
    have hn := group_eq b0 b1 b2
    have h0 := b0.toNat_lt
    have h1 := b1.toNat_lt
    have h2 := b2.toNat_lt
    rw [encodeChunks, hn]
    simp only [encode_cons, encodeChar_digit, List.singleton_append]
    rw [decodeChunks_group (by omega), ih]
    simp only [Nat.shiftRight_eq_div_pow, Option.map_some]
    rw [ofNat_eq_of_mod (b := b0) (by omega), ofNat_eq_of_mod (b := b1) (by omega),
      ofNat_eq_of_mod (b := b2) (by omega)]
    rfl
  | case2 b0 b1 =>
    have hn := group_eq b0 b1 0
    rw [show (0 : UInt8).toNat = 0 from rfl, Nat.or_zero] at hn
    have h0 := b0.toNat_lt
    have h1 := b1.toNat_lt
    rw [encodeChunks, hn]
    simp only [encode_cons, encodeChar_digit, encodeChar_pad, List.singleton_append, encode_nil]
    rw [decodeChunks_pair (by omega) (by unfold sextet; omega)]
    simp only [Nat.shiftRight_eq_div_pow]
    rw [ofNat_eq_of_mod (b := b0) (by omega), ofNat_eq_of_mod (b := b1) (by omega)]
  | case3 b0 =>
    have h0 := b0.toNat_lt
    rw [encodeChunks, Nat.shiftLeft_eq]
    simp only [encode_cons, encodeChar_digit, encodeChar_pad, List.singleton_append, encode_nil]
    rw [decodeChunks_single (by omega) (by unfold sextet; omega) (by unfold sextet; omega)]
    simp only [Nat.shiftRight_eq_div_pow]
    rw [ofNat_eq_of_mod (b := b0) (by omega)]
  | case4 => rfl

/-- Encoding loses no byte. -/
theorem decodeBase64_encodeBase64 (data : Bytes) :
    decodeBase64 (encodeBase64 data) = some data := by
  rw [decodeBase64, encodeBase64, String.toList_ofList, decodeChunks_encodeChunks]

theorem length_encode_encodeChunks (data : Bytes) :
    (encode (encodeChunks data)).length = 4 * ((data.length + 2) / 3) := by
  induction data using encodeChunks.induct with
  | case1 b0 b1 b2 rest ih =>
    rw [encodeChunks]
    simp only [encode_cons, encodeChar_digit, List.singleton_append, List.length_cons, ih]
    omega
  | case2 b0 b1 =>
    rw [encodeChunks]
    simp only [encode_cons, encodeChar_digit, encodeChar_pad, encode_nil,
      List.singleton_append, List.length_cons, List.length_nil]
  | case3 b0 =>
    rw [encodeChunks]
    simp only [encode_cons, encodeChar_digit, encodeChar_pad, encode_nil,
      List.singleton_append, List.length_cons, List.length_nil]
  | case4 => rfl

/-- The text of any bytes decodes to them again and is four bytes long for every three
bytes, a shorter last group counted in full. -/
theorem encoding_read_back (data : Bytes) :
    decodeBase64 (encodeBase64 data) = some data ∧
      (encode (encodeBase64 data).toList).length = 4 * ((data.length + 2) / 3) := by
  refine ⟨decodeBase64_encodeBase64 data, ?_⟩
  rw [encodeBase64, String.toList_ofList]
  exact length_encode_encodeChunks data

end SqliteBroker.Messages.Base64
