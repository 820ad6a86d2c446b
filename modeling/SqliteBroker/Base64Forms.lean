import SqliteBroker.Base64Codec

/-!
What the decoder accepts beyond the encodings. It reads every group alike: padding may
stand in any group, and the bits that a padded group leaves over may be anything.
-/
namespace SqliteBroker.Messages.Base64

open Utf8

/-- The groups that the decoder reads: two digits, then two places for digits, of which
the last or both may hold the padding byte. -/
def Readable : Bytes → Prop
  | c0 :: c1 :: c2 :: c3 :: rest =>
    (val c0).isSome ∧ (val c1).isSome ∧ (valOrPad c2).isSome ∧ (valOrPad c3).isSome ∧
      (c2 = 61 → c3 = 61) ∧ Readable rest
  | [] => True
  | _ => False

/-- The six bits of a digit; padding counts as zero. -/
def bits (c : UInt8) : ℕ := ((valOrPad c).getD 0).toNat

/-- Padding ends the text, and the digit before it leaves no bit over: two bits of the
third digit, or four of the second. -/
def Canonical : Bytes → Prop
  | _ :: c1 :: c2 :: c3 :: rest =>
    (c3 = 61 → rest = [] ∧ if c2 = 61 then bits c1 % 16 = 0 else bits c2 % 4 = 0) ∧
      Canonical rest
  | _ => True

instance decidableReadable : (text : Bytes) → Decidable (Readable text)
  | c0 :: c1 :: c2 :: c3 :: rest =>
    have := decidableReadable rest
    inferInstanceAs (Decidable ((val c0).isSome ∧ (val c1).isSome ∧ (valOrPad c2).isSome ∧
      (valOrPad c3).isSome ∧ (c2 = 61 → c3 = 61) ∧ Readable rest))
  | [] => inferInstanceAs (Decidable True)
  | [_] => inferInstanceAs (Decidable False)
  | [_, _] => inferInstanceAs (Decidable False)
  | [_, _, _] => inferInstanceAs (Decidable False)

instance decidableCanonical : (text : Bytes) → Decidable (Canonical text)
  | _ :: c1 :: c2 :: c3 :: rest =>
    have := decidableCanonical rest
    inferInstanceAs (Decidable ((c3 = 61 → rest = [] ∧
      if c2 = 61 then bits c1 % 16 = 0 else bits c2 % 4 = 0) ∧ Canonical rest))
  | [] => inferInstanceAs (Decidable True)
  | [_] => inferInstanceAs (Decidable True)
  | [_, _] => inferInstanceAs (Decidable True)
  | [_, _, _] => inferInstanceAs (Decidable True)

theorem val_cases : ∀ k < 256, (val (UInt8.ofNat k)).all (fun v =>
    v.toNat < 64 && table.getD v.toNat 0 == UInt8.ofNat k) = true := by decide +kernel

/-- A digit is the one that the table has for its value. -/
theorem val_some {c v : UInt8} (h : val c = some v) :
    v.toNat < 64 ∧ table.getD v.toNat 0 = c := by
  have hall := val_cases c.toNat c.toNat_lt
  rw [UInt8.ofNat_toNat, h, Option.all_some, Bool.and_eq_true, decide_eq_true_eq,
    beq_iff_eq] at hall
  exact hall

theorem valOrPad_some {c v : UInt8} (h : valOrPad c = some v) : v.toNat < 64 := by
  unfold valOrPad at h
  split at h
  · cases h
    decide
  · exact (val_some h).1

theorem val_of_valOrPad {c v : UInt8} (h : valOrPad c = some v) (hpad : c ≠ 61) :
    val c = some v := by
  rwa [valOrPad, if_neg hpad] at h

theorem valOrPad_of_val {c v : UInt8} (h : val c = some v) : valOrPad c = some v := by
  have hpad : c ≠ 61 := by
    rintro rfl
    cases h
  rwa [valOrPad, if_neg hpad]

/-- The bytes of a group with the given 24 bits. -/
def groupBytes (n : ℕ) (c2 c3 : UInt8) : Bytes :=
  if c3 ≠ 61 then [UInt8.ofNat (n >>> 16), UInt8.ofNat (n >>> 8), UInt8.ofNat n]
  else if c2 ≠ 61 then [UInt8.ofNat (n >>> 16), UInt8.ofNat (n >>> 8)]
  else [UInt8.ofNat (n >>> 16)]

/-- The four values of a group that the decoder reads. -/
structure Group (c0 c1 c2 c3 : UInt8) where
  v0 : UInt8
  v1 : UInt8
  v2 : UInt8
  v3 : UInt8
  first : val c0 = some v0
  second : val c1 = some v1
  third : valOrPad c2 = some v2
  fourth : valOrPad c3 = some v3
  padded : c2 = 61 → c3 = 61

namespace Group

variable {c0 c1 c2 c3 : UInt8} (g : Group c0 c1 c2 c3)

def value : ℕ :=
  g.v0.toNat * 262144 + g.v1.toNat * 4096 + g.v2.toNat * 64 + g.v3.toNat

theorem value_lt : g.value < 2 ^ 24 := by
  have h0 := (val_some g.first).1
  have h1 := (val_some g.second).1
  have h2 := valOrPad_some g.third
  have h3 := valOrPad_some g.fourth
  unfold value
  omega

theorem join_eq : (g.v0.toNat <<< 18) ||| (g.v1.toNat <<< 12) ||| (g.v2.toNat <<< 6) |||
    g.v3.toNat = g.value :=
  join_values (val_some g.second).1 (valOrPad_some g.third) (valOrPad_some g.fourth)

theorem sextets : sextet g.value 18 = g.v0.toNat ∧ sextet g.value 12 = g.v1.toNat ∧
    sextet g.value 6 = g.v2.toNat ∧ sextet g.value 0 = g.v3.toNat := by
  have h0 := (val_some g.first).1
  have h1 := (val_some g.second).1
  have h2 := valOrPad_some g.third
  have h3 := valOrPad_some g.fourth
  unfold sextet value
  omega

theorem first_digit : table.getD (sextet g.value 18) 0 = c0 := by
  rw [g.sextets.1]
  exact (val_some g.first).2

theorem second_digit : table.getD (sextet g.value 12) 0 = c1 := by
  rw [g.sextets.2.1]
  exact (val_some g.second).2

theorem third_digit (h : c2 ≠ 61) : table.getD (sextet g.value 6) 0 = c2 := by
  rw [g.sextets.2.2.1]
  exact (val_some (val_of_valOrPad g.third h)).2

theorem fourth_digit (h : c3 ≠ 61) : table.getD (sextet g.value 0) 0 = c3 := by
  rw [g.sextets.2.2.2]
  exact (val_some (val_of_valOrPad g.fourth h)).2

theorem second_bits : bits c1 = g.v1.toNat := by
  rw [bits, valOrPad_of_val g.second, Option.getD_some]

theorem third_bits : bits c2 = g.v2.toNat := by
  rw [bits, g.third, Option.getD_some]

theorem third_pad (h : c2 = 61) : g.v2 = 0 := by
  have hthird := g.third
  rw [valOrPad, if_pos h] at hthird
  exact (Option.some.inj hthird).symm

theorem fourth_pad (h : c3 = 61) : g.v3 = 0 := by
  have hfourth := g.fourth
  rw [valOrPad, if_pos h] at hfourth
  exact (Option.some.inj hfourth).symm

end Group

/-- What one group adds to the decoded bytes. -/
theorem decodeChunks_eq_some_iff (c0 c1 c2 c3 : UInt8) (rest out : Bytes) :
    decodeChunks (c0 :: c1 :: c2 :: c3 :: rest) = some out ↔
      ∃ (g : Group c0 c1 c2 c3) (more : Bytes), decodeChunks rest = some more ∧
        out = groupBytes g.value c2 c3 ++ more := by
  rw [decodeChunks]
  constructor
  · intro h
    split at h
    · cases h
    · next hpad =>
      simp only [Option.bind_eq_bind, Option.bind_eq_some_iff, Option.some.injEq] at h
      obtain ⟨v0, h0, v1, h1, v2, h2, v3, h3, more, hmore, rfl⟩ := h
      let g : Group c0 c1 c2 c3 := ⟨v0, v1, v2, v3, h0, h1, h2, h3, by simpa using hpad⟩
      refine ⟨g, more, hmore, ?_⟩
      rw [← g.join_eq]
      have hpadded := g.padded
      by_cases h3 : c3 = 61 <;> by_cases h2 : c2 = 61 <;> simp_all [groupBytes, g]
  · rintro ⟨g, more, hmore, rfl⟩
    have hpadded := g.padded
    rw [if_neg (by simpa using hpadded)]
    simp only [Option.bind_eq_bind, g.first, g.second, g.third, g.fourth, hmore,
      Option.bind_some, g.join_eq, Option.some.injEq]
    by_cases h3 : c3 = 61 <;> by_cases h2 : c2 = 61 <;> simp_all [groupBytes]

/-- The decoder answers exactly the readable texts. -/
theorem readable_iff (text : Bytes) : Readable text ↔ ∃ out, decodeChunks text = some out := by
  induction text using Readable.induct with
  | case1 c0 c1 c2 c3 rest ih =>
    rw [Readable]
    simp only [decodeChunks_eq_some_iff]
    constructor
    · rintro ⟨h0, h1, h2, h3, hpad, hrest⟩
      obtain ⟨v0, h0⟩ := Option.isSome_iff_exists.mp h0
      obtain ⟨v1, h1⟩ := Option.isSome_iff_exists.mp h1
      obtain ⟨v2, h2⟩ := Option.isSome_iff_exists.mp h2
      obtain ⟨v3, h3⟩ := Option.isSome_iff_exists.mp h3
      obtain ⟨more, hmore⟩ := ih.mp hrest
      exact ⟨_, ⟨v0, v1, v2, v3, h0, h1, h2, h3, hpad⟩, more, hmore, rfl⟩
    · rintro ⟨out, g, more, hmore, rfl⟩
      exact ⟨Option.isSome_of_mem g.first, Option.isSome_of_mem g.second,
        Option.isSome_of_mem g.third, Option.isSome_of_mem g.fourth, g.padded,
        ih.mpr ⟨more, hmore⟩⟩
  | case2 => exact iff_of_true trivial ⟨[], rfl⟩
  | case3 text hgroup hnil =>
    have hrefused : decodeChunks text = none := by
      rw [decodeChunks.eq_3]
      · exact hgroup
      · exact hnil
    rw [Readable.eq_3 text hgroup hnil, hrefused]
    simp

/-- The text of a full group. -/
theorem encode_full {n : ℕ} (h : n < 2 ^ 24) (more : Bytes) :
    encode (encodeChunks (UInt8.ofNat (n >>> 16) :: UInt8.ofNat (n >>> 8) :: UInt8.ofNat n ::
        more)) =
      table.getD (sextet n 18) 0 :: table.getD (sextet n 12) 0 :: table.getD (sextet n 6) 0 ::
        table.getD (sextet n 0) 0 :: encode (encodeChunks more) := by
  have hgroup := group_eq (UInt8.ofNat (n >>> 16)) (UInt8.ofNat (n >>> 8)) (UInt8.ofNat n)
  simp only [UInt8.toNat_ofNat', Nat.shiftRight_eq_div_pow] at hgroup
  rw [encodeChunks]
  simp only [encode_cons, encodeChar_digit, List.singleton_append, UInt8.toNat_ofNat',
    Nat.shiftRight_eq_div_pow, hgroup]
  rw [show n / 2 ^ 16 % 2 ^ 8 * 65536 + n / 2 ^ 8 % 2 ^ 8 * 256 + n % 2 ^ 8 = n by omega]

/-- The text of a last group of two bytes. -/
theorem encode_pair {n : ℕ} (h : n < 2 ^ 24) (hrest : n % 256 = 0) :
    encode (encodeChunks [UInt8.ofNat (n >>> 16), UInt8.ofNat (n >>> 8)]) =
      [table.getD (sextet n 18) 0, table.getD (sextet n 12) 0, table.getD (sextet n 6) 0, 61] := by
  have hgroup := group_eq (UInt8.ofNat (n >>> 16)) (UInt8.ofNat (n >>> 8)) 0
  simp only [UInt8.toNat_ofNat', Nat.shiftRight_eq_div_pow] at hgroup
  rw [show (0 : UInt8).toNat = 0 from rfl, Nat.or_zero] at hgroup
  rw [encodeChunks]
  simp only [encode_cons, encode_nil, encodeChar_digit, encodeChar_pad, List.singleton_append,
    UInt8.toNat_ofNat', Nat.shiftRight_eq_div_pow, hgroup]
  rw [show n / 2 ^ 16 % 2 ^ 8 * 65536 + n / 2 ^ 8 % 2 ^ 8 * 256 + 0 = n by omega]

/-- The text of a last group of one byte. -/
theorem encode_single {n : ℕ} (h : n < 2 ^ 24) (hrest : n % 65536 = 0) :
    encode (encodeChunks [UInt8.ofNat (n >>> 16)]) =
      [table.getD (sextet n 18) 0, table.getD (sextet n 12) 0, 61, 61] := by
  rw [encodeChunks]
  simp only [encode_cons, encode_nil, encodeChar_digit, encodeChar_pad, List.singleton_append,
    UInt8.toNat_ofNat', Nat.shiftRight_eq_div_pow, Nat.shiftLeft_eq]
  rw [show n / 2 ^ 16 % 2 ^ 8 * 2 ^ 16 = n by omega]

/-- A canonical text is the encoding of what it decodes to. -/
theorem encode_of_canonical {text out : Bytes} (hout : decodeChunks text = some out)
    (hcanonical : Canonical text) : encode (encodeChunks out) = text := by
  induction text using Readable.induct generalizing out with
  | case1 c0 c1 c2 c3 rest ih =>
    obtain ⟨g, more, hmore, rfl⟩ := (decodeChunks_eq_some_iff ..).mp hout
    obtain ⟨hlast, hrest⟩ := hcanonical
    by_cases h3 : c3 = 61
    · obtain ⟨rfl, hbits⟩ := hlast h3
      cases hmore
      have hzero3 : g.v3.toNat = 0 := by rw [g.fourth_pad h3]; rfl
      by_cases h2 : c2 = 61
      · have hzero2 : g.v2.toNat = 0 := by rw [g.third_pad h2]; rfl
        rw [if_pos h2, g.second_bits] at hbits
        have hunused : g.value % 65536 = 0 := by
          unfold Group.value
          omega
        rw [groupBytes, if_neg (not_not_intro h3), if_neg (not_not_intro h2), List.append_nil,
          encode_single g.value_lt hunused, g.first_digit, g.second_digit, h2, h3]
      · rw [if_neg h2, g.third_bits] at hbits
        have hunused : g.value % 256 = 0 := by
          unfold Group.value
          omega
        rw [groupBytes, if_neg (not_not_intro h3), if_pos h2, List.append_nil,
          encode_pair g.value_lt hunused, g.first_digit, g.second_digit, g.third_digit h2, h3]
    · have h2 : c2 ≠ 61 := fun h => h3 (g.padded h)
      rw [groupBytes, if_pos h3]
      simp only [List.cons_append, List.nil_append]
      rw [encode_full g.value_lt, ih hmore hrest, g.first_digit, g.second_digit,
        g.third_digit h2, g.fourth_digit h3]
  | case2 =>
    cases hout
    rfl
  | case3 text hgroup hnil =>
    rw [decodeChunks.eq_3 text hgroup hnil] at hout
    cases hout

/-- Every encoding is canonical. -/
theorem canonical_encodeChunks (data : Bytes) : Canonical (encode (encodeChunks data)) := by
  induction data using encodeChunks.induct with
  | case1 b0 b1 b2 rest ih =>
    rw [encodeChunks]
    simp only [encode_cons, encodeChar_digit, List.singleton_append]
    exact ⟨fun hpad => absurd hpad (table_ne_pad (sextet_lt _ 0)), ih⟩
  | case2 b0 b1 =>
    have hn := group_eq b0 b1 0
    rw [show (0 : UInt8).toNat = 0 from rfl, Nat.or_zero] at hn
    rw [encodeChunks, hn]
    simp only [encode_cons, encode_nil, encodeChar_digit, encodeChar_pad, List.singleton_append]
    refine ⟨fun _ => ⟨rfl, ?_⟩, trivial⟩
    rw [if_neg (table_ne_pad (sextet_lt _ 6)), bits, valOrPad_digit, Option.getD_some,
      toNat_sextet, sextet]
    omega
  | case3 b0 =>
    rw [encodeChunks, Nat.shiftLeft_eq]
    simp only [encode_cons, encode_nil, encodeChar_digit, encodeChar_pad, List.singleton_append]
    refine ⟨fun _ => ⟨rfl, ?_⟩, trivial⟩
    rw [if_pos rfl, bits, valOrPad_digit, Option.getD_some, toNat_sextet, sextet]
    omega
  | case4 => trivial

/-- The text is the encoding of its bytes exactly when, if the decoder reads its groups at
all, padding ends the text and no bit is left over. Among such texts no two decode to the
same bytes. -/
theorem decoded_encoding_iff (text : String) :
    ((∀ data, decodeBase64 text = some data → encodeBase64 data = text) ↔
      (Readable (encode text.toList) → Canonical (encode text.toList))) ∧
    ∀ other : String, Canonical (encode text.toList) → Canonical (encode other.toList) →
      ∀ data, decodeBase64 text = some data → decodeBase64 other = some data → text = other := by
  have encoding : ∀ {text : String} {data : Bytes}, decodeBase64 text = some data →
      Canonical (encode text.toList) → encodeBase64 data = text := by
    intro text data hdata hcanonical
    rw [encodeBase64, encode_injective (encode_of_canonical hdata hcanonical),
      String.ofList_toList]
  refine ⟨⟨?_, ?_⟩, ?_⟩
  · intro hencoding hreadable
    obtain ⟨data, hdata⟩ := (readable_iff _).mp hreadable
    rw [← hencoding data hdata, encodeBase64, String.toList_ofList]
    exact canonical_encodeChunks data
  · intro hcanonical data hdata
    exact encoding hdata (hcanonical ((readable_iff _).mpr ⟨data, hdata⟩))
  · intro other htext hother data hdata hdata'
    rw [← encoding hdata htext, encoding hdata' hother]

/-- One byte has more than one text: four bits of the second digit are not read. And
padding is read in the middle of a text. -/
theorem damaged_texts_accepted :
    (decodeBase64 "AB==" = some [0] ∧ encodeBase64 [0] ≠ "AB==") ∧
    (decodeBase64 "AA==AA==" = some [0, 0] ∧ encodeBase64 [0, 0] ≠ "AA==AA==") ∧
    decodeBase64 "AA==" = decodeBase64 "AB==" := by decide

end SqliteBroker.Messages.Base64
