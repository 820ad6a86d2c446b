import SqliteBroker.Utf8

/-!
The lossy reading undoes the encoding: a valid UTF-8 text is read as it was written,
and a NUL byte stands in it exactly where a NUL character does.
-/
namespace SqliteBroker.Utf8

section Characters

variable {v : ℕ} {more : Bytes}

/-- A byte of an encoding: its value is the number it is made from. -/
theorem toNat_ofNat_byte {n : ℕ} (h : n < 256) : (UInt8.ofNat n).toNat = n := by
  rw [UInt8.toNat_ofNat']
  omega

theorem isCont_iff (b : UInt8) : isCont b = true ↔ 0x80 ≤ b.toNat ∧ b.toNat ≤ 0xBF := by
  simp [isCont, UInt8.le_iff_toNat_le]

theorem second3_iff (b0 b1 : UInt8) : second3 b0 b1 = true ↔
    (b0.toNat = 0xE0 ∧ 0xA0 ≤ b1.toNat ∧ b1.toNat ≤ 0xBF) ∨
      (b0.toNat = 0xED ∧ 0x80 ≤ b1.toNat ∧ b1.toNat ≤ 0x9F) ∨
      (b0.toNat ≠ 0xE0 ∧ b0.toNat ≠ 0xED ∧ 0x80 ≤ b1.toNat ∧ b1.toNat ≤ 0xBF) := by
  unfold second3
  by_cases h0 : b0 = 0xE0
  · subst h0
    simp [UInt8.le_iff_toNat_le]
  · have h0' : b0.toNat ≠ 0xE0 := fun h => h0 (UInt8.toNat_inj.mp h)
    by_cases h1 : b0 = 0xED
    · subst h1
      simp [UInt8.le_iff_toNat_le]
    · have h1' : b0.toNat ≠ 0xED := fun h => h1 (UInt8.toNat_inj.mp h)
      simp [h0, h1, h0', h1', isCont_iff]

theorem second4_iff (b0 b1 : UInt8) : second4 b0 b1 = true ↔
    (b0.toNat = 0xF0 ∧ 0x90 ≤ b1.toNat ∧ b1.toNat ≤ 0xBF) ∨
      (b0.toNat = 0xF4 ∧ 0x80 ≤ b1.toNat ∧ b1.toNat ≤ 0x8F) ∨
      (b0.toNat ≠ 0xF0 ∧ b0.toNat ≠ 0xF4 ∧ 0x80 ≤ b1.toNat ∧ b1.toNat ≤ 0xBF) := by
  unfold second4
  by_cases h0 : b0 = 0xF0
  · subst h0
    simp [UInt8.le_iff_toNat_le]
  · have h0' : b0.toNat ≠ 0xF0 := fun h => h0 (UInt8.toNat_inj.mp h)
    by_cases h1 : b0 = 0xF4
    · subst h1
      simp [UInt8.le_iff_toNat_le]
    · have h1' : b0.toNat ≠ 0xF4 := fun h => h1 (UInt8.toNat_inj.mp h)
      simp [h0, h1, h0', h1', isCont_iff]

theorem lossyStep_one (h : v ≤ 0x7F) : lossyStep (UInt8.ofNat v) more = (Char.ofNat v, more) := by
  have hb := toNat_ofNat_byte (n := v) (by omega)
  have hlt : UInt8.ofNat v < 0x80 := by
    rw [UInt8.lt_iff_toNat_lt, hb]
    exact Nat.lt_succ_of_le h
  unfold lossyStep
  rw [if_pos hlt, hb]

theorem lossyStep_two (hlow : 0x7F < v) (hhigh : v ≤ 0x7FF) :
    lossyStep (UInt8.ofNat (v / 64 % 0x20 + 0xC0)) (UInt8.ofNat (v % 0x40 + 0x80) :: more) =
      (Char.ofNat v, more) := by
  have hb0 := toNat_ofNat_byte (n := v / 64 % 0x20 + 0xC0) (by omega)
  have hb1 := toNat_ofNat_byte (n := v % 0x40 + 0x80) (by omega)
  have hcont : isCont (UInt8.ofNat (v % 0x40 + 0x80)) = true := by
    rw [isCont_iff, hb1]
    omega
  unfold lossyStep
  simp only [UInt8.lt_iff_toNat_lt, UInt8.le_iff_toNat_le, hb0, hcont, UInt8.reduceToNat]
  rw [if_neg (by omega), if_pos (by omega)]
  simp only [if_true, assemble, List.foldl_cons, List.foldl_nil, hb1]
  congr 2
  omega

theorem lossyStep_three (hlow : 0x7FF < v) (hhigh : v ≤ 0xFFFF)
    (hvalid : v < 0xD800 ∨ 0xDFFF < v) :
    lossyStep (UInt8.ofNat (v / 4096 % 0x10 + 0xE0))
        (UInt8.ofNat (v / 64 % 0x40 + 0x80) :: UInt8.ofNat (v % 0x40 + 0x80) :: more) =
      (Char.ofNat v, more) := by
  have hb0 := toNat_ofNat_byte (n := v / 4096 % 0x10 + 0xE0) (by omega)
  have hb1 := toNat_ofNat_byte (n := v / 64 % 0x40 + 0x80) (by omega)
  have hb2 := toNat_ofNat_byte (n := v % 0x40 + 0x80) (by omega)
  have hcont : isCont (UInt8.ofNat (v % 0x40 + 0x80)) = true := by
    rw [isCont_iff, hb2]
    omega
  have hsecond : second3 (UInt8.ofNat (v / 4096 % 0x10 + 0xE0))
      (UInt8.ofNat (v / 64 % 0x40 + 0x80)) = true := by
    rw [second3_iff, hb0, hb1]
    omega
  unfold lossyStep
  simp only [UInt8.lt_iff_toNat_lt, UInt8.le_iff_toNat_le, hb0, hsecond, hcont,
    UInt8.reduceToNat]
  rw [if_neg (by omega), if_neg (by omega), if_pos (by omega)]
  simp only [if_true, assemble, List.foldl_cons, List.foldl_nil, hb1, hb2]
  congr 2
  omega

theorem lossyStep_four (hlow : 0xFFFF < v) (hhigh : v < 0x110000) :
    lossyStep (UInt8.ofNat (v / 262144 % 0x08 + 0xF0))
        (UInt8.ofNat (v / 4096 % 0x40 + 0x80) :: UInt8.ofNat (v / 64 % 0x40 + 0x80) ::
          UInt8.ofNat (v % 0x40 + 0x80) :: more) =
      (Char.ofNat v, more) := by
  have hb0 := toNat_ofNat_byte (n := v / 262144 % 0x08 + 0xF0) (by omega)
  have hb1 := toNat_ofNat_byte (n := v / 4096 % 0x40 + 0x80) (by omega)
  have hb2 := toNat_ofNat_byte (n := v / 64 % 0x40 + 0x80) (by omega)
  have hb3 := toNat_ofNat_byte (n := v % 0x40 + 0x80) (by omega)
  have hcont2 : isCont (UInt8.ofNat (v / 64 % 0x40 + 0x80)) = true := by
    rw [isCont_iff, hb2]
    omega
  have hcont3 : isCont (UInt8.ofNat (v % 0x40 + 0x80)) = true := by
    rw [isCont_iff, hb3]
    omega
  have hsecond : second4 (UInt8.ofNat (v / 262144 % 0x08 + 0xF0))
      (UInt8.ofNat (v / 4096 % 0x40 + 0x80)) = true := by
    rw [second4_iff, hb0, hb1]
    omega
  unfold lossyStep
  simp only [UInt8.lt_iff_toNat_lt, UInt8.le_iff_toNat_le, hb0, hsecond, hcont2, hcont3,
    UInt8.reduceToNat]
  rw [if_neg (by omega), if_neg (by omega), if_neg (by omega), if_pos (by omega)]
  simp only [if_true, assemble, List.foldl_cons, List.foldl_nil, hb1, hb2, hb3]
  congr 2
  omega

end Characters

/-- One step of the lossy reading takes exactly one encoded character. -/
theorem lossyStep_encodeChar (c : Char) : ∃ b0 rest, String.utf8EncodeChar c = b0 :: rest ∧
    ∀ more, lossyStep b0 (rest ++ more) = (c, more) := by
  have hc : Char.ofNat c.val.toNat = c := Char.ofNat_toNat c
  have hvalid : c.val.toNat < 0xD800 ∨ 0xDFFF < c.val.toNat ∧ c.val.toNat < 0x110000 := c.valid
  unfold String.utf8EncodeChar
  generalize c.val.toNat = v at hc hvalid
  subst hc
  dsimp only
  split
  · next h1 => exact ⟨_, _, rfl, fun more => lossyStep_one h1⟩
  · next h1 =>
    split
    · next h2 => exact ⟨_, _, rfl, fun more => lossyStep_two (by omega) h2⟩
    · next h2 =>
      split
      · next h3 => exact ⟨_, _, rfl, fun more => lossyStep_three (by omega) h3 (by omega)⟩
      · next h3 => exact ⟨_, _, rfl, fun more => lossyStep_four (by omega) (by omega)⟩

theorem encode_cons (c : Char) (cs : List Char) :
    encode (c :: cs) = String.utf8EncodeChar c ++ encode cs := rfl

theorem encode_append (a b : List Char) : encode (a ++ b) = encode a ++ encode b :=
  List.flatMap_append

theorem lossyFuel_encode (cs : List Char) (n : ℕ) (h : (encode cs).length ≤ n) :
    lossyFuel n (encode cs) = cs := by
  induction cs generalizing n with
  | nil => cases n <;> rfl
  | cons c rest ih =>
    obtain ⟨b0, tail, hbytes, hstep⟩ := lossyStep_encodeChar c
    rw [encode_cons, hbytes, List.cons_append] at h ⊢
    cases n with
    | zero => simp at h
    | succ n =>
      have hn : (encode rest).length ≤ n := by
        simp only [List.length_cons, List.length_append] at h
        omega
      rw [lossyFuel, hstep, ih n hn]

/-- A valid text is read as the characters that it encodes. -/
theorem lossy_encode (cs : List Char) : lossy (encode cs) = cs :=
  lossyFuel_encode cs _ (Nat.le_refl _)

theorem encode_injective {a b : List Char} (h : encode a = encode b) : a = b := by
  rw [← lossy_encode a, h, lossy_encode]

/-- The encoding of a character other than NUL has no NUL byte. -/
theorem mem_encodeChar_ne_zero {c : Char} (hc : c ≠ '\x00') {b : UInt8}
    (hb : b ∈ String.utf8EncodeChar c) : b ≠ 0 := by
  have hv : c.val.toNat ≠ 0 := fun h =>
    hc (Char.ext (UInt32.toNat_inj.mp h))
  have hvalid : c.val.toNat < 0xD800 ∨ 0xDFFF < c.val.toNat ∧ c.val.toNat < 0x110000 := c.valid
  have byte : ∀ n, 0 < n → n < 256 → UInt8.ofNat n ≠ 0 := by
    intro n hpos hlt hzero
    have hn := toNat_ofNat_byte hlt
    rw [hzero, show (0 : UInt8).toNat = 0 from rfl] at hn
    omega
  unfold String.utf8EncodeChar at hb
  dsimp only at hb
  split at hb
  · rw [List.mem_singleton.mp hb]
    exact byte _ (by omega) (by omega)
  · split at hb
    · simp only [List.mem_cons, List.not_mem_nil, or_false] at hb
      rcases hb with rfl | rfl <;> exact byte _ (by omega) (by omega)
    · split at hb
      · simp only [List.mem_cons, List.not_mem_nil, or_false] at hb
        rcases hb with rfl | rfl | rfl <;> exact byte _ (by omega) (by omega)
      · simp only [List.mem_cons, List.not_mem_nil, or_false] at hb
        rcases hb with rfl | rfl | rfl | rfl <;> exact byte _ (by omega) (by omega)

/-- A text up to its first NUL byte is the text up to its first NUL character. -/
theorem takeWhile_encode (cs : List Char) :
    (encode cs).takeWhile (· ≠ 0) = encode (cs.takeWhile (· ≠ '\x00')) := by
  induction cs with
  | nil => rfl
  | cons c rest ih =>
    by_cases hc : c = '\x00'
    · subst hc
      rfl
    · have hbytes : ∀ b ∈ String.utf8EncodeChar c, decide (b ≠ 0) = true :=
        fun b hb => decide_eq_true (mem_encodeChar_ne_zero hc hb)
      rw [encode_cons, List.takeWhile_append_of_pos hbytes, ih,
        List.takeWhile_cons_of_pos (by simpa using hc), encode_cons]

theorem zero_mem_encode (cs : List Char) : 0 ∈ encode cs ↔ '\x00' ∈ cs := by
  induction cs with
  | nil => simp
  | cons c rest ih =>
    rw [encode_cons, List.mem_append, ih, List.mem_cons]
    by_cases hc : c = '\x00'
    · subst hc
      exact ⟨fun _ => .inl rfl, fun _ => .inl (by decide)⟩
    · have hnot : 0 ∉ String.utf8EncodeChar c := fun h => mem_encodeChar_ne_zero hc h rfl
      have hne : '\x00' ≠ c := Ne.symm hc
      simp [hnot, hne]

end SqliteBroker.Utf8
