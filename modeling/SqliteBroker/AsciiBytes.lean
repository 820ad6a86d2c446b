import SqliteBroker.Utf8Reading

/-!
ASCII inside UTF-8: a byte below 0x80 of an encoded text is a character of its own, so a
program that looks for such bytes only finds characters and stops between them.
-/
namespace SqliteBroker.Utf8

/-- A character is one ASCII byte, or all its bytes are beyond ASCII. -/
theorem encodeChar_cases (c : Char) :
    (c.toNat < 128 ∧ String.utf8EncodeChar c = [UInt8.ofNat c.toNat]) ∨
      (128 ≤ c.toNat ∧ ∀ b ∈ String.utf8EncodeChar c, 128 ≤ b.toNat) := by
  have hvalid : c.val.toNat < 0xD800 ∨ 0xDFFF < c.val.toNat ∧ c.val.toNat < 0x110000 := c.valid
  have byte : ∀ n, 128 ≤ n → n < 256 → 128 ≤ (UInt8.ofNat n).toNat := by
    intro n hlow hhigh
    rw [toNat_ofNat_byte hhigh]
    exact hlow
  change (c.val.toNat < 128 ∧ String.utf8EncodeChar c = [UInt8.ofNat c.val.toNat]) ∨
    (128 ≤ c.val.toNat ∧ ∀ b ∈ String.utf8EncodeChar c, 128 ≤ b.toNat)
  unfold String.utf8EncodeChar
  dsimp only
  split
  · exact .inl ⟨by omega, rfl⟩
  · refine .inr ⟨by omega, ?_⟩
    split
    · simp only [List.forall_mem_cons]
      exact ⟨byte _ (by omega) (by omega), byte _ (by omega) (by omega), nofun⟩
    · split
      · simp only [List.forall_mem_cons]
        exact ⟨byte _ (by omega) (by omega), byte _ (by omega) (by omega),
          byte _ (by omega) (by omega), nofun⟩
      · simp only [List.forall_mem_cons]
        exact ⟨byte _ (by omega) (by omega), byte _ (by omega) (by omega),
          byte _ (by omega) (by omega), byte _ (by omega) (by omega), nofun⟩

/-- An ASCII byte of a text is a character at its own offset. -/
theorem ascii_split {cs : List Char} {n : ℕ} {b : UInt8} (hb : b.toNat < 128)
    (h : (encode cs)[n]? = some b) :
    ∃ before after, cs = before ++ Char.ofNat b.toNat :: after ∧ byteLen before = n := by
  induction cs generalizing n with
  | nil => cases h
  | cons c rest ih =>
    have hsize : (String.utf8EncodeChar c).length = c.utf8Size := String.length_utf8EncodeChar c
    rw [encode_cons] at h
    by_cases hn : n < (String.utf8EncodeChar c).length
    · rw [List.getElem?_append_left hn] at h
      rcases encodeChar_cases c with ⟨hc, hone⟩ | ⟨_, hmany⟩
      · rw [hone, List.length_singleton] at hn
        obtain rfl : n = 0 := by omega
        rw [hone] at h
        obtain rfl := Option.some.inj h
        refine ⟨[], rest, ?_, rfl⟩
        rw [toNat_ofNat_byte (by omega), Char.ofNat_toNat]
        rfl
      · have hlarge := hmany b (List.mem_of_getElem? h)
        omega
    · rw [List.getElem?_append_right (Nat.le_of_not_lt hn)] at h
      obtain ⟨before, after, rfl, hbefore⟩ := ih h
      refine ⟨c :: before, after, rfl, ?_⟩
      rw [byteLen_cons, hbefore]
      omega

theorem encodeChar_ascii {c : Char} (h : c.toNat < 128) :
    String.utf8EncodeChar c = [UInt8.ofNat c.toNat] := by
  rcases encodeChar_cases c with ⟨_, hone⟩ | ⟨hlarge, _⟩
  · exact hone
  · omega

theorem utf8Size_ascii {c : Char} (h : c.toNat < 128) : c.utf8Size = 1 := by
  rw [← String.length_utf8EncodeChar, encodeChar_ascii h, List.length_singleton]

theorem toNat_ofNat_ascii {b : UInt8} (h : b.toNat < 128) :
    (Char.ofNat b.toNat).toNat = b.toNat := by
  have hvalid : b.toNat.isValidChar := .inl (by omega)
  rw [Char.ofNat, dif_pos hvalid]
  rfl

/-- A text can be cut before and behind an ASCII byte. -/
theorem boundary_of_ascii {cs : List Char} {n : ℕ} {b : UInt8} (hb : b.toNat < 128)
    (h : (encode cs)[n]? = some b) : IsBoundary cs n ∧ IsBoundary cs (n + 1) := by
  obtain ⟨before, after, rfl, rfl⟩ := ascii_split hb h
  refine ⟨⟨before, _, rfl, rfl⟩, before ++ [Char.ofNat b.toNat], after, by simp, ?_⟩
  have hsize : (Char.ofNat b.toNat).utf8Size = 1 :=
    utf8Size_ascii (by rw [toNat_ofNat_ascii hb]; exact hb)
  simp [hsize]

theorem mem_of_ascii {cs : List Char} {b : UInt8} (hb : b.toNat < 128) (h : b ∈ encode cs) :
    Char.ofNat b.toNat ∈ cs := by
  obtain ⟨n, hn⟩ := List.mem_iff_getElem?.mp h
  obtain ⟨before, after, rfl, _⟩ := ascii_split hb hn
  exact List.mem_append_right _ List.mem_cons_self

section Patterns

variable {a b : List Char}

/-- The encoding is a prefix code. -/
theorem prefix_of_encode (h : encode a <+: encode b) : a <+: b := by
  induction a generalizing b with
  | nil => exact List.nil_prefix
  | cons c rest ih =>
    obtain ⟨more, hmore⟩ := h
    obtain ⟨b0, tail, hc, hstep⟩ := lossyStep_encodeChar c
    rw [encode_cons, hc, List.cons_append, List.cons_append, List.append_assoc] at hmore
    cases b with
    | nil => cases hmore
    | cons d others =>
      obtain ⟨b0', tail', hd, hstep'⟩ := lossyStep_encodeChar d
      rw [encode_cons, hd, List.cons_append] at hmore
      obtain ⟨rfl, htail⟩ := List.cons.inj hmore
      have hsame := hstep (encode rest ++ more)
      rw [htail, hstep'] at hsame
      obtain ⟨rfl, hrest⟩ := Prod.mk.inj hsame
      exact (List.prefix_cons_inj d).mpr (ih ⟨more, hrest.symm⟩)

/-- A pattern that begins with an ASCII character is found in the bytes only where it stands
in the text. -/
theorem infix_of_encode {c : Char} (hc : c.toNat < 128) (h : encode (c :: a) <:+: encode b) :
    c :: a <:+: b := by
  obtain ⟨start, more, hsplit⟩ := h
  have hbyte : (UInt8.ofNat c.toNat).toNat = c.toNat := toNat_ofNat_byte (by omega)
  have hat : (encode b)[start.length]? = some (UInt8.ofNat c.toNat) := by
    rw [← hsplit, encode_cons, encodeChar_ascii hc, List.append_assoc,
      List.getElem?_append_right (Nat.le_refl _), Nat.sub_self]
    rfl
  obtain ⟨before, after, rfl, hbefore⟩ := ascii_split (by omega) hat
  rw [hbyte, Char.ofNat_toNat] at hsplit ⊢
  have hinside : encode (c :: a) <+: encode (c :: after) := by
    have hdrop := congrArg (List.drop start.length) hsplit
    rw [List.append_assoc, List.drop_left, encode_append,
      List.drop_left' ((length_encode before).trans hbefore)] at hdrop
    exact ⟨more, hdrop⟩
  obtain ⟨rest, hrest⟩ := prefix_of_encode hinside
  exact ⟨before, rest, by rw [List.append_assoc, hrest]⟩

end Patterns

end SqliteBroker.Utf8
