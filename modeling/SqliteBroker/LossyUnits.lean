import SqliteBroker.Utf8Reading

/-!
The units of the lossy reading: the bytes that each character is read from. A unit is
found again when the text is cut anywhere behind it, and it is never longer than the
encoding of its character. A shorter one is an ill-formed part of one or two bytes.
-/
namespace SqliteBroker.Utf8

/-- The length of the encoding of a character, by its number. -/
theorem utf8Size_ofNat {n : ℕ} (hvalid : n < 0xD800 ∨ 0xDFFF < n ∧ n < 0x110000) :
    (Char.ofNat n).utf8Size =
      if n ≤ 0x7F then 1 else if n ≤ 0x7FF then 2 else if n ≤ 0xFFFF then 3 else 4 := by
  have hval : (Char.ofNat n).val.toNat = n := by
    rw [Char.ofNat, dif_pos hvalid]
    rfl
  unfold Char.utf8Size
  simp only [UInt32.le_iff_toNat_le, hval]
  rfl

theorem utf8Size_replacement : replacement.utf8Size = 3 := by decide

section Assembled

variable {b0 b1 b2 b3 : UInt8}

theorem ascii_size (h1 : b0 < 0x80) : (Char.ofNat b0.toNat).utf8Size = 1 := by
  simp only [UInt8.lt_iff_toNat_lt, UInt8.reduceToNat] at h1
  rw [utf8Size_ofNat (by omega), if_pos (by omega)]

theorem ascii_nul (h1 : b0 < 0x80) (h : Char.ofNat b0.toNat = '\x00') : b0 = 0 := by
  simp only [UInt8.lt_iff_toNat_lt, UInt8.reduceToNat] at h1
  have hvalid : b0.toNat.isValidChar := .inl (by omega)
  have hval : (Char.ofNat b0.toNat).val.toNat = b0.toNat := by
    rw [Char.ofNat, dif_pos hvalid]
    rfl
  rw [h] at hval
  exact UInt8.toNat_inj.mp hval.symm

theorem nul_of_size {c : Char} (h : 1 < c.utf8Size) (hc : c = '\x00') : b0 = 0 := by
  subst hc
  exact absurd h (by decide)

theorem assemble_two (h2 : 0xC2 ≤ b0 ∧ b0 ≤ 0xDF) (hc1 : isCont b1 = true) :
    (assemble (b0.toNat % 32) [b1]).utf8Size = 2 := by
  rw [isCont_iff] at hc1
  simp only [UInt8.le_iff_toNat_le, UInt8.reduceToNat] at h2
  simp only [assemble, List.foldl_cons, List.foldl_nil]
  rw [utf8Size_ofNat (by omega), if_neg (by omega), if_pos (by omega)]

theorem assemble_three (h3 : 0xE0 ≤ b0 ∧ b0 ≤ 0xEF) (hs : second3 b0 b1 = true) :
    (assemble (b0.toNat % 16) [b1, b2]).utf8Size = 3 := by
  rw [second3_iff] at hs
  simp only [UInt8.le_iff_toNat_le, UInt8.reduceToNat] at h3
  simp only [assemble, List.foldl_cons, List.foldl_nil]
  rw [utf8Size_ofNat (by omega), if_neg (by omega), if_neg (by omega), if_pos (by omega)]

theorem assemble_four (h4 : 0xF0 ≤ b0 ∧ b0 ≤ 0xF4) (hs : second4 b0 b1 = true) :
    (assemble (b0.toNat % 8) [b1, b2, b3]).utf8Size = 4 := by
  rw [second4_iff] at hs
  simp only [UInt8.le_iff_toNat_le, UInt8.reduceToNat] at h4
  simp only [assemble, List.foldl_cons, List.foldl_nil]
  rw [utf8Size_ofNat (by omega), if_neg (by omega), if_neg (by omega), if_neg (by omega)]

end Assembled

/-- The byte `b0` and the bytes `taken` are read as `c`, wherever behind them the text is cut.
They are the encoding of `c`, or an ill-formed part of at most three bytes. -/
structure IsUnit (b0 : UInt8) (taken : Bytes) (c : Char) (left : Bytes) : Prop where
  size : taken.length + 1 = c.utf8Size ∨ (c = replacement ∧ taken.length < 3)
  nul : c = '\x00' → b0 = 0
  cut : ∀ left', left' <+: left → lossyStep b0 (taken ++ left') = (c, left')

/-- The reading of the text starts with a unit. -/
def TakesUnit (b0 : UInt8) (rest : Bytes) : Prop :=
  ∃ taken c left, rest = taken ++ left ∧ lossyStep b0 rest = (c, left) ∧ IsUnit b0 taken c left

section Steps

variable {b0 b : UInt8} {taken : Bytes} {c : Char}

theorem unit_of_char (hsize : c.utf8Size = taken.length + 1) (hnul : c = '\x00' → b0 = 0)
    (hstep : ∀ rest, lossyStep b0 (taken ++ rest) = (c, rest)) (rest : Bytes) :
    TakesUnit b0 (taken ++ rest) :=
  ⟨taken, c, rest, rfl, hstep rest, .inl hsize.symm, hnul, fun left' _ => hstep left'⟩

/-- An ill-formed part that the text ends with. -/
theorem unit_of_end (hsize : taken.length < 3)
    (hend : lossyStep b0 taken = (replacement, [])) : TakesUnit b0 taken := by
  refine ⟨taken, replacement, [], (List.append_nil _).symm, hend, .inr ⟨rfl, hsize⟩,
    nul_of_size (by decide), ?_⟩
  intro left' hleft
  rw [List.prefix_nil.mp hleft, List.append_nil, hend]

/-- An ill-formed part that the byte behind it ends. -/
theorem unit_of_stop (hsize : taken.length < 3)
    (hend : lossyStep b0 taken = (replacement, []))
    (hstep : ∀ rest, lossyStep b0 (taken ++ b :: rest) = (replacement, b :: rest))
    (rest : Bytes) : TakesUnit b0 (taken ++ b :: rest) := by
  refine ⟨taken, replacement, b :: rest, rfl, hstep rest, .inr ⟨rfl, hsize⟩,
    nul_of_size (by decide), ?_⟩
  intro left' hleft
  cases left' with
  | nil => rw [List.append_nil, hend]
  | cons b' more =>
    obtain ⟨rfl, _⟩ := List.cons_prefix_cons.mp hleft
    exact hstep more

end Steps

section Leads

variable {b0 : UInt8} (h1 : ¬ b0 < 0x80)
include h1

theorem unit_two (h2 : 0xC2 ≤ b0 ∧ b0 ≤ 0xDF) (rest : Bytes) : TakesUnit b0 rest := by
  have hend : lossyStep b0 [] = (replacement, []) := by simp [lossyStep, h1, h2]
  cases rest with
  | nil => exact unit_of_end (by decide) hend
  | cons b1 rest =>
    by_cases hc1 : isCont b1 = true
    · have hsize := assemble_two h2 hc1
      exact @unit_of_char b0 [b1] _ hsize (nul_of_size (by omega))
        (fun rest => by simp [lossyStep, h1, h2, hc1]) rest
    · exact @unit_of_stop b0 b1 [] (by decide) hend
        (fun rest => by simp [lossyStep, h1, h2, hc1]) rest

theorem unit_three (h2 : ¬ (0xC2 ≤ b0 ∧ b0 ≤ 0xDF)) (h3 : 0xE0 ≤ b0 ∧ b0 ≤ 0xEF)
    (rest : Bytes) : TakesUnit b0 rest := by
  have hend : lossyStep b0 [] = (replacement, []) := by simp [lossyStep, h1, h2, h3]
  cases rest with
  | nil => exact unit_of_end (by decide) hend
  | cons b1 rest =>
    by_cases hs : second3 b0 b1 = true
    · have hend1 : lossyStep b0 [b1] = (replacement, []) := by simp [lossyStep, h1, h2, h3, hs]
      cases rest with
      | nil => exact unit_of_end (show 1 < 3 by decide) hend1
      | cons b2 rest =>
        by_cases hc2 : isCont b2 = true
        · have hsize := @assemble_three b0 b1 b2 h3 hs
          exact @unit_of_char b0 [b1, b2] _ hsize (nul_of_size (by omega))
            (fun rest => by simp [lossyStep, h1, h2, h3, hs, hc2]) rest
        · exact @unit_of_stop b0 b2 [b1] (show 1 < 3 by decide) hend1
            (fun rest => by simp [lossyStep, h1, h2, h3, hs, hc2]) rest
    · exact @unit_of_stop b0 b1 [] (by decide) hend
        (fun rest => by simp [lossyStep, h1, h2, h3, hs]) rest

theorem unit_four (h2 : ¬ (0xC2 ≤ b0 ∧ b0 ≤ 0xDF)) (h3 : ¬ (0xE0 ≤ b0 ∧ b0 ≤ 0xEF))
    (h4 : 0xF0 ≤ b0 ∧ b0 ≤ 0xF4) (rest : Bytes) : TakesUnit b0 rest := by
  have hend : lossyStep b0 [] = (replacement, []) := by simp [lossyStep, h1, h2, h3, h4]
  cases rest with
  | nil => exact unit_of_end (by decide) hend
  | cons b1 rest =>
    by_cases hs : second4 b0 b1 = true
    · have hend1 : lossyStep b0 [b1] = (replacement, []) := by
        simp [lossyStep, h1, h2, h3, h4, hs]
      cases rest with
      | nil => exact unit_of_end (show 1 < 3 by decide) hend1
      | cons b2 rest =>
        by_cases hc2 : isCont b2 = true
        · have hend2 : lossyStep b0 [b1, b2] = (replacement, []) := by
            simp [lossyStep, h1, h2, h3, h4, hs, hc2]
          cases rest with
          | nil => exact unit_of_end (show 2 < 3 by decide) hend2
          | cons b3 rest =>
            by_cases hc3 : isCont b3 = true
            · have hsize := @assemble_four b0 b1 b2 b3 h4 hs
              exact @unit_of_char b0 [b1, b2, b3] _ hsize (nul_of_size (by omega))
                (fun rest => by simp [lossyStep, h1, h2, h3, h4, hs, hc2, hc3]) rest
            · exact @unit_of_stop b0 b3 [b1, b2] (show 2 < 3 by decide) hend2
                (fun rest => by simp [lossyStep, h1, h2, h3, h4, hs, hc2, hc3]) rest
        · exact @unit_of_stop b0 b2 [b1] (show 1 < 3 by decide) hend1
            (fun rest => by simp [lossyStep, h1, h2, h3, h4, hs, hc2]) rest
    · exact @unit_of_stop b0 b1 [] (by decide) hend
        (fun rest => by simp [lossyStep, h1, h2, h3, h4, hs]) rest

end Leads

/-- Every step of the reading takes a unit. -/
theorem lossyStep_unit (b0 : UInt8) (rest : Bytes) : TakesUnit b0 rest := by
  by_cases h1 : b0 < 0x80
  · exact @unit_of_char b0 [] _ (ascii_size h1) (ascii_nul h1)
      (fun rest => by simp [lossyStep, h1]) rest
  by_cases h2 : 0xC2 ≤ b0 ∧ b0 ≤ 0xDF
  · exact unit_two h1 h2 rest
  by_cases h3 : 0xE0 ≤ b0 ∧ b0 ≤ 0xEF
  · exact unit_three h1 h2 h3 rest
  by_cases h4 : 0xF0 ≤ b0 ∧ b0 ≤ 0xF4
  · exact unit_four h1 h2 h3 h4 rest
  · have hstep : ∀ rest, lossyStep b0 rest = (replacement, rest) := by
      intro rest
      simp [lossyStep, h1, h2, h3, h4]
    exact ⟨[], replacement, rest, rfl, hstep rest, .inr ⟨rfl, by decide⟩,
      nul_of_size (by decide), fun left' _ => hstep left'⟩

theorem lossyStep_length (b0 : UInt8) (rest : Bytes) :
    (lossyStep b0 rest).2.length ≤ rest.length := by
  obtain ⟨taken, c, left, rfl, hstep, _⟩ := lossyStep_unit b0 rest
  rw [hstep, List.length_append]
  exact Nat.le_add_left _ _

theorem lossyFuel_eq {m n : ℕ} {bs : Bytes} (hm : bs.length ≤ m) (hn : bs.length ≤ n) :
    lossyFuel m bs = lossyFuel n bs := by
  induction m generalizing n bs with
  | zero =>
    obtain rfl := List.length_eq_zero_iff.mp (Nat.le_zero.mp hm)
    cases n <;> rfl
  | succ m ih =>
    cases bs with
    | nil => cases n <;> rfl
    | cons b0 rest =>
      have hleft := lossyStep_length b0 rest
      rw [List.length_cons] at hm hn
      obtain ⟨n, rfl⟩ : ∃ k, n = k + 1 := ⟨n - 1, by omega⟩
      rw [lossyFuel, lossyFuel, ih (n := n) (by omega) (by omega)]

/-- The reading goes on behind the unit. -/
theorem lossy_cons (b0 : UInt8) (rest : Bytes) :
    lossy (b0 :: rest) = (lossyStep b0 rest).1 :: lossy (lossyStep b0 rest).2 := by
  have hleft := lossyStep_length b0 rest
  unfold lossy
  rw [List.length_cons, lossyFuel, lossyFuel_eq (m := rest.length) hleft (Nat.le_refl _)]

/-- The units of a text: the bytes and what they are read as. -/
def unitsFuel : ℕ → Bytes → List (Bytes × Char)
  | 0, _ => []
  | _ + 1, [] => []
  | n + 1, b0 :: rest =>
    let (c, left) := lossyStep b0 rest
    ((b0 :: rest).take (rest.length + 1 - left.length), c) :: unitsFuel n left

def units (bs : Bytes) : List (Bytes × Char) := unitsFuel bs.length bs

example : units [0xE2, 0x82, 0x62] = [([0xE2, 0x82], replacement), ([0x62], 'b')] := by decide

/-- Every ill-formed part among the units is three bytes long, as its replacement is. -/
def KeepsLength (us : List (Bytes × Char)) : Prop :=
  ∀ u ∈ us, u.2 = replacement → u.1.length = 3

instance (us : List (Bytes × Char)) : Decidable (KeepsLength us) :=
  inferInstanceAs (Decidable (∀ u ∈ us, u.2 = replacement → u.1.length = 3))

theorem unitsFuel_cons (n : ℕ) (b0 : UInt8) (rest : Bytes) :
    ∃ taken c left, rest = taken ++ left ∧ lossyStep b0 rest = (c, left) ∧
      IsUnit b0 taken c left ∧
      unitsFuel (n + 1) (b0 :: rest) = (b0 :: taken, c) :: unitsFuel n left := by
  obtain ⟨taken, c, left, rfl, hstep, hunit⟩ := lossyStep_unit b0 rest
  refine ⟨taken, c, left, rfl, hstep, hunit, ?_⟩
  have hlen : (taken ++ left).length + 1 - left.length = (b0 :: taken).length := by
    rw [List.length_append, List.length_cons]
    omega
  rw [unitsFuel, hstep]
  dsimp only
  rw [hlen, ← List.cons_append, List.take_left' rfl]

/-- What the units of a text are, whatever fuel beyond its length they are found with. -/
structure Splits (bs : Bytes) (us : List (Bytes × Char)) : Prop where
  bytes : us.flatMap Prod.fst = bs
  chars : us.map Prod.snd = lossy bs
  size : ∀ u ∈ us, u.1.length = u.2.utf8Size ∨ (u.2 = replacement ∧ u.1.length ≤ 3)

theorem unitsFuel_splits {n : ℕ} {bs : Bytes} (hn : bs.length ≤ n) :
    Splits bs (unitsFuel n bs) := by
  induction n generalizing bs with
  | zero =>
    obtain rfl := List.length_eq_zero_iff.mp (Nat.le_zero.mp hn)
    exact ⟨rfl, rfl, nofun⟩
  | succ n ih =>
    cases bs with
    | nil => exact ⟨rfl, rfl, nofun⟩
    | cons b0 rest =>
      obtain ⟨taken, c, left, rfl, hstep, hunit, hunits⟩ := unitsFuel_cons n b0 rest
      have hleft : left.length ≤ n := by
        rw [List.length_cons, List.length_append] at hn
        omega
      obtain ⟨hbytes, hchars, hsize⟩ := ih hleft
      rw [hunits]
      refine ⟨?_, ?_, List.forall_mem_cons.mpr ⟨hunit.size, hsize⟩⟩
      · rw [List.flatMap_cons, hbytes]
        rfl
      · rw [List.map_cons, hchars, lossy_cons, hstep]

/-- The units up to some place are read alike when the text ends there. -/
theorem lossy_units {n : ℕ} {bs : Bytes} {us vs : List (Bytes × Char)} (hn : bs.length ≤ n)
    (h : unitsFuel n bs = us ++ vs) : lossy (us.flatMap Prod.fst) = us.map Prod.snd := by
  induction us generalizing n bs with
  | nil => rfl
  | cons u us ih =>
    obtain ⟨n, b0, rest, rfl, rfl⟩ : ∃ m b0 rest, n = m + 1 ∧ bs = b0 :: rest := by
      cases n with
      | zero => cases h
      | succ m =>
        cases bs with
        | nil => cases h
        | cons b0 rest => exact ⟨m, b0, rest, rfl, rfl⟩
    obtain ⟨taken, c, left, rfl, _, hunit, hunits⟩ := unitsFuel_cons n b0 rest
    rw [hunits, List.cons_append] at h
    obtain ⟨rfl, htail⟩ := List.cons.inj h
    have hleft : left.length ≤ n := by
      rw [List.length_cons, List.length_append] at hn
      omega
    have hprefix : us.flatMap Prod.fst <+: left := by
      rw [← (unitsFuel_splits hleft).bytes, htail, List.flatMap_append]
      exact List.prefix_append _ _
    rw [List.flatMap_cons, List.cons_append, lossy_cons, hunit.cut _ hprefix, ih hleft htail]
    rfl

theorem units_splits (bs : Bytes) : Splits bs (units bs) := unitsFuel_splits (Nat.le_refl _)

section Cutting

variable {bs : Bytes} {us vs : List (Bytes × Char)}

/-- Units are never longer than what they are read as, and as long as that exactly when every
ill-formed part is as long as its replacement. -/
theorem length_units_iff
    (hsize : ∀ u ∈ us, u.1.length = u.2.utf8Size ∨ (u.2 = replacement ∧ u.1.length ≤ 3)) :
    (us.flatMap Prod.fst).length ≤ byteLen (us.map Prod.snd) ∧
      ((us.flatMap Prod.fst).length = byteLen (us.map Prod.snd) ↔ KeepsLength us) := by
  induction us with
  | nil => exact ⟨Nat.le_refl _, iff_of_true rfl nofun⟩
  | cons u us ih =>
    obtain ⟨hu, hrest⟩ := List.forall_mem_cons.mp hsize
    obtain ⟨hle, hiff⟩ := ih hrest
    have hthree := utf8Size_replacement
    have hkeeps : KeepsLength (u :: us) ↔
        (u.2 = replacement → u.1.length = 3) ∧ KeepsLength us := List.forall_mem_cons
    have hbound : u.1.length ≤ u.2.utf8Size := by
      rcases hu with heq | ⟨hc, hle⟩
      · exact Nat.le_of_eq heq
      · rwa [hc, hthree]
    have hexact : u.1.length = u.2.utf8Size ↔ (u.2 = replacement → u.1.length = 3) := by
      rcases hu with heq | ⟨hc, hle⟩
      · exact iff_of_true heq (fun hc => by rw [heq, hc, hthree])
      · rw [hc, hthree]
        exact ⟨fun heq _ => heq, fun h => h rfl⟩
    rw [List.flatMap_cons, List.map_cons, byteLen_cons, List.length_append, hkeeps, ← hiff,
      ← hexact]
    omega

/-- The length of what the first units are read as, taken as an offset into the bytes, stands
behind these units exactly when every ill-formed part is as long as its replacement. -/
theorem drop_units_iff (h : units bs = us ++ vs) :
    (byteLen (us.map Prod.snd) ≤ bs.length ∧
        bs.drop (byteLen (us.map Prod.snd)) = vs.flatMap Prod.fst) ↔ KeepsLength us := by
  obtain ⟨hbytes, _, hsize⟩ := units_splits bs
  rw [h] at hsize hbytes
  rw [List.flatMap_append] at hbytes
  obtain ⟨_, hiff⟩ := length_units_iff fun u hu => hsize u (List.mem_append_left vs hu)
  have hlen := congrArg List.length hbytes
  rw [List.length_append] at hlen
  rw [← hiff]
  constructor
  · rintro ⟨hinside, hdrop⟩
    have hleft := congrArg List.length hdrop
    rw [List.length_drop] at hleft
    omega
  · intro heq
    rw [← heq, ← hbytes, List.drop_left' rfl]
    exact ⟨by rw [List.length_append]; omega, rfl⟩

/-- The bytes before that offset are then read as the first units. -/
theorem lossy_take_units (h : units bs = us ++ vs) (hkeeps : KeepsLength us) :
    lossy (bs.take (byteLen (us.map Prod.snd))) = us.map Prod.snd := by
  obtain ⟨hinside, hdrop⟩ := (drop_units_iff h).mpr hkeeps
  have hbytes := (units_splits bs).bytes
  rw [h, List.flatMap_append, ← hdrop] at hbytes
  have hown : us.flatMap Prod.fst = bs.take (byteLen (us.map Prod.snd)) :=
    List.append_cancel_right (hbytes.trans (List.take_append_drop _ bs).symm)
  rw [← hown, lossy_units (Nat.le_refl _) h]

end Cutting

/-- NUL is read from a NUL byte alone. -/
theorem nul_mem_lossy {bs : Bytes} (h : '\x00' ∈ lossy bs) : 0 ∈ bs := by
  induction hn : bs.length using Nat.strongRecOn generalizing bs with
  | ind n ih =>
    cases bs with
    | nil => cases h
    | cons b0 rest =>
      obtain ⟨taken, c, left, rfl, hstep, hunit⟩ := lossyStep_unit b0 rest
      rw [lossy_cons, hstep] at h
      rcases List.mem_cons.mp h with hc | hleft
      · rw [hunit.nul hc.symm]
        exact List.mem_cons_self ..
      · have hshorter : left.length < n := by
          rw [List.length_cons, List.length_append] at hn
          omega
        exact List.mem_cons_of_mem _ (List.mem_append_right _ (ih _ hshorter hleft rfl))

end SqliteBroker.Utf8
