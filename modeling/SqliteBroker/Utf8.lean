import Mathlib.Algebra.GroupWithZero.Nat
import Mathlib.Data.List.Basic

/-!
UTF-8 text as a list of characters: its bytes, slices at byte offsets, and the
lossy reading of arbitrary bytes. A slice exists only at a character boundary.
The lossy reading replaces each maximal ill-formed part by U+FFFD.
-/
namespace SqliteBroker.Utf8

abbrev Bytes := List UInt8

def encode (cs : List Char) : Bytes := cs.flatMap String.utf8EncodeChar

def byteLen (cs : List Char) : ℕ := (cs.map Char.utf8Size).sum

@[simp] theorem encode_nil : encode [] = [] := rfl

@[simp] theorem byteLen_nil : byteLen [] = 0 := rfl

@[simp] theorem byteLen_cons (c : Char) (cs : List Char) :
    byteLen (c :: cs) = c.utf8Size + byteLen cs := by
  simp [byteLen]

@[simp] theorem byteLen_append (a b : List Char) : byteLen (a ++ b) = byteLen a + byteLen b := by
  simp [byteLen]

/-- `byteLen` counts the bytes of the encoding. -/
theorem length_encode (cs : List Char) : (encode cs).length = byteLen cs := by
  induction cs with
  | nil => rfl
  | cons c rest ih =>
    simp only [encode, List.flatMap_cons, List.length_append, byteLen_cons,
      String.length_utf8EncodeChar]
    rw [← ih]
    rfl

/-- The bytes of a string are those that it is stored in. -/
theorem length_encode_toList (s : String) : (encode s.toList).length = s.utf8ByteSize := by
  rw [← String.size_toByteArray, ← String.utf8Encode_toList]
  exact List.size_toByteArray.symm

/-- Some prefix of the characters has exactly `n` bytes. -/
def IsBoundary (cs : List Char) (n : ℕ) : Prop :=
  ∃ pre suffix, cs = pre ++ suffix ∧ byteLen pre = n

/-- The slice of the first `n` bytes; `none` when `n` lies beyond the text or
inside a character. -/
def sliceTo : List Char → ℕ → Option (List Char)
  | _, 0 => some []
  | [], _ + 1 => none
  | c :: rest, n + 1 =>
    if c.utf8Size ≤ n + 1 then (sliceTo rest (n + 1 - c.utf8Size)).map (c :: ·) else none

theorem sliceTo_append (pre suffix : List Char) :
    sliceTo (pre ++ suffix) (byteLen pre) = some pre := by
  induction pre with
  | nil => cases suffix <;> rfl
  | cons c rest ih =>
    obtain ⟨n, hn⟩ : ∃ n, byteLen (c :: rest) = n + 1 :=
      ⟨byteLen (c :: rest) - 1, by
        have := c.utf8Size_pos
        simp only [byteLen_cons]
        omega⟩
    rw [hn, List.cons_append, sliceTo, ← hn, byteLen_cons, if_pos (Nat.le_add_right _ _),
      Nat.add_sub_cancel_left, ih]
    rfl

theorem sliceTo_sound {cs pre : List Char} {n : ℕ} (h : sliceTo cs n = some pre) :
    (∃ suffix, cs = pre ++ suffix) ∧ byteLen pre = n := by
  induction cs generalizing n pre with
  | nil =>
    cases n with
    | zero =>
      cases h
      exact ⟨⟨[], rfl⟩, rfl⟩
    | succ n => cases h
  | cons c rest ih =>
    cases n with
    | zero =>
      cases h
      exact ⟨⟨c :: rest, rfl⟩, rfl⟩
    | succ n =>
      rw [sliceTo] at h
      split at h
      · next hle =>
        obtain ⟨pre', hpre', rfl⟩ := Option.map_eq_some_iff.mp h
        obtain ⟨⟨suffix, rfl⟩, hlen⟩ := ih hpre'
        refine ⟨⟨suffix, rfl⟩, ?_⟩
        rw [byteLen_cons, hlen]
        omega
      · cases h

/-- A slice exists exactly at a character boundary. -/
theorem sliceTo_isSome_iff (cs : List Char) (n : ℕ) :
    (sliceTo cs n).isSome ↔ IsBoundary cs n := by
  constructor
  · intro h
    obtain ⟨pre, hpre⟩ := Option.isSome_iff_exists.mp h
    obtain ⟨⟨suffix, hcs⟩, hlen⟩ := sliceTo_sound hpre
    exact ⟨pre, suffix, hcs, hlen⟩
  · rintro ⟨pre, suffix, rfl, rfl⟩
    rw [sliceTo_append]
    rfl

/-- The characters with the Unicode property `White_Space`. -/
def isWhitespace (c : Char) : Bool :=
  let n := c.toNat
  (9 ≤ n && n ≤ 13) || n = 0x20 || n = 0x85 || n = 0xA0 || n = 0x1680 ||
    (0x2000 ≤ n && n ≤ 0x200A) || n = 0x2028 || n = 0x2029 || n = 0x202F || n = 0x205F ||
    n = 0x3000

def splitWords (word : List Char) : List Char → List (List Char)
  | [] => if word.isEmpty then [] else [word]
  | c :: rest =>
    if isWhitespace c then
      if word.isEmpty then splitWords [] rest else word :: splitWords [] rest
    else splitWords (word ++ [c]) rest

/-- `str::split_whitespace`: the maximal runs of other characters. -/
def splitWhitespace (cs : List Char) : List (List Char) := splitWords [] cs

def replacement : Char := '\uFFFD'

def isCont (b : UInt8) : Bool := 0x80 ≤ b && b ≤ 0xBF

/-- The second bytes that may follow the lead byte of a three-byte sequence. -/
def second3 (b0 b1 : UInt8) : Bool :=
  if b0 = 0xE0 then 0xA0 ≤ b1 && b1 ≤ 0xBF
  else if b0 = 0xED then 0x80 ≤ b1 && b1 ≤ 0x9F
  else isCont b1

/-- The second bytes that may follow the lead byte of a four-byte sequence. -/
def second4 (b0 b1 : UInt8) : Bool :=
  if b0 = 0xF0 then 0x90 ≤ b1 && b1 ≤ 0xBF
  else if b0 = 0xF4 then 0x80 ≤ b1 && b1 ≤ 0x8F
  else isCont b1

/-- The payload bits of a lead byte and its continuation bytes, as a character. -/
def assemble (lead : ℕ) (conts : Bytes) : Char :=
  Char.ofNat (conts.foldl (fun acc b => acc * 64 + b.toNat % 64) lead)

/-- One character of the lossy reading after the byte `b0`, and what is left. -/
def lossyStep (b0 : UInt8) (rest : Bytes) : Char × Bytes :=
  if b0 < 0x80 then (Char.ofNat b0.toNat, rest)
  else if 0xC2 ≤ b0 ∧ b0 ≤ 0xDF then
    match rest with
    | [] => (replacement, [])
    | b1 :: rest1 =>
      if isCont b1 then (assemble (b0.toNat % 32) [b1], rest1) else (replacement, b1 :: rest1)
  else if 0xE0 ≤ b0 ∧ b0 ≤ 0xEF then
    match rest with
    | [] => (replacement, [])
    | b1 :: rest1 =>
      if second3 b0 b1 then
        match rest1 with
        | [] => (replacement, [])
        | b2 :: rest2 =>
          if isCont b2 then (assemble (b0.toNat % 16) [b1, b2], rest2)
          else (replacement, b2 :: rest2)
      else (replacement, b1 :: rest1)
  else if 0xF0 ≤ b0 ∧ b0 ≤ 0xF4 then
    match rest with
    | [] => (replacement, [])
    | b1 :: rest1 =>
      if second4 b0 b1 then
        match rest1 with
        | [] => (replacement, [])
        | b2 :: rest2 =>
          if isCont b2 then
            match rest2 with
            | [] => (replacement, [])
            | b3 :: rest3 =>
              if isCont b3 then (assemble (b0.toNat % 8) [b1, b2, b3], rest3)
              else (replacement, b3 :: rest3)
          else (replacement, b2 :: rest2)
      else (replacement, b1 :: rest1)
  else (replacement, rest)

def lossyFuel : ℕ → Bytes → List Char
  | 0, _ => []
  | _ + 1, [] => []
  | n + 1, b0 :: rest => (lossyStep b0 rest).1 :: lossyFuel n (lossyStep b0 rest).2

/-- `String::from_utf8_lossy`: a reading of any bytes, each step taking at least one. -/
def lossy (bs : Bytes) : List Char := lossyFuel bs.length bs

example : lossy [0x61, 0xC3, 0xA9, 0xFF, 0xE2, 0x82, 0x62] = "aé\uFFFD\uFFFDb".toList := by decide

end SqliteBroker.Utf8
