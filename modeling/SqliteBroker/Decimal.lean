import Mathlib.Algebra.GroupWithZero.Nat
import Mathlib.Data.List.Basic
import Mathlib.Data.Int.Notation

/-!
Decimal numbers as text: what the `FromStr` of the Rust integers accepts, and that
it reads back every number as it is printed.
-/
namespace SqliteBroker.Decimal

/-- A non-empty run of decimal digits. -/
def parseDigits (cs : List Char) : Option ℕ :=
  if cs ≠ [] ∧ cs.all Char.isDigit then some (Nat.ofDigitChars 10 cs 0) else none

/-- `FromStr` of an unsigned type: a leading plus is allowed, a number of more than `bits`
bits is an error. -/
def parseUnsigned (bits : ℕ) (cs : List Char) : Option ℕ :=
  let digits := match cs with
    | '+' :: rest => rest
    | _ => cs
  (parseDigits digits).filter (· < 2 ^ bits)

/-- The digits after a number that has been read so far. Each step checks the product, the
digit and the sum in this order; a product that is too large is reported after the digit. -/
def readDigits (bits : ℕ) : ℕ → List Char → Except String ℕ
  | n, [] => .ok n
  | n, c :: rest =>
    if c.isDigit = false then .error "invalid digit found in string"
    else if 2 ^ bits ≤ 10 * n + (c.toNat - '0'.toNat) then
      .error "number too large to fit in target type"
    else readDigits bits (10 * n + (c.toNat - '0'.toNat)) rest

/-- `FromStr` of an unsigned type with the text of its error. -/
def fromStr (bits : ℕ) (cs : List Char) : Except String ℕ :=
  match cs with
  | [] => .error "cannot parse integer from empty string"
  | ['+'] => .error "invalid digit found in string"
  | '+' :: rest => readDigits bits 0 rest
  | _ => readDigits bits 0 cs

/-- `FromStr` of a signed type. -/
def parseSigned (bits : ℕ) : List Char → Option ℤ
  | '-' :: rest => ((parseDigits rest).filter (· ≤ 2 ^ (bits - 1))).map (fun n => -(n : ℤ))
  | cs => (parseUnsigned (bits - 1) cs).map (fun n => (n : ℤ))

theorem parseDigits_toDigits (n : ℕ) : parseDigits (Nat.toDigits 10 n) = some n := by
  have hdigits : (Nat.toDigits 10 n).all Char.isDigit = true :=
    List.all_eq_true.mpr
      (fun _ hc => Nat.isDigit_of_mem_toDigits (by decide) (by decide) hc)
  rw [parseDigits, if_pos ⟨Nat.toDigits_ne_nil, hdigits⟩, Nat.ofDigitChars_ten_toDigits]

theorem toDigits_head_isDigit {n : ℕ} {c : Char} {rest : List Char}
    (h : Nat.toDigits 10 n = c :: rest) : c.isDigit = true := by
  apply Nat.isDigit_of_mem_toDigits (b := 10) (n := n) (by decide) (by decide)
  rw [h]
  exact List.mem_cons_self ..

/-- A printed number is read as itself, if at all. -/
theorem parseUnsigned_print (bits n : ℕ) :
    parseUnsigned bits (Nat.toDigits 10 n) = (some n).filter (· < 2 ^ bits) := by
  have hread : parseUnsigned bits (Nat.toDigits 10 n) =
      (parseDigits (Nat.toDigits 10 n)).filter (· < 2 ^ bits) := by
    unfold parseUnsigned
    split
    · next rest hplus =>
      have hdigit : ('+' : Char).isDigit = true := toDigits_head_isDigit hplus
      exact absurd hdigit (by decide)
    · rfl
  rw [hread, parseDigits_toDigits]

/-- A printed number is read back when the type can hold it. -/
theorem parseUnsigned_toDigits {bits n : ℕ} (h : n < 2 ^ bits) :
    parseUnsigned bits (Nat.toDigits 10 n) = some n := by
  rw [parseUnsigned_print]
  simp [h]

theorem le_ofDigitChars (cs : List Char) (n : ℕ) : n ≤ Nat.ofDigitChars 10 cs n := by
  rw [Nat.ofDigitChars_eq_ofDigitChars_zero]
  have hpow : 1 * n ≤ 10 ^ cs.length * n := Nat.mul_le_mul_right n (Nat.pow_pos (by decide))
  omega

/-- The checks of each step accept what fits in the end. -/
theorem toOption_readDigits {bits : ℕ} (cs : List Char) {n : ℕ} (hn : n < 2 ^ bits) :
    (readDigits bits n cs).toOption =
      if cs.all Char.isDigit then (some (Nat.ofDigitChars 10 cs n)).filter (· < 2 ^ bits)
      else none := by
  induction cs generalizing n with
  | nil =>
    have hfits : Option.filter (fun m => decide (m < 2 ^ bits)) (some n) = some n :=
      Option.filter_some_pos (decide_eq_true hn)
    exact hfits.symm
  | cons c rest ih =>
    rw [List.all_cons, Nat.ofDigitChars_cons]
    by_cases hdigit : c.isDigit = false
    · rw [readDigits, if_pos hdigit, hdigit]
      rfl
    · have hdigit' : c.isDigit = true := by simpa using hdigit
      rw [readDigits, if_neg hdigit, hdigit', Bool.true_and]
      by_cases hlarge : 2 ^ bits ≤ 10 * n + (c.toNat - '0'.toNat)
      · have hfinal := le_ofDigitChars rest (10 * n + (c.toNat - '0'.toNat))
        have hover : ¬ Nat.ofDigitChars 10 rest (10 * n + (c.toNat - '0'.toNat)) < 2 ^ bits :=
          Nat.not_lt.mpr (Nat.le_trans hlarge hfinal)
        rw [if_pos hlarge]
        simp only [Option.filter_some, decide_eq_true_eq, hover, if_false, ite_self]
        rfl
      · rw [if_neg hlarge]
        exact ih (Nat.lt_of_not_le hlarge)

theorem toOption_fromStr (bits : ℕ) (cs : List Char) :
    (fromStr bits cs).toOption = parseUnsigned bits cs := by
  have hnone : ∀ cs : List Char, cs ≠ [] →
      (readDigits bits 0 cs).toOption = (parseDigits cs).filter (· < 2 ^ bits) := by
    intro cs hcs
    rw [toOption_readDigits cs (Nat.two_pow_pos bits), parseDigits]
    by_cases hall : cs.all Char.isDigit = true
    · rw [if_pos hall, if_pos ⟨hcs, hall⟩]
    · rw [if_neg hall, if_neg (fun h => hall h.2)]
      rfl
  unfold fromStr parseUnsigned
  split
  · rfl
  · rfl
  · next rest hrest => exact hnone rest hrest
  · next hempty _ hplus =>
    split
    · next rest heq => exact absurd rfl (hplus rest)
    · exact hnone cs hempty

/-- A printed number is read back when the type can hold it. -/
theorem fromStr_toDigits {bits n : ℕ} (h : n < 2 ^ bits) :
    fromStr bits (Nat.toDigits 10 n) = .ok n := by
  have hread := toOption_fromStr bits (Nat.toDigits 10 n)
  rw [parseUnsigned_toDigits h] at hread
  cases hfrom : fromStr bits (Nat.toDigits 10 n) with
  | error text =>
    rw [hfrom] at hread
    cases hread
  | ok m =>
    rw [hfrom] at hread
    rw [Option.some.inj hread]

example : fromStr 8 "2560x".toList = .error "number too large to fit in target type" := by decide

example : parseSigned 64 "-9223372036854775808".toList = some (-9223372036854775808) := by decide

end SqliteBroker.Decimal
