import SqliteBroker.Decimal
import SqliteBroker.Utf8

/-!
Text in parts: the words, lines and columns into which the methods of `str` cut it, and a key
with its value. What a text was joined from is what these methods give back.
-/
namespace SqliteBroker.TextParts

open Utf8

/-- `str::trim`. -/
def trim (cs : List Char) : List Char :=
  ((cs.dropWhile isWhitespace).reverse.dropWhile isWhitespace).reverse

/-- `str::split_once` with a character. -/
def splitOnce (c : Char) (cs : List Char) : Option (List Char × List Char) :=
  match cs.dropWhile (· ≠ c) with
  | [] => none
  | _ :: value => some (cs.takeWhile (· ≠ c), value)

def chomp (line : List Char) : List Char :=
  if line.getLast? = some '\r' then line.dropLast else line

def splitLines (line : List Char) : List Char → List (List Char)
  | [] => if line.isEmpty then [] else [line]
  | c :: rest =>
    if c = '\n' then chomp line :: splitLines [] rest else splitLines (line ++ [c]) rest

/-- `str::lines`. -/
def lines (cs : List Char) : List (List Char) := splitLines [] cs

structure IsWord (w : List Char) : Prop where
  ne_nil : w ≠ []
  solid : ∀ c ∈ w, isWhitespace c = false

theorem solid_of_all {w : List Char} (h : w.all (fun c => !isWhitespace c) = true) :
    ∀ c ∈ w, isWhitespace c = false := by
  intro c hc
  simpa using List.all_eq_true.mp h c hc

theorem isWord_toDigits (n : ℕ) : IsWord (Nat.toDigits 10 n) where
  ne_nil := Nat.toDigits_ne_nil
  solid := by
    intro c hc
    have hdigit := Nat.isDigit_of_mem_toDigits (by decide) (by decide) hc
    have hrange : 48 ≤ c.toNat ∧ c.toNat ≤ 57 := Char.isDigit_iff_toNat.mp hdigit
    simp only [isWhitespace, Bool.or_eq_false_iff, Bool.and_eq_false_iff, decide_eq_false_iff_not]
    omega

theorem IsWord.append {v w : List Char} (hv : IsWord v) (hw : ∀ c ∈ w, isWhitespace c = false) :
    IsWord (v ++ w) where
  ne_nil := List.append_ne_nil_of_left_ne_nil hv.ne_nil w
  solid := by
    intro c hc
    rcases List.mem_append.mp hc with hfirst | hsecond
    · exact hv.solid c hfirst
    · exact hw c hsecond

section Words

theorem splitWords_solid {w : List Char} (hw : ∀ c ∈ w, isWhitespace c = false)
    (word rest : List Char) : splitWords word (w ++ rest) = splitWords (word ++ w) rest := by
  induction w generalizing word with
  | nil => rw [List.nil_append, List.append_nil]
  | cons c w ih =>
    have hc : ¬ isWhitespace c = true := by simp [hw c List.mem_cons_self]
    rw [List.cons_append, splitWords, if_neg hc, ih (fun d hd => hw d (List.mem_cons_of_mem c hd)),
      List.append_assoc, List.singleton_append]

theorem splitWhitespace_intercalate {words : List (List Char)} (hwords : ∀ w ∈ words, IsWord w) :
    splitWhitespace ([' '].intercalate words) = words := by
  unfold splitWhitespace
  induction words with
  | nil => rfl
  | cons w rest ih =>
    obtain ⟨hnil, hsolid⟩ := hwords w List.mem_cons_self
    have hnonempty : ¬ w.isEmpty = true := by simpa using hnil
    cases rest with
    | nil =>
      have hword := splitWords_solid hsolid [] []
      rw [List.append_nil, List.nil_append] at hword
      rw [List.intercalate_singleton, hword, splitWords, if_neg hnonempty]
    | cons next rest =>
      have hspace : isWhitespace ' ' = true := by decide
      rw [List.intercalate_cons_cons, List.append_assoc, splitWords_solid hsolid,
        List.nil_append, List.singleton_append, splitWords, if_pos hspace, if_neg hnonempty,
        ih (fun v hv => hwords v (List.mem_cons_of_mem w hv))]

end Words

section Trimming

theorem dropWhile_solid {c : Char} (rest : List Char) (h : isWhitespace c = false) :
    (c :: rest).dropWhile isWhitespace = c :: rest :=
  List.dropWhile_cons_of_neg (by simp [h])

/-- The line feed at the end goes; a line between other characters keeps them all. -/
theorem trim_line {line : List Char} (hfirst : ∀ c ∈ line.head?, isWhitespace c = false)
    (hlast : ∀ c ∈ line.getLast?, isWhitespace c = false) : trim (line ++ ['\n']) = line := by
  have hfeed : isWhitespace '\n' = true := by decide
  rcases List.eq_nil_or_concat line with rfl | ⟨before, d, rfl⟩
  · unfold trim
    rw [List.nil_append, List.dropWhile_cons_of_pos hfeed]
    rfl
  · rw [List.concat_eq_append] at hfirst hlast ⊢
    have hd : isWhitespace d = false := hlast d (by rw [List.getLast?_concat]; rfl)
    have hfront : (before ++ [d] ++ ['\n']).dropWhile isWhitespace = before ++ [d] ++ ['\n'] := by
      cases before with
      | nil => exact dropWhile_solid ['\n'] hd
      | cons c rest => exact dropWhile_solid (rest ++ [d] ++ ['\n']) (hfirst c rfl)
    unfold trim
    rw [hfront, List.reverse_append, List.reverse_append, List.reverse_singleton,
      List.reverse_singleton, List.singleton_append, List.dropWhile_cons_of_pos hfeed,
      List.singleton_append, dropWhile_solid _ hd, List.reverse_cons, List.reverse_reverse]

theorem head_intercalate {sep w : List Char} {words : List (List Char)} (hw : IsWord w) :
    ∀ c ∈ (sep.intercalate (w :: words)).head?, isWhitespace c = false := by
  obtain ⟨d, rest, rfl⟩ := List.exists_cons_of_ne_nil hw.ne_nil
  have hhead : (sep.intercalate ((d :: rest) :: words)).head? = some d := by
    cases words with
    | nil => rw [List.intercalate_singleton, List.head?_cons]
    | cons v words =>
      rw [List.intercalate_cons_cons, List.append_assoc, List.cons_append, List.head?_cons]
  intro c hc
  rw [hhead] at hc
  rw [← Option.some.inj hc]
  exact hw.solid d List.mem_cons_self

theorem last_intercalate {sep : List Char} {words : List (List Char)}
    (hwords : ∀ w ∈ words, IsWord w) :
    ∀ c ∈ (sep.intercalate words).getLast?, isWhitespace c = false := by
  induction words with
  | nil => exact fun c hc => (Option.not_mem_none c hc).elim
  | cons w words ih =>
    have hw := hwords w List.mem_cons_self
    cases words with
    | nil =>
      rw [List.intercalate_singleton]
      exact fun c hc => hw.solid c (List.mem_of_getLast? hc)
    | cons v words =>
      have hrest := ih fun u hu => hwords u (List.mem_cons_of_mem w hu)
      have hv := hwords v (List.mem_cons_of_mem w List.mem_cons_self)
      have hnil : sep.intercalate (v :: words) ≠ [] := by
        obtain ⟨d, rest, rfl⟩ := List.exists_cons_of_ne_nil hv.ne_nil
        cases words with
        | nil => simp
        | cons u words => simp
      rw [List.intercalate_cons_cons, List.getLast?_append_of_ne_nil _ hnil]
      exact hrest

theorem trim_intercalate {sep : List Char} {words : List (List Char)}
    (hwords : ∀ w ∈ words, IsWord w) :
    trim (sep.intercalate words ++ ['\n']) = sep.intercalate words := by
  apply trim_line
  · cases words with
    | nil => exact fun c hc => (Option.not_mem_none c hc).elim
    | cons w words => exact head_intercalate (hwords w List.mem_cons_self)
  · exact last_intercalate hwords

end Trimming

section Pairs

theorem splitOnce_pair {c : Char} {key : List Char} (h : c ∉ key) (value : List Char) :
    splitOnce c (key ++ c :: value) = some (key, value) := by
  have hkey : ∀ d ∈ key, decide (d ≠ c) = true := by
    intro d hd
    apply decide_eq_true
    rintro rfl
    exact h hd
  have hrest : (key ++ c :: value).dropWhile (· ≠ c) = c :: value := by
    rw [List.dropWhile_append_of_pos hkey]
    simp
  have hbefore : (key ++ c :: value).takeWhile (· ≠ c) = key := by
    rw [List.takeWhile_append_of_pos hkey]
    simp
  unfold splitOnce
  rw [hrest, hbefore]

end Pairs

section Lines

theorem splitLines_body {body : List Char} (h : '\n' ∉ body) (line rest : List Char) :
    splitLines line (body ++ rest) = splitLines (line ++ body) rest := by
  induction body generalizing line with
  | nil => rw [List.nil_append, List.append_nil]
  | cons c body ih =>
    rw [List.mem_cons, not_or] at h
    rw [List.cons_append, splitLines, if_neg (Ne.symm h.1), ih h.2, List.append_assoc,
      List.singleton_append]

/-- The lines of a printed table are its rows. -/
theorem lines_flatMap {rows : List (List Char)}
    (hrows : ∀ row ∈ rows, '\n' ∉ row ∧ '\r' ∉ row) :
    lines (rows.flatMap (· ++ ['\n'])) = rows := by
  unfold lines
  induction rows with
  | nil => rfl
  | cons row rows ih =>
    obtain ⟨hfeed, hreturn⟩ := hrows row List.mem_cons_self
    have hchomp : chomp row = row := by
      apply if_neg
      intro hlast
      exact hreturn (List.mem_of_getLast? hlast)
    rw [List.flatMap_cons, List.append_assoc, splitLines_body hfeed, List.nil_append,
      List.singleton_append, splitLines, if_pos rfl, hchomp,
      ih (fun r hr => hrows r (List.mem_cons_of_mem row hr))]

end Lines

end SqliteBroker.TextParts
