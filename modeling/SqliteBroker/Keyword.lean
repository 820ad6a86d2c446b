import Mathlib.Data.List.TakeWhile
import SqliteBroker.AsciiBytes
import SqliteBroker.ShimStatement

/-!
The first word of a statement. The scan walks over the bytes of the text, skips blanks and
comments, and cuts the run of letters that it comes to out of the text. It ends for every text
and cuts between characters, and what stands before the word has no part in the result.
-/
namespace SqliteBroker.Keyword

open Utf8 ShimConnection ShimStatement

def isBlank (b : UInt8) : Bool :=
  b = 0x20 || b = 0x09 || b = 0x0A || b = 0x0D || b = 0x0C

/-- `u8::is_ascii_alphabetic`. -/
def isLetter (b : UInt8) : Bool := (0x41 ≤ b && b ≤ 0x5A) || (0x61 ≤ b && b ≤ 0x7A)

/-- Where a loop over single bytes stops. -/
def skipWhile (p : UInt8 → Bool) (bytes : Bytes) (i : ℕ) : ℕ :=
  i + ((bytes.drop i).takeWhile p).length

/-- The bytes before the end of a comment; of a comment without an end all but the last. -/
def commentLength : Bytes → ℕ
  | b :: c :: rest => if b = 0x2A ∧ c = 0x2F then 0 else commentLength (c :: rest) + 1
  | _ => 0

def skipComment (bytes : Bytes) (i : ℕ) : ℕ :=
  min (i + commentLength (bytes.drop i) + 2) bytes.length

theorem le_skipWhile (p : UInt8 → Bool) (bytes : Bytes) (i : ℕ) : i ≤ skipWhile p bytes i :=
  Nat.le_add_right _ _

/-- The loop of `keyword`: where the word starts and stops, if there is one. -/
def scan (bytes : Bytes) (i : ℕ) : Option (ℕ × ℕ) :=
  match _ : bytes[i]? with
  | none => none
  | some b =>
    if isBlank b then scan bytes (i + 1)
    else if b = 0x2D ∧ bytes[i + 1]? = some 0x2D then
      scan bytes (skipWhile (· ≠ 0x0A) bytes (i + 2))
    else if b = 0x2F ∧ bytes[i + 1]? = some 0x2A then scan bytes (skipComment bytes (i + 2))
    else
      let stop := skipWhile isLetter bytes i
      if stop = i then none else some (i, stop)
termination_by bytes.length - i
decreasing_by
  all_goals
    have hi : i < bytes.length := (List.getElem?_eq_some_iff.mp ‹_›).1
  · omega
  · have := le_skipWhile (· ≠ 0x0A) bytes (i + 2)
    omega
  · unfold skipComment
    omega

/-- `&text[start..stop]`; `none` is a panic. -/
def slice (cs : List Char) (start stop : ℕ) : Option (List Char) :=
  (sliceTo cs stop).bind (fun head => (sliceTo head start).map (fun before =>
    head.drop before.length))

/-- `keyword` with the offset of its scan; `none` is a panic. -/
def keyword (sql : String) : Option (Option String) :=
  match scan (encode sql.toList) 0 with
  | none => some none
  | some (start, stop) =>
    (slice sql.toList start stop).map (fun word => some (String.ofList (word.map Char.toUpper)))

/-- `sqlite3_stmt_readonly`; its guard makes an error of a panic. -/
def stmtReadonly (stmt : ProxyStmt) : Int32 :=
  match keyword stmt.sql with
  | none => sqliteError
  | some word =>
    if word ∈ [some "SELECT", some "EXPLAIN", some "PRAGMA", some "VALUES"] then 1 else 0

theorem scan_end {bytes : Bytes} {i : ℕ} (h : bytes[i]? = none) : scan bytes i = none := by
  rw [scan.eq_def]
  split
  · rfl
  · next hb => rw [h] at hb; cases hb

/-- One round of the loop. -/
theorem scan_byte {bytes : Bytes} {i : ℕ} {b : UInt8} (h : bytes[i]? = some b) :
    scan bytes i =
      if isBlank b then scan bytes (i + 1)
      else if b = 0x2D ∧ bytes[i + 1]? = some 0x2D then
        scan bytes (skipWhile (· ≠ 0x0A) bytes (i + 2))
      else if b = 0x2F ∧ bytes[i + 1]? = some 0x2A then scan bytes (skipComment bytes (i + 2))
      else if skipWhile isLetter bytes i = i then none
      else some (i, skipWhile isLetter bytes i) := by
  rw [scan.eq_def]
  split
  · next hb => rw [h] at hb; cases hb
  · next b' hb =>
    obtain rfl := Option.some.inj (h.symm.trans hb)
    rfl

section Shift

variable (start bytes : Bytes)

theorem skipWhile_append (p : UInt8 → Bool) (i : ℕ) :
    skipWhile p (start ++ bytes) (start.length + i) = start.length + skipWhile p bytes i := by
  unfold skipWhile
  rw [List.drop_length_add_append]
  omega

theorem skipComment_append (i : ℕ) :
    skipComment (start ++ bytes) (start.length + i) = start.length + skipComment bytes i := by
  unfold skipComment
  rw [List.drop_length_add_append, List.length_append]
  omega

theorem getElem?_behind (i : ℕ) : (start ++ bytes)[start.length + i]? = bytes[i]? := by
  rw [List.getElem?_append_right (Nat.le_add_right _ _), Nat.add_sub_cancel_left]

/-- What the scan has left behind has no part in it. -/
theorem scan_append (i : ℕ) : scan (start ++ bytes) (start.length + i) =
    (scan bytes i).map (fun word => (start.length + word.1, start.length + word.2)) := by
  have hhere := getElem?_behind start bytes
  have hnext : ∀ i, (start ++ bytes)[start.length + i + 1]? = bytes[i + 1]? :=
    fun i => hhere (i + 1)
  fun_induction scan bytes i with
  | case1 i h => exact scan_end ((hhere i).trans h)
  | case2 i b h hblank ih =>
    rw [scan_byte ((hhere i).trans h), if_pos hblank]
    exact ih
  | case3 i b h hblank hdash ih =>
    rw [scan_byte ((hhere i).trans h), if_neg hblank, hnext, if_pos hdash, Nat.add_assoc,
      skipWhile_append]
    exact ih
  | case4 i b h hblank hdash hslash ih =>
    rw [scan_byte ((hhere i).trans h), if_neg hblank, hnext, if_neg hdash, if_pos hslash,
      Nat.add_assoc, skipComment_append]
    exact ih
  | case5 i b h hblank hdash hslash stop hstop =>
    rw [scan_byte ((hhere i).trans h), if_neg hblank, hnext, if_neg hdash, if_neg hslash,
      skipWhile_append, if_pos (congrArg (start.length + ·) hstop)]
    rfl
  | case6 i b h hblank hdash hslash stop hstop =>
    rw [scan_byte ((hhere i).trans h), if_neg hblank, hnext, if_neg hdash, if_neg hslash,
      skipWhile_append, if_neg (fun heq => hstop (Nat.add_left_cancel heq))]
    rfl

end Shift

section Trivia

/-- What may stand before a statement: a blank, a comment up to its line feed, or a comment up
to its end. -/
inductive Trivia
  | blank (c : Char) (isBlank : c ∈ [' ', '\t', '\n', '\r', '\x0c'])
  | line (content : List Char) (noFeed : '\n' ∉ content)
  | block (content : List Char) (noEnd : ¬ ['*', '/'] <:+: content)

def Trivia.text : Trivia → List Char
  | blank c _ => [c]
  | line content _ => ['-', '-'] ++ content ++ ['\n']
  | block content _ => ['/', '*'] ++ content ++ ['*', '/']

theorem commentLength_cons {b c : UInt8} (h : ¬ (b = 0x2A ∧ c = 0x2F)) (rest : Bytes) :
    commentLength (b :: c :: rest) = commentLength (c :: rest) + 1 := by
  rw [commentLength, if_neg h]

/-- The loop over a comment stops at its end. -/
theorem commentLength_append {content : Bytes} (h : ¬ [0x2A, 0x2F] <:+: content) (more : Bytes) :
    commentLength (content ++ ([0x2A, 0x2F] ++ more)) = content.length := by
  induction content with
  | nil => rfl
  | cons b rest ih =>
    have hrest := ih (fun hin => h (hin.trans (List.suffix_cons b rest).isInfix))
    cases rest with
    | nil => exact commentLength_cons (fun hpair => absurd hpair.2 (by decide)) _
    | cons c rest =>
      have hpair : ¬ (b = 0x2A ∧ c = 0x2F) := by
        rintro ⟨rfl, rfl⟩
        exact h ⟨[], rest, rfl⟩
      rw [List.cons_append, List.cons_append, commentLength_cons hpair, ← List.cons_append, hrest]
      rfl

theorem takeWhile_line {content : Bytes} (h : 0x0A ∉ content) (more : Bytes) :
    (content ++ (0x0A :: more)).takeWhile (· ≠ 0x0A) = content := by
  have hcontent : ∀ b ∈ content, decide (b ≠ 0x0A) = true := by
    intro b hb
    apply decide_eq_true
    rintro rfl
    exact h hb
  rw [List.takeWhile_append_of_pos hcontent]
  simp

theorem scan_line {content : Bytes} (h : 0x0A ∉ content) (more : Bytes) :
    scan ([0x2D, 0x2D] ++ (content ++ (0x0A :: more))) 0 =
      scan ([0x2D, 0x2D] ++ (content ++ (0x0A :: more))) (content.length + 3) := by
  have hstop : skipWhile (· ≠ 0x0A) ([0x2D, 0x2D] ++ (content ++ (0x0A :: more))) 2 =
      content.length + 2 := by
    have hdrop : ([0x2D, 0x2D] ++ (content ++ (0x0A :: more))).drop 2 =
        content ++ (0x0A :: more) := rfl
    rw [skipWhile, hdrop, takeWhile_line h, Nat.add_comm]
  have hfeed : ([0x2D, 0x2D] ++ (content ++ (0x0A :: more)))[content.length + 2]? = some 0x0A := by
    simp
  rw [scan_byte rfl, if_neg (by decide), if_pos ⟨rfl, rfl⟩, hstop, scan_byte hfeed,
    if_pos (by decide)]

theorem scan_block {content : Bytes} (h : ¬ [0x2A, 0x2F] <:+: content) (more : Bytes) :
    scan ([0x2F, 0x2A] ++ (content ++ ([0x2A, 0x2F] ++ more))) 0 =
      scan ([0x2F, 0x2A] ++ (content ++ ([0x2A, 0x2F] ++ more))) (content.length + 4) := by
  have hstop : skipComment ([0x2F, 0x2A] ++ (content ++ ([0x2A, 0x2F] ++ more))) 2 =
      content.length + 4 := by
    have hdrop : ([0x2F, 0x2A] ++ (content ++ ([0x2A, 0x2F] ++ more))).drop 2 =
        content ++ ([0x2A, 0x2F] ++ more) := rfl
    rw [skipComment, hdrop, commentLength_append h]
    simp only [List.length_append, List.length_cons, List.length_nil]
    omega
  rw [scan_byte rfl, if_neg (by decide), if_neg (fun hdash => absurd hdash.1 (by decide)),
    if_pos ⟨rfl, rfl⟩, hstop]

/-- A piece of trivia takes the scan to the place behind it. -/
theorem scan_trivia (t : Trivia) (more : Bytes) :
    scan (encode t.text ++ more) 0 = scan (encode t.text ++ more) (encode t.text).length := by
  cases t with
  | blank c h =>
    have hbyte : ∃ b, encode [c] = [b] ∧ isBlank b = true := by
      simp only [List.mem_cons, List.not_mem_nil, or_false] at h
      rcases h with rfl | rfl | rfl | rfl | rfl <;> exact ⟨_, rfl, by decide⟩
    obtain ⟨b, hb, hblank⟩ := hbyte
    rw [Trivia.text, hb, scan_byte rfl, if_pos hblank]
    rfl
  | line content h =>
    have htext : encode (Trivia.line content h).text =
        [0x2D, 0x2D] ++ encode content ++ [0x0A] := by
      rw [Trivia.text, encode_append, encode_append]
      rfl
    have hfeed : 0x0A ∉ encode content := fun hmem => h (mem_of_ascii (by decide) hmem)
    have hlen : ([0x2D, 0x2D] ++ encode content ++ [0x0A]).length =
        (encode content).length + 3 := by
      simp only [List.length_append, List.length_cons, List.length_nil]
      omega
    rw [htext, hlen, List.append_assoc, List.append_assoc]
    exact scan_line hfeed more
  | block content h =>
    have htext : encode (Trivia.block content h).text =
        [0x2F, 0x2A] ++ encode content ++ [0x2A, 0x2F] := by
      rw [Trivia.text, encode_append, encode_append]
      rfl
    have hend : ¬ [0x2A, 0x2F] <:+: encode content := fun hin =>
      h (infix_of_encode (a := ['/']) (c := '*') (by decide) hin)
    have hlen : ([0x2F, 0x2A] ++ encode content ++ [0x2A, 0x2F]).length =
        (encode content).length + 4 := by
      simp only [List.length_append, List.length_cons, List.length_nil]
      omega
    rw [htext, hlen, List.append_assoc, List.append_assoc]
    exact scan_block hend more

end Trivia

section Slices

variable {cs : List Char} {bytes : Bytes} {i n start stop : ℕ}

theorem skipWhile_inside {p : UInt8 → Bool} (hlow : i ≤ n) (hhigh : n < skipWhile p bytes i) :
    ∃ b, bytes[n]? = some b ∧ p b = true := by
  have hlen : n - i < ((bytes.drop i).takeWhile p).length := by
    unfold skipWhile at hhigh
    omega
  obtain ⟨rest, hrest⟩ := List.takeWhile_prefix (l := bytes.drop i) p
  have hat : ((bytes.drop i).takeWhile p ++ rest)[n - i]? =
      ((bytes.drop i).takeWhile p)[n - i]? :=
    List.getElem?_append_left hlen
  rw [hrest, List.getElem?_drop, Nat.add_sub_cancel' hlow, List.getElem?_eq_getElem hlen] at hat
  exact ⟨_, hat, List.mem_takeWhile_imp (List.getElem_mem hlen)⟩

/-- A word that the scan finds is a run of letters. -/
theorem scan_letters (h : scan bytes i = some (start, stop)) : start < stop ∧
    ∀ n, start ≤ n → n < stop → ∃ b, bytes[n]? = some b ∧ isLetter b = true := by
  fun_induction scan bytes i with
  | case1 i h => cases h
  | case2 i b h hblank ih => exact ih ‹_›
  | case3 i b h hblank hdash ih => exact ih ‹_›
  | case4 i b h hblank hdash hslash ih => exact ih ‹_›
  | case5 i b h hblank hdash hslash stop hstop => cases h
  | case6 i b h hblank hdash hslash stop hstop =>
    obtain ⟨rfl, rfl⟩ := Prod.mk.inj (Option.some.inj ‹_›)
    have hle := le_skipWhile isLetter bytes i
    exact ⟨by omega, fun n hlow hhigh => skipWhile_inside hlow hhigh⟩

theorem letter_ascii {b : UInt8} (h : isLetter b = true) : b.toNat < 128 := by
  unfold isLetter at h
  simp only [Bool.or_eq_true, Bool.and_eq_true, decide_eq_true_eq, UInt8.le_iff_toNat_le,
    UInt8.reduceToNat] at h
  omega

/-- Both ends of a word lie between characters. -/
theorem scan_boundary (h : scan (encode cs) i = some (start, stop)) :
    start < stop ∧ IsBoundary cs start ∧ IsBoundary cs stop := by
  obtain ⟨hlt, hletters⟩ := scan_letters h
  obtain ⟨first, hfirst, hletter⟩ := hletters start (Nat.le_refl _) hlt
  obtain ⟨last, hlast, hletter'⟩ := hletters (stop - 1) (by omega) (by omega)
  have hstop := (boundary_of_ascii (letter_ascii hletter') hlast).2
  rw [Nat.sub_add_cancel (Nat.one_le_of_lt hlt)] at hstop
  exact ⟨hlt, (boundary_of_ascii (letter_ascii hletter) hfirst).1, hstop⟩

theorem slice_append (before word after : List Char) :
    slice (before ++ word ++ after) (byteLen before) (byteLen (before ++ word)) = some word := by
  rw [slice, sliceTo_append, Option.bind_some, sliceTo_append, Option.map_some, List.drop_left]

/-- Two places between characters cut the text into three parts. -/
theorem three_parts (hlt : start < stop) (hstart : IsBoundary cs start)
    (hstop : IsBoundary cs stop) : ∃ before word after, cs = before ++ word ++ after ∧
      byteLen before = start ∧ byteLen (before ++ word) = stop := by
  obtain ⟨before, rest, rfl, rfl⟩ := hstart
  obtain ⟨head, after, hcs, rfl⟩ := hstop
  rcases List.append_eq_append_iff.mp hcs with ⟨word, rfl, rfl⟩ | ⟨word, rfl, rfl⟩
  · exact ⟨before, word, after, (List.append_assoc ..).symm, rfl, rfl⟩
  · rw [byteLen_append] at hlt
    omega

end Slices

section Results

/-- The scan comes to the same word behind any trivia. -/
theorem scan_behind (T : List Trivia) (bytes : Bytes) :
    scan (encode (T.flatMap Trivia.text) ++ bytes) 0 =
      (scan bytes 0).map (fun word => ((encode (T.flatMap Trivia.text)).length + word.1,
        (encode (T.flatMap Trivia.text)).length + word.2)) := by
  rw [← scan_append, Nat.add_zero]
  induction T with
  | nil => rfl
  | cons t rest ih =>
    have hshift := scan_append (encode t.text) (encode (rest.flatMap Trivia.text) ++ bytes)
    have hfirst := scan_trivia t (encode (rest.flatMap Trivia.text) ++ bytes)
    rw [List.flatMap_cons, encode_append, List.append_assoc, hfirst, List.length_append, hshift,
      ← ih, ← hshift, Nat.add_zero]

/-- Every scan ends with a word that can be cut out, or without one. -/
theorem keyword_isSome (s : String) : (keyword s).isSome := by
  unfold keyword
  cases hscan : scan (encode s.toList) 0 with
  | none => rfl
  | some word =>
    obtain ⟨hlt, hstart, hstop⟩ := scan_boundary hscan
    obtain ⟨before, cut, after, hcs, hbefore, hcut⟩ := three_parts hlt hstart hstop
    dsimp only
    rw [hcs, ← hbefore, ← hcut, slice_append]
    rfl

theorem keyword_behind (T : List Trivia) (s : String) :
    keyword (String.ofList (T.flatMap Trivia.text) ++ s) = keyword s := by
  unfold keyword
  rw [String.toList_append, String.toList_ofList, encode_append, scan_behind]
  cases hscan : scan (encode s.toList) 0 with
  | none => rfl
  | some word =>
    obtain ⟨hlt, hstart, hstop⟩ := scan_boundary hscan
    obtain ⟨before, cut, after, hcs, hbefore, hcut⟩ := three_parts hlt hstart hstop
    have hlen : (encode (T.flatMap Trivia.text)).length = byteLen (T.flatMap Trivia.text) :=
      length_encode _
    simp only [Option.map_some]
    rw [hcs, ← hbefore, ← hcut, slice_append, hlen, ← byteLen_append, ← byteLen_append,
      ← List.append_assoc, ← List.append_assoc, slice_append]

/-- So a statement is as read-only as it is without the comments before it. -/
theorem stmtReadonly_behind (T : List Trivia) (stmt : ProxyStmt) :
    stmtReadonly { stmt with sql := String.ofList (T.flatMap Trivia.text) ++ stmt.sql } =
      stmtReadonly stmt := by
  simp only [stmtReadonly, keyword_behind]

/-- Blanks and comments before a text have no part in its keyword. For every text the scan
returns, and the word it finds lies inside the text, between characters. -/
theorem keyword_ignores_trivia :
    (∀ (T : List Trivia) (s : String),
      keyword (String.ofList (T.flatMap Trivia.text) ++ s) = keyword s) ∧
    ∀ s : String, (keyword s).isSome ∧
      ∀ start stop, scan (encode s.toList) 0 = some (start, stop) →
        start < stop ∧ stop ≤ byteLen s.toList ∧ IsBoundary s.toList start ∧
          IsBoundary s.toList stop ∧ (slice s.toList start stop).isSome := by
  refine ⟨keyword_behind, fun s => ⟨keyword_isSome s, fun start stop hscan => ?_⟩⟩
  obtain ⟨hlt, hstart, hstop⟩ := scan_boundary hscan
  obtain ⟨before, cut, after, hcs, rfl, rfl⟩ := three_parts hlt hstart hstop
  refine ⟨hlt, ?_, hstart, hstop, ?_⟩
  · rw [hcs, byteLen_append (before ++ cut)]
    exact Nat.le_add_right _ _
  · rw [hcs, slice_append]
    rfl

/-- A comment with a letter of two bytes in it and one right behind it. -/
theorem commented_select :
    let sql := "/*é*/select é"
    scan (encode sql.toList) 0 = some (6, 12) ∧ keyword sql = some (some "SELECT") ∧
      (slice sql.toList 6 12).isSome := by
  intro sql
  have hblock : ¬ ['*', '/'] <:+: ['é'] := by decide
  obtain ⟨htrivia, hslices⟩ := keyword_ignores_trivia
  have hscan : scan (encode sql.toList) 0 = some (6, 12) := by decide +kernel
  have hword : keyword "select é" = some (some "SELECT") := by decide +kernel
  exact ⟨hscan, (htrivia [.block ['é'] hblock] "select é").trans hword,
    ((hslices sql).2 6 12 hscan).2.2.2.2⟩

end Results

end SqliteBroker.Keyword
