import Mathlib.Data.List.Infix

/-!
Values behind each other in a stream, without a delimiter. A reader takes one value off the
front, and reads nothing from a part of it. What it reads of a stream, and of every beginning
of the stream, follows from what it reads of one value.
-/
namespace SqliteBroker.Segments

variable {β ε ι : Type} {M : ι → Type}

/-- A reader is told what to read next. With `none` the stream ends too early. -/
abbrev Reader (β ε : Type) (M : ι → Type) : Type :=
  (i : ι) → List β → Option (Except ε (M i) × List β)

variable (read : Reader β ε M) (early : ε)

/-- Calls in a row up to the first error: the values read, and the rest of the stream or the
error. -/
def readAll : List ι → List β → List (Sigma M) × Except ε (List β)
  | [], stream => ([], .ok stream)
  | i :: rest, stream =>
    match read i stream with
    | none => ([], .error early)
    | some (.error err, _) => ([], .error err)
    | some (.ok m, left) =>
      let (ms, ending) := readAll rest left
      (⟨i, m⟩ :: ms, ending)

/-- The value is read from its own segment, whatever follows, and from no beginning of it. -/
structure Reads (m : Sigma M) (segment : List β) : Prop where
  whole : ∀ more, read m.1 (segment ++ more) = some (.ok m.2, more)
  cut : ∀ start, start <+: segment → start ≠ segment → read m.1 start = none

variable {read early} {m : Sigma M} {msgs : List (Sigma M)} {segment : List β}
  {segments : List (List β)} {R : Sigma M → List β → Prop}

theorem readAll_cons (h : Reads read m segment) (rest : List ι) (more : List β) :
    readAll read early (m.1 :: rest) (segment ++ more) =
      (m :: (readAll read early rest more).1, (readAll read early rest more).2) := by
  rw [readAll, h.whole]

theorem readAll_cut (h : Reads read m segment) {start : List β} (hstart : start <+: segment)
    (hne : start ≠ segment) (rest : List ι) :
    readAll read early (m.1 :: rest) start = ([], .error early) := by
  rw [readAll, h.cut start hstart hne]

/-- A stream is read to its end. -/
theorem readAll_flatten (hR : ∀ m segment, R m segment → Reads read m segment)
    (h : List.Forall₂ R msgs segments) :
    readAll read early (msgs.map Sigma.fst) segments.flatten = (msgs, .ok []) := by
  induction h with
  | nil => rfl
  | cons hfirst _ ih =>
    rw [List.map_cons, List.flatten_cons, readAll_cons (hR _ _ hfirst), ih]

/-- A proper beginning of a stream ends inside the segment of some value: those before it are
read, and then comes the error. -/
theorem readAll_beginning (hR : ∀ m segment, R m segment → Reads read m segment)
    (h : List.Forall₂ R msgs segments) {start : List β} (hstart : start <+: segments.flatten)
    (hne : start ≠ segments.flatten) :
    ∃ before m after done segment, msgs = before ++ m :: after ∧
      List.Forall₂ R before done ∧ R m segment ∧ done.flatten <+: start ∧
      start.length < (done ++ [segment]).flatten.length ∧
      readAll read early (msgs.map Sigma.fst) start = (before, .error early) := by
  induction h generalizing start with
  | nil => exact absurd (List.prefix_nil.mp hstart) hne
  | @cons m segment msgs segments hfirst hrest ih =>
    rw [List.flatten_cons] at hstart hne
    by_cases hlen : segment.length ≤ start.length
    · -- the first segment is complete
      obtain ⟨more, rfl⟩ := List.prefix_of_prefix_length_le (List.prefix_append _ _) hstart hlen
      obtain ⟨before, m', after, done, last, rfl, hbefore, hm', hinside, hshort, hread⟩ :=
        ih ((List.prefix_append_right_inj _).mp hstart) (fun heq => hne (by rw [heq]))
      refine ⟨m :: before, m', after, segment :: done, last, rfl, .cons hfirst hbefore, hm',
        ?_, ?_, ?_⟩
      · rw [List.flatten_cons]
        exact (List.prefix_append_right_inj _).mpr hinside
      · rw [List.cons_append, List.flatten_cons, List.length_append, List.length_append]
        omega
      · rw [List.map_cons, readAll_cons (hR _ _ hfirst), hread]
    · -- the stream ends inside the first segment
      have hshort : start.length < segment.length := Nat.lt_of_not_le hlen
      have hinside : start <+: segment :=
        List.prefix_of_prefix_length_le hstart (List.prefix_append _ _) (Nat.le_of_lt hshort)
      refine ⟨[], m, msgs, [], segment, rfl, .nil, hfirst, List.nil_prefix, ?_, ?_⟩
      · simpa using hshort
      · refine readAll_cut (hR _ _ hfirst) hinside ?_ _
        rintro rfl
        exact Nat.lt_irrefl _ hshort

end SqliteBroker.Segments
