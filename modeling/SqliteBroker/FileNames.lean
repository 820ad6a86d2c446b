import Mathlib.Data.List.TakeWhile

/-!
Paths as `std::path` takes them apart: their components, the last name with its stem and its
extension, and the same path with another extension.
-/
namespace SqliteBroker.FileNames

inductive Component
  | rootDir
  | curDir
  | parentDir
  | normal (name : List Char)
  deriving DecidableEq, Repr

/-- Two paths are equal when their components are. -/
abbrev Path := List Component

/-- A part between two slashes; a dot counts only in front of a relative path. -/
def component (first : Bool) (part : List Char) : Option Component :=
  if part = [] then none
  else if part = ['.'] then if first then some .curDir else none
  else if part = ['.', '.'] then some .parentDir
  else some (.normal part)

/-- `Path::components`. -/
def components (text : List Char) : Path :=
  match text with
  | '/' :: rest => .rootDir :: (rest.splitOn '/').filterMap (component false)
  | _ =>
    match text.splitOn '/' with
    | [] => []
    | first :: rest => (component true first).toList ++ rest.filterMap (component false)

/-- `Path::file_name`. -/
def fileName (p : Path) : Option (List Char) :=
  match p.getLast? with
  | some (.normal name) => some name
  | _ => none

/-- `Path::parent`. -/
def parent (p : Path) : Option Path :=
  match p.getLast? with
  | none | some .rootDir => none
  | some _ => some p.dropLast

/-- `rsplitn(2, c)` of a text in which `c` occurs. -/
def rsplitOnce (c : Char) (text : List Char) : Option (List Char × List Char) :=
  match text.reverse.dropWhile (· ≠ c) with
  | [] => none
  | _ :: before => some (before.reverse, (text.reverse.takeWhile (· ≠ c)).reverse)

def rsplitFileAtDot (name : List Char) : Option (List Char) × Option (List Char) :=
  if name = ['.', '.'] then (some name, none)
  else
    match rsplitOnce '.' name with
    | none => (none, some name)
    | some (before, after) => if before = [] then (some name, none) else (some before, some after)

/-- `Path::file_stem`. -/
def fileStem (p : Path) : Option (List Char) :=
  (fileName p).bind fun name => (rsplitFileAtDot name).1.or (rsplitFileAtDot name).2

/-- `Path::extension`. -/
def extension (p : Path) : Option (List Char) :=
  (fileName p).bind fun name => (rsplitFileAtDot name).1.bind fun _ => (rsplitFileAtDot name).2

/-- `Path::with_extension`. -/
def withExtension (p : Path) (ext : List Char) : Path :=
  match fileStem p with
  | none => p
  | some stem => p.dropLast ++ [.normal (stem ++ if ext = [] then [] else '.' :: ext)]

section Names

variable {c : Char} {text before after name ext : List Char} {p : Path}

theorem rsplitOnce_append (h : c ∉ after) :
    rsplitOnce c (before ++ c :: after) = some (before, after) := by
  have hsolid : ∀ x ∈ after.reverse, decide (x ≠ c) = true := by
    intro x hx
    rw [decide_eq_true_iff]
    exact fun heq => h (heq ▸ List.mem_reverse.mp hx)
  have hreverse : (before ++ c :: after).reverse = after.reverse ++ c :: before.reverse := by simp
  unfold rsplitOnce
  rw [hreverse, List.dropWhile_append_of_pos hsolid, List.takeWhile_append_of_pos hsolid]
  simp

theorem rsplitOnce_eq_some_iff :
    rsplitOnce c text = some (before, after) ↔ text = before ++ c :: after ∧ c ∉ after := by
  constructor
  · intro h
    unfold rsplitOnce at h
    split at h
    · cases h
    · next d rest hdrop =>
      cases h
      have hd : d = c := by
        have hhead := List.head?_dropWhile_not (fun x => decide (x ≠ c)) text.reverse
        rw [hdrop] at hhead
        simpa using hhead
      have htext := List.takeWhile_append_dropWhile (p := fun x => decide (x ≠ c))
        (l := text.reverse)
      rw [hdrop, hd] at htext
      constructor
      · calc text = text.reverse.reverse := (List.reverse_reverse text).symm
          _ = _ := congrArg List.reverse htext.symm
          _ = _ := by simp only [List.reverse_append, List.reverse_cons, List.append_assoc,
            List.singleton_append]
      · intro hmem
        simpa using List.mem_takeWhile_imp (List.mem_reverse.mp hmem)
  · rintro ⟨rfl, hafter⟩
    exact rsplitOnce_append hafter

/-- A name without an extension is its own stem. -/
theorem rsplitFileAtDot_cases (name : List Char) :
    (∃ before after, name = before ++ '.' :: after ∧
      rsplitFileAtDot name = (some before, some after)) ∨
    rsplitFileAtDot name = (some name, none) ∨ rsplitFileAtDot name = (none, some name) := by
  unfold rsplitFileAtDot
  split
  · exact Or.inr (Or.inl rfl)
  · split
    · exact Or.inr (Or.inr rfl)
    · next before after hsplit =>
      split
      · exact Or.inr (Or.inl rfl)
      · exact Or.inl ⟨before, after, (rsplitOnce_eq_some_iff.mp hsplit).1, rfl⟩

theorem path_name (h : fileName p = some name) : ∃ dir, p = dir ++ [.normal name] := by
  unfold fileName at h
  split at h
  · next hlast =>
    cases h
    exact List.getLast?_eq_some_iff.mp hlast
  · cases h

/-- A file keeps its path under another extension only if that is its extension already. -/
theorem withExtension_eq_iff (hne : ext ≠ []) :
    withExtension p ext = p ↔ fileName p = none ∨ extension p = some ext := by
  cases hname : fileName p with
  | none => simp [withExtension, fileStem, hname]
  | some name =>
    obtain ⟨dir, rfl⟩ := path_name hname
    simp only [withExtension, fileStem, extension, hname, Option.bind_some, if_neg hne,
      List.dropLast_concat]
    rcases rsplitFileAtDot_cases name with ⟨before, after, rfl, h⟩ | h | h
    · simp [h, eq_comm]
    · simp [h]
    · simp [h]

end Names

end SqliteBroker.FileNames
