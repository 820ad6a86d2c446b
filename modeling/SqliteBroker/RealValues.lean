import SqliteBroker.Serde

/-!
Messages up to their REAL values. serde_json may read the text of a double as another one
close to it, so what crosses a connection is known but for its doubles: the message that is
read and the message that was written agree once each double of both is blanked.
-/
namespace SqliteBroker.RealValues

open Messages Serde Wire

/-- The value with zero in place of every double. -/
def blankJson : Json → Json
  | .real _ _ => .real ⟨0⟩ rfl
  | .arr items => .arr (items.map blankJson)
  | .obj fields => .obj (fields.map fun f => (f.1, blankJson f.2))
  | j => j
decreasing_by
  · have hlt := List.sizeOf_lt_of_mem ‹_›
    simp only [Json.arr.sizeOf_spec]
    omega
  · obtain ⟨name, v⟩ := f
    have hlt := List.sizeOf_lt_of_mem ‹_›
    simp only [Prod.mk.sizeOf_spec] at hlt
    simp only [Json.obj.sizeOf_spec]
    omega

/-- A message with zero in place of every double. Blanking the value of a message blanks
what is decoded from it. -/
class Blank (α : Type) [Wire α] where
  blank : α → α
  fromJson_blank : ∀ j, (fromJson (blankJson j)).map blank = (fromJson j : Option α).map blank

open Blank

section Fields

variable {fields : List (String × Json)} {name : String}

def blankFields (fields : List (String × Json)) : List (String × Json) :=
  fields.map fun f => (f.1, blankJson f.2)

theorem field_blank : field (blankFields fields) name =
    (field fields name).map (Option.map blankJson) := by
  have hfilter : (blankFields fields).filter (fun f => f.1 = name) =
      blankFields (fields.filter fun f => f.1 = name) := List.filter_map
  unfold field
  rw [hfilter]
  generalize fields.filter (fun f => f.1 = name) = found
  rcases found with _ | ⟨⟨n, v⟩, _ | ⟨f, rest⟩⟩ <;> rfl

variable {α : Type} [Wire α] [Blank α]

theorem required_blank : (required (blankFields fields) name : Option α).map blank =
    (required fields name).map blank := by
  unfold required
  rw [field_blank]
  rcases field fields name with _ | _ | v
  · rfl
  · rfl
  · exact fromJson_blank v

theorem defaulted_blank {d : α} : (defaulted (blankFields fields) name d).map blank =
    (defaulted fields name d).map blank := by
  unfold defaulted
  rw [field_blank]
  rcases field fields name with _ | _ | v
  · rfl
  · rfl
  · exact fromJson_blank v

/-- A decoder that continues with a field goes on alike from alike values of it. -/
theorem bind_blank {β γ : Type} {x y : Option α} {f g : α → Option β} {k : β → γ}
    (h : x.map blank = y.map blank)
    (hnext : ∀ a b, blank a = blank b → (f a).map k = (g b).map k) :
    (x.bind f).map k = (y.bind g).map k := by
  cases x with
  | none =>
    cases y with
    | none => rfl
    | some b => cases h
  | some a =>
    cases y with
    | none => cases h
    | some b => exact hnext a b (Option.some.inj h)

theorem map_blank {β γ : Type} {x y : Option α} {f : α → β} {k : β → γ}
    (h : x.map blank = y.map blank) (hnext : ∀ a b, blank a = blank b → k (f a) = k (f b)) :
    (f <$> x).map k = (f <$> y).map k := by
  have hbind : (x.bind (some ∘ f)).map k = (y.bind (some ∘ f)).map k :=
    bind_blank h fun a b hab => congrArg some (hnext a b hab)
  rwa [← Option.map_eq_bind, ← Option.map_eq_bind] at hbind

/-- The same with a value that has no doubles. -/
theorem atom_blank {β γ : Type} {x y : Option α} {f g : α → Option β} {k : β → γ}
    (hatom : ∀ a : α, blank a = a) (h : x.map blank = y.map blank)
    (hnext : ∀ a, (f a).map k = (g a).map k) : (x.bind f).map k = (y.bind g).map k := by
  refine bind_blank h ?_
  intro a b hab
  rw [hatom, hatom] at hab
  rw [hab]
  exact hnext b

end Fields

section Atoms

instance : Blank Bool where
  blank b := b
  fromJson_blank j := by cases j <;> simp [blankJson, fromJson]

instance : Blank String where
  blank s := s
  fromJson_blank j := by cases j <;> simp [blankJson, fromJson]

instance : Blank (Option String) where
  blank s := s
  fromJson_blank j := by cases j <;> simp [blankJson, fromJson]

instance : Blank Int32 where
  blank v := v
  fromJson_blank j := by cases j <;> simp [blankJson, fromJson]

instance : Blank Int64 where
  blank v := v
  fromJson_blank j := by cases j <;> simp [blankJson, fromJson]

instance : Blank UInt64 where
  blank v := v
  fromJson_blank j := by cases j <;> simp [blankJson, fromJson]

instance : Blank F64 where
  blank _ := ⟨0⟩
  fromJson_blank j := by cases j <;> simp [blankJson, fromJson]

end Atoms

section Lists

variable {α : Type} [Wire α] [Blank α]

theorem mapM_blank (items : List Json) :
    ((items.map blankJson).mapM (fromJson : Json → Option α)).map (List.map blank) =
      (items.mapM fromJson).map (List.map blank) := by
  induction items with
  | nil => rfl
  | cons j rest ih =>
    rw [List.map_cons, List.mapM_cons, List.mapM_cons]
    refine bind_blank (fromJson_blank j) ?_
    intro a b hab
    generalize (rest.map blankJson).mapM (fromJson : Json → Option α) = x at ih ⊢
    generalize rest.mapM (fromJson : Json → Option α) = y at ih ⊢
    cases x <;> cases y <;> simp_all

instance : Blank (List α) where
  blank l := l.map blank
  fromJson_blank j := by
    cases j with
    | arr items =>
      rw [blankJson]
      exact mapM_blank items
    | _ => simp [blankJson, fromJson]

end Lists

theorem blank_strings (l : List String) : blank l = l := List.map_id' l

instance : Blank Cell where
  blank
    | .real v => .real (blank v)
    | c => c
  fromJson_blank j := by
    cases j with
    | obj fields =>
      rw [blankJson]
      refine atom_blank (fun _ => rfl) required_blank ?_
      intro t
      split
      · rfl
      · exact map_blank required_blank fun a b hab => congrArg Cell.int hab
      · exact map_blank required_blank fun a b hab => congrArg Cell.real hab
      · exact map_blank required_blank fun a b hab => congrArg Cell.text hab
      · exact map_blank required_blank fun a b hab => congrArg Cell.blob hab
      · rfl
    | _ => simp [blankJson, fromJson]

instance : Blank Param where
  blank p := { p with value := blank p.value }
  fromJson_blank j := by
    cases j with
    | obj fields =>
      rw [blankJson]
      refine atom_blank (fun _ => rfl) required_blank ?_
      intro index
      exact bind_blank required_blank fun a b hab => by simp [hab]
    | _ => simp [blankJson, fromJson]

instance : Blank Hello where
  blank h := h
  fromJson_blank j := by
    cases j with
    | obj fields =>
      rw [blankJson]
      refine atom_blank (fun _ => rfl) required_blank fun ok => ?_
      refine atom_blank (fun _ => rfl) required_blank fun session => ?_
      exact bind_blank defaulted_blank fun a b hab => congrArg some (congrArg _ hab)
    | _ => simp [blankJson, fromJson]

instance : Blank Request where
  blank
    | .exec sql params => .exec sql (blank params)
    | req => req
  fromJson_blank j := by
    cases j with
    | obj fields =>
      rw [blankJson]
      refine atom_blank (fun _ => rfl) required_blank ?_
      intro op
      split
      · refine atom_blank (fun _ => rfl) required_blank ?_
        intro sql
        exact bind_blank defaulted_blank fun a b hab =>
          congrArg (fun params => some (Request.exec sql params)) hab
      · exact map_blank required_blank fun a b hab => congrArg Request.prepare hab
      · rfl
      · rfl
    | _ => simp [blankJson, fromJson]

instance : Blank Response where
  blank r := { r with rows := blank r.rows }
  fromJson_blank j := by
    cases j with
    | obj fields =>
      rw [blankJson]
      refine atom_blank (fun _ => rfl) required_blank fun ok => ?_
      refine atom_blank (fun _ => rfl) defaulted_blank fun message => ?_
      refine atom_blank (fun _ => rfl) defaulted_blank fun code => ?_
      refine atom_blank blank_strings defaulted_blank fun columns => ?_
      refine bind_blank defaulted_blank fun rows rows' hrows => ?_
      refine atom_blank (fun _ => rfl) defaulted_blank fun changes => ?_
      refine atom_blank (fun _ => rfl) defaulted_blank fun rowid => ?_
      refine atom_blank (fun _ => rfl) required_blank fun autocommit => ?_
      refine atom_blank (fun _ => rfl) defaulted_blank fun tail => ?_
      refine atom_blank (fun _ => rfl) defaulted_blank fun paramCount => ?_
      refine atom_blank blank_strings defaulted_blank fun paramNames => ?_
      refine atom_blank blank_strings defaulted_blank fun decltypes => ?_
      refine atom_blank (fun _ => rfl) defaulted_blank fun totalChanges => ?_
      refine atom_blank (fun _ => rfl) defaulted_blank fun empty => ?_
      simp only [Option.map_some, hrows]
    | _ => simp [blankJson, fromJson]

section Kept

variable {req req' : Request} {resp resp' : Response}

theorem isClose_of_blank (h : blank req = blank req') : req.isClose = req'.isClose := by
  cases req <;> cases req' <;> simp_all [blank, Request.isClose]

/-- Two responses that agree but for their doubles differ in their rows only. -/
theorem rows_of_blank (h : blank resp = blank resp') : resp = { resp' with rows := resp.rows } := by
  cases resp
  cases resp'
  simp_all [blank]

theorem autocommit_of_blank (h : blank resp = blank resp') :
    resp.autocommit = resp'.autocommit := by rw [rows_of_blank h]

theorem counters_of_blank (h : blank resp = blank resp') :
    resp.lastInsertRowid = resp'.lastInsertRowid ∧ resp.totalChanges = resp'.totalChanges := by
  rw [rows_of_blank h]
  exact ⟨rfl, rfl⟩

end Kept

end SqliteBroker.RealValues
