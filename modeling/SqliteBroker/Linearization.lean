import SqliteBroker.Runs
import Mathlib.Data.List.Nodup
import Mathlib.Logic.Function.Basic
import Mathlib.Logic.Relation

/-!
Linearizability of an object that serves many callers. A history lists calls and returns in
the order in which they happen, each with the number of its operation. A linearization serves
operations of the history one after the other, each answered as the caller sees it, and an
operation that has returned comes before all that are called later. The rules build one along
a run: it grows at its end, at the moment the object serves a call. An object that is reached
through others is linearizable from outside, too, with the operations of its own left out.
-/
namespace SqliteBroker.Linearization

open Runs

variable {ι ο ρ σ : Type*}

inductive Event (ι ο ρ : Type*)
  | call (i : ι) (op : ο)
  | ret (i : ι) (out : ρ)

def Event.called : Event ι ο ρ → Option ι
  | .call i _ => some i
  | .ret _ _ => none

/-- An operation as it is served. -/
structure Entry (ι ο ρ : Type*) where
  id : ι
  op : ο
  out : ρ

/-- Operations that are called and have not returned may be served or not. -/
structure Linearizes (step : σ → ο → ρ → σ → Prop) (init : σ) (h : List (Event ι ο ρ))
    (l : List (Entry ι ο ρ)) (s : σ) : Prop where
  served : Trace (fun s e s' => step s e.op e.out s') init l s
  calls : (h.filterMap Event.called).Nodup
  once : (l.map Entry.id).Nodup
  called : ∀ e ∈ l, .call e.id e.op ∈ h
  returned : ∀ i out, .ret i out ∈ h → ∃ op, ⟨i, op, out⟩ ∈ l
  order : ∀ i out j op, [.ret i out, .call j op].Sublist h → j ∈ l.map Entry.id →
    [i, j].Sublist (l.map Entry.id)

variable {step : σ → ο → ρ → σ → Prop} {init s s' : σ} {h : List (Event ι ο ρ)}
  {l : List (Entry ι ο ρ)} {e : Entry ι ο ρ} {i : ι} {op : ο} {out : ρ}

/-- A pair in a list with one more element is there already or ends with that element. -/
theorem pair_sublist_snoc {α : Type*} {l : List α} {a b c : α} (h : [a, b].Sublist (l ++ [c])) :
    [a, b].Sublist l ∨ (a ∈ l ∧ b = c) := by
  obtain ⟨l₁, l₂, hl, h₁, h₂⟩ := List.sublist_append_iff.mp h
  rcases List.sublist_singleton.mp h₂ with rfl | rfl
  · rw [List.append_nil] at hl
    exact Or.inl (hl ▸ h₁)
  · have hpair : [a] ++ [b] = l₁ ++ [c] := hl
    obtain ⟨rfl, hbc⟩ := List.append_inj' hpair rfl
    exact Or.inr ⟨h₁.subset (List.mem_singleton.mpr rfl), List.head_eq_of_cons_eq hbc⟩

theorem Linearizes.nil : Linearizes step s ([] : List (Event ι ο ρ)) [] s where
  served := .nil s
  calls := List.nodup_nil
  once := List.nodup_nil
  called := fun _ he => absurd he List.not_mem_nil
  returned := fun _ _ hret => absurd hret List.not_mem_nil
  order := fun _ _ _ _ hpair => absurd hpair.length_le (by simp)

theorem Linearizes.mem_calls (hl : Linearizes step init h l s) (hi : i ∈ l.map Entry.id) :
    i ∈ h.filterMap Event.called := by
  obtain ⟨e, he, rfl⟩ := List.mem_map.mp hi
  exact List.mem_filterMap.mpr ⟨_, hl.called e he, rfl⟩

/-- A call with a new number. -/
theorem Linearizes.call (hl : Linearizes step init h l s) (hi : i ∉ h.filterMap Event.called) :
    Linearizes step init (h ++ [.call i op]) l s where
  served := hl.served
  calls := by
    rw [List.filterMap_append]
    refine List.nodup_append.mpr ⟨hl.calls, List.nodup_singleton i, ?_⟩
    rintro a ha b hb rfl
    exact hi (List.mem_singleton.mp hb ▸ ha)
  once := hl.once
  called := fun e he => List.mem_append_left _ (hl.called e he)
  returned := fun j out hret => by
    rcases List.mem_append.mp hret with hold | hnew
    · exact hl.returned j out hold
    · cases List.mem_singleton.mp hnew
  order := fun i' out j op' hpair hj => by
    rcases pair_sublist_snoc hpair with hold | ⟨_, hnew⟩
    · exact hl.order i' out j op' hold hj
    · cases hnew
      exact absurd (hl.mem_calls hj) hi

/-- A return of what has been served. -/
theorem Linearizes.ret (hl : Linearizes step init h l s) (hmem : ⟨i, op, out⟩ ∈ l) :
    Linearizes step init (h ++ [.ret i out]) l s where
  served := hl.served
  calls := by
    rw [List.filterMap_append]
    exact (List.append_nil (h.filterMap Event.called)).symm ▸ hl.calls
  once := hl.once
  called := fun e he => List.mem_append_left _ (hl.called e he)
  returned := fun j out' hret => by
    rcases List.mem_append.mp hret with hold | hnew
    · exact hl.returned j out' hold
    · cases List.mem_singleton.mp hnew
      exact ⟨op, hmem⟩
  order := fun i' out' j op' hpair hj => by
    rcases pair_sublist_snoc hpair with hold | ⟨_, hnew⟩
    · exact hl.order i' out' j op' hold hj
    · cases hnew

/-- The object serves a call that it has not served yet. -/
theorem Linearizes.serve (hl : Linearizes step init h l s) (hstep : step s e.op e.out s')
    (hcall : .call e.id e.op ∈ h) (hnew : e.id ∉ l.map Entry.id) :
    Linearizes step init h (l ++ [e]) s' where
  served := hl.served.snoc hstep
  calls := hl.calls
  once := by
    rw [List.map_append]
    refine List.nodup_append.mpr ⟨hl.once, List.nodup_singleton e.id, ?_⟩
    rintro a ha b hb rfl
    exact hnew (List.mem_singleton.mp hb ▸ ha)
  called := fun e' he => by
    rcases List.mem_append.mp he with hold | hlast
    · exact hl.called e' hold
    · rw [List.mem_singleton.mp hlast]
      exact hcall
  returned := fun j out hret => by
    obtain ⟨op, hmem⟩ := hl.returned j out hret
    exact ⟨op, List.mem_append_left _ hmem⟩
  order := fun i out j op hpair hj => by
    rw [List.map_append] at hj ⊢
    rcases List.mem_append.mp hj with hold | hlast
    · exact (hl.order i out j op hpair hold).trans (List.sublist_append_left _ _)
    · rw [List.map_singleton, List.mem_singleton] at hlast
      obtain ⟨op', hmem⟩ := hl.returned i out (hpair.subset (List.mem_cons_self ..))
      have hi : i ∈ l.map Entry.id := List.mem_map.mpr ⟨_, hmem, rfl⟩
      rw [hlast]
      exact (List.singleton_sublist.mpr hi).append (List.Sublist.refl [e.id])

/-- A number is called once, with one operation. -/
theorem Linearizes.call_unique (hl : Linearizes step init h l s) {op' : ο}
    (hcall : .call i op ∈ h) (hcall' : .call i op' ∈ h) : op = op' := by
  have hcalls := hl.calls
  clear hl
  induction h with
  | nil => cases hcall
  | cons ev rest ih =>
    have hrest : (rest.filterMap Event.called).Nodup :=
      hcalls.sublist ((List.sublist_cons_self ev rest).filterMap _)
    have hhead : ∀ {o : ο}, ev = .call i o → i ∉ rest.filterMap Event.called := by
      rintro o rfl
      exact (List.nodup_cons.mp hcalls).1
    have hmem : ∀ {o : ο}, .call i o ∈ rest → i ∈ rest.filterMap Event.called :=
      fun hin => List.mem_filterMap.mpr ⟨_, hin, rfl⟩
    rcases List.mem_cons.mp hcall with hev | hin
    · rcases List.mem_cons.mp hcall' with hev' | hin'
      · cases hev.trans hev'.symm
        rfl
      · exact absurd (hmem hin') (hhead hev.symm)
    · rcases List.mem_cons.mp hcall' with hev' | hin'
      · exact absurd (hmem hin) (hhead hev'.symm)
      · exact ih hin hin' hrest

/-- What a call has returned is what it has been served with. -/
theorem Linearizes.answer (hl : Linearizes step init h l s) (hcall : .call i op ∈ h)
    (hret : .ret i out ∈ h) : ⟨i, op, out⟩ ∈ l := by
  obtain ⟨op', hmem⟩ := hl.returned i out hret
  obtain rfl := hl.call_unique hcall (hl.called _ hmem)
  exact hmem

/-- A step relation that allows more. -/
theorem Linearizes.mono {step' : σ → ο → ρ → σ → Prop} (hl : Linearizes step init h l s)
    (hstep : ∀ s op out s', step s op out s' → step' s op out s') :
    Linearizes step' init h l s where
  served := hl.served.weaken fun s e s' => hstep s e.op e.out s'
  calls := hl.calls
  once := hl.once
  called := hl.called
  returned := hl.returned
  order := hl.order

section Image

variable {ο' ρ' : Type*} {p : ο → ο'} {q : ρ → ρ'}

def Event.image (p : ο → ο') (q : ρ → ρ') : Event ι ο ρ → Event ι ο' ρ'
  | .call i op => .call i (p op)
  | .ret i out => .ret i (q out)

def Entry.image (p : ο → ο') (q : ρ → ρ') (e : Entry ι ο ρ) : Entry ι ο' ρ' :=
  ⟨e.id, p e.op, q e.out⟩

/-- A step of which only the images of the operation and its answer are seen. -/
def Image (step : σ → ο → ρ → σ → Prop) (p : ο → ο') (q : ρ → ρ') (s : σ) (op : ο') (out : ρ')
    (s' : σ) : Prop :=
  ∃ o r, step s o r s' ∧ p o = op ∧ q r = out

theorem called_image (h : List (Event ι ο ρ)) :
    (h.map (Event.image p q)).filterMap Event.called = h.filterMap Event.called := by
  rw [List.filterMap_map]
  congr 1
  funext ev
  cases ev <;> rfl

theorem ids_image (l : List (Entry ι ο ρ)) :
    (l.map (Entry.image p q)).map Entry.id = l.map Entry.id := by
  rw [List.map_map]
  rfl

theorem ret_mem_image {out : ρ'} :
    .ret i out ∈ h.map (Event.image p q) ↔ ∃ r, .ret i r ∈ h ∧ q r = out := by
  rw [List.mem_map]
  constructor
  · rintro ⟨ev, hev, himage⟩
    cases ev with
    | call j op => cases himage
    | ret j r =>
      cases himage
      exact ⟨r, hev, rfl⟩
  · rintro ⟨r, hev, rfl⟩
    exact ⟨_, hev, rfl⟩

theorem trace_image (htrace : Trace (fun s (e : Entry ι ο ρ) s' => step s e.op e.out s') s l s') :
    Trace (fun s (e : Entry ι ο' ρ') s' => Image step p q s e.op e.out s') s
      (l.map (Entry.image p q)) s' := by
  induction htrace with
  | nil s => exact .nil s
  | cons hstep _ ih => exact .cons ⟨_, _, hstep, rfl, rfl⟩ ih

/-- What is linearizable is linearizable to those who see the images only. -/
theorem Linearizes.image (hl : Linearizes step init h l s) :
    Linearizes (Image step p q) init (h.map (Event.image p q)) (l.map (Entry.image p q)) s where
  served := trace_image hl.served
  calls := by
    rw [called_image]
    exact hl.calls
  once := by
    rw [ids_image]
    exact hl.once
  called := fun e' he' => by
    obtain ⟨e, he, rfl⟩ := List.mem_map.mp he'
    exact List.mem_map.mpr ⟨_, hl.called e he, rfl⟩
  returned := fun i out hret => by
    obtain ⟨r, hr, rfl⟩ := ret_mem_image.mp hret
    obtain ⟨op, hmem⟩ := hl.returned i r hr
    exact ⟨p op, List.mem_map.mpr ⟨_, hmem, rfl⟩⟩
  order := fun i out j op hpair hj => by
    rw [ids_image] at hj ⊢
    obtain ⟨events, hsub, hevents⟩ := List.sublist_map_iff.mp hpair
    rcases events with _ | ⟨_ | ⟨i', r⟩, _ | ⟨⟨j', o⟩ | _, _ | _⟩⟩ <;> cases hevents
    exact hl.order _ r _ o hsub hj

end Image

section Outside

open Relation (ReflTransGen)

variable {κ : Type*} {name : ι → Option κ} {own : ο → Prop} {H : List (Event κ ο ρ)} {k : κ}

/-- Operations that the object makes itself. -/
def OwnStep (step : σ → ο → ρ → σ → Prop) (own : ο → Prop) (s s' : σ) : Prop :=
  ∃ op out, own op ∧ step s op out s'

/-- An operation, after some of the object's own. -/
def After (step : σ → ο → ρ → σ → Prop) (own : ο → Prop) (s : σ) (op : ο) (out : ρ) (s' : σ) :
    Prop :=
  ∃ t, ReflTransGen (OwnStep step own) s t ∧ step t op out s'

theorem ownStep_image {ο' ρ' : Type*} {p : ο → ο'} {q : ρ → ρ'} {own' : ο' → Prop}
    (hown : ∀ o, own' (p o) → own o) (hs : OwnStep (Image step p q) own' s s') :
    OwnStep step own s s' := by
  obtain ⟨op, out, hop, o, r, hstep, rfl, rfl⟩ := hs
  exact ⟨o, r, hown o hop, hstep⟩

/-- A history `h` at the object and the history `H` of the same operations outside. Each is
called at the object after its call outside, and has returned there when it returns outside. -/
structure Encloses (name : ι → Option κ) (own : ο → Prop) (H : List (Event κ ο ρ))
    (h : List (Event ι ο ρ)) : Prop where
  calls : (H.filterMap Event.called).Nodup
  named : ∀ i k, name i = some k → i ∈ h.filterMap Event.called
  unique : ∀ i j k, name i = some k → name j = some k → i = j
  called : ∀ i op, .call i op ∈ h →
    (∃ k, name i = some k ∧ .call k op ∈ H) ∨ (name i = none ∧ own op)
  returned : ∀ k out, .ret k out ∈ H → ∃ i, name i = some k ∧ .ret i out ∈ h
  order : ∀ k out k' op i j op', [.ret k out, .call k' op].Sublist H → name i = some k →
    name j = some k' → .call j op' ∈ h → ∃ out', [.ret i out', .call j op'].Sublist h

theorem Encloses.nil : Encloses (fun _ => none) own ([] : List (Event κ ο ρ))
    ([] : List (Event ι ο ρ)) where
  calls := List.nodup_nil
  named := fun _ _ hname => by cases hname
  unique := fun _ _ _ hname => by cases hname
  called := fun _ _ hcall => absurd hcall List.not_mem_nil
  returned := fun _ _ hret => absurd hret List.not_mem_nil
  order := fun _ _ _ _ _ _ _ hpair => absurd hpair.length_le (by simp)

theorem Encloses.mem_called (he : Encloses name own H h) {j : ι} {op : ο}
    (hname : name j = some k) (hcall : .call j op ∈ h) : .call k op ∈ H := by
  rcases he.called j op hcall with ⟨k', hname', hcall'⟩ | ⟨hnone, _⟩
  · rw [hname] at hname'
    exact Option.some.inj hname' ▸ hcall'
  · rw [hname] at hnone
    cases hnone

/-- A call outside. -/
theorem Encloses.call (he : Encloses name own H h) (hk : k ∉ H.filterMap Event.called) :
    Encloses name own (H ++ [.call k op]) h where
  calls := by
    rw [List.filterMap_append]
    refine List.nodup_append.mpr ⟨he.calls, List.nodup_singleton k, ?_⟩
    rintro a ha b hb rfl
    exact hk (List.mem_singleton.mp hb ▸ ha)
  named := he.named
  unique := he.unique
  called := fun i op' hcall => (he.called i op' hcall).imp_left
    (fun ⟨k', hname, hmem⟩ => ⟨k', hname, List.mem_append_left _ hmem⟩)
  returned := fun k' out hret => by
    rcases List.mem_append.mp hret with hold | hnew
    · exact he.returned k' out hold
    · cases List.mem_singleton.mp hnew
  order := fun k₁ out k₂ op₂ i j op' hpair hi hj hcall => by
    rcases pair_sublist_snoc hpair with hold | ⟨_, hnew⟩
    · exact he.order k₁ out k₂ op₂ i j op' hold hi hj hcall
    · cases hnew
      have hmem : k ∈ H.filterMap Event.called :=
        List.mem_filterMap.mpr ⟨_, he.mem_called hj hcall, rfl⟩
      exact absurd hmem hk

/-- A return outside. -/
theorem Encloses.ret (he : Encloses name own H h) (hname : name i = some k)
    (hret : .ret i out ∈ h) : Encloses name own (H ++ [.ret k out]) h where
  calls := by
    rw [List.filterMap_append]
    exact (List.append_nil (H.filterMap Event.called)).symm ▸ he.calls
  named := he.named
  unique := he.unique
  called := fun j op' hcall => (he.called j op' hcall).imp_left
    (fun ⟨k', hname', hmem⟩ => ⟨k', hname', List.mem_append_left _ hmem⟩)
  returned := fun k' out' hret' => by
    rcases List.mem_append.mp hret' with hold | hnew
    · exact he.returned k' out' hold
    · cases List.mem_singleton.mp hnew
      exact ⟨i, hname, hret⟩
  order := fun k₁ out₁ k₂ op₂ i₁ j op' hpair hi hj hcall => by
    rcases pair_sublist_snoc hpair with hold | ⟨_, hnew⟩
    · exact he.order k₁ out₁ k₂ op₂ i₁ j op' hold hi hj hcall
    · cases hnew

/-- A return at the object. -/
theorem Encloses.ret_inside (he : Encloses name own H h) :
    Encloses name own H (h ++ [.ret i out]) where
  calls := he.calls
  named := fun j k' hname => by
    rw [List.filterMap_append]
    exact List.mem_append_left _ (he.named j k' hname)
  unique := he.unique
  called := fun j op' hcall => by
    rcases List.mem_append.mp hcall with hold | hnew
    · exact he.called j op' hold
    · cases List.mem_singleton.mp hnew
  returned := fun k' out' hret => by
    obtain ⟨j, hname, hmem⟩ := he.returned k' out' hret
    exact ⟨j, hname, List.mem_append_left _ hmem⟩
  order := fun k₁ out₁ k₂ op₂ i₁ j op' hpair hi hj hcall => by
    rcases List.mem_append.mp hcall with hold | hnew
    · obtain ⟨out', hsub⟩ := he.order k₁ out₁ k₂ op₂ i₁ j op' hpair hi hj hold
      exact ⟨out', hsub.trans (List.sublist_append_left _ _)⟩
    · cases List.mem_singleton.mp hnew

/-- A call of the object's own. -/
theorem Encloses.call_own (he : Encloses name own H h) (hi : i ∉ h.filterMap Event.called)
    (hown : own op) : Encloses name own H (h ++ [.call i op]) where
  calls := he.calls
  named := fun j k' hname => by
    rw [List.filterMap_append]
    exact List.mem_append_left _ (he.named j k' hname)
  unique := he.unique
  called := fun j op' hcall => by
    rcases List.mem_append.mp hcall with hold | hnew
    · exact he.called j op' hold
    · cases List.mem_singleton.mp hnew
      refine Or.inr ⟨?_, hown⟩
      cases hname : name i with
      | none => rfl
      | some k' => exact absurd (he.named i k' hname) hi
  returned := fun k' out' hret => by
    obtain ⟨j, hname, hmem⟩ := he.returned k' out' hret
    exact ⟨j, hname, List.mem_append_left _ hmem⟩
  order := fun k₁ out₁ k₂ op₂ i₁ j op' hpair hi₁ hj hcall => by
    rcases List.mem_append.mp hcall with hold | hnew
    · obtain ⟨out', hsub⟩ := he.order k₁ out₁ k₂ op₂ i₁ j op' hpair hi₁ hj hold
      exact ⟨out', hsub.trans (List.sublist_append_left _ _)⟩
    · cases List.mem_singleton.mp hnew
      exact absurd (he.named i k₂ hj) hi

/-- An operation that has been called outside comes to the object. -/
theorem Encloses.arrive [DecidableEq ι] (he : Encloses name own H h)
    (hi : i ∉ h.filterMap Event.called) (hcall : .call k op ∈ H) (hk : ∀ j, name j ≠ some k) :
    Encloses (Function.update name i (some k)) own H (h ++ [.call i op]) := by
  have hnew : Function.update name i (some k) i = some k := Function.update_self ..
  have hold : ∀ {j}, j ≠ i → Function.update name i (some k) j = name j :=
    fun hne => Function.update_of_ne hne ..
  have hkeeps : ∀ {j k'}, name j = some k' → Function.update name i (some k) j = some k' := by
    intro j k' hname
    rw [hold (fun hji => hi (hji ▸ he.named j k' hname)), hname]
  -- what has returned outside has come before
  have hbefore : ∀ {j k' out'}, .ret k' out' ∈ H →
      Function.update name i (some k) j = some k' → name j = some k' ∧ .ret j out' ∈ h := by
    intro j k' out' hret hname
    obtain ⟨j', hname', hmem⟩ := he.returned k' out' hret
    by_cases hji : j = i
    · rw [hji, hnew] at hname
      exact absurd (Option.some.inj hname ▸ hname') (hk j')
    · rw [hold hji] at hname
      obtain rfl := he.unique j j' k' hname hname'
      exact ⟨hname, hmem⟩
  refine ⟨he.calls, ?_, ?_, ?_, ?_, ?_⟩
  · intro j k' hname
    rw [List.filterMap_append]
    by_cases hji : j = i
    · rw [hji]
      exact List.mem_append_right _ (List.mem_singleton.mpr rfl)
    · rw [hold hji] at hname
      exact List.mem_append_left _ (he.named j k' hname)
  · intro j j' k' hj hj'
    by_cases hji : j = i <;> by_cases hji' : j' = i
    · rw [hji, hji']
    · rw [hji, hnew] at hj
      rw [hold hji', ← hj] at hj'
      exact absurd hj' (hk j')
    · rw [hji', hnew] at hj'
      rw [hold hji, ← hj'] at hj
      exact absurd hj (hk j)
    · rw [hold hji] at hj
      rw [hold hji'] at hj'
      exact he.unique j j' k' hj hj'
  · intro j op' hmem
    rcases List.mem_append.mp hmem with hin | hlast
    · have hji : j ≠ i := fun heq => hi (heq ▸ List.mem_filterMap.mpr ⟨_, hin, rfl⟩)
      rw [hold hji]
      exact he.called j op' hin
    · cases List.mem_singleton.mp hlast
      exact Or.inl ⟨k, hnew, hcall⟩
  · intro k' out' hret
    obtain ⟨j, hname, hmem⟩ := he.returned k' out' hret
    exact ⟨j, hkeeps hname, List.mem_append_left _ hmem⟩
  · intro k₁ out₁ k₂ op₂ i₁ j op' hpair hi₁ hj hmem
    obtain ⟨hname, hret⟩ := hbefore (hpair.subset (List.mem_cons_self ..)) hi₁
    rcases List.mem_append.mp hmem with hin | hlast
    · have hji : j ≠ i := fun heq => hi (heq ▸ List.mem_filterMap.mpr ⟨_, hin, rfl⟩)
      rw [hold hji] at hj
      obtain ⟨out', hsub⟩ := he.order k₁ out₁ k₂ op₂ i₁ j op' hpair hname hj hin
      exact ⟨out', hsub.trans (List.sublist_append_left _ _)⟩
    · rw [List.mem_singleton.mp hlast]
      exact ⟨out₁, (List.singleton_sublist.mpr hret).append (List.Sublist.refl _)⟩

/-- An entry under its name outside. -/
def Entry.rename (name : ι → Option κ) (e : Entry ι ο ρ) : Option (Entry κ ο ρ) :=
  (name e.id).map (fun k => ⟨k, e.op, e.out⟩)

theorem rename_eq_some {e : Entry ι ο ρ} {e' : Entry κ ο ρ} :
    e.rename name = some e' ↔ name e.id = some e'.id ∧ e.op = e'.op ∧ e.out = e'.out := by
  obtain ⟨k, op, out⟩ := e'
  simp only [Entry.rename, Option.map_eq_some_iff, Entry.mk.injEq]
  constructor
  · rintro ⟨k', hname, rfl, hop, hout⟩
    exact ⟨hname, hop, hout⟩
  · rintro ⟨hname, hop, hout⟩
    exact ⟨k, hname, rfl, hop, hout⟩

theorem ids_rename (l : List (Entry ι ο ρ)) :
    (l.filterMap (Entry.rename name)).map Entry.id = (l.map Entry.id).filterMap name := by
  rw [List.map_filterMap, List.filterMap_map]
  congr 1
  funext e
  cases hname : name e.id <;> simp [Entry.rename, hname]

/-- The operations without a name are the object's own. -/
theorem trace_outside {t : σ}
    (htrace : Trace (fun s (e : Entry ι ο ρ) s' => step s e.op e.out s') s l s')
    (hown : ∀ e ∈ l, name e.id = none → own e.op)
    (ht : ReflTransGen (OwnStep step own) t s) :
    ∃ t', Trace (fun s (e : Entry κ ο ρ) s' => After step own s e.op e.out s') t
      (l.filterMap (Entry.rename name)) t' ∧ ReflTransGen (OwnStep step own) t' s' := by
  induction htrace generalizing t with
  | nil s => exact ⟨t, .nil t, ht⟩
  | @cons s s₁ s' e rest hstep _ ih =>
    have hrest : ∀ e ∈ rest, name e.id = none → own e.op :=
      fun e he => hown e (List.mem_cons_of_mem _ he)
    cases hname : name e.id with
    | none =>
      have hskip : e.rename name = none := by rw [Entry.rename, hname]; rfl
      rw [List.filterMap_cons_none hskip]
      exact ih hrest (ht.tail ⟨e.op, e.out, hown e (List.mem_cons_self ..) hname, hstep⟩)
    | some k =>
      have hkept : e.rename name = some ⟨k, e.op, e.out⟩ := by rw [Entry.rename, hname]; rfl
      obtain ⟨t', htail, hend⟩ := ih hrest .refl
      rw [List.filterMap_cons_some hkept]
      exact ⟨t', .cons ⟨s, ht, hstep⟩ htail, hend⟩

/-- An operation and what goes before it, of which only the images are seen. -/
theorem after_image {ο' ρ' : Type*} {p : ο → ο'} {q : ρ → ρ'} {own' : ο' → Prop} {op : ο'}
    {out : ρ'} (hown : ∀ o, own' (p o) → own o) (ha : After (Image step p q) own' s op out s') :
    Image (After step own) p q s op out s' := by
  obtain ⟨t, hbefore, o, r, hstep, hop, hout⟩ := ha
  refine ⟨o, r, ⟨t, ?_, hstep⟩, hop, hout⟩
  exact ReflTransGen.mono (fun _ _ hab => ownStep_image hown hab) _ _ hbefore

/-- What is linearizable at the object is linearizable outside. -/
theorem Linearizes.outside (hl : Linearizes step init h l s) (he : Encloses name own H h) :
    ∃ l' s', Linearizes (After step own) init H l' s' ∧
      ReflTransGen (OwnStep step own) s' s := by
  have hown : ∀ e ∈ l, name e.id = none → own e.op := by
    intro e hmem hnone
    rcases he.called e.id e.op (hl.called e hmem) with ⟨k, hname, _⟩ | ⟨_, hown⟩
    · rw [hnone] at hname
      cases hname
    · exact hown
  obtain ⟨t, htrace, hend⟩ := trace_outside hl.served hown .refl
  refine ⟨_, t, ⟨htrace, he.calls, ?_, ?_, ?_, ?_⟩, hend⟩
  · rw [ids_rename]
    refine List.Nodup.filterMap ?_ hl.once
    exact fun i j k hi hj => he.unique i j k hi hj
  · intro e' hmem
    obtain ⟨e, hin, hrename⟩ := List.mem_filterMap.mp hmem
    obtain ⟨hname, hop, _⟩ := rename_eq_some.mp hrename
    rw [← hop]
    exact he.mem_called hname (hl.called e hin)
  · intro k out hret
    obtain ⟨i, hname, hret'⟩ := he.returned k out hret
    obtain ⟨op, hmem⟩ := hl.returned i out hret'
    exact ⟨op, List.mem_filterMap.mpr ⟨_, hmem, rename_eq_some.mpr ⟨hname, rfl, rfl⟩⟩⟩
  · intro k out k' op hpair hk'
    rw [ids_rename] at hk' ⊢
    obtain ⟨j, hj, hname'⟩ := List.mem_filterMap.mp hk'
    obtain ⟨i, hname, _⟩ := he.returned k out (hpair.subset (List.mem_cons_self ..))
    obtain ⟨e, hmem, rfl⟩ := List.mem_map.mp hj
    obtain ⟨out', hsub⟩ := he.order k out k' op i e.id e.op hpair hname hname' (hl.called e hmem)
    have hids := (hl.order i out' e.id e.op hsub hj).filterMap name
    simpa [List.filterMap_cons, hname, hname'] using hids

end Outside

end SqliteBroker.Linearization
