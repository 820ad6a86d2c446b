import Mathlib.Data.List.Basic

/-!
Finite runs of a labelled transition relation, with their labels in order.
An invariant is a step lemma; `Trace.invariant` turns it into a fact about runs,
and `Trace.history` does the same for a fact about a state and its past.
A simulation maps every step to a run of another relation.
-/
namespace SqliteBroker.Runs

variable {σ τ α β : Type*}

inductive Trace (R : σ → α → σ → Prop) : σ → List α → σ → Prop
  | nil (s : σ) : Trace R s [] s
  | cons {s s' s'' : σ} {a : α} {l : List α} :
      R s a s' → Trace R s' l s'' → Trace R s (a :: l) s''

namespace Trace

variable {R : σ → α → σ → Prop} {s s' s'' : σ} {a : α} {l m : List α}

theorem single (h : R s a s') : Trace R s [a] s' := .cons h (.nil s')

theorem append (h : Trace R s l s') (h' : Trace R s' m s'') : Trace R s (l ++ m) s'' := by
  induction h with
  | nil => exact h'
  | cons hstep _ ih => exact .cons hstep (ih h')

theorem snoc (h : Trace R s l s') (h' : R s' a s'') : Trace R s (l ++ [a]) s'' :=
  h.append (single h')

/-- A run over an append passes through a state between the two parts. -/
theorem split (h : Trace R s (l ++ m) s'') : ∃ t, Trace R s l t ∧ Trace R t m s'' := by
  induction l generalizing s with
  | nil => exact ⟨s, .nil s, h⟩
  | cons b rest ih =>
    cases h with
    | cons hstep htail =>
      obtain ⟨t, hleft, hright⟩ := ih htail
      exact ⟨t, .cons hstep hleft, hright⟩

theorem split_cons (h : Trace R s (l ++ a :: m) s'') :
    ∃ t t', Trace R s l t ∧ R t a t' ∧ Trace R t' m s'' := by
  obtain ⟨t, hleft, hright⟩ := split h
  cases hright with
  | cons hstep htail => exact ⟨t, _, hleft, hstep, htail⟩

theorem invariant {P : σ → Prop} (hstep : ∀ s a s', P s → R s a s' → P s')
    (h : Trace R s l s') (hs : P s) : P s' := by
  induction h with
  | nil => exact hs
  | cons hab _ ih => exact ih (hstep _ _ _ hs hab)

/-- A run whose labels all satisfy `p`. -/
theorem restrict {p : σ → α → Prop} (h : Trace R s l s') (hp : ∀ a ∈ l, ∀ s, p s a) :
    Trace (fun s a s' => p s a ∧ R s a s') s l s' := by
  induction h with
  | nil => exact .nil _
  | cons hab _ ih =>
    exact .cons ⟨hp _ (List.mem_cons_self ..) _, hab⟩
      (ih (fun b hb => hp b (List.mem_cons_of_mem _ hb)))

theorem weaken {R' : σ → α → σ → Prop} (hR : ∀ s a s', R s a s' → R' s a s')
    (h : Trace R s l s') : Trace R' s l s' := by
  induction h with
  | nil => exact .nil _
  | cons hab _ ih => exact .cons (hR _ _ _ hab) ih

/-- An invariant that also speaks about the labels seen so far. -/
theorem history {P : List α → σ → Prop} (hstep : ∀ past s a s', P past s → R s a s' →
    P (past ++ [a]) s') (h : Trace R s l s') (hs : P m s) : P (m ++ l) s' := by
  induction h generalizing m with
  | nil => simpa using hs
  | cons hab _ ih => simpa using ih (hstep m _ _ _ hs hab)

/-- Two runs of a deterministic relation over the same labels end alike. -/
theorem functional (hR : ∀ s a t t', R s a t → R s a t' → t = t')
    (h : Trace R s l s') (h' : Trace R s l s'') : s' = s'' := by
  induction h with
  | nil => cases h'; rfl
  | cons hab _ ih =>
    cases h' with
    | cons hab' htail =>
      obtain rfl := hR _ _ _ _ hab hab'
      exact ih htail

/-- Steps that consume effort are at most as many as the effort at their start. -/
theorem length_le {P : σ → Prop} {effort : σ → ℕ}
    (hstep : ∀ s a s', P s → R s a s' → P s' ∧ effort s' < effort s) (h : Trace R s l s')
    (hs : P s) : l.length + effort s' ≤ effort s := by
  induction h with
  | nil => exact Nat.le_of_eq (Nat.zero_add _)
  | cons hab _ ih =>
    obtain ⟨hs', hlt⟩ := hstep _ _ _ hs hab
    have hrest := ih hs'
    rw [List.length_cons]
    omega

/-- Steps that consume effort come to an end. -/
theorem exists_final {P : σ → Prop} {effort : σ → ℕ}
    (hstep : ∀ s a s', P s → R s a s' → P s' ∧ effort s' < effort s) (hs : P s) :
    ∃ l s', Trace R s l s' ∧ ∀ a t, ¬ R s' a t := by
  induction hn : effort s using Nat.strongRecOn generalizing s with
  | ind n ih =>
    by_cases hstop : ∀ a t, ¬ R s a t
    · exact ⟨[], s, .nil s, hstop⟩
    · push Not at hstop
      obtain ⟨a, t, hat⟩ := hstop
      obtain ⟨ht, hlt⟩ := hstep _ _ _ hs hat
      obtain ⟨l, s', htail, hfinal⟩ := ih _ (hn ▸ hlt) ht rfl
      exact ⟨a :: l, s', .cons hat htail, hfinal⟩

end Trace

/-- A fold that stops at the first error succeeds exactly along a run. -/
theorem foldlM_ok_iff {ε : Type*} (step : σ → α → Except ε σ) (l : List α) (s s' : σ) :
    l.foldlM step s = .ok s' ↔ Trace (fun s a s' => step s a = .ok s') s l s' := by
  induction l generalizing s with
  | nil =>
    constructor
    · intro h
      cases h
      exact .nil _
    · intro h
      cases h
      rfl
  | cons a rest ih =>
    rw [List.foldlM_cons]
    cases hstep : step s a with
    | error e =>
      constructor
      · intro h
        cases h
      · intro h
        cases h with
        | cons hab _ => rw [hstep] at hab; cases hab
    | ok t =>
      change rest.foldlM step t = .ok s' ↔ _
      rw [ih]
      constructor
      · exact .cons hstep
      · intro h
        cases h with
        | cons hab htail =>
          rw [hstep] at hab
          cases hab
          exact htail

/-- A fold that stops at an error has run well up to the element that fails. -/
theorem foldlM_error {ε : Type*} {step : σ → α → Except ε σ} {l : List α} {s : σ} {e : ε}
    (h : l.foldlM step s = .error e) : ∃ before a after t,
      l = before ++ a :: after ∧ before.foldlM step s = .ok t ∧ step t a = .error e := by
  induction l generalizing s with
  | nil => cases h
  | cons a rest ih =>
    rw [List.foldlM_cons] at h
    cases hstep : step s a with
    | error e' =>
      rw [hstep] at h
      cases h
      exact ⟨[], a, rest, s, rfl, rfl, hstep⟩
    | ok t =>
      rw [hstep] at h
      obtain ⟨before, b, after, u, rfl, hbefore, hfail⟩ := ih h
      refine ⟨a :: before, b, after, u, rfl, ?_, hfail⟩
      rw [List.foldlM_cons, hstep]
      exact hbefore

end SqliteBroker.Runs
