import SqliteBroker.Runs
import Mathlib.Data.List.Nodup
import Mathlib.Data.List.Perm.Basic

/-!
A turnstile: one owner at a time may pass, everybody else waits in line.
A request is served on arrival (`pass`), queued, resumed from the head of the
line (`next`) or thrown out when its owner leaves. While a request is served the
server decides whether its owner keeps the turnstile (`settle`).
The labels of a run record its requests, so fairness, exclusion and conservation
are statements about label lists.
-/
namespace SqliteBroker.Turnstile

open Runs

structure State (ι ρ : Type*) where
  holder : Option ι
  waiting : List ρ

inductive Label (ι ρ : Type*)
  | pass (r : ρ)
  | queue (r : ρ)
  | next (r : ρ)
  | settle (i : ι) (keeps : Bool)
  | leave (i : ι) (gone : List ρ)

variable {ι ρ : Type*}

namespace Label

def arrived : Label ι ρ → Option ρ
  | .pass r => some r
  | .queue r => some r
  | _ => none

def queued : Label ι ρ → Option ρ
  | .queue r => some r
  | _ => none

def resumed : Label ι ρ → Option ρ
  | .next r => some r
  | _ => none

def served : Label ι ρ → Option ρ
  | .pass r => some r
  | .next r => some r
  | _ => none

def gone : Label ι ρ → List ρ
  | .leave _ rs => rs
  | _ => []

/-- The labels after which `i` no longer owns the turnstile. -/
def Releases (i : ι) : Label ι ρ → Prop
  | .settle j keeps => j = i ∧ keeps = false
  | .leave j _ => j = i
  | _ => False

end Label

def settled [DecidableEq ι] (holder : Option ι) (i : ι) (keeps : Bool) : Option ι :=
  if keeps then some i else if holder = some i then none else holder

section Order

variable {α : Type*} {l l' : List α} {a b : α}

theorem not_pair_swap (hnd : l.Nodup) (hab : [a, b].Sublist l) : ¬ [b, a].Sublist l := by
  intro hba
  induction l with
  | nil => simp at hab
  | cons x rest ih =>
    obtain ⟨hx, hrest⟩ := List.nodup_cons.mp hnd
    cases hab with
    | cons _ h1 =>
      cases hba with
      | cons _ h2 => exact ih hrest h1 h2
      | cons_cons _ h2 => exact hx (h1.subset (by simp))
    | cons_cons _ h1 =>
      cases hba with
      | cons _ h2 => exact hx (h2.subset (by simp))
      | cons_cons _ h2 => exact hx (h1.subset (by simp))

/-- `[a, b] <+ l` says that `a` occurs in `l` before `b`. In a list without
repetitions two elements have the same order in every part that has both. -/
theorem pair_sublist_of_sublist (hl : l.Sublist l') (hnd : l'.Nodup) (hab : [a, b].Sublist l')
    (ha : a ∈ l) (hb : b ∈ l) : [a, b].Sublist l := by
  have hne : a ≠ b := by
    have := hnd.sublist hab
    simpa using this
  obtain ⟨x, y, rfl⟩ := List.append_of_mem ha
  rcases List.mem_append.mp hb with hbx | hby
  · have hba : [b, a].Sublist l' := by
      refine List.Sublist.trans ?_ hl
      exact (List.singleton_sublist.mpr hbx).append
        ((List.singleton_sublist.mpr (List.mem_cons_self ..)))
    exact absurd hba (not_pair_swap hnd hab)
  · have hby' : b ∈ y := (List.mem_cons.mp hby).resolve_left (Ne.symm hne)
    exact ((List.singleton_sublist.mpr hby').cons_cons a).trans
      (List.sublist_append_right x (a :: y))

end Order

section Labels

theorem queued_sublist_arrived (l : List (Label ι ρ)) :
    (l.filterMap Label.queued).Sublist (l.filterMap Label.arrived) := by
  induction l with
  | nil => exact .slnil
  | cons a rest ih =>
    cases a with
    | pass r => exact ih.cons r
    | queue r => exact ih.cons_cons r
    | next r => exact ih
    | settle i keeps => exact ih
    | leave i gone => exact ih

theorem resumed_sublist_served (l : List (Label ι ρ)) :
    (l.filterMap Label.resumed).Sublist (l.filterMap Label.served) := by
  induction l with
  | nil => exact .slnil
  | cons a rest ih =>
    cases a with
    | pass r => exact ih.cons r
    | queue r => exact ih
    | next r => exact ih.cons_cons r
    | settle i keeps => exact ih
    | leave i gone => exact ih

/-- A request that arrives once is either queued or passes. -/
theorem queued_not_pass {l : List (Label ι ρ)} {r : ρ} (hnd : (l.filterMap Label.arrived).Nodup)
    (hq : r ∈ l.filterMap Label.queued) : Label.pass r ∉ l := by
  induction l with
  | nil => simp
  | cons a rest ih =>
    have hrest : (rest.filterMap Label.arrived).Nodup :=
      hnd.sublist ((List.sublist_cons_self a rest).filterMap _)
    intro hpass
    rcases List.mem_cons.mp hpass with rfl | htail
    · have harrived := (queued_sublist_arrived rest).subset hq
      exact (List.nodup_cons.mp hnd).1 harrived
    · cases a with
      | queue r' =>
        rcases List.mem_cons.mp hq with rfl | hq'
        · exact (List.nodup_cons.mp hnd).1 (List.mem_filterMap.mpr ⟨_, htail, rfl⟩)
        · exact ih hrest hq' htail
      | pass r' => exact ih hrest hq htail
      | next r' => exact ih hrest hq htail
      | settle i keeps => exact ih hrest hq htail
      | leave i gone => exact ih hrest hq htail

theorem served_cases {a : Label ι ρ} {r : ρ} (h : a.served = some r) :
    a = .pass r ∨ a = .next r := by
  cases a <;> simp_all [Label.served]

theorem resumed_of_queued {l : List (Label ι ρ)} {r : ρ}
    (hnd : (l.filterMap Label.arrived).Nodup) (hq : r ∈ l.filterMap Label.queued)
    (hs : r ∈ l.filterMap Label.served) : r ∈ l.filterMap Label.resumed := by
  obtain ⟨a, ha, hserved⟩ := List.mem_filterMap.mp hs
  rcases served_cases hserved with rfl | rfl
  · exact absurd ha (queued_not_pass hnd hq)
  · exact List.mem_filterMap.mpr ⟨_, ha, rfl⟩

end Labels

section Steps

variable [DecidableEq ι] (owner : ρ → ι)

/-- `pass` is for the owner, or for anybody at a free turnstile nobody waits at. -/
inductive Step : State ι ρ → Label ι ρ → State ι ρ → Prop
  | pass (s : State ι ρ) (r : ρ)
      (h : (s.holder = none ∧ s.waiting = []) ∨ s.holder = some (owner r)) :
      Step s (.pass r) s
  | queue (s : State ι ρ) (r : ρ) (i : ι) (h : s.holder = some i) (hne : i ≠ owner r) :
      Step s (.queue r) ⟨s.holder, s.waiting ++ [r]⟩
  | next (s : State ι ρ) (r : ρ) (rest : List ρ) (h : s.holder = none)
      (hw : s.waiting = r :: rest) : Step s (.next r) ⟨none, rest⟩
  | settle (s : State ι ρ) (i : ι) (keeps : Bool)
      (h : s.holder = none ∨ s.holder = some i) :
      Step s (.settle i keeps) ⟨settled s.holder i keeps, s.waiting⟩
  | leave (s : State ι ρ) (i : ι) :
      Step s (.leave i (s.waiting.filter (fun r => owner r = i)))
        ⟨if s.holder = some i then none else s.holder,
          s.waiting.filter (fun r => owner r ≠ i)⟩

variable {owner}
variable {s s' : State ι ρ} {l : List (Label ι ρ)}

/-- The label tells what the next state is. -/
theorem step_functional {a : Label ι ρ} {t t' : State ι ρ} (h : Step owner s a t)
    (h' : Step owner s a t') : t = t' := by
  cases h with
  | next r rest hnone hw =>
    cases h' with
    | next _ rest' _ hw' =>
      rw [hw] at hw'
      cases hw'
      rfl
  | _ => cases h'; rfl

/-- First come, first served: what was resumed or still waits, in this order,
is part of the line at the start followed by what was queued. -/
theorem resumed_sublist (h : Trace (Step owner) s l s') :
    (l.filterMap Label.resumed ++ s'.waiting).Sublist
      (s.waiting ++ l.filterMap Label.queued) := by
  induction h with
  | nil s => simp
  | @cons s t s'' a rest hstep _ ih =>
    cases hstep with
    | pass r h => simpa [List.filterMap_cons, Label.resumed, Label.queued] using ih
    | queue r i h hne => simpa [List.filterMap_cons, Label.resumed, Label.queued] using ih
    | next r tail h hw =>
      rw [hw]
      simpa [List.filterMap_cons, Label.resumed, Label.queued] using ih
    | settle i keeps h => simpa [List.filterMap_cons, Label.resumed, Label.queued] using ih
    | leave i =>
      have hkeep : (s.waiting.filter (fun r => owner r ≠ i)).Sublist s.waiting :=
        List.filter_sublist
      simpa [List.filterMap_cons, Label.resumed, Label.queued] using
        ih.trans (hkeep.append (List.Sublist.refl (rest.filterMap Label.queued)))

/-- Nothing is lost and nothing is doubled. -/
theorem arrived_perm (h : Trace (Step owner) s l s') :
    (s.waiting ++ l.filterMap Label.arrived).Perm
      (l.filterMap Label.served ++ l.flatMap Label.gone ++ s'.waiting) := by
  induction h with
  | nil s => simp
  | @cons s t s'' a rest hstep _ ih =>
    cases hstep with
    | pass r h =>
      simpa [List.filterMap_cons, Label.arrived, Label.served, Label.gone] using
        List.perm_middle.trans (ih.cons r)
    | queue r i h hne =>
      simpa [List.filterMap_cons, Label.arrived, Label.served, Label.gone] using ih
    | next r tail h hw =>
      rw [hw]
      simpa [List.filterMap_cons, Label.arrived, Label.served, Label.gone] using ih.cons r
    | settle i keeps h =>
      simpa [List.filterMap_cons, Label.arrived, Label.served, Label.gone] using ih
    | leave i =>
      have hsplit := List.filter_append_perm (fun r => decide (owner r = i)) s.waiting
      have hkeep : s.waiting.filter (fun r => owner r ≠ i) =
          s.waiting.filter (fun r => !decide (owner r = i)) := by simp
      simp only [Label.arrived, Label.served, Label.gone, List.filterMap_cons,
        List.flatMap_cons]
      rw [hkeep] at ih
      calc
        (s.waiting ++ rest.filterMap Label.arrived).Perm
            (s.waiting.filter (fun r => decide (owner r = i)) ++
              (s.waiting.filter (fun r => !decide (owner r = i)) ++
                rest.filterMap Label.arrived)) := by
          rw [← List.append_assoc]
          exact hsplit.symm.append_right _
        _ |>.Perm (s.waiting.filter (fun r => decide (owner r = i)) ++
              (rest.filterMap Label.served ++ rest.flatMap Label.gone ++ s''.waiting)) :=
          ih.append_left _
        _ |>.Perm _ := by
          simp only [List.append_assoc]
          exact List.perm_append_comm_assoc _ _ _

theorem settled_of_owner {i j : ι} {keeps : Bool} (h : s.holder = some i)
    (hj : s.holder = none ∨ s.holder = some j) (hno : ¬ (j = i ∧ keeps = false)) :
    settled s.holder j keeps = some i := by
  obtain rfl : j = i := by
    rcases hj with hj | hj
    · rw [h] at hj
      cases hj
    · rw [h] at hj
      exact (Option.some.inj hj).symm
  cases keeps with
  | true => rfl
  | false => exact absurd ⟨rfl, rfl⟩ hno

/-- Until it is released the turnstile serves its owner only. -/
theorem holder_kept {i : ι} (h : Trace (Step owner) s l s') (hi : s.holder = some i)
    (hno : ∀ a ∈ l, ¬ a.Releases i) :
    s'.holder = some i ∧ ∀ r ∈ l.filterMap Label.served, owner r = i := by
  induction h with
  | nil s => exact ⟨hi, by simp⟩
  | @cons s t s'' a rest hstep _ ih =>
    have hrest : ∀ a ∈ rest, ¬ a.Releases i := fun b hb => hno b (List.mem_cons_of_mem _ hb)
    have hhead := hno a (List.mem_cons_self ..)
    cases hstep with
    | pass r h =>
      obtain ⟨hend, hserved⟩ := ih hi hrest
      have hown : owner r = i := by
        rcases h with ⟨hfree, _⟩ | hheld
        · rw [hi] at hfree
          cases hfree
        · rw [hi] at hheld
          exact (Option.some.inj hheld).symm
      exact ⟨hend, by simpa [List.filterMap_cons, Label.served, hown] using hserved⟩
    | queue r j h hne =>
      simpa [List.filterMap_cons, Label.served] using ih hi hrest
    | next r tail h hw =>
      rw [hi] at h
      cases h
    | settle j keeps h =>
      simpa [List.filterMap_cons, Label.served] using
        ih (settled_of_owner hi h hhead) hrest
    | leave j =>
      have hji : ¬ j = i := hhead
      have hkeep : (if s.holder = some j then none else s.holder) = some i := by
        simp [hi, Ne.symm hji]
      simpa [List.filterMap_cons, Label.served] using ih hkeep hrest

/-- Whoever is served between a settlement for `i` and its release is `i`. -/
theorem served_between {i : ι} {before between after : List (Label ι ρ)} {a : Label ι ρ} {r : ρ}
    (h : Trace (Step owner) s (before ++ .settle i true :: (between ++ a :: after)) s')
    (hno : ∀ b ∈ between, ¬ b.Releases i) (ha : a.served = some r) : owner r = i := by
  obtain ⟨t, t', _, hsettle, hrest⟩ := h.split_cons
  have hi : t'.holder = some i := by
    cases hsettle with
    | settle _ _ h => rfl
  obtain ⟨u, u', hbetween, hserve, _⟩ := hrest.split_cons
  have hu := (holder_kept hbetween hi hno).1
  have hsingle : ∀ b ∈ [a], ¬ b.Releases i := by
    intro b hb
    obtain rfl := List.mem_singleton.mp hb
    cases b <;> simp [Label.served, Label.Releases] at ha ⊢
  have hown := (holder_kept (Trace.single hserve) hu hsingle).2 r
  exact hown (by simp [ha])

/-- Of two requests that were queued and resumed, the first queued is the first resumed. -/
theorem resumed_in_order {r₁ r₂ : ρ} (h : Trace (Step owner) s l s')
    (hnd : (s.waiting ++ l.filterMap Label.queued).Nodup)
    (hq : [r₁, r₂].Sublist (s.waiting ++ l.filterMap Label.queued))
    (h₁ : r₁ ∈ l.filterMap Label.resumed) (h₂ : r₂ ∈ l.filterMap Label.resumed) :
    [r₁, r₂].Sublist (l.filterMap Label.resumed) := by
  have hpart : (l.filterMap Label.resumed).Sublist
      (s.waiting ++ l.filterMap Label.queued) :=
    (List.sublist_append_left _ _).trans (resumed_sublist h)
  exact pair_sublist_of_sublist hpart hnd hq h₁ h₂

/-- When a queued request is resumed, everybody who waited before it arrived
has been served or has left. -/
theorem served_or_gone_before {p r : ρ} (h : Trace (Step owner) s (l ++ [.next r]) s')
    (hnd : (s.waiting ++ l.filterMap Label.queued).Nodup)
    (hp : p ∈ s.waiting) (hr : r ∈ l.filterMap Label.queued) :
    p ∈ l.filterMap Label.served ∨ p ∈ l.flatMap Label.gone := by
  obtain ⟨t, t', hl, hnext, _⟩ := h.split_cons
  have hmem : p ∈ l.filterMap Label.served ++ l.flatMap Label.gone ++ t.waiting :=
    (arrived_perm hl).subset (List.mem_append_left _ hp)
  rcases List.mem_append.mp hmem with hdone | hwait
  · exact List.mem_append.mp hdone
  · cases hnext with
    | next _ rest _ hw =>
      have hpr : [p, r].Sublist (s.waiting ++ l.filterMap Label.queued) :=
        (List.singleton_sublist.mpr hp).append (List.singleton_sublist.mpr hr)
      have hne : p ≠ r := by
        have := hnd.sublist hpr
        simpa using this
      have hrest : p ∈ rest := by
        rw [hw] at hwait
        exact (List.mem_cons.mp hwait).resolve_left hne
      have hrp : [r, p].Sublist t.waiting := by
        rw [hw]
        exact (List.singleton_sublist.mpr hrest).cons_cons r
      have hswap : [r, p].Sublist (s.waiting ++ l.filterMap Label.queued) :=
        (hrp.trans (List.sublist_append_right _ _)).trans (resumed_sublist hl)
      exact absurd hswap (not_pair_swap hnd hpr)

/-- Nobody who queues overtakes a request that waits: when it is served, the other
has been served or has left. -/
theorem not_overtaken {i : Option ι} {t : State ι ρ} {l m past rest : List (Label ι ρ)}
    {a : Label ι ρ} {p q : ρ} (h : Trace (Step owner) ⟨i, []⟩ l t)
    (h' : Trace (Step owner) t (.queue p :: m) s')
    (hnd : ((l ++ .queue p :: m).filterMap Label.arrived).Nodup) (hq : q ∈ t.waiting)
    (hsplit : l ++ .queue p :: m = past ++ a :: rest) (ha : a.served = some p) :
    q ∈ past.filterMap Label.served ∨ q ∈ past.flatMap Label.gone := by
  have hqueued : p ∈ (l ++ .queue p :: m).filterMap Label.queued := by
    simp [Label.queued]
  have hnext : a = .next p := by
    rcases served_cases ha with rfl | rfl
    · exact absurd (by simp [hsplit]) (queued_not_pass hnd hqueued)
    · rfl
  subst hnext
  have hwait : t.waiting.Sublist (l.filterMap Label.queued) := by
    simpa using (List.sublist_append_right _ _).trans (resumed_sublist h)
  have hnot : Label.next p ∉ l := by
    intro hp
    have hserved : p ∈ l.filterMap Label.served := List.mem_filterMap.mpr ⟨_, hp, rfl⟩
    have harrived : p ∈ l.filterMap Label.arrived := by
      have := (arrived_perm h).symm.subset (List.mem_append_left _ (List.mem_append_left _ hserved))
      simpa using this
    rw [List.filterMap_append, List.filterMap_cons] at hnd
    exact (List.nodup_append.mp hnd).2.2 p harrived p (by simp [Label.arrived]) rfl
  obtain ⟨mid, rfl, hmid⟩ : ∃ mid, past = l ++ .queue p :: mid ∧ m = mid ++ .next p :: rest := by
    rcases List.append_eq_append_iff.mp hsplit with ⟨c, hpast, hc⟩ | ⟨c, hl, hc⟩
    · cases c with
      | nil => cases hc
      | cons b mid =>
        obtain ⟨rfl, hm⟩ := List.cons.inj hc
        exact ⟨mid, hpast, hm⟩
    · cases c with
      | nil => cases hc
      | cons b c =>
        obtain ⟨rfl, _⟩ := List.cons.inj hc
        exact absurd (by rw [hl]; simp) hnot
  subst hmid
  have hline : (t.waiting ++ (.queue p :: mid).filterMap Label.queued).Nodup := by
    refine hnd.sublist (List.Sublist.trans ?_ (queued_sublist_arrived _))
    have hpart : ((l ++ .queue p :: mid).filterMap Label.queued).Sublist
        ((l ++ .queue p :: (mid ++ .next p :: rest)).filterMap Label.queued) := by
      refine List.Sublist.filterMap _ ((List.Sublist.refl l).append ?_)
      exact (List.sublist_append_left mid _).cons_cons _
    rw [List.filterMap_append] at hpart
    exact (hwait.append (List.Sublist.refl _)).trans hpart
  have hresumed : Trace (Step owner) t ((.queue p :: mid ++ [.next p]) ++ rest) s' := by
    simpa using h'
  obtain ⟨u, hu, _⟩ := hresumed.split
  rcases served_or_gone_before hu hline hq (by simp [Label.queued]) with hdone | hgone
  · exact Or.inl (by rw [List.filterMap_append]; exact List.mem_append_right _ hdone)
  · exact Or.inr (by rw [List.flatMap_append]; exact List.mem_append_right _ hgone)

end Steps

end SqliteBroker.Turnstile
