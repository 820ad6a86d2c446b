import Mathlib.Logic.Function.Basic
import Mathlib.Order.Defs.PartialOrder

/-!
Programs that ask a store and go on with its answers. The store has a part that all
programs share and may give a program a part of its own. While one program has a part of
its own, the others wait; a program without one finds the shared part moved on. `Safe`
is the weakest precondition of a program in such a store, and a pool of safe programs
stays safe whoever is answered next.
-/
namespace SqliteBroker.Programs

inductive Prog (ρ β α : Type*)
  | done (r : α)
  | ask (req : ρ) (k : β → Prog ρ β α)

namespace Prog

def bind {ρ β α γ : Type*} : Prog ρ β α → (α → Prog ρ β γ) → Prog ρ β γ
  | .done r, next => next r
  | .ask req k, next => .ask req (fun resp => (k resp).bind next)

instance {ρ β : Type*} : Monad (Prog ρ β) where
  pure := .done
  bind := bind

/-- One request, with its answer as the result. -/
def call {ρ β : Type*} (req : ρ) : Prog ρ β β := .ask req .done

section Equations

universe u v w

variable {ρ : Type u} {β : Type v} {α γ : Type w}

@[simp] theorem pure_eq (r : α) : (pure r : Prog ρ β α) = .done r := rfl

@[simp] theorem done_bind (r : α) (next : α → Prog ρ β γ) : Prog.done r >>= next = next r := rfl

@[simp] theorem ask_bind (req : ρ) (k : β → Prog ρ β α) (next : α → Prog ρ β γ) :
    Prog.ask req k >>= next = .ask req (fun resp => k resp >>= next) := rfl

end Equations

end Prog

/-- How a store answers: a request turns the two parts into an outcome and new parts, or is
refused; an answer may fit an outcome or not. -/
structure Store (ρ β ω σ τ : Type*) where
  run : ρ → σ → Option τ → Option (ω × σ × Option τ)
  Fits : β → ω → Prop

variable {ρ β α γ ω σ τ ι : Type*}

section Safety

variable [Preorder σ]

/-- The shared part as a program may find it at its next request. -/
def Moved (s : σ) (own : Option τ) (s' : σ) : Prop :=
  match own with
  | none => s ≤ s'
  | some _ => s' = s

theorem Moved.refl (s : σ) (own : Option τ) : Moved s own s := by
  cases own with
  | none => exact le_refl s
  | some t => rfl

theorem Moved.trans {s s' s'' : σ} {own : Option τ} (h : Moved s own s') (h' : Moved s' own s'') :
    Moved s own s'' := by
  cases own with
  | none => exact le_trans h h'
  | some t => exact Eq.trans h' h

/-- From these parts no request of the program is refused, each moves the shared part on, and
the program ends in `post`. -/
def Safe (A : Store ρ β ω σ τ) (post : α → σ → Option τ → Prop) :
    Prog ρ β α → σ → Option τ → Prop
  | .done r, s, own => ∀ s', Moved s own s' → post r s' own
  | .ask req k, s, own => ∀ s', Moved s own s' → ∃ out s'' own',
      A.run req s' own = some (out, s'', own') ∧ s' ≤ s'' ∧
        ∀ resp, A.Fits resp out → Safe A post (k resp) s'' own'

variable {A : Store ρ β ω σ τ} {post post' : α → σ → Option τ → Prop} {p : Prog ρ β α} {s s' : σ}
  {own : Option τ}

/-- A safe program stays safe while the others move on. -/
theorem Safe.moved (h : Safe A post p s own) (hs : Moved s own s') : Safe A post p s' own := by
  cases p with
  | done r => exact fun s'' hs' => h s'' (hs.trans hs')
  | ask req k => exact fun s'' hs' => h s'' (hs.trans hs')

theorem Safe.weaken (h : Safe A post p s own) (himp : ∀ r s own, post r s own → post' r s own) :
    Safe A post' p s own := by
  induction p generalizing s own with
  | done r => exact fun s' hs => himp r s' own (h s' hs)
  | ask req k ih =>
    intro s' hs
    obtain ⟨out, s'', own', hrun, hle, hnext⟩ := h s' hs
    exact ⟨out, s'', own', hrun, hle, fun resp hresp => ih resp (hnext resp hresp)⟩

/-- The rule of sequencing. -/
theorem Safe.bind {next : α → Prog ρ β γ} {post : γ → σ → Option τ → Prop}
    (h : Safe A (fun r s own => Safe A post (next r) s own) p s own) :
    Safe A post (p.bind next) s own := by
  induction p generalizing s own with
  | done r => exact h s (.refl s own)
  | ask req k ih =>
    intro s' hs
    obtain ⟨out, s'', own', hrun, hle, hnext⟩ := h s' hs
    exact ⟨out, s'', own', hrun, hle, fun resp hresp => ih resp (hnext resp hresp)⟩

end Safety

/-- Programs in one store, each with its part of its own. -/
structure Pool (ι ρ β α σ τ : Type*) where
  shared : σ
  clients : ι → Option (Prog ρ β α × Option τ)

namespace Pool

/-- No program but `i` has a part of its own. -/
def Free (pool : Pool ι ρ β α σ τ) (i : ι) : Prop :=
  ∀ j p own, j ≠ i → pool.clients j = some (p, own) → own = none

variable [DecidableEq ι]

def put (pool : Pool ι ρ β α σ τ) (i : ι) (client : Option (Prog ρ β α × Option τ)) :
    Pool ι ρ β α σ τ :=
  { pool with clients := Function.update pool.clients i client }

@[simp] theorem put_shared (pool : Pool ι ρ β α σ τ) (i : ι)
    (client : Option (Prog ρ β α × Option τ)) : (pool.put i client).shared = pool.shared := rfl

theorem put_self (pool : Pool ι ρ β α σ τ) (i : ι) (client : Option (Prog ρ β α × Option τ)) :
    (pool.put i client).clients i = client :=
  Function.update_self ..

theorem put_other {i j : ι} (hj : j ≠ i) (pool : Pool ι ρ β α σ τ)
    (client : Option (Prog ρ β α × Option τ)) :
    (pool.put i client).clients j = pool.clients j :=
  Function.update_of_ne hj ..

variable [Preorder σ]

/-- Every program of the pool is safe. -/
def Good (A : Store ρ β ω σ τ) (post : α → σ → Option τ → Prop) (pool : Pool ι ρ β α σ τ) : Prop :=
  ∀ i p own, pool.clients i = some (p, own) → Safe A post p pool.shared own

variable {A : Store ρ β ω σ τ} {post : α → σ → Option τ → Prop} {pool : Pool ι ρ β α σ τ} {i : ι}

/-- A program that joins or leaves. -/
theorem Good.put (h : pool.Good A post) {client : Option (Prog ρ β α × Option τ)}
    (hclient : ∀ p own, client = some (p, own) → Safe A post p pool.shared own) :
    (pool.put i client).Good A post := by
  intro j p own hj
  by_cases hi : j = i
  · subst hi
    rw [put_self] at hj
    exact hclient p own hj
  · rw [put_other hi] at hj
    exact h j p own hj

/-- The request of a program that is alone with the store is answered, and the pool stays good
with every answer that fits. -/
theorem Good.answer (h : pool.Good A post) {req : ρ} {k : β → Prog ρ β α} {own : Option τ}
    (hi : pool.clients i = some (.ask req k, own)) (hfree : pool.Free i) :
    ∃ out s own', A.run req pool.shared own = some (out, s, own') ∧ pool.shared ≤ s ∧
      ∀ resp, A.Fits resp out →
        (Pool.put { pool with shared := s } i (some (k resp, own'))).Good A post := by
  obtain ⟨out, s, own', hrun, hle, hnext⟩ := h i _ own hi pool.shared (.refl _ own)
  refine ⟨out, s, own', hrun, hle, ?_⟩
  intro resp hresp j p own₁ hj
  by_cases hji : j = i
  · subst hji
    rw [put_self] at hj
    cases hj
    exact hnext resp hresp
  · rw [put_other hji] at hj
    have hnone := hfree j p own₁ hji hj
    subst hnone
    exact (h j p none hj).moved hle

end Pool

end SqliteBroker.Programs
