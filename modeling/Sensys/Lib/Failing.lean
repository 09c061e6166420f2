/-
# Computations that fail and keep their state

A call that returns an error code has changed the state all the same.  Such a computation is
`ExceptT` over `StateM`: it ends with a value or an error, and in both cases with a state.

* `Failing.bind_apply` and its two cases say how calls follow each other; `Failing.times` is a loop
  with a count.
* `Failing.Related` compares two computations whose values are in a relation, `Failing.Related.bind`
  step by step.
-/
import Mathlib.Data.List.Basic

namespace Sensys

/-- A computation on a state that may fail. -/
abbrev Failing (ε σ : Type) := ExceptT ε (StateM σ)

namespace Failing

variable {ε σ α β : Type}

/-! ## 1. Sequences of calls -/

theorem bind_apply (x : Failing ε σ α) (f : α → Failing ε σ β) (s : σ) :
    (x >>= f) s = match x s with
      | (.ok a, s') => f a s'
      | (.error e, s') => (.error e, s') := by
  simp only [bind, ExceptT.bind, ExceptT.mk, StateT.bind]
  rcases x s with ⟨_ | _, _⟩ <;> rfl

variable {x : Failing ε σ α} {f : α → Failing ε σ β} {s : σ} {a : α} {R : α → β → Prop}

theorem bind_ok {s'} (h : x s = (.ok a, s')) : (x >>= f) s = f a s' := by
  rw [bind_apply, h]

theorem bind_error {s' e} (h : x s = (.error e, s')) : (x >>= f) s = (.error e, s') := by
  rw [bind_apply, h]

/-- What a sequence did, if it did not fail. -/
theorem of_bind_ok {s'' b} (h : (x >>= f) s = (.ok b, s'')) :
    ∃ a s', x s = (.ok a, s') ∧ f a s' = (.ok b, s'') := by
  rw [bind_apply] at h
  rcases hx : x s with ⟨_ | a, s'⟩
  · rw [hx] at h
    cases h
  · rw [hx] at h
    exact ⟨a, s', rfl, h⟩

/-- A loop of so many rounds. -/
def times (n : ℕ) (x : Failing ε σ α) : Failing ε σ (List α) :=
  match n with
  | 0 => pure []
  | n + 1 => do
    let a ← x
    let as ← times n x
    pure (a :: as)

/-! ## 2. Two computations side by side -/

/-- Two results: the same failure, or two values in the relation; in the same state. -/
inductive SameResult (R : α → β → Prop) : Except ε α × σ → Except ε β × σ → Prop where
  | ok {a : α} {b : β} (s : σ) (h : R a b) : SameResult R (.ok a, s) (.ok b, s)
  | error (e : ε) (s : σ) : SameResult R (.error e, s) (.error e, s)

/-- From every state the two computations have related results. -/
def Related (R : α → β → Prop) (x : Failing ε σ α) (y : Failing ε σ β) : Prop :=
  ∀ s, SameResult R (x s) (y s)

theorem related_pure {b} (h : R a b) :
    Related R (pure a : Failing ε σ α) (pure b) := fun s => .ok s h

theorem related_throw (e : ε) : Related R (throw e : Failing ε σ α) (throw e) := fun s => .error e s

theorem related_refl (x : Failing ε σ α) : Related Eq x x := by
  intro s
  rcases x s with ⟨_ | _, _⟩
  · exact .error _ _
  · exact .ok _ rfl

theorem Related.bind {γ δ : Type} {S y} {f : α → Failing ε σ γ} {g : β → Failing ε σ δ}
    (hxy : Related R x y) (hfg : ∀ a b, R a b → Related S (f a) (g b)) :
    Related S (x >>= f) (y >>= g) := by
  intro s
  have hs := hxy s
  rw [bind_apply, bind_apply]
  generalize x s = r, y s = r' at hs ⊢
  cases hs with
  | ok s' h => exact hfg _ _ h s'
  | error e s' => exact .error e s'

theorem Related.eq {y} (h : Related Eq x y) : x = y := by
  funext s
  have hs := h s
  generalize x s = r, y s = r' at hs ⊢
  cases hs with
  | ok s h => rw [h]
  | error e s => rfl

end Failing

end Sensys
