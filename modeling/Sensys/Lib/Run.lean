/-
# Runs of a partial step function

A system is a step function `step : σ → ι → Option σ`: the label names what happens next, and
`none` says that it cannot, or that nothing is defined after it.  `Reachable step init ok` are the
states of the runs from `init` whose every step meets the condition `ok`, which is about the label
and the state BEFORE the step.

* `Reachable.invariant` is the induction over runs: what holds initially and is kept by every step
  that meets the condition holds throughout.
* `reachable_of_follow` turns a list of labels that can be followed into a reachable state.
* `forall_prefix_iff` is about what holds after every call of a list, when each step has an exact
  condition for keeping it.
* `record` adds a HISTORY VARIABLE: a list of what the steps were observed to do, which no step
  reads.
-/
import Mathlib.Data.List.Induction

namespace Sensys

variable {σ ι η : Type}

/-- The states of the runs whose steps all meet `ok`. -/
inductive Reachable (step : σ → ι → Option σ) (init : σ → Prop) (ok : σ → ι → Prop) : σ → Prop
  | start {s : σ} : init s → Reachable step init ok s
  | next {s s' : σ} {l : ι} :
      Reachable step init ok s → ok s l → step s l = some s' → Reachable step init ok s'

section Invariant

variable {step : σ → ι → Option σ} {init : σ → Prop} {ok : σ → ι → Prop}

/-- **The invariant rule.** -/
theorem Reachable.invariant {P : σ → Prop} (hinit : ∀ s, init s → P s)
    (hstep : ∀ s l s', P s → ok s l → step s l = some s' → P s') {s}
    (h : Reachable step init ok s) : P s := by
  induction h with
  | start hs => exact hinit _ hs
  | next _ hok hs ih => exact hstep _ _ _ ih hok hs

/-- A weaker condition has more runs. -/
theorem Reachable.mono {init' ok'} (hinit : ∀ s, init s → init' s) (hok : ∀ s l, ok s l → ok' s l)
    {s} (h : Reachable step init ok s) : Reachable step init' ok' s := by
  induction h with
  | start hs => exact .start (hinit _ hs)
  | next _ hl hs ih => exact .next ih (hok _ _ hl) hs

end Invariant

/-! ## Lists of calls -/

/-- **What holds after every call**: if each step keeps `P` exactly when it meets `Q`, then `P`
holds after every call if and only if it holds initially and all calls meet `Q`. -/
theorem forall_prefix_iff {P : List ι → Prop} {Q : List ι → ι → Prop}
    (hstep : ∀ done l, P done → (P (done ++ [l]) ↔ Q done l)) (calls : List ι) :
    (∀ done, done <+: calls → P done) ↔ P [] ∧ ∀ done l, done ++ [l] <+: calls → Q done l := by
  constructor
  · intro h
    refine ⟨h [] List.nil_prefix, fun done l hdone => ?_⟩
    have hbefore : done <+: calls := (List.prefix_append done [l]).trans hdone
    exact (hstep done l (h done hbefore)).mp (h _ hdone)
  · rintro ⟨hnil, hq⟩ done
    induction done using List.reverseRecOn with
    | nil => exact fun _ => hnil
    | append_singleton done l ih =>
      intro hdone
      have hbefore : done <+: calls := (List.prefix_append done [l]).trans hdone
      exact (hstep done l (ih hbefore)).mpr (hq done l hdone)

/-! ## Following a list of labels -/

/-- Follow the labels, as long as the steps can be made and meet the condition. -/
def follow (step : σ → ι → Option σ) (ok : σ → ι → Prop) [DecidableRel ok] :
    σ → List ι → Option σ
  | s, [] => some s
  | s, l :: ls => if ok s l then (step s l).bind fun s' => follow step ok s' ls else none

variable {step : σ → ι → Option σ}

theorem reachable_of_follow {init ok} [DecidableRel ok] : ∀ ls {s s'}, Reachable step init ok s →
      follow step ok s ls = some s' → Reachable step init ok s'
  | [], s, s', h, hf => by
    cases hf
    exact h
  | l :: ls, s, s', h, hf => by
    rw [follow] at hf
    split at hf
    · rename_i hok
      obtain ⟨s₁, hs₁, hrest⟩ := Option.bind_eq_some_iff.mp hf
      exact reachable_of_follow ls (.next h hok hs₁) hrest
    · cases hf

/-- A property of the state a list of labels leads to, by evaluation. -/
theorem exists_of_follow {init ok} [DecidableRel ok] {P} [DecidablePred P] {s} (hs : init s)
    (ls : List ι) (h : (follow step ok s ls).any (fun s' => decide (P s')) = true) :
    ∃ s', Reachable step init ok s' ∧ P s' := by
  obtain ⟨s', hf, hP⟩ := (Option.any_eq_true _ _).mp h
  exact ⟨s', reachable_of_follow ls (.start hs) hf, of_decide_eq_true hP⟩

/-- The condition that every step meets. -/
abbrev always : σ → ι → Prop := fun _ _ => True

/-! ## History variables -/

/-- The step function with a list of observations. -/
def record (step : σ → ι → Option σ) (observe : σ → ι → List η) (p : σ × List η) (l : ι) :
    Option (σ × List η) :=
  (step p.1 l).map fun s => (s, p.2 ++ observe p.1 l)

theorem record_eq_some {observe} {p q : σ × List η} {l} : record step observe p l = some q ↔
      step p.1 l = some q.1 ∧ q.2 = p.2 ++ observe p.1 l := by
  obtain ⟨s, past⟩ := q
  rw [record, Option.map_eq_some_iff]
  constructor
  · rintro ⟨s', hs, heq⟩
    cases heq
    exact ⟨hs, rfl⟩
  · rintro ⟨hs, hpast⟩
    exact ⟨s, hs, by rw [← hpast]⟩

end Sensys
