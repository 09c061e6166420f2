/-
# A first-in first-out worklist without duplicates

A worklist is expanded by taking its first element, appending that element's children and
dropping it.  This file is about the expansions in which no child is ever appended that is
already waiting: `Drains children q` says that such an expansion from `q` ends.

* `drains_iff` says which queues drain, without a queue: by GENERATIONS.  Some generation is
  empty, and in each generation no element is repeated, or a child of itself or of an element
  that stands before it.
* `reach_cons` is the step from the queue to what is reachable from it.

`appendUnique` is the operation such a worklist is built with.  It appends everything when nothing
was there yet (`foldl_appendUnique_of_nodup`) and less otherwise (`length_foldl_appendUnique_lt`).
-/
import Mathlib.Data.List.Nodup
import Mathlib.Logic.Relation

namespace Sensys.Worklist

open List

variable {α : Type}

/-! ## 1. Appending what is not there yet -/

section AppendUnique

variable [DecidableEq α]

/-- Append an element unless it is there. -/
def appendUnique (l : List α) (x : α) : List α := if x ∈ l then l else l ++ [x]

variable {l xs : List α}

theorem mem_appendUnique {x y} : y ∈ appendUnique l x ↔ y ∈ l ∨ y = x := by
  rw [appendUnique]
  split
  · rename_i hx
    constructor
    · exact .inl
    · rintro (h | rfl)
      · exact h
      · exact hx
  · simp

theorem nodup_appendUnique (x : α) (h : l.Nodup) : (appendUnique l x).Nodup := by
  rw [appendUnique]
  split
  · exact h
  · rename_i hx
    have := List.Nodup.concat hx h
    rwa [concat_eq_append] at this

theorem mem_foldl_appendUnique {y} : y ∈ xs.foldl appendUnique l ↔ y ∈ l ∨ y ∈ xs := by
  induction xs generalizing l with
  | nil => simp
  | cons x xs ih =>
    rw [foldl_cons, ih, mem_appendUnique, mem_cons, or_assoc]

theorem nodup_foldl_appendUnique (h : l.Nodup) : (xs.foldl appendUnique l).Nodup := by
  induction xs generalizing l with
  | nil => exact h
  | cons x xs ih => exact ih (nodup_appendUnique x h)

/-- What is in the front part is not appended; the rest goes to the back part. -/
theorem foldl_appendUnique_append (xs l d : List α) : xs.foldl appendUnique (l ++ d)
      = l ++ (xs.filter fun x => decide (x ∉ l)).foldl appendUnique d := by
  induction xs generalizing d with
  | nil => rfl
  | cons x xs ih =>
    by_cases hl : x ∈ l
    · have hsame : appendUnique (l ++ d) x = l ++ d := if_pos (by simp [hl])
      simp only [foldl_cons, hsame, ih, filter_cons, hl, not_true_eq_false, decide_false,
        Bool.false_eq_true, if_false]
    · have hstep : appendUnique (l ++ d) x = l ++ appendUnique d x := by
        by_cases hd : x ∈ d <;> simp [appendUnique, hl, hd]
      simp only [foldl_cons, hstep, ih, filter_cons, hl, not_false_eq_true, decide_true,
        if_true]

/-- Nothing is lost exactly when nothing was there. -/
theorem foldl_appendUnique_of_nodup (h : (l ++ xs).Nodup) : xs.foldl appendUnique l = l ++ xs := by
  induction xs generalizing l with
  | nil => simp
  | cons x xs ih =>
    have hx : x ∉ l := by
      intro hx
      exact (nodup_append.mp h).2.2 x hx x mem_cons_self rfl
    have happ : appendUnique l x = l ++ [x] := if_neg hx
    rw [foldl_cons, happ, ih (by simpa using h)]
    simp

theorem length_foldl_appendUnique_le (xs l : List α) :
    (xs.foldl appendUnique l).length ≤ l.length + xs.length := by
  induction xs generalizing l with
  | nil => simp
  | cons x xs ih =>
    have := ih (appendUnique l x)
    have hone : (appendUnique l x).length ≤ l.length + 1 := by
      rw [appendUnique]
      split <;> simp
    rw [foldl_cons, length_cons]
    omega

/-- **A repetition makes the result shorter than the count of what was appended.** -/
theorem length_foldl_appendUnique_lt (hl : l.Nodup) (h : ¬ (l ++ xs).Nodup) :
    (xs.foldl appendUnique l).length < l.length + xs.length := by
  induction xs generalizing l with
  | nil => exact absurd (by simpa using hl) h
  | cons x xs ih =>
    rw [foldl_cons, length_cons]
    by_cases hx : x ∈ l
    · have hsame : appendUnique l x = l := if_pos hx
      have := length_foldl_appendUnique_le xs l
      rw [hsame]
      omega
    · have happ : appendUnique l x = l ++ [x] := if_neg hx
      have hnd := nodup_appendUnique x hl
      rw [happ] at hnd ⊢
      have := ih hnd (by simpa using h)
      simp only [length_append, length_singleton] at this
      omega

end AppendUnique

/-! ## 2. Draining -/

section Drains

variable (children : α → List α)

/-- **The worklist drains**: taking elements from its front and appending their children ends,
and no child is appended that is waiting, or being taken. -/
inductive Drains : List α → Prop
  | nil : Drains []
  | cons {x : α} {q : List α} : (x :: q ++ children x).Nodup → Drains (q ++ children x) →
      Drains (x :: q)

/-- The generations of a list: its elements, their children, and so on, in order. -/
def generation (l : List α) : ℕ → List α
  | 0 => l
  | k + 1 => (generation l k).flatMap children

/-- No element is repeated, or a child of itself or of an element that stands before it; and the
children are not repeated either. -/
def NoRepeat (l : List α) : Prop :=
  ∀ xs x ys, l = xs ++ x :: ys → (x :: ys ++ (xs ++ [x]).flatMap children).Nodup

/-- The generations end, and none has a repetition. -/
def Ends (l : List α) : Prop :=
  (∃ k, generation children l k = []) ∧ ∀ k, NoRepeat children (generation children l k)

variable {children}

theorem generation_succ (l : List α) (k : ℕ) :
    generation children l (k + 1) = generation children (l.flatMap children) k := by
  induction k with
  | zero => rfl
  | succ k ih => rw [generation, ih, generation]

theorem ends_nil : Ends children [] := by
  have hgen : ∀ k, generation children [] k = [] := by
    intro k
    induction k with
    | zero => rfl
    | succ k ih => rw [generation, ih, flatMap_nil]
  refine ⟨⟨0, rfl⟩, ?_⟩
  intro k xs x ys h
  rw [hgen] at h
  simp at h

variable {l q : List α}

theorem Ends.next (h : Ends children l) : Ends children (l.flatMap children) := by
  obtain ⟨⟨k, hk⟩, hrep⟩ := h
  refine ⟨⟨k, ?_⟩, fun j => ?_⟩
  · rw [← generation_succ, generation, hk, flatMap_nil]
  · rw [← generation_succ]
    exact hrep (j + 1)

/-- One generation behind another. -/
theorem Ends.cons (hrep : NoRepeat children l) (h : Ends children (l.flatMap children)) :
    Ends children l := by
  obtain ⟨⟨k, hk⟩, hreps⟩ := h
  refine ⟨⟨k + 1, by rw [generation_succ, hk]⟩, ?_⟩
  intro j
  cases j with
  | zero => exact hrep
  | succ j =>
    rw [generation_succ]
    exact hreps j

/-- The queue in the middle of a generation: what is left of it, then the children of what was
taken. -/
theorem drains_of_rest (hrep : NoRepeat children l) (hnext : Drains children (l.flatMap children)) :
    ∀ ys xs, l = xs ++ ys → Drains children (ys ++ xs.flatMap children)
  | [], xs, h => by
    rw [List.append_nil] at h
    rw [nil_append, ← h]
    exact hnext
  | x :: ys, xs, h => by
    have hnd := hrep xs x ys h
    have hrest := drains_of_rest hrep hnext ys (xs ++ [x]) (by rw [h]; simp)
    refine Drains.cons ?_ ?_
    · simpa using hnd
    · simpa using hrest

theorem drains_of_ends : ∀ k {l}, generation children l k = [] → Ends children l →
    Drains children l
  | 0, l, hk, _ => by
    have : l = [] := hk
    subst this
    exact Drains.nil
  | k + 1, l, hk, h => by
    rw [generation_succ] at hk
    have := drains_of_rest (h.2 0) (drains_of_ends k hk h.next) l [] rfl
    simpa using this

/-- All the ways to split a list with a first element. -/
theorem forall_split_cons {P : List α → α → List α → Prop} {x} (hhead : P [] x q)
    (htail : ∀ as z bs, q = as ++ z :: bs → P (x :: as) z bs) :
    ∀ as z bs, x :: q = as ++ z :: bs → P as z bs
  | [], z, bs, h => by
    obtain ⟨rfl, rfl⟩ := h
    exact hhead
  | a :: as, z, bs, h => by
    simp only [cons_append, List.cons.injEq] at h
    obtain ⟨rfl, h⟩ := h
    exact htail as z bs h

/-- What a draining queue says about the generation it is in the middle of: `xs` has been taken,
`ys` is left. -/
theorem Drains.middle (h : Drains children q) : ∀ xs ys, q = ys ++ xs.flatMap children →
      (∀ as x bs, ys = as ++ x :: bs → (x :: bs ++ (xs ++ as ++ [x]).flatMap children).Nodup) ∧
      Ends children ((xs ++ ys).flatMap children) := by
  induction h with
  | nil =>
    intro xs ys hq
    obtain ⟨rfl, hxs⟩ := append_eq_nil_iff.mp hq.symm
    refine ⟨?_, ?_⟩
    · intro as x bs h
      simp at h
    · rw [List.append_nil, hxs]
      exact ends_nil
  | @cons x q hnd _ ih =>
    intro xs ys hq
    cases ys with
    | cons y ys =>
      -- `x` belongs to this generation
      obtain ⟨rfl, rfl⟩ := hq
      have hchildren : (ys ++ xs.flatMap children) ++ children x
          = ys ++ (xs ++ [x]).flatMap children := by simp
      obtain ⟨hsplit, hends⟩ := ih (xs ++ [x]) ys hchildren
      refine ⟨forall_split_cons (by simpa using hnd) fun as z bs h => ?_, by simpa using hends⟩
      simpa using hsplit as z bs h
    | nil =>
      -- the generation is used up, and `x` is the first of the next one
      obtain ⟨hsplit, hends⟩ := ih [x] q (by simp)
      refine ⟨by intro as z bs h; simp at h, ?_⟩
      rw [List.append_nil]
      rw [nil_append] at hq
      rw [← hq]
      refine Ends.cons (forall_split_cons (by simpa using hnd) fun as z bs h => ?_)
        (by simpa using hends)
      simpa using hsplit as z bs h

/-- **Which worklists drain**, by generations. -/
theorem drains_iff (l : List α) : Drains children l ↔ Ends children l := by
  constructor
  · intro h
    obtain ⟨hsplit, hends⟩ := h.middle [] l (by simp)
    refine Ends.cons ?_ (by simpa using hends)
    intro xs x ys hl
    simpa using hsplit xs x ys hl
  · intro h
    obtain ⟨k, hk⟩ := h.1
    exact drains_of_ends k hk h

/-! ## 3. What is visited -/

/-- Reachable from one of a list by any number of child steps. -/
def Reach (children : α → List α) (l : List α) (y : α) : Prop :=
  ∃ x ∈ l, Relation.ReflTransGen (fun a b => b ∈ children a) x y

theorem reach_nil (y : α) : ¬ Reach children [] y := by
  rintro ⟨x, hx, -⟩
  simp at hx

/-- Taking an element and appending its children changes what is reachable by that element
only. -/
theorem reach_cons {x y} :
    Reach children (x :: q) y ↔ y = x ∨ Reach children (q ++ children x) y := by
  constructor
  · rintro ⟨z, hz, hzy⟩
    rcases mem_cons.mp hz with rfl | hz
    · rcases hzy.cases_head with heq | ⟨w, hw, hwy⟩
      · exact .inl heq.symm
      · exact .inr ⟨w, mem_append_right _ hw, hwy⟩
    · exact .inr ⟨z, mem_append_left _ hz, hzy⟩
  · rintro (rfl | ⟨z, hz, hzy⟩)
    · exact ⟨y, mem_cons_self, .refl⟩
    · rcases mem_append.mp hz with hz | hz
      · exact ⟨z, mem_cons_of_mem _ hz, hzy⟩
      · exact ⟨x, mem_cons_self, .head hz hzy⟩

end Drains

end Sensys.Worklist
