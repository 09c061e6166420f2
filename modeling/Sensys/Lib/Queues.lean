/-
# Events on several queues

A thread runs the events that were given to it in any order.  `takeAt` takes one of them out; `push`
and `pop` are that for several queues, which are named by their index.  What is on the queues is a
list up to its order: `perm_of_push` and `perm_of_pop` say that nothing is lost, doubled or changed
on the way.
-/
import Mathlib.Data.List.Perm.Basic

namespace Sensys.Queues

open List Option

variable {α : Type}

/-- One of the events, and the others. -/
def takeAt (l : List α) (i : ℕ) : Option (α × List α) := l[i]?.map fun a => (a, l.eraseIdx i)

/-- An event more on one of the queues. -/
def push (queues : List (List α)) (t : ℕ) (a : α) : Option (List (List α)) :=
  queues[t]?.map fun q => queues.set t (q ++ [a])

/-- One of the events of one of the queues, and the others. -/
def pop (queues : List (List α)) (t i : ℕ) : Option (α × List (List α)) :=
  queues[t]?.bind fun q => (takeAt q i).map fun p => (p.1, queues.set t p.2)

variable {i t : ℕ} {a : α} {queues queues' : List (List α)}

theorem perm_of_takeAt {l l'} (h : takeAt l i = some (a, l')) : l.Perm (a :: l') := by
  obtain ⟨b, hb, heq⟩ := map_eq_some_iff.mp h
  cases heq
  obtain ⟨hi, rfl⟩ := List.getElem?_eq_some_iff.mp hb
  exact (getElem_cons_eraseIdx_perm hi).symm

/-- One queue is exchanged for another one. -/
theorem flatten_set_perm {q} (h : queues[t]? = some q) (q' : List α) :
    (q ++ (queues.set t q').flatten).Perm (q' ++ queues.flatten) := by
  obtain ⟨ht, rfl⟩ := List.getElem?_eq_some_iff.mp h
  have hset := (set_perm_cons_eraseIdx ht q').flatten
  have hqueues := (getElem_cons_eraseIdx_perm ht).flatten
  calc (queues[t] ++ (queues.set t q').flatten).Perm
        (queues[t] ++ (q' ++ (queues.eraseIdx t).flatten)) := hset.append_left _
    _ |>.Perm (q' ++ (queues[t] ++ (queues.eraseIdx t).flatten)) :=
      perm_append_comm_assoc _ _ _
    _ |>.Perm (q' ++ queues.flatten) := hqueues.append_left q'

theorem perm_of_push
    (h : push queues t a = some queues') : queues'.flatten.Perm (a :: queues.flatten) := by
  obtain ⟨q, hq, rfl⟩ := map_eq_some_iff.mp h
  have hset := flatten_set_perm hq (q ++ [a])
  rw [List.append_assoc] at hset
  exact (perm_append_left_iff q).mp hset

theorem perm_of_pop
    (h : pop queues t i = some (a, queues')) : queues.flatten.Perm (a :: queues'.flatten) := by
  obtain ⟨q, hq, htake⟩ := bind_eq_some_iff.mp h
  obtain ⟨⟨b, q'⟩, hb, heq⟩ := map_eq_some_iff.mp htake
  cases heq
  have hset := flatten_set_perm hq q'
  have hq' := (perm_of_takeAt hb).append_right (queues.set t q').flatten
  exact (perm_append_left_iff q').mp
    (hset.symm.trans (hq'.trans List.perm_middle.symm))

theorem length_of_push (h : push queues t a = some queues') : queues'.length = queues.length := by
  obtain ⟨q, -, rfl⟩ := map_eq_some_iff.mp h
  exact length_set

theorem length_of_pop
    (h : pop queues t i = some (a, queues')) : queues'.length = queues.length := by
  obtain ⟨q, -, htake⟩ := bind_eq_some_iff.mp h
  obtain ⟨p, -, heq⟩ := map_eq_some_iff.mp htake
  cases heq
  exact length_set

end Sensys.Queues
