/-
# Tallies over windows of time

A window is a stretch of time, from `left` up to but not including `right`, with a counter.
`Tally size windows times` says that the windows share `size`, that they lie one after the other,
and that between them they count the `times`: every counter is the number of times in its window,
and every time is in some window.

A tally is built up in two ways: a time is counted in the LAST window (`Tally.count`), or a window
is opened for it after all the others (`Tally.start`).  Since windows do not overlap, every time is
in exactly one of them (`Tally.existsUnique`).
-/
import Mathlib.Data.List.Pairwise
import Mathlib.Logic.ExistsUnique

namespace Sensys

open List

/-- A stretch of time and a counter. -/
structure TimeWindow where
  left : ℕ
  right : ℕ
  count : ℕ
  deriving DecidableEq, Repr

/-- The time lies in the window. -/
def TimeWindow.holds (window : TimeWindow) (time : ℕ) : Bool :=
  decide (window.left ≤ time) && decide (time < window.right)

theorem TimeWindow.holds_iff {window : TimeWindow} {time} :
    window.holds time = true ↔ window.left ≤ time ∧ time < window.right := by
  simp [TimeWindow.holds]

/-- **The windows count the times.** -/
structure Tally (size : ℕ) (windows : List TimeWindow) (times : List ℕ) : Prop where
  width : ∀ window ∈ windows, window.right = window.left + size
  increasing : windows.Pairwise fun earlier later => earlier.right ≤ later.left
  counts : ∀ window ∈ windows, window.count = times.countP window.holds
  covers : ∀ time ∈ times, ∃ window ∈ windows, window.holds time = true

namespace Tally

variable {size : ℕ} {windows : List TimeWindow} {times : List ℕ}

theorem nil : Tally size [] [] :=
  ⟨fun _ h => (not_mem_nil h).elim, .nil, fun _ h => (not_mem_nil h).elim,
    fun _ h => (not_mem_nil h).elim⟩

variable {last : TimeWindow} {time : ℕ}

/-- A time in a window after all the others. -/
theorem concat (hwindows : ∀ window ∈ windows, window.right = window.left + size ∧
      window.right ≤ last.left ∧ window.count = times.countP window.holds)
    (hincreasing : windows.Pairwise fun earlier later => earlier.right ≤ later.left)
    (hwidth : last.right = last.left + size) (hcount : last.count = times.countP last.holds + 1)
    (hcovers : ∀ t ∈ times, ∃ window ∈ windows ++ [last], window.holds t = true)
    (htime : last.holds time = true) : Tally size (windows ++ [last]) (times ++ [time]) := by
  refine ⟨?_, ?_, ?_, ?_⟩
  · exact forall_mem_append.mpr ⟨fun window h => (hwindows window h).1, by simpa using hwidth⟩
  · refine List.pairwise_append.mpr ⟨hincreasing, pairwise_singleton _ _, fun window h => ?_⟩
    simpa using (hwindows window h).2.1
  · refine forall_mem_append.mpr ⟨fun window h => ?_, ?_⟩
    · obtain ⟨-, hle, hcounts⟩ := hwindows window h
      have hnot : window.holds time = false := by
        rw [TimeWindow.holds_iff] at htime
        simp [TimeWindow.holds]
        omega
      rw [countP_append, countP_singleton, hnot]
      simpa using hcounts
    · rw [forall_mem_singleton, countP_append, countP_singleton, if_pos htime, hcount]
  · refine forall_mem_append.mpr ⟨hcovers, ?_⟩
    exact forall_mem_singleton.mpr ⟨last, mem_append_right _ mem_cons_self, htime⟩

/-- No window ends after the last one. -/
theorem right_le_last {window} (h : Tally size (windows ++ [last]) times)
    (hwindow : window ∈ windows ++ [last]) : window.right ≤ last.right := by
  rcases mem_append.mp hwindow with hmem | hmem
  · have hle := (List.pairwise_append.mp h.increasing).2.2 window hmem last mem_cons_self
    have hwidth := h.width last (mem_append_right _ mem_cons_self)
    omega
  · exact Nat.le_of_eq (congrArg TimeWindow.right (List.mem_singleton.mp hmem))

/-- **Counting a time** in the last window. -/
theorem count (h : Tally size (windows ++ [last]) times) (htime : last.holds time = true) :
    Tally size (windows ++ [{ last with count := last.count + 1 }]) (times ++ [time]) := by
  have hlast : last ∈ windows ++ [last] := by simp
  obtain ⟨hincreasing, -, hbefore⟩ := List.pairwise_append.mp h.increasing
  refine concat (fun window hmem => ?_) hincreasing (h.width last hlast) ?_ (fun t ht => ?_) htime
  · have hold := mem_append_left [last] hmem
    exact ⟨h.width window hold, hbefore window hmem last mem_cons_self, h.counts window hold⟩
  · exact congrArg (· + 1) (h.counts last hlast)
  · -- a window with another counter holds the same times
    simpa [or_and_right, exists_or, TimeWindow.holds] using h.covers t ht

/-- **Opening a window** for a time, after all the others. -/
theorem start {left : ℕ} (h : Tally size windows times)
    (hafter : ∀ window ∈ windows, window.right ≤ left) (hleft : left ≤ time)
    (hright : time < left + size) :
    Tally size (windows ++ [⟨left, left + size, 1⟩]) (times ++ [time]) := by
  refine concat (fun window hmem => ?_) h.increasing rfl ?_ (fun t ht => ?_)
    (TimeWindow.holds_iff.mpr ⟨hleft, hright⟩)
  · exact ⟨h.width window hmem, hafter window hmem, h.counts window hmem⟩
  · -- the times so far are in earlier windows
    refine congrArg (· + 1) (countP_eq_zero.mpr fun t ht hholds => ?_).symm
    obtain ⟨window, hwindow, hin⟩ := h.covers t ht
    have hright := (TimeWindow.holds_iff.mp hin).2
    have hleft : left ≤ t := (TimeWindow.holds_iff.mp hholds).1
    have hle := hafter window hwindow
    omega
  · obtain ⟨window, hwindow, hin⟩ := h.covers t ht
    exact ⟨window, mem_append_left _ hwindow, hin⟩

/-- Two windows are the same, or one is before the other. -/
def Apart (v w : TimeWindow) : Prop := v = w ∨ v.right ≤ w.left ∨ w.right ≤ v.left

instance : Std.Symm Apart where
  symm _ _ h := h.imp Eq.symm Or.symm

/-- **Every time is in exactly one window.** -/
theorem existsUnique (h : Tally size windows times) (htime : time ∈ times) :
    ∃! window, window ∈ windows ∧ window.holds time = true := by
  obtain ⟨window, hwindow, hin⟩ := h.covers time htime
  refine ⟨window, ⟨hwindow, hin⟩, fun other ⟨hother, hinOther⟩ => ?_⟩
  have hapart : windows.Pairwise Apart := h.increasing.imp fun hle => .inr (.inl hle)
  have hself : ∀ w ∈ windows, Apart w w := fun _ _ => .inl rfl
  rcases List.Pairwise.forall_of_forall hself hapart hother hwindow with heq | hle
  · exact heq
  · rw [TimeWindow.holds_iff] at hin hinOther
    omega

end Tally

end Sensys
