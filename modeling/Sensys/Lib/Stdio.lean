/-
# Reading lines at a position of a file

`getline` of C at a position of a file, as a function of what the file contains at that moment: a
program that reads a file while it grows calls it with a new content each time.  A file that only
grows by whole lines is read line by line (`getline_line`), up to the end (`getline_eof`), and no
call goes back or beyond the end (`getline_bounds`).
-/
import Sensys.Lib.CString

namespace Sensys.Stdio

open CString List

/-- `getline(&ptr, &n, fp)` at a position: the line with its newline, and the position behind it;
`none` at the end of the file. -/
def getline (content : Str) (pos : ℕ) : Option (Str × ℕ) :=
  let rest := content.drop pos
  let line := rest.takeWhile (· != 10) ++ (rest.dropWhile (· != 10)).take 1
  if line = [] then none else some (line, pos + line.length)

/-- A line with its newline. -/
def IsLine (line : Str) : Prop := line.getLast? = some 10 ∧ 10 ∉ line.dropLast

instance (line : Str) : Decidable (IsLine line) := inferInstanceAs (Decidable (_ ∧ _))

variable {line : Str}

theorem IsLine.exists_text (h : IsLine line) : ∃ text, line = text ++ [10] ∧ 10 ∉ text := by
  obtain ⟨hlast, hmem⟩ := h
  obtain ⟨text, rfl⟩ := List.getLast?_eq_some_iff.mp hlast
  exact ⟨text, rfl, by simpa using hmem⟩

theorem IsLine.length_pos (h : IsLine line) : 0 < line.length := by
  obtain ⟨text, rfl, -⟩ := h.exists_text
  simp

/-- **A line that begins at the position is read.** -/
theorem getline_line (before : Str) (h : IsLine line) (rest : Str) :
    getline (before ++ (line ++ rest)) before.length =
      some (line, before.length + line.length) := by
  obtain ⟨text, rfl, hmem⟩ := h.exists_text
  have htext : ∀ c ∈ text, (c != 10) = true := by
    intro c hc
    rw [bne_iff_ne]
    rintro rfl
    exact hmem hc
  have hstop : ∀ c, (10 :: rest).head? = some c → (c != 10) = false := by simp
  rw [getline, drop_left, List.append_assoc, singleton_append,
    takeWhile_stop htext hstop, dropWhile_stop htext hstop]
  simp

theorem getline_eof (content : Str) : getline content content.length = none := by
  simp [getline]

/-- The position goes on, and not beyond the end. -/
theorem getline_bounds {content pos next} (h : getline content pos = some (line, next)) :
    pos < next ∧ next ≤ content.length := by
  rw [getline] at h
  split at h
  · cases h
  · next hne =>
    cases h
    have hpos := List.length_pos_iff.mpr hne
    have hlength : ((content.drop pos).takeWhile (· != 10)).length +
        ((content.drop pos).dropWhile (· != 10)).length = content.length - pos := by
      rw [← length_append, takeWhile_append_dropWhile, length_drop]
    rw [length_append, length_take] at hpos ⊢
    omega

end Sensys.Stdio
