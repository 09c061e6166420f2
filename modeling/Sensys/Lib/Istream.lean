/-
# Reading a file line by line into a buffer

A model of `std::ifstream` for programs that read lines with `getline(buffer, n)` until `eof()`.
A line that does not fit in the buffer sets `failbit`.  From then on nothing is read any more and
`eofbit` is never set, so a loop that only looks at `eof()` does not end.

A loop (`eachLine`) takes `fuel`, and what it means that it ends with some result is `Ends`.  That is
decided by the ROWS of the file: its lines, up to the first one that does not fit, of which the
beginning is read (`ends_iff`).
-/
import Mathlib.Data.List.Basic
import Sensys.Lib.CString

namespace Sensys

open List

/-- A `std::ifstream`: what is left to read, `eofbit` and `failbit`. -/
structure Istream where
  rest : Str
  eof : Bool
  fail : Bool
  deriving DecidableEq, Repr

namespace Istream

/-- A file that was opened. -/
def ofContent (content : Str) : Istream := ⟨content, false, false⟩

/-- `getline(buffer, n)`: what is put in the buffer. -/
def getline (n : ℕ) (strm : Istream) : Str × Istream :=
  if strm.eof || strm.fail then ([], { strm with fail := true })
  else
    let line := strm.rest.takeWhile (· != 10)
    if n ≤ line.length then (strm.rest.take (n - 1), ⟨strm.rest.drop (n - 1), false, true⟩)
    else
      match strm.rest.drop line.length with
      | [] => (line, ⟨[], true, line.isEmpty⟩)
      | _ :: rest => (line, ⟨rest, false, false⟩)

section Loop

variable {β ρ : Type} (n : ℕ) (body : β → Str → β ⊕ ρ)

/-- `while (!strm.eof())`: the body is given a line, and goes on or leaves the loop with a
result. -/
def eachLine : ℕ → β → Istream → Option (β ⊕ ρ)
  | 0, _, _ => none
  | fuel + 1, b, strm =>
    if strm.eof then some (.inl b)
    else
      match body b (strm.getline n).1 with
      | .inl b => eachLine fuel b (strm.getline n).2
      | .inr r => some (.inr r)

/-- The loop ends with a result. -/
def Ends (b : β) (strm : Istream) (r : β ⊕ ρ) : Prop :=
  ∃ fuel, eachLine n body fuel b strm = some r

/-- The lines that fit in the buffer, up to the first that does not, and whether the end of the file
is reached. -/
def rows : List Str → List Str × Bool
  | [] => ([], true)
  | line :: lines =>
    if line.length < n then (line :: (rows lines).1, (rows lines).2)
    else ([line.take (n - 1)], false)

/-- The loop over rows. -/
def overRows : β → List Str → Bool → Option (β ⊕ ρ)
  | b, [], true => some (.inl b)
  | _, [], false => none
  | b, row :: rows, ends =>
    match body b row with
    | .inl b => overRows b rows ends
    | .inr r => some (.inr r)

end Loop

/-! ## 1. Lines of the buffer -/

section Getline

variable {n : ℕ} {line : Str}

theorem takeWhile_line (h : 10 ∉ line) (rest : Str) (hrest : ∀ c, rest.head? = some c → c = 10) :
    (line ++ rest).takeWhile (· != 10) = line := by
  refine CString.takeWhile_stop (fun c hc => ?_) fun c hc => ?_
  · exact bne_iff_ne.mpr fun heq => h (heq ▸ hc)
  · simp [hrest c hc]

theorem getline_last (h : 10 ∉ line) (hfits : line.length < n) :
    (ofContent line).getline n = (line, ⟨[], true, line.isEmpty⟩) := by
  have htake := takeWhile_line h [] (by simp)
  rw [List.append_nil] at htake
  simp [getline, ofContent, htake, Nat.not_le.mpr hfits]

theorem getline_line (h : 10 ∉ line) (hfits : line.length < n) (rest : Str) :
    (ofContent (line ++ 10 :: rest)).getline n = (line, ofContent rest) := by
  have htake := takeWhile_line h (10 :: rest) (by simp)
  simp [getline, ofContent, htake, Nat.not_le.mpr hfits]

theorem getline_long (h : 10 ∉ line) (hlong : n ≤ line.length) {rest}
    (hrest : ∀ c, rest.head? = some c → c = 10) :
    ∃ rest', (ofContent (line ++ rest)).getline n = (line.take (n - 1), ⟨rest', false, true⟩) := by
  have htake := takeWhile_line h rest hrest
  refine ⟨(line ++ rest).drop (n - 1), ?_⟩
  simp only [getline, ofContent, htake, hlong, Bool.or_self, Bool.false_eq_true, if_false, if_true]
  rw [take_append_of_le_length (by omega)]

end Getline

/-! ## 2. Loops -/

section Ends

variable {β ρ : Type} {n : ℕ} {body : β → Str → β ⊕ ρ} {b : β} {strm : Istream} {r : β ⊕ ρ}

theorem ends_eof (h : strm.eof = true) : Ends n body b strm r ↔ r = .inl b := by
  constructor
  · rintro ⟨_ | fuel, hloop⟩
    · cases hloop
    · rw [eachLine, if_pos h, Option.some.injEq] at hloop
      exact hloop.symm
  · rintro rfl
    exact ⟨1, if_pos h⟩

/-- One row is read: the loop is left with the result of the body, or goes on with the rest. -/
theorem ends_row (h : strm.eof = false) {row strm'} (hgetline : strm.getline n = (row, strm'))
    {rows ends} (hrest : ∀ b', Ends n body b' strm' r ↔ overRows body b' rows ends = some r) :
    Ends n body b strm r ↔ overRows body b (row :: rows) ends = some r := by
  have hstep (fuel : ℕ) : eachLine n body (fuel + 1) b strm =
      match body b row with
      | .inl b => eachLine n body fuel b strm'
      | .inr r => some (.inr r) := by
    rw [eachLine, h, if_neg Bool.false_ne_true, hgetline]
  rw [overRows]
  cases hbody : body b row with
  | inr x =>
    constructor
    · rintro ⟨_ | fuel, hloop⟩
      · cases hloop
      · rw [hstep, hbody] at hloop
        exact hloop
    · intro hx
      exact ⟨1, by rw [hstep, hbody]; exact hx⟩
  | inl b' =>
    rw [← hrest b']
    constructor
    · rintro ⟨_ | fuel, hloop⟩
      · cases hloop
      · rw [hstep, hbody] at hloop
        exact ⟨fuel, hloop⟩
    · rintro ⟨fuel, hloop⟩
      exact ⟨fuel + 1, by rw [hstep, hbody]; exact hloop⟩

/-- **After a failure there is no end**, when the body does nothing on an empty line. -/
theorem not_ends_of_fail (hbody : ∀ b, body b [] = .inl b) (rest : Str) :
    ¬ Ends n body b ⟨rest, false, true⟩ r := by
  rintro ⟨fuel, hloop⟩
  induction fuel with
  | zero => cases hloop
  | succ fuel ih =>
    have hgetline : (⟨rest, false, true⟩ : Istream).getline n = ([], ⟨rest, false, true⟩) := rfl
    rw [eachLine, if_neg Bool.false_ne_true, hgetline, hbody] at hloop
    exact ih hloop

theorem ends_iff_of_lines (hbody : ∀ b, body b [] = .inl b) :
    ∀ {lines b}, lines ≠ [] → (∀ line ∈ lines, 10 ∉ line) →
      (Ends n body b (ofContent ([10].intercalate lines)) r ↔
        overRows body b (rows n lines).1 (rows n lines).2 = some r)
  | [], _, h, _ => absurd rfl h
  | line :: lines, b, _, hlines => by
    have hline := hlines line mem_cons_self
    by_cases hfits : line.length < n
    · rw [rows, if_pos hfits]
      cases lines with
      | nil =>
        rw [intercalate_singleton]
        refine ends_row rfl (getline_last hline hfits) fun b' => ?_
        rw [ends_eof rfl, rows, overRows, Option.some.injEq, eq_comm]
      | cons line' lines =>
        exact ends_row rfl (getline_line hline hfits _) fun b' =>
          ends_iff_of_lines hbody (cons_ne_nil _ _) fun line hmem =>
            hlines line (mem_cons_of_mem _ hmem)
    · -- the beginning of the line is read, and nothing more
      rw [rows, if_neg hfits]
      have hlong : ∃ rest, (∀ c, rest.head? = some c → c = 10) ∧
          [10].intercalate (line :: lines) = line ++ rest := by
        cases lines with
        | nil => exact ⟨[], by simp, by simp⟩
        | cons line' lines =>
          exact ⟨10 :: [10].intercalate (line' :: lines), by simp,
            by rw [intercalate_cons_cons, List.append_assoc, singleton_append]⟩
      obtain ⟨rest, hrest, hcontent⟩ := hlong
      obtain ⟨rest', hgetline⟩ := getline_long hline (Nat.not_lt.mp hfits) hrest
      rw [hcontent]
      refine ends_row rfl hgetline fun b' => ?_
      exact ⟨fun h => absurd h (not_ends_of_fail hbody rest'), fun h => by cases h⟩

theorem not_mem_of_mem_splitOn {d} : ∀ {content line : Str},
    line ∈ content.splitOn d → d ∉ line
  | [], line, h => by simp_all
  | c :: content, line, h => by
    rw [splitOn_cons_eq_if_modifyHead] at h
    obtain ⟨first, lines, hsplit⟩ := exists_cons_of_ne_nil (splitOn_ne_nil d content)
    have ih : ∀ line ∈ first :: lines, d ∉ line := fun line hline =>
      not_mem_of_mem_splitOn (hsplit ▸ hline)
    rw [hsplit] at h
    split at h
    · rcases mem_cons.mp h with rfl | h
      · exact not_mem_nil
      · exact ih line h
    · next hc =>
      rw [modifyHead_cons, mem_cons] at h
      rcases h with rfl | h
      · intro hmem
        rcases mem_cons.mp hmem with rfl | hmem
        · exact hc (beq_self_eq_true _)
        · exact ih first mem_cons_self hmem
      · exact ih line (mem_cons_of_mem _ h)

/-- **A loop over the lines of a file ends as it does over its rows.** -/
theorem ends_iff (hbody : ∀ b, body b [] = .inl b) (content : Str) :
    Ends n body b (ofContent content) r ↔
      overRows body b (rows n (content.splitOn 10)).1 (rows n (content.splitOn 10)).2 = some r := by
  have h := ends_iff_of_lines (n := n) (b := b) (r := r) hbody (splitOn_ne_nil 10 content)
    fun line => not_mem_of_mem_splitOn
  rwa [intercalate_splitOn] at h

end Ends

/-! ## 3. Rows and lines -/

section Rows

variable {n : ℕ} {lines : List Str}

/-- The end is reached when all lines fit; then the rows are the lines. -/
theorem rows_eq_of_fits : ∀ {lines}, (∀ line ∈ lines, line.length < n) →
    rows n lines = (lines, true)
  | [], _ => rfl
  | line :: lines, h => by
    rw [rows, if_pos (h line mem_cons_self),
      rows_eq_of_fits fun line hline => h line (mem_cons_of_mem _ hline)]

theorem fits_of_rows : ∀ {lines}, (rows n lines).2 = true →
    ∀ line ∈ lines, line.length < n
  | [], _, line, hline => absurd hline not_mem_nil
  | first :: lines, h, line, hline => by
    rw [rows] at h
    split at h
    · next hfits =>
      rcases mem_cons.mp hline with rfl | hline
      · exact hfits
      · exact fits_of_rows h line hline
    · cases h

/-- A row is the beginning of a line. -/
theorem exists_line_of_mem_rows : ∀ {lines row}, row ∈ (rows n lines).1 →
    ∃ line ∈ lines, row = line.take (n - 1)
  | [], _, h => absurd h not_mem_nil
  | line :: lines, row, h => by
    rw [rows] at h
    split at h
    · next hfits =>
      rcases mem_cons.mp h with rfl | h
      · exact ⟨row, mem_cons_self, (take_of_length_le (by omega)).symm⟩
      · obtain ⟨line', hline', hrow⟩ := exists_line_of_mem_rows h
        exact ⟨line', mem_cons_of_mem _ hline', hrow⟩
    · exact ⟨line, mem_cons_self, List.mem_singleton.mp h⟩

/-- The lines of a file in which every line is ended. -/
theorem splitOn_flatMap : ∀ {lines : List Str}, (∀ line ∈ lines, 10 ∉ line) →
    (lines.flatMap fun line => line ++ [10]).splitOn 10 = lines ++ [[]]
  | [], _ => rfl
  | line :: lines, h => by
    rw [flatMap_cons, List.append_assoc, singleton_append,
      splitOn_append_cons_self_of_not_mem (h line mem_cons_self),
      splitOn_flatMap fun line hline => h line (mem_cons_of_mem _ hline)]
    rfl

end Rows

end Istream

end Sensys
