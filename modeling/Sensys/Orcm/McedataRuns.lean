/-
# Machine checks are packed exactly once

In every run in which the condition `Careful` is met, the records are packed in the order of the log,
each once and with the registers that were logged for it; and when a collection is over, all records
that were in the log when it started are packed (`packed_exactly_once`).

The invariant `Inv` says where a collection is: `done` are the entries that are behind it, and of the
next entry it has `seen` some lines.  It is not yet at the end of the log it started with, or it is
BEYOND it, among unrelated lines only.  That is where it goes wrong without the condition: a record
that is appended then is packed, but the position that is saved is before it.
-/
import Sensys.Orcm.Mcedata

namespace Sensys.Orcm.Mcedata

open CString Stdio List Option LogRecord

/-! ## 1. The lines of a record -/

/-- `get_log_lines` on some lines. -/
def gather (logLines lines : List Str) : List Str := lines.foldl getLogLine logLines

theorem gather_append (logLines seen unseen : List Str) :
    gather logLines (seen ++ unseen) = gather (gather logLines seen) unseen := foldl_append

variable {line : Str} {e : Entry} {done rest : List Entry} {pos : ℕ} {s s' : State}
  {reading : Reading}

/-- An unrelated line is not taken. -/
theorem getLogLine_unrelated (h : Unrelated line) (logLines : List Str) :
    getLogLine logLines line = logLines := by
  rw [getLogLine]
  split
  · rw [if_neg (by simp [h.takes_eq_false])]
  · rfl

theorem gather_unrelated {lines} (h : ∀ line ∈ lines, Unrelated line) (logLines : List Str) :
    gather logLines lines = logLines := by
  induction lines with
  | nil => rfl
  | cons line lines ih =>
    rw [gather, foldl_cons, getLogLine_unrelated (h line mem_cons_self)]
    exact ih fun l hl => h l (mem_cons_of_mem _ hl)

section Record

variable (r : LogRecord)

/-- The lines of some tags. -/
def LogRecord.linesOf (tags : List Tag) : List Str :=
  tags.flatMap fun tag => r.noise tag ++ [r.line tag]

variable {logLines : List Str}

/-- The line that is awaited is taken. -/
theorem getLogLine_line {before tags tag} (hall : before ++ tag :: tags <+: Tag.all)
    (hlength : logLines.length = before.length) :
    getLogLine logLines (r.line tag) = logLines ++ [r.line tag] := by
  have hnext : Tag.all[logLines.length]? = some tag := by
    obtain ⟨after, hall⟩ := hall
    simp [← hall, hlength]
  rw [getLogLine, hnext]
  exact if_pos (r.takes_line tag)

/-- The lines of the record are taken, one after the other. -/
theorem gather_linesOf : ∀ before tags, before ++ tags <+: Tag.all →
    ∀ logLines : List Str, logLines.length = before.length →
      gather logLines (r.linesOf tags) = logLines ++ tags.map r.line
  | _, [], _, _, _ => by simp [gather, linesOf]
  | before, tag :: tags, hall, logLines, hlength => by
    have hrest := gather_linesOf (before ++ [tag]) tags (by simpa using hall)
      (logLines ++ [r.line tag]) (by simp [hlength])
    rw [linesOf, flatMap_cons, gather_append, gather_append,
      gather_unrelated (r.unrelated tag)]
    refine Eq.trans ?_ (hrest.trans (by simp))
    exact congrArg (gather · (r.linesOf tags)) (getLogLine_line r hall hlength)

/-- Nothing is given back. -/
theorem length_le_gather (lines : List Str) : ∀ logLines : List Str,
    logLines.length ≤ (gather logLines lines).length := by
  induction lines with
  | nil => exact fun _ => Nat.le_refl _
  | cons line lines ih =>
    intro logLines
    have hline : logLines.length ≤ (getLogLine logLines line).length := by
      unfold getLogLine
      split
      · split <;> simp
      · exact Nat.le_refl _
    exact hline.trans (ih _)

/-- As long as there are more lines, the record is not complete: the last line is taken. -/
theorem length_gather_lines_lt {seen unseen} (h : r.lines = seen ++ unseen) (hne : unseen ≠ []) :
    (gather [] seen).length < Tag.all.length := by
  have hlast : r.lines =
      (r.linesOf Tag.all.dropLast ++ r.noise .mcgcap) ++ [r.line .mcgcap] := by
    simp [lines, linesOf, Tag.all]
  have hfront : gather [] (r.linesOf Tag.all.dropLast ++ r.noise .mcgcap) =
      Tag.all.dropLast.map r.line := by
    rw [gather_append, gather_linesOf r [] _ (List.dropLast_prefix _) [] rfl,
      gather_unrelated (r.unrelated _)]
    rfl
  obtain ⟨unseen, line, rfl⟩ := unseen.eq_nil_or_concat.resolve_left hne
  rw [hlast, concat_eq_append, ← List.append_assoc] at h
  have hle := length_le_gather unseen (gather [] seen)
  rw [← gather_append, ← (append_inj' h rfl).1, hfront] at hle
  exact Nat.lt_succ_of_le hle

end Record

/-! ## 2. Entries -/

theorem Entry.isLine_of_mem (h : line ∈ e.lines) : IsLine line := by
  cases e with
  | chatter l hl =>
    obtain rfl := List.mem_singleton.mp h
    exact hl.isLine
  | record r =>
    obtain ⟨tag, -, hline⟩ := mem_flatMap.mp h
    rcases mem_append.mp hline with hline | hline
    · exact (r.unrelated tag line hline).isLine
    · rw [List.mem_singleton.mp hline]
      exact r.isLine tag

theorem Entry.lines_ne_nil (e : Entry) : e.lines ≠ [] := by
  cases e with
  | chatter line h => simp [Entry.lines]
  | record r => simp [Entry.lines, LogRecord.lines, Tag.all]

/-- All lines of an entry have been read: nothing is taken, or the lines of a record. -/
theorem gather_lines (e : Entry) :
    gather [] e.lines = (e.record?.map fun r => Tag.all.map r.line).getD [] := by
  cases e with
  | chatter line h => exact gather_unrelated (by simpa [Entry.lines] using h) []
  | record r => exact gather_linesOf r [] Tag.all (prefix_refl _) [] rfl

/-- Some lines of an entry have been read. -/
theorem length_gather_lt {seen unseen} (h : e.lines = seen ++ unseen) (hne : unseen ≠ []) :
    (gather [] seen).length < Tag.all.length := by
  cases e with
  | chatter line hline =>
    have hseen : seen = [] := by
      cases seen with
      | nil => rfl
      | cons l seen =>
        have hnil := (List.cons.inj h).2
        exact absurd (append_eq_nil_iff.mp hnil.symm).2 hne
    rw [hseen]
    decide
  | record r => exact length_gather_lines_lt r h hne

/-- The size of a log. -/
def size (log : List Entry) : ℕ := (text log).length

theorem text_append (log log' : List Entry) : text (log ++ log') = text log ++ text log' := by
  rw [text, flatMap_append, flatten_append, ← text, ← text]

variable (e)

theorem text_cons (log : List Entry) :
    text (e :: log) = e.lines.flatten ++ text log := by
  rw [text, flatMap_cons, flatten_append, ← text]

@[simp] theorem size_nil : size [] = 0 := rfl

@[simp] theorem size_append (log log' : List Entry) : size (log ++ log') = size log + size log' := by
  rw [size, text_append, length_append, ← size, ← size]

theorem size_cons (log : List Entry) :
    size (e :: log) = e.lines.flatten.length + size log := by
  rw [size, text_cons, length_append, ← size]

theorem length_flatten_lines_pos : 0 < e.lines.flatten.length := by
  obtain ⟨line, lines, hlines⟩ := exists_cons_of_ne_nil e.lines_ne_nil
  have hmem : line ∈ e.lines := by simp [hlines]
  have hpos := (Entry.isLine_of_mem hmem).length_pos
  rw [hlines, flatten_cons, length_append]
  omega

/-- Only an empty log has no size. -/
theorem size_pos {log} (h : log ≠ []) : 0 < size log := by
  obtain ⟨e, log, rfl⟩ := exists_cons_of_ne_nil h
  have := length_flatten_lines_pos e
  rw [size_cons]
  omega

theorem records_append (log log' : List Entry) :
    records (log ++ log') = records log ++ records log' := filterMap_append

@[simp] theorem records_chatter (line : Str) (h : Unrelated line) :
    records [.chatter line h] = [] := rfl

/-! ## 3. Where a collection is -/

/-- Before the next entry, or among its lines: some have been read, but not all. -/
def At (done rest : List Entry) (pos : ℕ) (logLines : List Str) : Prop :=
  (rest = [] ∧ pos = size done ∧ logLines = []) ∨
    ∃ e rest' seen unseen, rest = e :: rest' ∧ e.lines = seen ++ unseen ∧ unseen ≠ [] ∧
      pos = size done + seen.flatten.length ∧ logLines = gather [] seen

/-- Before the next entry. -/
theorem at_boundary (done rest : List Entry) : At done rest (size done) [] := by
  cases rest with
  | nil => exact .inl ⟨rfl, rfl, rfl⟩
  | cons e rest => exact .inr ⟨e, rest, [], e.lines, rfl, rfl, e.lines_ne_nil, rfl, rfl⟩

theorem At.append (h : At done rest pos logLines) :
    At done (rest ++ [e]) pos logLines := by
  rcases h with ⟨rfl, rfl, rfl⟩ | ⟨e', rest', seen, unseen, rfl, hseen⟩
  · exact at_boundary done [e]
  · exact .inr ⟨e', rest' ++ [e], seen, unseen, rfl, hseen⟩

variable {e}

/-- What a collection has done of the log it started with: not all, or all, which did not end with a
record, and more. -/
def Place (started done : List Entry) : Prop :=
  (∃ more, more ≠ [] ∧ started = done ++ more) ∨
    (endsWithRecord started = false ∧ ∃ more, done = started ++ more)

/-- The records that are packed. -/
def Agrees (packed : List Packed) (log : List Entry) : Prop :=
  packed.map Packed.mceReg = (records log).map LogRecord.registers

/-- A collection that is going on. -/
structure ReadingInv (s : State) (reading : Reading) : Prop where
  totBytes : reading.totBytes = size s.started
  quiet : ∀ later, s.log = s.started ++ later → endsWithRecord s.started = true ∨ records later = []
  place : ∃ done rest, s.log = done ++ rest ∧ Agrees s.packed done ∧
    At done rest reading.pos reading.logLines ∧ Place s.started done

structure Inv (s : State) : Prop where
  exact : ∀ r ∈ records s.log, ExactStatus r
  grows : ∃ later, s.log = s.started ++ later
  idle : s.reading = none → s.logFilePos = size s.started ∧ Agrees s.packed s.started
  reading : ∀ reading, s.reading = some reading → ReadingInv s reading

theorem inv_start (h : Start s) : Inv s := by
  subst h
  exact ⟨by simp [records], ⟨[], rfl⟩, fun _ => ⟨rfl, rfl⟩, by simp⟩

/-! ## 4. Steps -/

/-- The next line is read. -/
theorem getline_inside {seen unseen} (h : e.lines = seen ++ line :: unseen) :
    Stdio.getline (text (done ++ e :: rest)) (size done + seen.flatten.length) =
      some (line, size done + (seen ++ [line]).flatten.length) := by
  have hmem : line ∈ e.lines := by simp [h]
  have htext : text (done ++ e :: rest) =
      (text done ++ seen.flatten) ++ (line ++ (unseen.flatten ++ text rest)) := by
    simp [text_append, text_cons, h]
  have hpos : size done + seen.flatten.length = (text done ++ seen.flatten).length := by
    simp [size]
  rw [htext, hpos, getline_line _ (Entry.isLine_of_mem hmem)]
  simp [size, Nat.add_assoc]

/-- Something is appended. -/
theorem Inv.append (h : Inv s) (hcareful : Careful s (.append e)) :
    Inv { s with log := s.log ++ [e] } := by
  obtain ⟨later, hlater⟩ := h.grows
  refine ⟨fun r hr => ?_, ⟨later ++ [e], by simp [hlater]⟩, h.idle, fun reading hreading => ?_⟩
  · rw [records_append] at hr
    rcases mem_append.mp hr with hr | hr
    · exact h.exact r hr
    · cases e with
      | chatter line hline => cases hr
      | record r' =>
        obtain rfl := List.mem_singleton.mp hr
        exact hcareful.1
  · have hinv := h.reading reading hreading
    refine ⟨hinv.totBytes, fun later' hlater' => ?_, ?_⟩
    · obtain rfl : later' = later ++ [e] := by
        rw [hlater, List.append_assoc] at hlater'
        exact (append_cancel_left hlater').symm
      cases e with
      | chatter line hline =>
        exact (hinv.quiet later hlater).imp_right fun hnone => by simp [records_append, hnone]
      | record r => exact .inl (hcareful.2 (by rw [hreading]; rfl))
    · obtain ⟨done, rest, hlog, hagrees, hat, hplace⟩ := hinv.place
      exact ⟨done, rest ++ [e], by simp [hlog], hagrees, hat.append e, hplace⟩

/-- The head of the loop, before the next entry. -/
theorem inv_whileHead (hexact : ∀ r ∈ records s.log, ExactStatus r)
    (hquiet : ∀ later, s.log = s.started ++ later →
      endsWithRecord s.started = true ∨ records later = [])
    {more} (hgrows : ∃ later, s.log = s.started ++ later) (hlog : s.log = done ++ rest)
    (hagrees : Agrees s.packed done) (hstarted : s.started = done ++ more) :
    Inv (whileHead s (size s.started) (size done)) := by
  rw [whileHead]
  split
  · next hlt =>
    have hmore : more ≠ [] := by
      rintro rfl
      simp [hstarted] at hlt
    refine ⟨hexact, hgrows, by simp, fun reading hreading => ?_⟩
    cases hreading
    exact ⟨rfl, hquiet, done, rest, hlog, hagrees, at_boundary done rest,
      .inl ⟨more, hmore, hstarted⟩⟩
  · next hle =>
    have hmore : more = [] := by
      by_contra hne
      have := size_pos hne
      rw [hstarted, size_append] at hle
      omega
    rw [hmore, List.append_nil] at hstarted
    exact ⟨hexact, hgrows, fun _ => ⟨rfl, hstarted ▸ hagrees⟩, by simp⟩

/-- A collection starts. -/
theorem Inv.collect (h : Inv s) (hstep : step s .collect = some s') : Inv s' := by
  rw [step] at hstep
  split at hstep
  · cases hstep
  · next hnone =>
    obtain ⟨later, hlater⟩ := h.grows
    obtain ⟨hpos, hagrees⟩ := h.idle hnone
    have hsize : updateLogFileSize (text s.log) s.logFilePos = (size s.log, size s.started) := by
      have hle : ¬ (text s.log).length < s.logFilePos := by
        rw [hpos, ← size, hlater, size_append]
        omega
      rw [updateLogFileSize, if_neg hle, hpos]
      rfl
    rw [hsize] at hstep
    cases hstep
    refine inv_whileHead (s := { s with logFilePos := size s.started, started := s.log }) h.exact
      (fun later' hlater' => ?_) ⟨[], by simp⟩ hlater hagrees hlater
    have hnil : later' = [] := by simpa using hlater'
    exact .inr (by rw [hnil]; rfl)

/-- The collection is at the end of the file. -/
theorem Inv.eof (h : Inv s) (hreading : s.reading = some reading) (hlog : s.log = done)
    (hagrees : Agrees s.packed done) (hplace : Place s.started done) :
    Inv { s with logFilePos := reading.totBytes, reading := none } := by
  have hinv := h.reading reading hreading
  refine ⟨h.exact, h.grows, fun _ => ⟨hinv.totBytes, ?_⟩, by simp⟩
  rcases hplace with ⟨more, hmore, hstarted⟩ | ⟨hends, more, rfl⟩
  · -- it cannot be there before the end of the log it started with
    obtain ⟨later, hlater⟩ := h.grows
    rw [hlog, hstarted, List.append_assoc] at hlater
    have hnil := (append_eq_nil_iff.mp (List.self_eq_append_right.mp hlater)).1
    exact absurd hnil hmore
  · -- there are no records behind the end
    have hnone := (hinv.quiet more hlog).resolve_left (by simp [hends])
    rw [Agrees, records_append, hnone, List.append_nil] at hagrees
    exact hagrees

/-- The collection goes on with the next line. -/
theorem Inv.goOn (h : Inv s) (hreading : s.reading = some reading) (hlog : s.log = done ++ rest)
    (hagrees : Agrees s.packed done) (hat : At done rest pos logLines)
    (hplace : Place s.started done) :
    Inv { s with reading := some ⟨reading.totBytes, pos, logLines⟩ } := by
  have hinv := h.reading reading hreading
  refine ⟨h.exact, h.grows, by simp, fun reading' hreading' => ?_⟩
  cases hreading'
  exact ⟨hinv.totBytes, hinv.quiet, done, rest, hlog, hagrees, hat, hplace⟩

/-- The entries of the log it started with that are not done begin with the next one. -/
theorem exists_more (h : Inv s) {more} (hlog : s.log = done ++ e :: rest) (hmore : more ≠ [])
    (hstarted : s.started = done ++ more) : ∃ more', s.started = (done ++ [e]) ++ more' := by
  obtain ⟨later, hlater⟩ := h.grows
  obtain ⟨e', more', rfl⟩ := exists_cons_of_ne_nil hmore
  rw [hlog, hstarted, List.append_assoc] at hlater
  obtain ⟨rfl, -⟩ := List.cons.inj (append_cancel_left hlater)
  exact ⟨more', by rw [hstarted, List.append_assoc]; rfl⟩

/-- An unrelated line is behind the collection. -/
theorem place_chatter (h : Inv s) {hline} (hlog : s.log = done ++ .chatter line hline :: rest)
    (hplace : Place s.started done) : Place s.started (done ++ [.chatter line hline]) := by
  rcases hplace with ⟨more, hmore, hstarted⟩ | ⟨hends, more, rfl⟩
  · obtain ⟨more', hmore'⟩ := exists_more h hlog hmore hstarted
    by_cases hnil : more' = []
    · rw [hnil, List.append_nil] at hmore'
      exact .inr ⟨by rw [hmore', endsWithRecord]; simp [Entry.record?], [], by simp [hmore']⟩
    · exact .inl ⟨more', hnil, hmore'⟩
  · exact .inr ⟨hends, more ++ [.chatter line hline], by simp⟩

section

variable (hreading : s.reading = some reading)
include hreading

/-- A record is behind the collection, and packed. -/
theorem Inv.pack (h : Inv s) {r} (hlog : s.log = done ++ .record r :: rest)
    (hagrees : Agrees s.packed done) (hplace : Place s.started done) :
    Inv (whileHead { s with packed := s.packed ++ [packRecord (Tag.all.map r.line)] }
      reading.totBytes (size (done ++ [.record r]))) := by
  have hinv := h.reading reading hreading
  rcases hplace with ⟨more, hmore, hstarted⟩ | ⟨hends, more, rfl⟩
  · obtain ⟨more', hmore'⟩ := exists_more h hlog hmore hstarted
    have hexact : ExactStatus r := h.exact r (by simp [hlog, records, Entry.record?])
    have hpacked : Agrees (s.packed ++ [packRecord (Tag.all.map r.line)]) (done ++ [.record r]) := by
      rw [Agrees, map_append, records_append, map_append, hagrees]
      exact congrArg (_ ++ [·]) ((mceReg_packRecord_iff r).mpr hexact)
    rw [hinv.totBytes]
    exact inv_whileHead (s := { s with packed := s.packed ++ [packRecord (Tag.all.map r.line)] })
      h.exact hinv.quiet h.grows (hlog.trans (append_cons _ _ _)) hpacked hmore'
  · -- there are no records behind the end
    have hnone := (hinv.quiet (more ++ .record r :: rest) (by simp [hlog])).resolve_left
      (by simp [hends])
    simp [records, Entry.record?] at hnone

theorem step_getline_none (h : Stdio.getline (text s.log) reading.pos = none) :
    step s .getline = some { s with logFilePos := reading.totBytes, reading := none } := by
  rw [step, hreading]
  simp only [h]

theorem step_getline_some (h : Stdio.getline (text s.log) reading.pos = some (line, pos)) :
    step s .getline =
      if (getLogLine reading.logLines line).length < Tag.all.length then
        some { s with reading := some ⟨reading.totBytes, pos, getLogLine reading.logLines line⟩ }
      else
        some (whileHead
          { s with packed := s.packed ++ [packRecord (getLogLine reading.logLines line)] }
          reading.totBytes pos) := by
  rw [step, hreading]
  simp only [h]

/-- The last line of an entry is read. -/
theorem Inv.last (h : Inv s) (hlog : s.log = done ++ e :: rest) (hagrees : Agrees s.packed done)
    (hplace : Place s.started done)
    (hline : Stdio.getline (text s.log) reading.pos = some (line, size (done ++ [e])))
    (hgather : getLogLine reading.logLines line = gather [] e.lines)
    (hstep : step s .getline = some s') : Inv s' := by
  rw [step_getline_some hreading hline, hgather, gather_lines] at hstep
  cases e with
  | chatter l hl =>
    cases hstep
    have hagrees' : Agrees s.packed (done ++ [.chatter l hl]) := by
      rw [Agrees, records_append, records_chatter, List.append_nil]
      exact hagrees
    exact h.goOn hreading (hlog.trans (append_cons _ _ _)) hagrees' (at_boundary _ _)
      (place_chatter h hlog hplace)
  | record r =>
    cases hstep
    exact h.pack hreading hlog hagrees hplace

end

/-- A line is read. -/
theorem Inv.getline (h : Inv s) (hstep : step s .getline = some s') : Inv s' := by
  cases hreading : s.reading with
  | none =>
    rw [step, hreading] at hstep
    cases hstep
  | some reading =>
    obtain ⟨done, rest, hlog, hagrees, hat, hplace⟩ := (h.reading reading hreading).place
    rcases hat with ⟨rfl, hpos, -⟩ | ⟨e, rest, seen, unseen, rfl, hsplit, hne, hpos, hlines⟩
    · rw [List.append_nil] at hlog
      rw [step_getline_none hreading (by rw [hpos, hlog]; exact getline_eof _)] at hstep
      cases hstep
      exact h.eof hreading hlog hagrees hplace
    · obtain ⟨line, unseen, rfl⟩ := exists_cons_of_ne_nil hne
      have hline : Stdio.getline (text s.log) reading.pos =
          some (line, size done + (seen ++ [line]).flatten.length) := by
        rw [hlog, hpos, getline_inside hsplit]
      have hgather : getLogLine reading.logLines line = gather [] (seen ++ [line]) := by
        rw [hlines, gather_append]
        rfl
      by_cases hnil : unseen = []
      · subst hnil
        rw [← hsplit] at hline hgather
        refine h.last hreading hlog hagrees hplace (hline.trans ?_) hgather hstep
        rw [size_append, size_cons, size_nil, Nat.add_zero]
      · have hsplit' : e.lines = (seen ++ [line]) ++ unseen := by simp [hsplit]
        rw [step_getline_some hreading hline, hgather, if_pos (length_gather_lt hsplit' hnil)] at hstep
        cases hstep
        exact h.goOn hreading hlog hagrees
          (.inr ⟨e, rest, _, unseen, rfl, hsplit', hnil, rfl, rfl⟩) hplace

/-- **A step keeps the invariant.** -/
theorem Inv.step (h : Inv s) {label} (hcareful : Careful s label) (hstep : step s label = some s') :
    Inv s' := by
  cases label with
  | append e =>
    cases hstep
    exact h.append hcareful
  | collect => exact h.collect hstep
  | getline => exact h.getline hstep

/-! ## 5. Exactly once -/

/-- The states of the runs in which all goes well. -/
def Runs : State → Prop := Reachable step Start Careful

theorem inv_of_runs (h : Runs s) : Inv s :=
  Reachable.invariant (P := Inv) (fun _ => inv_start) (fun _ _ _ hs => hs.step) h

/-- The collection reads on, and nothing else happens. -/
def readOn : ℕ → State → State
  | 0, s => s
  | n + 1, s => (step s .getline).elim s (readOn n)

/-- A collection can always call `getline`, which moves it on or ends it. -/
theorem exists_step_getline (hreading : s.reading = some reading) :
    ∃ s', step s .getline = some s' ∧ s'.started = s.started ∧ s'.log = s.log ∧
      ∀ reading', s'.reading = some reading' →
        reading.pos < reading'.pos ∧ reading'.pos ≤ size s.log := by
  cases hline : Stdio.getline (text s.log) reading.pos with
  | none => exact ⟨_, step_getline_none hreading hline, rfl, rfl, nofun⟩
  | some next =>
    have hbounds := getline_bounds hline
    rw [step_getline_some hreading hline, whileHead]
    split
    · refine ⟨_, rfl, rfl, rfl, ?_⟩
      rintro reading' ⟨⟩
      exact hbounds
    split
    · refine ⟨_, rfl, rfl, rfl, ?_⟩
      rintro reading' ⟨⟩
      exact hbounds
    · exact ⟨_, rfl, rfl, rfl, nofun⟩

/-- **A collection that reads on comes to its end.** -/
theorem exists_readOn : ∀ n {s}, Runs s →
    (∀ reading, s.reading = some reading → size s.log < reading.pos + n) →
      ∃ k, (readOn k s).reading = none ∧ Runs (readOn k s) ∧ (readOn k s).started = s.started
  | n, s, h, hn => by
    cases hreading : s.reading with
    | none => exact ⟨0, hreading, h, rfl⟩
    | some reading =>
      have hlt := hn reading hreading
      obtain ⟨s', hstep, hstarted, hlog, hmoves⟩ := exists_step_getline hreading
      have hruns : Runs s' := Reachable.next (l := .getline) h trivial hstep
      suffices hend : ∃ k, (readOn k s').reading = none ∧ Runs (readOn k s') ∧
          (readOn k s').started = s'.started by
        obtain ⟨k, hk⟩ := hend
        exact ⟨k + 1, by rwa [readOn, hstep, elim_some, ← hstarted]⟩
      cases n with
      | zero =>
        refine ⟨0, eq_none_iff_forall_ne_some.mpr fun reading' hreading' => ?_, hruns, rfl⟩
        have := hmoves reading' hreading'
        omega
      | succ n =>
        refine exists_readOn n hruns fun reading' hreading' => ?_
        have := hmoves reading' hreading'
        rw [hlog]
        omega

/-- When no collection is going on, all records of the log it started with are packed. -/
theorem length_le_of_idle (h : Inv s) (hnone : s.reading = none) :
    (records s.started).length ≤ s.packed.length := by
  have hlength := congrArg List.length (h.idle hnone).2
  rw [length_map, length_map] at hlength
  exact hlength.ge

/-- **What is packed are the records of the log, from the first one on, each once, in order and with
the registers that were logged; when a collection is over, all records are packed that were in the
log when it started; and a collection that reads on comes to that.** -/
theorem packed_exactly_once {s : State} (h : Runs s) :
    s.packed.map Packed.mceReg <+: (records s.log).map LogRecord.registers ∧
      (s.reading = none → (records s.started).length ≤ s.packed.length) ∧
      ∃ n, (readOn n s).reading = none ∧
        (records s.started).length ≤ (readOn n s).packed.length := by
  have hinv := inv_of_runs h
  refine ⟨?_, length_le_of_idle hinv, ?_⟩
  · have hsplit {done rest : List Entry} (hlog : s.log = done ++ rest)
        (hagrees : Agrees s.packed done) :
        s.packed.map Packed.mceReg <+: (records s.log).map registers := by
      rw [hagrees, hlog, records_append, map_append]
      exact prefix_append _ _
    cases hreading : s.reading with
    | none =>
      obtain ⟨later, hlater⟩ := hinv.grows
      exact hsplit hlater (hinv.idle hreading).2
    | some reading =>
      obtain ⟨done, rest, hlog, hagrees, -⟩ := (hinv.reading reading hreading).place
      exact hsplit hlog hagrees
  · obtain ⟨n, hn, hruns, hstarted⟩ :=
      exists_readOn (size s.log + 1) h fun reading _ => by omega
    exact ⟨n, hn, hstarted ▸ length_le_of_idle (inv_of_runs hruns) hn⟩

/-- Numbers of a record, with a large `MCGSTATUS` or a small one. -/
def sampleDigits (large : Bool) : Tag → Str
  | .mcgstatus => if large then ofString "10" else ofString "5"
  | _ => ofString "1f"

def sampleRecord (large : Bool) : LogRecord where
  noise _ := []
  line tag := ofString "mcelog:" ++ logLineToken tag ++ ofString "0x" ++ sampleDigits large tag ++ [10]
  digits := sampleDigits large
  unrelated := by simp
  isLine := by cases large <;> intro tag <;> cases tag <;> decide +kernel
  takes_line := by cases large <;> intro tag <;> cases tag <;> decide +kernel
  logged := by
    have hend : ∀ c, ([10] : Str).head? = some c → digitValue c = 36 := by
      rintro c ⟨⟩
      rfl
    cases large <;> intro tag _ <;>
      refine ⟨?_, ?_, ?_, [10], ?_, hend⟩ <;> cases tag <;> decide +kernel

def sampleChatter : Entry :=
  .chatter (ofString "kernel: up\n")
    ⟨by decide +kernel, by intro tag; cases tag <;> decide +kernel⟩

/-- A record, and unrelated lines that are appended before and during the collection. -/
theorem packed_exactly_once_sample :
    ∃ s, Runs s ∧ (s.reading = none ∧ (records s.started).length = 1 ∧ s.packed.length = 1) ∧
      s.packed.map Packed.mceReg <+: (records s.log).map LogRecord.registers ∧
      (s.reading = none → (records s.started).length ≤ s.packed.length) ∧
      ∃ n, (readOn n s).reading = none ∧
        (records s.started).length ≤ (readOn n s).packed.length := by
  obtain ⟨s, hs, hsample⟩ : ∃ s, Runs s ∧ (s.reading.isNone = true ∧
      (records s.started).length = 1 ∧ s.packed.length = 1) :=
    exists_of_follow rfl ([Label.append (.record (sampleRecord false)),
        Label.append sampleChatter, Label.collect] ++ List.replicate 9 Label.getline ++
      [Label.append sampleChatter] ++ List.replicate 3 Label.getline) (by decide +kernel)
  rw [isNone_iff_eq_none] at hsample
  exact ⟨s, hs, hsample, packed_exactly_once hs⟩

/-- A register is packed wrong; and a record that is appended while a collection reads the
unrelated lines at the end is packed twice. -/
theorem packed_wrong_or_twice : (∃ s, Reachable step Start always s ∧
      (records s.log).map LogRecord.registers = [[16, 31, 31, 31, 31]] ∧
      s.packed.map Packed.mceReg = [[10, 31, 31, 31, 31]]) ∧
    ∃ s, Reachable step Start always s ∧ (records s.log).length = 2 ∧ s.packed.length = 3 := by
  constructor
  · exact exists_of_follow rfl ([Label.append (.record (sampleRecord true)), Label.collect] ++
      List.replicate 9 Label.getline) (by decide +kernel)
  · exact exists_of_follow rfl ([Label.append (.record (sampleRecord false)),
        Label.append sampleChatter, Label.collect] ++ List.replicate 9 Label.getline ++
      [Label.append (.record (sampleRecord false))] ++ List.replicate 10 Label.getline ++
      [Label.collect] ++ List.replicate 9 Label.getline) (by decide +kernel)

end Sensys.Orcm.Mcedata
