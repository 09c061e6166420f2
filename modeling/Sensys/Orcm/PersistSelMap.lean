/-
# The file with the last record ids is a map

Loading looks at the ENTRIES of the file, the lines `name=value`, and takes the first one of its
host.  Saving writes a file in which the entries of the host have the new id and all other entries
are as they were (`newLines`).  So the file is a map from hosts to ids (`ActsAsMap`), under conditions
which are all needed (`acts_as_map_iff`):

* every line has at most 78 characters.  At a longer one the loops do not end;
* the first entry of the host has a digit in its value.  Otherwise `substr` throws;
* the name of the host has no newline, and at most 72 characters.  Otherwise the entry that is
  written for it cannot be read back.
-/
import Sensys.Orcm.PersistSel

namespace Sensys.Orcm.PersistSel

open CString Istream PersistSelRecordId List Option

/-! ## 1. Blanks -/

/-- There are no blanks around it. -/
structure Trimmed (str : Str) : Prop where
  head : ∀ c, str.head? = some c → isBlank c = false
  last : ∀ c, str.getLast? = some c → isBlank c = false

theorem strTrim_sublist (str : Str) : (strTrim str).Sublist str :=
  (List.rdropWhile_prefix _ _).sublist.trans (dropWhile_sublist _)

theorem strTrim_trimmed (str : Str) : Trimmed (strTrim str) := by
  constructor
  · intro c hc
    obtain ⟨blanks, hblanks⟩ := List.rdropWhile_prefix isBlank (str.dropWhile isBlank)
    have hhead : (str.dropWhile isBlank).head? = some c := by
      rw [← hblanks, head?_append, ← strTrim, hc]
      rfl
    have := head?_dropWhile_not isBlank str
    rwa [hhead] at this
  · intro c hc
    have hne : strTrim str ≠ [] := by
      intro hnil
      rw [hnil] at hc
      cases hc
    rw [getLast?_eq_some_getLast hne, some.injEq] at hc
    subst hc
    exact Bool.eq_false_iff.mpr (rdropWhile_last_not _ _ hne)

theorem Trimmed.eq {str} (h : Trimmed str) : strTrim str = str := by
  have hdrop : str.dropWhile isBlank = str := by
    cases str with
    | nil => rfl
    | cons c str => simp [h.head c rfl]
  rw [strTrim, hdrop, rdropWhile_eq_self_iff]
  intro hne
  rw [h.last _ (getLast?_eq_some_getLast hne)]
  exact Bool.false_ne_true

variable {name val row hostname : Str}

/-- Blanks are looked for at both ends only. -/
theorem Trimmed.join (hname : Trimmed name) (hne : name ≠ [])
    (hval : Trimmed val) (hne' : val ≠ []) : Trimmed (name ++ 61 :: val) := by
  obtain ⟨c, name, rfl⟩ := exists_cons_of_ne_nil hne
  refine ⟨fun c' hc => hname.head c' hc, fun c' hc => hval.last c' ?_⟩
  rw [getLast?_append, getLast?_cons_of_ne_nil hne', getLast?_eq_some_getLast hne']
    at hc
  rw [getLast?_eq_some_getLast hne']
  exact hc

/-! ## 2. Entries -/

/-- The entry of a row, if it is one. -/
def entryOf (row : Str) : Option (Str × Str) :=
  if (streamLine row).isEmpty then none else some (strEqualsSplit (streamLine row))

/-- The value that a row has for a host. -/
def valueOf (hostname row : Str) : Option Str :=
  (entryOf row).bind fun e => if e.1 = hostname then some e.2 else none

/-- The value that the first row of a host has. -/
def findValue (hostname : Str) (rows : List Str) : Option Str := rows.findSome? (valueOf hostname)

/-- What the code relies on about the two sides of an entry. -/
structure Sides (row name val : Str) : Prop where
  name_trimmed : Trimmed name
  val_trimmed : Trimmed val
  equals_notMem : 61 ∉ name
  name_sublist : (name ++ 61 :: val).Sublist (row.takeWhile (· != 0)) ∨ name = []
  val_sublist : val.Sublist (row.takeWhile (· != 0))

theorem takeWhile_ne_notMem (c : UInt8) (str : Str) : c ∉ str.takeWhile (· != c) := by
  intro hmem
  have := mem_takeWhile_imp hmem
  simp at this

theorem sides_of_entryOf (h : entryOf row = some (name, val)) : Sides row name val := by
  rw [entryOf] at h
  split at h
  · cases h
  · have hline : (streamLine row).Sublist (row.takeWhile (· != 0)) := strTrim_sublist _
    have hsplit := some.inj h
    rw [strEqualsSplit] at hsplit
    split at hsplit
    · next hmem =>
      cases hsplit
      have hequals := takeWhile_ne_append (contains_iff_mem.mp hmem)
      refine ⟨strTrim_trimmed _, strTrim_trimmed _, ?_, .inl ?_, ?_⟩
      · exact fun hmem => takeWhile_ne_notMem 61 _ ((strTrim_sublist _).subset hmem)
      · refine Sublist.trans ?_ (hequals ▸ hline)
        exact (strTrim_sublist _).append ((strTrim_sublist _).cons_cons 61)
      · exact (strTrim_sublist _).trans ((tail_sublist _).trans
          ((dropWhile_sublist _).trans hline))
    · cases hsplit
      exact ⟨⟨by simp, by simp⟩, ⟨by simp, by simp⟩, by simp, .inr rfl, by simp⟩

/-- **An entry that is written is read back.** -/
theorem entryOf_line (hname : Trimmed name) (hne : name ≠ [])
    (hequals : 61 ∉ name) (hzero : 0 ∉ name) (hval : Trimmed val) (hne' : val ≠ [])
    (hzero' : 0 ∉ val) : entryOf (name ++ 61 :: val) = some (name, val) := by
  have hcut : (name ++ 61 :: val).takeWhile (· != 0) = name ++ 61 :: val := by
    rw [takeWhile_eq_self_iff]
    intro c hc
    rw [bne_iff_ne]
    rintro rfl
    simp [hzero, hzero'] at hc
  have hline : streamLine (name ++ 61 :: val) = name ++ 61 :: val := by
    rw [streamLine, hcut, (hname.join hne hval hne').eq]
  have hleft : ∀ c ∈ name, (c != 61) = true := by
    intro c hc
    rw [bne_iff_ne]
    rintro rfl
    exact hequals hc
  have hstop : ∀ c, (61 :: val).head? = some c → (c != 61) = false := by simp
  rw [entryOf, hline, if_neg (by simp), strEqualsSplit, if_pos (by simp), takeWhile_stop hleft hstop,
    dropWhile_stop hleft hstop, tail_cons, hname.eq, hval.eq]

/-! ## 3. Loading -/

theorem loadLine_eq (hostname row : Str) :
    loadLine hostname () row = (valueOf hostname row).elim (.inl ()) .inr := by
  rw [loadLine, valueOf, entryOf]
  by_cases hempty : (streamLine row).isEmpty = true
  · simp [hempty]
  · rw [if_neg hempty, if_neg hempty]
    simp only [bind_some]
    split_ifs <;> rfl

/-- The loop is left with the first value of the host, or goes on to the end. -/
theorem overRows_loadLine (hostname : Str) (ends : Bool) : ∀ rows : List Str,
    overRows (loadLine hostname) () rows ends = (findValue hostname rows).elim
      (if ends then some (.inl ()) else none) fun val => some (.inr val)
  | [] => by cases ends <;> rfl
  | row :: rows => by
    rw [overRows, loadLine_eq, findValue, findSome?_cons]
    cases valueOf hostname row with
    | none => exact overRows_loadLine hostname ends rows
    | some val => rfl

theorem streamLine_nil : streamLine [] = [] := rfl

/-- The rows of a file. -/
def rowsOf (content : Str) : List Str × Bool := rows (maxLineSize - 1) (content.splitOn 10)

/-- The id that the rows of a file have for a host: that of its first entry, or 0. -/
def Found (rows : List Str × Bool) (hostname : Str) (recordId : ℕ) : Prop :=
  (∃ val, findValue hostname rows.1 = some val ∧ recordIdOfStr val = some recordId) ∨
    (findValue hostname rows.1 = none ∧ rows.2 = true ∧ recordId = 0)

/-- **Loading a file.** -/
theorem loads_iff (content hostname : Str) (obj : PersistSelRecordId) :
    Loads (some content) hostname obj ↔
      ∃ recordId, obj = ⟨hostname, recordId, false⟩ ∧ Found (rowsOf content) hostname recordId := by
  have hloads : Loads (some content) hostname obj ↔ ∃ r,
      overRows (loadLine hostname) () (rowsOf content).1 (rowsOf content).2 = some r ∧
        r.elim (fun _ => some (new hostname)) (fun val =>
          (recordIdOfStr val).map fun recordId => ⟨hostname, recordId, false⟩) = some obj := by
    simp only [rowsOf, ← ends_iff (fun _ => rfl : ∀ b, loadLine hostname b [] = .inl b), Ends]
    simp only [Loads, loadLastRecordId, map_eq_some_iff]
    rw [exists_comm]
    refine exists_congr fun r => ?_
    cases r <;> simp [new]
  rw [hloads, overRows_loadLine]
  unfold Found
  cases hfind : findValue hostname (rowsOf content).1 with
  | none => cases (rowsOf content).2 <;> simp [new, eq_comm]
  | some val => simp [eq_comm (a := obj), and_comm]

theorem yields_iff (content hostname : Str) (recordId : ℕ) :
    Yields (some content) hostname recordId ↔ Found (rowsOf content) hostname recordId := by
  constructor
  · rintro ⟨obj, hload, rfl⟩
    obtain ⟨recordId, rfl, hfound⟩ := (loads_iff content hostname obj).mp hload
    exact hfound
  · intro hfound
    exact ⟨_, (loads_iff content hostname _).mpr ⟨recordId, rfl, hfound⟩, rfl⟩

/-! ## 4. Saving -/

/-- The line that is written for a row. -/
def newLine (hostname : Str) (recordId : ℕ) (row : Str) : Option Str :=
  (entryOf row).bind fun e =>
    if e.1 = hostname then some (entry hostname recordId)
    else if !e.1.isEmpty && !e.2.isEmpty then some (e.1 ++ 61 :: e.2)
    else none

/-- The lines that are written for the rows of a file. -/
def newLines (hostname : Str) (recordId : ℕ) (rows : List Str) : List Str :=
  rows.filterMap (newLine hostname recordId) ++
    if (findValue hostname rows).isSome then [] else [entry hostname recordId]

/-- Lines as they stand in a file. -/
def written (lines : List Str) : Str := lines.flatMap fun line => line ++ [10]

/-- One row of the copy. -/
theorem copyLine_eq (hostname recordId state row) :
    copyLine hostname recordId state row = .inl (state.1 || (valueOf hostname row).isSome,
      state.2 ++ written (newLine hostname recordId row).toList) := by
  rw [copyLine, valueOf, newLine, entryOf]
  by_cases hempty : (streamLine row).isEmpty = true
  · simp [hempty, written]
  · rw [if_neg hempty, if_neg hempty]
    simp only [bind_some]
    split_ifs <;> simp [written]

/-- The whole copy. -/
theorem overRows_copyLine (hostname : Str) (recordId : ℕ) (ends : Bool) : ∀ rows state,
      overRows (copyLine hostname recordId) state rows ends =
        if ends then some (.inl (state.1 || (findValue hostname rows).isSome,
          state.2 ++ written (rows.filterMap (newLine hostname recordId)))) else none
  | [], state => by
    cases ends
    · rfl
    · simp [overRows, findValue, written]
  | row :: rows, state => by
    rw [overRows, copyLine_eq]
    refine (overRows_copyLine hostname recordId ends rows _).trans ?_
    rw [findValue, findValue, findSome?_cons, filterMap_cons]
    cases valueOf hostname row <;> cases newLine hostname recordId row <;>
      simp [written]

/-- **Saving a new id in a file.** -/
theorem saves_iff (content : Str) {obj} (hmodified : obj.modified = true) (file : Option Str) :
    Saves (some content) obj file ↔ (rowsOf content).2 = true ∧
      file = some (written (newLines obj.hostname obj.recordId (rowsOf content).1)) := by
  have hbody (state) : copyLine obj.hostname obj.recordId state [] = .inl state := by
    rw [copyLine_eq]
    simp [valueOf, newLine, entryOf, streamLine_nil, written]
  have hsaves : Saves (some content) obj file ↔ ∃ out : Bool × Str,
      overRows (copyLine obj.hostname obj.recordId) (false, []) (rowsOf content).1
          (rowsOf content).2 = some (.inl out) ∧
        file = some (if out.1 then out.2 else out.2 ++ entry obj.hostname obj.recordId ++ [10]) := by
    simp only [rowsOf, ← ends_iff hbody, Ends, Saves, saveLatestRecordId, if_pos hmodified,
      copyWithReplace, map_eq_some_iff, bind_eq_some_iff]
    constructor
    · rintro ⟨fuel, obj', _, ⟨out | ⟨⟨⟩⟩, hloop, ⟨⟩⟩, ⟨⟩⟩
      exact ⟨out, ⟨fuel, hloop⟩, rfl⟩
    · rintro ⟨out, ⟨fuel, hloop⟩, rfl⟩
      exact ⟨fuel, _, _, ⟨_, hloop, rfl⟩, rfl⟩
  rw [hsaves, overRows_copyLine, newLines]
  cases (rowsOf content).2 with
  | false => simp
  | true => cases (findValue obj.hostname (rowsOf content).1).isSome <;> simp [written]

/-! ## 5. Names of hosts -/

/-- A name that is not empty, without `=` and without blanks around it. -/
structure HostName (hostname : Str) : Prop where
  ne_nil : hostname ≠ []
  equals_notMem : 61 ∉ hostname
  zero_notMem : 0 ∉ hostname
  trimmed : Trimmed hostname

instance (hostname : Str) : Decidable (HostName hostname) :=
  decidable_of_iff (hostname ≠ [] ∧ 61 ∉ hostname ∧ 0 ∉ hostname ∧ strTrim hostname = hostname)
    ⟨fun ⟨hne, hequals, hzero, htrim⟩ => ⟨hne, hequals, hzero, htrim ▸ strTrim_trimmed hostname⟩,
      fun h => ⟨h.ne_nil, h.equals_notMem, h.zero_notMem, h.trimmed.eq⟩⟩

theorem trimmed_decimal (n : ℕ) : Trimmed (decimal n) := by
  have hblank : ∀ c ∈ decimal n, isBlank c = false := by
    intro c hc
    have hdigit := isDigit_iff.mp (isDigit_of_mem_decimal hc)
    rw [Bool.eq_false_iff]
    intro hblank
    simp only [isBlank, contains_iff_mem, mem_cons, not_mem_nil, or_false] at hblank
    rcases hblank with rfl | rfl | rfl | rfl | rfl | rfl <;> exact absurd hdigit (by decide)
  exact ⟨fun c hc => hblank c (mem_of_head? hc), fun c hc => hblank c (mem_of_getLast? hc)⟩

theorem notMem_decimal {c} (hc : isDigit c = false) (n : ℕ) : c ∉ decimal n := fun hmem =>
  Bool.eq_false_iff.mp hc (isDigit_of_mem_decimal hmem)

theorem entryOf_entry (h : HostName hostname) (n : ℕ) :
    entryOf (entry hostname n) = some (hostname, decimal n) :=
  entryOf_line h.trimmed h.ne_nil h.equals_notMem h.zero_notMem (trimmed_decimal n)
    (decimal_ne_nil n) (notMem_decimal (by decide) n)

/-- **The id that is written is read back.** -/
theorem recordIdOfStr_decimal {n} (h : n < 2 ^ 16) : recordIdOfStr (decimal n) = some n := by
  have hdigits : ∀ c ∈ decimal n, isDigit c = true := fun c hc => isDigit_of_mem_decimal hc
  obtain ⟨c, digits, hcons⟩ := exists_cons_of_ne_nil (decimal_ne_nil n)
  have hany : (decimal n).any isDigit = true :=
    any_eq_true.mpr ⟨c, by simp [hcons], hdigits c (by simp [hcons])⟩
  have hdrop : ((decimal n).dropWhile fun c => !isDigit c) = decimal n := by
    rw [hcons, dropWhile_cons_of_neg (by simp [hdigits c (by simp [hcons])])]
  have hrdrop : ((decimal n).rdropWhile fun c => !isDigit c) = decimal n := by
    rw [rdropWhile_eq_self_iff]
    intro hne
    simp [hdigits _ (getLast_mem hne)]
  have hstrtol : strtol (decimal n ++ []) = ((value (decimal n) : ℤ), false, []) :=
    strtol_digits (decimal_ne_nil n) hdigits (by simp) (by rw [value_decimal, longMax]; omega)
  rw [List.append_nil, value_decimal] at hstrtol
  rw [recordIdOfStr, if_pos hany]
  simp only [hdrop, hrdrop, hstrtol]
  rw [Int.emod_eq_of_lt (by omega) (by exact_mod_cast h), Int.toNat_natCast]

/-! ## 6. What saving does to the entries -/

section Entries

variable {hostname other row line : Str} {recordId : ℕ}

/-- An entry that is copied is the same entry. -/
theorem entryOf_copied {name val} (h : entryOf row = some (name, val)) (hne : name ≠ [])
    (hne' : val ≠ []) : entryOf (name ++ 61 :: val) = some (name, val) := by
  have hsides := sides_of_entryOf h
  have hsub := hsides.name_sublist.resolve_right hne
  have hzero : 0 ∉ name ++ 61 :: val := fun hmem => takeWhile_ne_notMem 0 row (hsub.subset hmem)
  refine entryOf_line hsides.name_trimmed hne hsides.equals_notMem ?_ hsides.val_trimmed hne' ?_
  · exact fun hmem => hzero (mem_append_left _ hmem)
  · exact fun hmem => hzero (mem_append_right _ (mem_cons_of_mem _ hmem))

/-- **What is written for a row** says of the host the new id, and of another host what the row says,
unless that is empty. -/
theorem valueOf_newLine (h : HostName hostname) (hother : other ≠ []) (recordId : ℕ) (row : Str) :
    (newLine hostname recordId row).bind (valueOf other) =
      if other = hostname then (valueOf other row).map fun _ => decimal recordId
      else (valueOf other row).filter fun val => !val.isEmpty := by
  have hwritten : valueOf other (entry hostname recordId) =
      if hostname = other then some (decimal recordId) else none := by
    rw [valueOf, entryOf_entry h, bind_some]
  cases hentry : entryOf row with
  | none => simp [newLine, valueOf, hentry]
  | some e =>
    obtain ⟨name, val⟩ := e
    have hvalue : valueOf other row = if name = other then some val else none := by
      rw [valueOf, hentry, bind_some]
    rw [newLine, hentry, bind_some, hvalue]
    by_cases hname : name = hostname
    · subst hname
      rw [if_pos rfl, bind_some, hwritten]
      by_cases heq : name = other <;> simp [heq]
    · rw [if_neg hname]
      by_cases hne : name ≠ [] ∧ val ≠ []
      · have hcopied := entryOf_copied hentry hne.1 hne.2
        rw [if_pos (by simp [hne]), bind_some, valueOf, hcopied, bind_some]
        by_cases heq : name = other <;> simp_all [Option.filter]
      · by_cases heq : name = other <;> simp_all [Option.filter]

variable {rows : List Str}

theorem findValue_eq_head? (hostname rows) :
    findValue hostname rows = (rows.filterMap (valueOf hostname)).head? :=
  head?_filterMap.symm

/-- **The host has the new id.** -/
theorem findValue_newLines (h : HostName hostname) (recordId : ℕ) (rows : List Str) :
    findValue hostname (newLines hostname recordId rows) = some (decimal recordId) := by
  have hcopied : (rows.filterMap (newLine hostname recordId)).filterMap (valueOf hostname) =
      (rows.filterMap (valueOf hostname)).map fun _ => decimal recordId := by
    rw [filterMap_filterMap, map_filterMap]
    exact filterMap_congr fun row _ =>
      (valueOf_newLine h h.ne_nil recordId row).trans (if_pos rfl)
  rw [findValue_eq_head?, newLines, filterMap_append, hcopied, head?_append, head?_map,
    ← findValue_eq_head?]
  cases findValue hostname rows with
  | some val => rfl
  | none => simp [valueOf, entryOf_entry h]

/-- **Another host has the id it had**, if its value is not empty. -/
theorem findValue_newLines_of_ne (h : HostName hostname) (hother : other ≠ [])
    (hne : other ≠ hostname) (recordId : ℕ) (hrows : findValue other rows ≠ some []) :
    findValue other (newLines hostname recordId rows) = findValue other rows := by
  have hcopied : (rows.filterMap (newLine hostname recordId)).filterMap (valueOf other) =
      (rows.filterMap (valueOf other)).filter fun val => !val.isEmpty := by
    rw [filterMap_filterMap, filter_filterMap]
    exact filterMap_congr fun row _ =>
      (valueOf_newLine h hother recordId row).trans (if_neg hne)
  have hnew : valueOf other (entry hostname recordId) = none := by
    rw [valueOf, entryOf_entry h, bind_some, if_neg (Ne.symm hne)]
  have hlast : (if (findValue hostname rows).isSome then []
      else [entry hostname recordId]).filterMap (valueOf other) = [] := by
    split <;> simp [hnew]
  rw [findValue_eq_head?] at hrows
  rw [findValue_eq_head?, newLines, filterMap_append, hcopied, hlast, List.append_nil,
    findValue_eq_head? other]
  cases hvalues : rows.filterMap (valueOf other) with
  | nil => rfl
  | cons val vals =>
    rw [hvalues] at hrows
    have hval : val ≠ [] := by simpa using hrows
    simp [hval]

/-! ## 7. The file that is written -/

theorem length_entry (hostname recordId) :
    (entry hostname recordId).length = hostname.length + width recordId + 1 := by
  rw [entry, length_append, length_cons, decimal, length_pad, Nat.add_assoc]

/-- A new line is the new entry, or a part of a row. -/
theorem mem_newLines (h : line ∈ newLines hostname recordId rows) :
    line = entry hostname recordId ∨ ∃ row ∈ rows, line.Sublist row := by
  rw [newLines, mem_append, mem_filterMap] at h
  rcases h with ⟨row, hrow, hline⟩ | hline
  · obtain ⟨⟨name, val⟩, hentry, hline⟩ := bind_eq_some_iff.mp hline
    split_ifs at hline with hname hne
    · exact .inl (some.inj hline).symm
    · cases hline
      have hnil : name ≠ [] := by simpa using (Bool.and_eq_true_iff.mp hne).1
      have hsub := (sides_of_entryOf hentry).name_sublist.resolve_right hnil
      exact .inr ⟨row, hrow, hsub.trans (takeWhile_sublist _)⟩
  · split at hline
    · cases hline
    · exact .inl (List.mem_singleton.mp hline)

/-- The rows of the file that is written: the new lines, and an empty one. -/
theorem splitOn_written (hhost : 10 ∉ hostname) (hrows : ∀ row ∈ rows, 10 ∉ row) :
    (written (newLines hostname recordId rows)).splitOn 10 =
      newLines hostname recordId rows ++ [[]] := by
  refine splitOn_flatMap fun line hline => ?_
  rcases mem_newLines hline with rfl | ⟨row, hrow, hsub⟩
  · simp [entry, hhost, notMem_decimal (c := 10) (by decide)]
  · exact fun hmem => hrows row hrow (hsub.subset hmem)

theorem rowsOf_written (hhost : 10 ∉ hostname) (hrows : ∀ row ∈ rows, 10 ∉ row)
    (hentry : (entry hostname recordId).length < maxLineSize - 1)
    (hshort : ∀ row ∈ rows, row.length < maxLineSize - 1) :
    rowsOf (written (newLines hostname recordId rows)) =
      (newLines hostname recordId rows ++ [[]], true) := by
  rw [rowsOf, splitOn_written hhost hrows]
  refine rows_eq_of_fits fun line hline => ?_
  rcases mem_append.mp hline with hline | hline
  · rcases mem_newLines hline with rfl | ⟨row, hrow, hsub⟩
    · exact hentry
    · exact lt_of_le_of_lt hsub.length_le (hshort row hrow)
  · obtain rfl := List.mem_singleton.mp hline
    decide

end Entries

/-! ## 8. A map -/

/-- **The file acts as a map**: for every new id, loading and saving end; then the host has the new
id, and every other host has the id it had. -/
def ActsAsMap (content hostname : Str) : Prop :=
  ∀ recordId < 2 ^ 16, ∃ obj, Loads (some content) hostname obj ∧
    ∃ file, Saves (some content) (obj.setRecordId recordId) file ∧ Yields file hostname recordId ∧
      ∀ other, HostName other → other ≠ hostname →
        ∀ id, Yields (some content) other id → Yields file other id

/-- The conditions on the file and on the host. -/
structure Tidy (content hostname : Str) : Prop where
  short : ∀ line ∈ content.splitOn 10, line.length ≤ 78
  digit : ∀ val, findValue hostname (content.splitOn 10) = some val → val.any isDigit = true
  newline_notMem : 10 ∉ hostname
  length_le : hostname.length ≤ 72

theorem any_isDigit_of_recordIdOfStr {recordId} (h : recordIdOfStr val = some recordId) :
    val.any isDigit = true := by
  rw [recordIdOfStr] at h
  split at h
  · assumption
  · cases h

section Map

variable {content hostname : Str}

theorem rowsOf_eq (h : ∀ line ∈ content.splitOn 10, line.length ≤ 78) :
    rowsOf content = (content.splitOn 10, true) :=
  rows_eq_of_fits fun line hline => Nat.lt_succ_of_le (h line hline)

/-- An empty row, such as the one behind the last newline, is no entry. -/
theorem findValue_append_nil (name : Str) (lines : List Str) :
    findValue name (lines ++ [[]]) = findValue name lines := by
  have hnil : valueOf name [] = none := rfl
  rw [findValue, findSome?_append, findSome?_singleton, hnil, or_none, findValue]

/-- There is no file yet, or a tidy one; and a fresh load yields the id. -/
def Keeps (file : Option Str) (hostname : Str) (recordId : ℕ) : Prop :=
  Yields file hostname recordId ∧ ∀ content, file = some content → Tidy content hostname

variable {recordId : ℕ} {val : Str}

theorem length_entry_lt (hlength : hostname.length ≤ 72) (hid : recordId < 2 ^ 16) :
    (entry hostname recordId).length < maxLineSize - 1 := by
  have hwidth : width recordId ≤ 5 := width_le (by omega) (by omega)
  rw [length_entry, maxLineSize]
  omega

/-- **The file that is written** is tidy, and has the new id. -/
theorem keeps_written (hhost : HostName hostname) (hnewline : 10 ∉ hostname)
    (hlength : hostname.length ≤ 72) (hid : recordId < 2 ^ 16) {rows}
    (hrows : ∀ row ∈ rows, 10 ∉ row) (hshort : ∀ row ∈ rows, row.length < maxLineSize - 1) :
    Keeps (some (written (newLines hostname recordId rows))) hostname recordId := by
  have hwritten := rowsOf_written hnewline hrows (length_entry_lt hlength hid) hshort
  have hfind : findValue hostname (newLines hostname recordId rows ++ [[]]) =
      some (decimal recordId) := by
    rw [findValue_append_nil, findValue_newLines hhost]
  constructor
  · rw [yields_iff, hwritten]
    exact .inl ⟨decimal recordId, hfind, recordIdOfStr_decimal hid⟩
  · rintro content ⟨⟩
    have hfits := fits_of_rows (congrArg Prod.snd hwritten)
    refine ⟨fun line hline => Nat.le_of_lt_succ (hfits line hline), ?_, hnewline, hlength⟩
    intro val hval
    rw [splitOn_written hnewline hrows, hfind] at hval
    cases hval
    exact any_isDigit_of_recordIdOfStr (recordIdOfStr_decimal hid)

/-- **In a tidy file all goes well.** -/
theorem actsAsMap_of_tidy (hhost : HostName hostname) (h : Tidy content hostname) :
    ActsAsMap content hostname := by
  intro recordId hid
  have hrows := rowsOf_eq h.short
  -- loading ends
  obtain ⟨loaded, hloaded⟩ : ∃ loaded, Found (rowsOf content) hostname loaded := by
    rw [hrows]
    cases hfind : findValue hostname (content.splitOn 10) with
    | none => exact ⟨0, .inr ⟨hfind, rfl, rfl⟩⟩
    | some val => exact ⟨_, .inl ⟨val, hfind, if_pos (h.digit val hfind)⟩⟩
  refine ⟨⟨hostname, loaded, false⟩, (loads_iff _ _ _).mpr ⟨loaded, rfl, hloaded⟩, ?_⟩
  by_cases hsame : recordId = loaded
  · -- nothing is saved
    subst hsame
    exact ⟨some content, ⟨0, _, by simp [setRecordId, saveLatestRecordId]; rfl⟩,
      (yields_iff _ _ _).mpr hloaded, fun _ _ _ _ hyields => hyields⟩
  · have hset : setRecordId recordId ⟨hostname, loaded, false⟩ = ⟨hostname, recordId, true⟩ := by
      rw [setRecordId, if_pos hsame]
    have hnewline : ∀ row ∈ content.splitOn 10, 10 ∉ row := fun row hrow =>
      not_mem_of_mem_splitOn hrow
    have hshort : ∀ row ∈ content.splitOn 10, row.length < maxLineSize - 1 := fun row hrow =>
      Nat.lt_succ_of_le (h.short row hrow)
    refine ⟨some (written (newLines hostname recordId (content.splitOn 10))), ?_,
      (keeps_written hhost h.newline_notMem h.length_le hid hnewline hshort).1, ?_⟩
    · rw [hset, saves_iff _ rfl, hrows]
      exact ⟨rfl, rfl⟩
    · intro other hother hne id hyields
      rw [yields_iff, hrows] at hyields
      rw [yields_iff, rowsOf_written h.newline_notMem hnewline (length_entry_lt h.length_le hid)
        hshort]
      have hvalue : findValue other (content.splitOn 10) ≠ some [] := by
        intro hnil
        rcases hyields with ⟨val, hval, hid⟩ | ⟨hnone, -⟩
        · obtain rfl := some.inj (hnil.symm.trans hval)
          cases hid
        · rw [hnone] at hnil
          cases hnil
      have hkept := findValue_newLines_of_ne hhost hother.ne_nil hne recordId hvalue
      rcases hyields with ⟨val, hval, hid⟩ | ⟨hnone, -, rfl⟩
      · exact .inl ⟨val, by rw [findValue_append_nil, hkept, hval], hid⟩
      · exact .inr ⟨by rw [findValue_append_nil, hkept, hnone], rfl, rfl⟩

/-! ## 9. What is loaded behind a save

Whether a call returns is left open here: a line that is too long keeps loading and saving from
ending, but it never makes them end with a wrong id. -/

theorem Found.unique {rows id id'} (h : Found rows hostname id) (h' : Found rows hostname id') :
    id = id' := by
  rcases h with ⟨val, hval, hid⟩ | ⟨hnone, -, rfl⟩ <;>
    rcases h' with ⟨val', hval', hid'⟩ | ⟨hnone', -, rfl⟩
  · obtain rfl := some.inj (hval.symm.trans hval')
    exact some.inj (hid.symm.trans hid')
  · rw [hnone'] at hval
    cases hval
  · rw [hnone] at hval'
    cases hval'
  · rfl

/-- Two loads of one file load the same. -/
theorem Loads.unique {file obj obj'} (h : Loads file hostname obj) (h' : Loads file hostname obj') :
    obj = obj' := by
  cases file with
  | none =>
    obtain ⟨_, ⟨⟩⟩ := h
    obtain ⟨_, ⟨⟩⟩ := h'
    rfl
  | some content =>
    obtain ⟨recordId, rfl, hfound⟩ := (loads_iff content hostname obj).mp h
    obtain ⟨recordId', rfl, hfound'⟩ := (loads_iff content hostname obj').mp h'
    rw [hfound.unique hfound']

/-- **The line of a host is read back**: the name can be told from the id, and all of the line fits in
the buffer. -/
structure Recordable (hostname : Str) (recordId : ℕ) : Prop where
  host : HostName hostname
  newline_notMem : 10 ∉ hostname
  fits : (entry hostname recordId).length ≤ 78

instance (hostname : Str) (recordId : ℕ) : Decidable (Recordable hostname recordId) :=
  decidable_of_iff
    (HostName hostname ∧ 10 ∉ hostname ∧ (entry hostname recordId).length ≤ 78)
    ⟨fun ⟨hhost, hnewline, hfits⟩ => ⟨hhost, hnewline, hfits⟩,
      fun h => ⟨h.host, h.newline_notMem, h.fits⟩⟩

theorem recordId_setRecordId (recordId : ℕ) (obj : PersistSelRecordId) :
    (obj.setRecordId recordId).recordId = recordId := by
  rw [setRecordId]
  split
  · rfl
  · next h => exact (not_not.mp h).symm

/-- What is loaded is of the host, and not changed. -/
theorem Loads.eq {file obj} (h : Loads file hostname obj) : obj = ⟨hostname, obj.recordId, false⟩ := by
  cases file with
  | none =>
    obtain ⟨_, ⟨⟩⟩ := h
    rfl
  | some content =>
    obtain ⟨recordId, rfl, -⟩ := (loads_iff content hostname obj).mp h
    rfl

/-- What is loaded from a file that was written. -/
theorem recordId_of_loads_written (h : Recordable hostname recordId) (hid : recordId < 2 ^ 16) {rows}
    (hrows : ∀ row ∈ rows, 10 ∉ row) (hshort : ∀ row ∈ rows, row.length < maxLineSize - 1) {obj}
    (hload : Loads (some (written (newLines hostname recordId rows))) hostname obj) :
    obj.recordId = recordId := by
  obtain ⟨loaded, rfl, hfound⟩ := (loads_iff _ _ _).mp hload
  rw [rowsOf_written h.newline_notMem hrows (Nat.lt_succ_of_le h.fits) hshort] at hfound
  refine hfound.unique (.inl ⟨decimal recordId, ?_, recordIdOfStr_decimal hid⟩)
  rw [findValue_append_nil, findValue_newLines h.host]

/-- **A save is seen by every load behind it.**  An object that was loaded is given an id and saves
it: then that id is loaded. -/
theorem recordId_of_loads_of_saves (hid : recordId < 2 ^ 16) {file obj file' obj'}
    (h : (obj.setRecordId recordId).modified = true → Recordable hostname recordId)
    (hload : Loads file hostname obj)
    (hsave : Saves file (obj.setRecordId recordId) file') (hload' : Loads file' hostname obj') :
    obj'.recordId = recordId := by
  by_cases hsame : recordId = obj.recordId
  · -- nothing is written, and what was loaded is loaded again
    obtain ⟨fuel, saved, hsave⟩ := hsave
    rw [setRecordId, if_neg (not_not.mpr hsame), hload.eq] at hsave
    cases hsave
    rw [hload'.unique hload, hsame]
  · have hset : obj.setRecordId recordId = ⟨hostname, recordId, true⟩ := by
      rw [setRecordId, if_pos hsame, hload.eq]
    rw [hset] at h hsave
    specialize h rfl
    cases file with
    | none =>
      obtain ⟨fuel, saved, ⟨⟩⟩ := hsave
      have hwritten : Loads (some (written (newLines hostname recordId []))) hostname obj' := by
        simpa [written, newLines, findValue] using hload'
      exact recordId_of_loads_written h hid (by simp) (by simp) hwritten
    | some content =>
      obtain ⟨hend, rfl⟩ := (saves_iff _ rfl _).mp hsave
      have hshort := fits_of_rows hend
      rw [rowsOf, rows_eq_of_fits hshort] at hload'
      exact recordId_of_loads_written h hid (fun row hrow => not_mem_of_mem_splitOn hrow) hshort hload'

/-! ## 10. The conditions are needed -/

/-- An id that is not 0 comes from a row of the host. -/
theorem Found.exists_row {rows id} (h : Found rows hostname id) (hid : id ≠ 0) :
    ∃ row ∈ rows.1, ∃ val, entryOf row = some (hostname, val) ∧ recordIdOfStr val = some id := by
  rcases h with ⟨val, hval, hid⟩ | ⟨-, -, rfl⟩
  · obtain ⟨row, hrow, hvalue⟩ := exists_of_findSome?_eq_some hval
    obtain ⟨⟨name, val'⟩, hentry, hname⟩ := bind_eq_some_iff.mp hvalue
    split at hname
    · next hsame =>
      obtain rfl := some.inj hname
      exact ⟨row, hrow, val', hsame ▸ hentry, hid⟩
    · cases hname
  · exact absurd rfl hid

/-- One of two ids is new, and so it is saved. -/
theorem ActsAsMap.exists_saved (h : ActsAsMap content hostname) {a b} (ha : a < 2 ^ 16)
    (hb : b < 2 ^ 16) (hab : a ≠ b) :
    ∃ recordId, (recordId = a ∨ recordId = b) ∧ (rowsOf content).2 = true ∧
      Yields (some (written (newLines hostname recordId (rowsOf content).1))) hostname recordId := by
  obtain ⟨obj, hload, -⟩ := h a ha
  obtain ⟨loaded, -, hfound⟩ := (loads_iff _ _ _).mp hload
  obtain ⟨recordId, hrecordId, hid, hne⟩ : ∃ recordId, (recordId = a ∨ recordId = b) ∧
      recordId < 2 ^ 16 ∧ recordId ≠ loaded := by
    by_cases hloaded : a = loaded
    · exact ⟨b, .inr rfl, hb, fun heq => hab (hloaded.trans heq.symm)⟩
    · exact ⟨a, .inl rfl, ha, hloaded⟩
  obtain ⟨obj', hload', file, hsaves, hyields, -⟩ := h recordId hid
  obtain ⟨loaded', rfl, hfound'⟩ := (loads_iff _ _ _).mp hload'
  obtain rfl := hfound.unique hfound'
  rw [setRecordId, if_pos hne, saves_iff _ rfl] at hsaves
  obtain ⟨hend, rfl⟩ := hsaves
  exact ⟨recordId, hrecordId, hend, hyields⟩

/-- A name that is found in a row of a file has no newline. -/
theorem newline_notMem_of_entryOf {row} (hne : hostname ≠ []) (hrow : row ∈ (rowsOf content).1)
    (h : entryOf row = some (hostname, val)) : 10 ∉ hostname := by
  obtain ⟨line, hline, rfl⟩ := exists_line_of_mem_rows hrow
  have hsub := (sides_of_entryOf h).name_sublist.resolve_right hne
  intro hmem
  exact not_mem_of_mem_splitOn hline ((take_sublist _ _).subset
    ((takeWhile_sublist _).subset (hsub.subset (mem_append_left _ hmem))))

/-- The text from the first to the last digit begins with a digit. -/
theorem exists_digit_cons (h : val.any isDigit = true) :
    ∃ c number, isDigit c = true ∧ ((val.dropWhile fun c => !isDigit c).rdropWhile
      fun c => !isDigit c) = c :: number := by
  have hne : val.dropWhile (fun c => !isDigit c) ≠ [] := by
    intro hnil
    rw [dropWhile_eq_nil_iff] at hnil
    obtain ⟨c, hc, hdigit⟩ := any_eq_true.mp h
    simpa [hdigit] using hnil c hc
  obtain ⟨c, tail, htail⟩ := exists_cons_of_ne_nil hne
  have hc : isDigit c = true := by
    have := head?_dropWhile_not (fun c => !isDigit c) val
    rw [htail] at this
    simpa using this
  have hnil : (c :: tail).rdropWhile (fun c => !isDigit c) ≠ [] := by
    rw [ne_eq, rdropWhile_eq_nil_iff]
    intro hall
    simpa [hc] using hall c mem_cons_self
  obtain ⟨c', number, hnumber⟩ := exists_cons_of_ne_nil hnil
  obtain ⟨rest, hrest⟩ := List.rdropWhile_prefix (fun c => !isDigit c) (c :: tail)
  rw [hnumber] at hrest
  obtain rfl := (List.cons.inj hrest).1
  exact ⟨c', number, hc, by rw [htail, hnumber]⟩

/-- A short value has a small id. -/
theorem recordIdOfStr_lt (h : recordIdOfStr val = some recordId) : recordId < 10 ^ val.length := by
  have hany := any_isDigit_of_recordIdOfStr h
  obtain ⟨c, number, hc, hnumber⟩ := exists_digit_cons hany
  rw [recordIdOfStr, if_pos hany, some.injEq] at h
  simp only [hnumber] at h
  -- the leading digits are read
  obtain ⟨digits, hdigits⟩ : ∃ digits, digits = (c :: number).takeWhile isDigit := ⟨_, rfl⟩
  have hall : ∀ c' ∈ digits, isDigit c' = true := fun c' hc' =>
    mem_takeWhile_imp (hdigits ▸ hc')
  have hstop : ∀ c', ((c :: number).dropWhile isDigit).head? = some c' → isDigit c' = false := by
    intro c' hc'
    have := head?_dropWhile_not isDigit (c :: number)
    rwa [hc'] at this
  have hstrtol := strtol_run (by simp [hdigits, hc]) hall hstop
  rw [hdigits, takeWhile_append_dropWhile, ← hdigits] at hstrtol
  have hsub : (c :: number).Sublist val :=
    hnumber ▸ (List.rdropWhile_prefix _ _).sublist.trans (dropWhile_sublist _)
  have hlength : digits.length ≤ val.length :=
    (hdigits ▸ (takeWhile_sublist _).trans hsub : digits.Sublist val).length_le
  have hpow : 10 ^ digits.length ≤ 10 ^ val.length := Nat.pow_le_pow_right (by omega) hlength
  have hvalue := value_lt_pow digits hall
  rw [hstrtol] at h
  split at h <;> omega

theorem tidy_of_actsAsMap (hhost : HostName hostname) (h : ActsAsMap content hostname) :
    Tidy content hostname := by
  -- a new id of five digits is saved and read back
  obtain ⟨recordId, hrecordId, hend, hyields⟩ :=
    h.exists_saved (a := 10000) (b := 10001) (by omega) (by omega) (by omega)
  have hshort := fits_of_rows hend
  have hrows : rowsOf content = (content.splitOn 10, true) := rows_eq_of_fits hshort
  obtain ⟨row, hrow, val, hentry, hid⟩ :=
    ((yields_iff _ _ _).mp hyields).exists_row (by omega)
  have hnewline := newline_notMem_of_entryOf hhost.ne_nil hrow hentry
  refine ⟨fun line hline => Nat.le_of_lt_succ (hshort line hline), ?_, hnewline, ?_⟩
  · intro val hval
    obtain ⟨obj, hload, -⟩ := h 0 (by omega)
    obtain ⟨loaded, -, hfound⟩ := (loads_iff _ _ _).mp hload
    rw [hrows] at hfound
    rcases hfound with ⟨val', hval', hid'⟩ | ⟨hnone, -⟩
    · obtain rfl := some.inj (hval.symm.trans hval')
      exact any_isDigit_of_recordIdOfStr hid'
    · rw [hnone] at hval
      cases hval
  · -- otherwise there is no room for five digits
    by_contra hlong
    obtain ⟨line, -, rfl⟩ := exists_line_of_mem_rows hrow
    have hsub := (sides_of_entryOf hentry).name_sublist.resolve_right hhost.ne_nil
    have hlength := (hsub.trans (takeWhile_sublist _)).length_le
    rw [length_take, length_append, length_cons, maxLineSize] at hlength
    have hpow : 10 ^ val.length ≤ 10 ^ 4 := Nat.pow_le_pow_right (by omega) (by omega)
    have := recordIdOfStr_lt hid
    omega

/-- **The file acts as a map exactly when it is tidy.** -/
theorem acts_as_map_iff (hhost : HostName hostname) :
    ActsAsMap content hostname ↔ Tidy content hostname :=
  ⟨tidy_of_actsAsMap hhost, actsAsMap_of_tidy hhost⟩

end Map

theorem hostName_node1 : HostName (ofString "node1") where
  ne_nil := by decide
  equals_notMem := by decide
  zero_notMem := by decide
  trimmed := by
    constructor
    · rintro c ⟨⟩
      rfl
    · rintro c ⟨⟩
      rfl

/-- A file with two hosts. -/
theorem acts_as_map_iff_node1 : let content := ofString "node1=5\nnode2 = 7\n"
    Tidy content (ofString "node1") ∧ ActsAsMap content (ofString "node1") := by
  intro content
  have htidy : Tidy content (ofString "node1") := by
    refine ⟨by decide +kernel, fun val hval => ?_, by decide, by decide⟩
    have hfind : findValue (ofString "node1") (content.splitOn 10) = some (ofString "5") := by
      decide +kernel
    obtain rfl := some.inj (hfind.symm.trans hval)
    decide
  exact ⟨htidy, (acts_as_map_iff hostName_node1).mpr htidy⟩

/-- A line of 79 characters: loading does not end. -/
theorem long_line_never_ends : let content := List.replicate 79 120 ++ ofString "\nnode1=5\n"
    HostName (ofString "node1") ∧ (∀ obj, ¬ Loads (some content) (ofString "node1") obj) ∧
      ¬ ActsAsMap content (ofString "node1") := by
  intro content
  have hnever : ∀ obj, ¬ Loads (some content) (ofString "node1") obj := by
    intro obj hload
    obtain ⟨recordId, -, hfound⟩ := (loads_iff _ _ _).mp hload
    have hfind : findValue (ofString "node1") (rowsOf content).1 = none := by decide +kernel
    have hend : (rowsOf content).2 = false := by decide +kernel
    rcases hfound with ⟨val, hval, -⟩ | ⟨-, hend', -⟩
    · cases hval
    · cases hend'
  refine ⟨hostName_node1, hnever, fun hmap => ?_⟩
  obtain ⟨obj, hload, -⟩ := hmap 0 (by decide)
  exact hnever obj hload

end Sensys.Orcm.PersistSel
