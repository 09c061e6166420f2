/-
# Saving and loading the groups

`orcm/util/logical_group.c`: `orcm_logical_group_save_to_file` writes the table of the groups as one
section of a configuration file, and `orcm_logical_group_load_from_file` reads it back.  A group
becomes a list with its name and its members.  The members are packed into LINES, names with commas
between them, each line as long as the buffer allows; on loading, a line is a node expression like
any other and is added to the current tag.

The buffer has 1012 bytes, and a line is broken when the next name would not leave it at 1012
characters or less.  There is no room for the zero behind a line of EXACTLY 1012: the last `strncat`
writes it past the end (`none` here).  `fillsLine` says when that happens, and `persists_iff` that
it is the only thing in the way: otherwise the table that is loaded is the one that was saved.

Opening, reading, writing and closing the file are the parser's; that it returns the section last
written is a hypothesis.
-/
import Sensys.Orcm.LogicalGroupTable
import Sensys.Orcm.Workflow
import Sensys.Orte.RegexDecode

namespace Sensys.Orcm.LogicalGroup

open CString Opal Orte Worklist List TagMap
open Workflow (Items)

/-! ## 1. Saving -/

/-- `MAX_LINE_LENGTH`. -/
def maxLineLength : ℕ := 1024

/-- `MAX_LINE_LENGTH - strlen("member list=")`: the size of the buffer for a line. -/
def lineSize : ℕ := maxLineLength - (ofString "member list=").length

/-- `orcm_logical_group_do_convertion`: the lines for the members that are left, with `memberlist`
in the buffer of `reservedSize` bytes.  A line that leaves no room for its zero is written past the
end of the buffer. -/
def doConvertion (reservedSize : ℕ) : List Str → Str → Option (List Str)
  | [], _ => some []
  | member :: members, memberlist =>
    let full := decide (reservedSize < memberlist.length + member.length + 1)
    let flushed := if full then [memberlist] else []
    let memberlist := if full then [] else memberlist
    let memberlist := (if memberlist.isEmpty then [] else memberlist ++ [comma]) ++ member
    if memberlist.length < reservedSize then
      let last := if members.isEmpty && !memberlist.isEmpty then [memberlist] else []
      (doConvertion reservedSize members memberlist).map fun lines => flushed ++ last ++ lines
    else none

/-- `orcm_logical_group_convert_members_list`; the result is `NULL` for an empty list. -/
def convertMembersList (membersList : List Str) (maxSize : ℕ) : Option (Option (List Str)) :=
  if membersList.isEmpty || maxSize == 0 then some none
  else (doConvertion maxSize membersList []).map some

/-- The `members` items of a group. -/
def membersItems : List Str → Items
  | [] => .nil
  | line :: lines => .string (ofString "members") line (membersItems lines)

/-- `orcm_logical_group_save_to_file_concat`, in front of the groups that come later.  The tag is
the text of the key. -/
def saveToFileConcat (key : Str) (membersList : List Str) (later : Items) : Option Items :=
  (convertMembersList membersList lineSize).map fun
    | none => later
    | some lines =>
      .ptr (ofString "group")
        (.string (ofString "name") (key.takeWhile (· != 0)) (membersItems lines)) later

/-- The loop of `orcm_logical_group_save_to_file_internal`, from the node `inMember` on. -/
def saveLoop (groups : Groups) : ℕ → Option ℕ → Option Items
  | 0, _ => none
  | fuel + 1, inMember =>
    match groups.getNextKey inMember with
    | .error _ => some .nil
    | .ok ((k, value), outMember) =>
      (saveLoop groups fuel (some outMember)).bind (saveToFileConcat k value)

/-- `orcm_logical_group_save_to_file_internal`: the section that is written; `NULL` if there are no
groups. -/
def saveToFileInternal (groups : Groups) : Option (Option Items) :=
  if groups.getSize = 0 then some none
  else (saveLoop groups (groups.capacity + 1) none).map some

/-! ## 2. Loading -/

/-- The variables of loading: the global `current_tag`, the table, and whether `errno` is
`ERANGE`. -/
structure Loading where
  currentTag : Option Str
  groups : Groups
  erange : Bool

/-- `orcm_logical_group_process_tag_line`. -/
def processTagLine (currentTag : Option Str) (tag : Str) : Option Str :=
  if currentTag = some tag then currentTag else some tag

/-- What an expression leaves in `errno`. -/
def errnoAfter (regex : Str) (erange : Bool) : Bool :=
  ((extractNodeNames (some regex) erange).map Prod.snd).getD erange

/-- `orcm_logical_group_parsing`.  The code of the last string counts, except that a group that
fails ends it.  Adding to no tag at all reads the `NULL`. -/
def parsing : Items → Rc → Loading → Option (Rc × Loading)
  | .nil, erri, st => some (erri, st)
  | .string key string next, _, st =>
    if key = ofString "name" then
      parsing next .success { st with currentTag := processTagLine st.currentTag string }
    else if key = ofString "members" then
      st.currentTag.bind fun tag =>
        (add tag string st.groups st.erange).bind fun (erri, groups) =>
          parsing next erri
            { st with groups := groups, erange := errnoAfter string st.erange }
    else parsing next .errBadParam st
  | .ptr key list next, erri, st =>
    if key = ofString "group" then
      (parsing list .success st).bind fun (rc, st) =>
        if rc = .success then parsing next erri st else some (rc, st)
    else some (.errBadParam, st)
  | .other _ _, _, st => some (.errBadParam, st)

/-- The loop of `orcm_logical_group_parse_from_file`. -/
def parseSections : Items → Loading → Option (Rc × Loading)
  | .nil, st => some (.success, st)
  | .ptr key list next, st =>
    if key = ofString "logicalgroup" then
      (parsing list .success st).bind fun (rc, st) =>
        if rc = .success then parseSections next st else some (rc, st)
    else parseSections next st
  | .string _ _ _, st => some (.error, st)
  | .other _ _, st => some (.error, st)

/-- `orcm_logical_group_parse_from_file`, for what the parser retrieves. -/
def parseFromFile (resultList : Option Items) (st : Loading) : Option (Rc × Loading) :=
  match resultList with
  | none => some (.errNotFound, st)
  | some resultList => parseSections resultList st

/-- `orcm_logical_group_load_from_file`: a file without groups is no error. -/
def loadFromFile (resultList : Option Items) (st : Loading) : Option (Rc × Loading) :=
  (parseFromFile resultList st).map fun (erri, st) =>
    (if erri = .errNotFound then .success else erri, st)

/-! ## 3. When a line is full -/

/-- Names of these lengths, packed behind `current` characters into lines of at most `lineSize`
characters, make a line of exactly `lineSize`. -/
def fillsLine : ℕ → List ℕ → Bool
  | _, [] => false
  | current, n :: lengths =>
    let line :=
      if lineSize < current + n + 1 then n
      else if current = 0 then n
      else current + 1 + n
    line == lineSize || fillsLine line lengths

/-- A character of a name: a letter, a digit, `-`, `_` or `.`. -/
def isNameChar (c : UInt8) : Bool := isAlpha c || isDigit c || c == 45 || c == 95 || c == 46

/-- A name that can be saved. -/
structure PlainName (name : Str) : Prop where
  ne_nil : name ≠ []
  chars : ∀ c ∈ name, isNameChar c = true
  short : name.length < 500

/-- **The tables that can be saved**: tags that are C strings and not empty, with members that have
plain names. -/
structure Savable (G : TagMap) : Prop where
  tag_ne_nil : ∀ tag l, G.members tag = some l → tag ≠ []
  tag_cstring : ∀ tag l, G.members tag = some l → 0 ∉ tag
  ne_nil : ∀ tag l, G.members tag = some l → l ≠ []
  plain : ∀ tag l, G.members tag = some l → ∀ name ∈ l, PlainName name

variable {c : UInt8} {name member memberlist tag : Str} {size : ℕ} {groups : Groups} {G : TagMap}

theorem endsBase_of_isNameChar (h : isNameChar c = true) : endsBase c = false := by
  cases hends : endsBase c with
  | false => rfl
  | true =>
    simp only [endsBase, Bool.or_eq_true, beq_iff_eq] at hends
    rcases hends with (rfl | rfl) | rfl <;> exact absurd h (by decide)

theorem PlainName.good (h : PlainName name) : (NodeSpec.plain name).WellFormed :=
  ⟨h.ne_nil, fun c hc => endsBase_of_isNameChar (h.chars c hc)⟩

theorem PlainName.comma_notMem (h : PlainName name) : comma ∉ name := fun hmem =>
  absurd (h.chars comma hmem) (by decide)

/-- The line of some names. -/
def lineOf (names : List Str) : Str := [comma].intercalate names

/-- Names of these lengths, packed behind `current` characters, make a line that leaves no room for
its zero in `size` bytes. -/
def overruns (size : ℕ) : ℕ → List ℕ → Bool
  | _, [] => false
  | current, n :: lengths =>
    let line := if size < current + n + 1 ∨ current = 0 then n else current + 1 + n
    decide (size ≤ line) || overruns size line lengths

/-- The names on a line; an empty line has none. -/
def onLine (line : Str) : List Str := if line = [] then [] else pieces line

/-- A member is put on the line, or the line is put out and the next one begun. -/
def putOn (size : ℕ) (memberlist member : Str) : List Str × Str :=
  if size < memberlist.length + member.length + 1 then ([memberlist], member)
  else ([], (if memberlist.isEmpty then [] else memberlist ++ [comma]) ++ member)

theorem doConvertion_cons (member : Str) (members : List Str) (memberlist : Str) :
    doConvertion size (member :: members) memberlist =
      let (out, line) := putOn size memberlist member
      if line.length < size then
        (doConvertion size members line).map fun lines =>
          out ++ (if members.isEmpty && !line.isEmpty then [line] else []) ++ lines
      else none := by
  by_cases hfull : size < memberlist.length + member.length + 1 <;>
    simp [doConvertion, putOn, hfull]

theorem length_putOn : (putOn size memberlist member).2.length =
    if size < memberlist.length + member.length + 1 ∨ memberlist.length = 0 then member.length
    else memberlist.length + 1 + member.length := by
  unfold putOn
  by_cases hfull : size < memberlist.length + member.length + 1
  · simp [hfull]
  · rw [if_neg hfull]
    by_cases hnil : memberlist = []
    · simp [hnil]
    · simp [hfull, hnil]
      omega

theorem onLine_putOn (size : ℕ) (memberlist : Str) (hmember : member ≠ [] ∧ comma ∉ member) :
    (putOn size memberlist member).1.flatMap onLine ++ onLine (putOn size memberlist member).2 =
      onLine memberlist ++ [member] := by
  have hone : pieces member = [member] := by
    have h : pieces ([comma].intercalate [member]) = [member] :=
      splitOn_intercalate comma (by simpa using hmember.2) (by simp)
    rwa [intercalate_singleton] at h
  have hjoin : pieces (memberlist ++ comma :: member) = pieces memberlist ++ pieces member :=
    splitOn_append_cons_self memberlist member
  unfold putOn
  split
  · simp [onLine, hmember.1, hone]
  · by_cases hnil : memberlist = []
    · simp [onLine, hnil, hmember.1, hone]
    · simp [onLine, hnil, hjoin, hone]

/-- The lines are neither empty nor too long, and hold the names. -/
structure Packed (size : ℕ) (names lines : List Str) : Prop where
  line : ∀ line ∈ lines, line ≠ [] ∧ line.length < size
  names : lines.flatMap onLine = names

/-- **The packing.**  The lines hold the members in their order, unless one overruns the buffer. -/
theorem doConvertion_spec : ∀ members memberlist,
    (∀ name ∈ members, name ≠ [] ∧ comma ∉ name) → members ≠ [] → memberlist.length < size →
    (overruns size memberlist.length (members.map length) = true ∧
      doConvertion size members memberlist = none) ∨
    (overruns size memberlist.length (members.map length) = false ∧
      ∃ lines, doConvertion size members memberlist = some lines ∧
        Packed size (onLine memberlist ++ members) lines)
  | [], _, _, hne, _ => absurd rfl hne
  | member :: members, memberlist, hmembers, _, hlt => by
    obtain ⟨hmember, hmembers⟩ := forall_mem_cons.mp hmembers
    have hnames := onLine_putOn size memberlist hmember
    have hout : (putOn size memberlist member).2.length < size →
        ∀ line ∈ (putOn size memberlist member).1, line ≠ [] ∧ line.length < size := by
      unfold putOn
      split
      · rename_i hfull
        intro hline
        simp only [List.mem_singleton, forall_eq]
        refine ⟨?_, hlt⟩
        rintro rfl
        simp only [length_nil] at hfull hline
        omega
      · simp
    have hline : (putOn size memberlist member).2 ≠ [] := by
      unfold putOn
      split <;> simp [hmember.1]
    rw [map_cons, overruns, ← length_putOn, doConvertion_cons]
    generalize putOn size memberlist member = r at *
    obtain ⟨out, line⟩ := r
    dsimp only at *
    by_cases hfits : line.length < size
    · rw [if_pos hfits, decide_eq_false (by omega), Bool.false_or]
      cases members with
      | nil =>
        refine .inr ⟨rfl, out ++ [line], by simp [doConvertion, hline], ?_, ?_⟩
        · simpa [or_imp, forall_and, hline, hfits] using hout hfits
        · rw [flatMap_append, flatMap_singleton, hnames]
      | cons next members =>
        rcases doConvertion_spec (next :: members) line hmembers (by simp) hfits with
          ⟨hover, hnone⟩ | ⟨hover, lines, hlines, hpacked⟩
        · exact .inl ⟨hover, by rw [hnone]; rfl⟩
        · refine .inr ⟨hover, out ++ lines, by simp [hlines], ?_, ?_⟩
          · rw [forall_mem_append]
            exact ⟨hout hfits, hpacked.line⟩
          · rw [flatMap_append, hpacked.names, ← List.append_assoc, hnames, List.append_assoc]
            rfl
    · rw [if_neg hfits, decide_eq_true (by omega)]
      exact .inl ⟨rfl, rfl⟩

/-- **Converting is right**: it stays inside its buffer, and the strings of the list it returns are
neither empty nor too long and hold the members in their order. -/
def ConvertsRight (members : List Str) (maxSize : ℕ) : Prop :=
  ∃ result, convertMembersList members maxSize = some result ∧ ∀ lines, result = some lines →
    (∀ line ∈ lines, line ≠ [] ∧ line.length < maxSize) ∧ lines.flatMap pieces = members

theorem Packed.pieces {names lines} (h : Packed size names lines) :
    lines.flatMap pieces = names := by
  rw [← h.names]
  refine flatMap_congr fun line hline => ?_
  rw [onLine, if_neg (h.line line hline).1]

/-- **Members are converted right exactly when no line overruns the buffer.** -/
theorem convertsRight_iff {members : List Str} (hne : members ≠ [])
    (hmembers : ∀ name ∈ members, name ≠ [] ∧ comma ∉ name) {maxSize : ℕ} (hmax : 0 < maxSize) :
    ConvertsRight members maxSize ↔ overruns maxSize 0 (members.map length) = false := by
  have hconvert : convertMembersList members maxSize = (doConvertion maxSize members []).map some :=
    if_neg (by simpa [hne] using hmax.ne')
  rw [ConvertsRight, hconvert]
  rcases doConvertion_spec members [] hmembers hne hmax with
    ⟨hover, hnone⟩ | ⟨hover, lines, hlines, hpacked⟩
  · simp only [length_nil] at hover
    simp [hnone, hover]
  · simp only [length_nil] at hover
    simpa [hlines, hover] using ⟨hpacked.line, hpacked.pieces⟩

theorem convertsRight_iff_two : ConvertsRight [ofString "a", ofString "b"] 4 :=
  (convertsRight_iff (by decide) (by decide) (by decide)).mpr (by decide)

/-- A name as long as the buffer leaves no room for its zero. -/
theorem long_name_overruns : ¬ ConvertsRight [ofString "abc"] 3 := by
  rintro ⟨result, hresult, -⟩
  cases (show convertMembersList [ofString "abc"] 3 = none by decide).symm.trans hresult

/-- A line of short names is full before it is too long. -/
theorem fillsLine_eq_overruns : ∀ {lengths current}, current < lineSize →
    (∀ n ∈ lengths, n < 500) → fillsLine current lengths = overruns lineSize current lengths
  | [], _, _, _ => rfl
  | n :: lengths, current, hcurrent, hshort => by
    obtain ⟨hn, hshort⟩ := forall_mem_cons.mp hshort
    have hsize : lineSize = 1012 := by decide
    obtain ⟨line, hline⟩ : ∃ line, (if lineSize < current + n + 1 ∨ current = 0 then n
      else current + 1 + n) = line := ⟨_, rfl⟩
    have hle : line ≤ lineSize := by
      rw [← hline]
      split_ifs <;> omega
    rw [fillsLine, overruns, hline, ← ite_or, hline]
    by_cases heq : line = lineSize
    · simp [heq]
    · rw [fillsLine_eq_overruns (by omega) hshort]
      simp [heq, show ¬ lineSize ≤ line by omega]

/-! ## 4. The section that is written -/

/-- The items of these entries of the table. -/
def saveEntries : List (Str × List Str) → Option Items
  | [] => some .nil
  | (k, value) :: entries => (saveEntries entries).bind (saveToFileConcat k value)

/-- The loop goes over the whole table. -/
theorem saveLoop_table (groups : Groups) :
    saveLoop groups (groups.capacity + 1) none = saveEntries (entries groups.table) := by
  refine walk_spec groups (saveLoop groups) saveEntries ?_ ?_
  · intro fuel node rc hend
    rw [saveLoop, hend, saveEntries]
  · intro fuel node e i es hnext hrest
    rw [saveLoop, hnext, saveEntries, ← hrest]

/-- The items of a group with these lines. -/
def groupItems (tag : Str) (parts : List (List Str)) : Items :=
  .string (ofString "name") tag (membersItems (parts.map lineOf))

/-- An entry of a table that can be saved. -/
structure SavableEntry (entry : Str × List Str) : Prop where
  key : ∃ tag, entry.1 = LogicalGroup.key tag ∧ 0 ∉ tag
  ne_nil : entry.2 ≠ []
  nodup : entry.2.Nodup
  plain : ∀ name ∈ entry.2, PlainName name

theorem takeWhile_key (h : 0 ∉ tag) : (key tag).takeWhile (· != 0) = tag := by
  rw [key, takeWhile_append_of_pos]
  · simp
  · intro c hc
    simpa using fun h0 : c = 0 => h (h0 ▸ hc)

/-- **A group that is saved**: its lines hold its members, or one of them is full. -/
theorem saveToFileConcat_spec {members} (h : SavableEntry (key tag, members)) (htag : 0 ∉ tag)
    (later : Items) : (fillsLine 0 (members.map List.length) = true ∧
      saveToFileConcat (key tag) members later = none) ∨
    (fillsLine 0 (members.map List.length) = false ∧ ∃ parts : List (List Str),
      saveToFileConcat (key tag) members later =
          some (.ptr (ofString "group") (groupItems tag parts) later) ∧
        (∀ part ∈ parts, part ≠ []) ∧ parts.flatten = members) := by
  have hempty : (members.isEmpty || lineSize == 0) = false := by
    have hne : members.isEmpty = false := by simpa using h.ne_nil
    rw [hne]
    decide
  unfold saveToFileConcat convertMembersList
  rw [hempty, takeWhile_key htag]
  rw [fillsLine_eq_overruns (by decide) (by simpa using fun name hname => (h.plain name hname).short)]
  rcases doConvertion_spec members []
      (fun name hname => ⟨(h.plain name hname).ne_nil, (h.plain name hname).comma_notMem⟩) h.ne_nil
      (show 0 < lineSize by decide) with ⟨hover, hnone⟩ | ⟨hover, lines, hlines, hpacked⟩
  · exact .inl ⟨hover, by simp [hnone]⟩
  · refine .inr ⟨hover, lines.map pieces, ?_, ?_, ?_⟩
    · have hlines' : lines.map (lineOf ∘ pieces) = lines := by
        simp [lineOf, pieces, Function.comp_def, intercalate_splitOn]
      simp [hlines, groupItems, hlines']
    · simp [pieces]
    · exact hpacked.pieces

/-! ## 5. Reading a group back -/

section Read

variable {G : TagMap} {st : Loading}

/-- A line of plain names lists them. -/
theorem extractNodeNames_line {part} (hne : part ≠ []) (hplain : ∀ name ∈ part, PlainName name)
    (erange : Bool) : extractNodeNames (some (lineOf part)) erange = some (.ok part, erange) := by
  have htext : lineOf part = [comma].intercalate ((part.map NodeSpec.plain).map NodeSpec.text) := by
    rw [map_map]
    exact congrArg _ (map_id part).symm
  rw [htext, extract_specs (by simpa using hne)
    (by simpa using fun name hname => (hplain name hname).good)]
  clear htext hne hplain
  induction part with
  | nil => rfl
  | cons name part ih =>
    rw [map_cons, Parsed.each, NodeSpec.read, Parsed.andThen, ih]
    rfl

/-- The members of a tag after its lines have been added. -/
def TagMap.addParts (G : TagMap) (tag : Str) : List (List Str) → TagMap
  | [] => G
  | part :: parts => (G.add tag part).addParts tag parts

variable {tag : Str}

theorem TagMap.members_addParts_ne {t} (ht : t ≠ tag) : ∀ (parts : List (List Str))
    (G : TagMap), (G.addParts tag parts).members t = G.members t
  | [], _ => rfl
  | part :: parts, G => by
    rw [addParts, members_addParts_ne ht parts]
    exact if_neg ht

theorem TagMap.members_addParts : ∀ (parts : List (List Str)) (G : TagMap),
    ((G.members tag).getD [] ++ parts.flatten).Nodup →
    ((G.addParts tag parts).members tag).getD [] = (G.members tag).getD [] ++ parts.flatten
  | [], _, _ => (List.append_nil _).symm
  | part :: parts, G, hnodup => by
    rw [flatten_cons, ← List.append_assoc] at hnodup ⊢
    have hmembers : (G.add tag part).members tag =
        some (appendNew ((G.members tag).getD []) part) := if_pos rfl
    have hpart : ((G.add tag part).members tag).getD [] = (G.members tag).getD [] ++ part := by
      rw [hmembers, Option.getD_some, appendNew_eq,
        foldl_appendUnique_of_nodup (nodup_append.mp hnodup).1]
    rw [← hpart] at hnodup ⊢
    exact members_addParts parts _ hnodup

/-- The lines of a tag are added one after the other. -/
theorem parsing_membersItems : ∀ parts G st,
    (∀ part ∈ parts, part ≠ [] ∧ ∀ name ∈ part, PlainName name) →
    Represents st.groups G → st.currentTag = some tag →
    ∃ st' : Loading, parsing (membersItems (parts.map lineOf)) .success st = some (.success, st') ∧
      Represents st'.groups (G.addParts tag parts)
  | [], G, st, _, hrep, _ => ⟨st, rfl, hrep⟩
  | part :: parts, G, st, hparts, hrep, htag => by
    obtain ⟨hne, hplain⟩ := hparts part mem_cons_self
    obtain ⟨groups', hadd, hrep'⟩ := hrep.add tag (extractNodeNames_line hne hplain st.erange)
    obtain ⟨st', hrest, hfinal⟩ := parsing_membersItems parts (G.add tag part)
      { st with groups := groups', erange := errnoAfter (lineOf part) st.erange }
      (fun p hp => hparts p (mem_cons_of_mem _ hp)) hrep' htag
    refine ⟨st', ?_, hfinal⟩
    have hname : ofString "members" ≠ ofString "name" := by decide
    rw [htag] at hrest
    rw [map_cons, membersItems, parsing, if_neg hname, if_pos rfl, htag, Option.bind_some,
      hadd]
    exact hrest

/-- **A group is read back**: the tag gets its members, in their order. -/
theorem parsing_groupItems {parts} (hrep : Represents st.groups G)
    (hparts : ∀ part ∈ parts, part ≠ [] ∧ ∀ name ∈ part, PlainName name) (hne : parts.flatten ≠ [])
    (hnodup : parts.flatten.Nodup) (hnew : G.members tag = none) :
    ∃ (st' : Loading) (G' : TagMap), parsing (groupItems tag parts) .success st
        = some (.success, st') ∧ Represents st'.groups G' ∧
      G'.members tag = some parts.flatten ∧ ∀ t, t ≠ tag → G'.members t = G.members t := by
  have htag : processTagLine st.currentTag tag = some tag := by
    unfold processTagLine
    split
    · assumption
    · rfl
  obtain ⟨st', hrun, hrep'⟩ := parsing_membersItems parts G
    { st with currentTag := processTagLine st.currentTag tag } hparts hrep htag
  refine ⟨st', _, ?_, hrep', ?_, fun t ht => members_addParts_ne ht parts G⟩
  · exact hrun
  · have hmembers := @members_addParts tag parts G (by simpa [hnew] using hnodup)
    rw [hnew, Option.getD_none, nil_append] at hmembers
    cases hsome : (G.addParts tag parts).members tag with
    | none => exact absurd (by rw [← hmembers, hsome]; rfl) hne
    | some l => rw [← hmembers, hsome, Option.getD_some]

end Read

/-! ## 6. The whole table -/

/-- **The entries are read back**, whatever tags were there before. -/
theorem saveEntries_spec : ∀ es, (∀ entry ∈ es, SavableEntry entry) →
    (es.map Prod.fst).Nodup →
    ((∃ entry ∈ es, fillsLine 0 (entry.2.map List.length) = true) ∧ saveEntries es = none) ∨
    ((∀ entry ∈ es, fillsLine 0 (entry.2.map List.length) = false) ∧ ∃ items,
      saveEntries es = some items ∧ ∀ G st, Represents st.groups G →
        (∀ tag, key tag ∈ es.map Prod.fst → G.members tag = none) →
        ∃ (st' : Loading) (G' : TagMap), parsing items .success st = some (.success, st') ∧
          Represents st'.groups G' ∧ ∀ tag l, G'.members tag = some l ↔
            (key tag, l) ∈ es ∨ G.members tag = some l)
  | [], _, _ => by
    refine Or.inr ⟨by simp, .nil, rfl, fun G st hrep _ => ⟨st, G, rfl, hrep, by simp⟩⟩
  | (k, members) :: es, hes, hnodup => by
    have hentry := hes _ mem_cons_self
    obtain ⟨tag, hk, htag⟩ := hentry.key
    subst hk
    rw [map_cons, nodup_cons] at hnodup
    rcases saveEntries_spec es (fun entry h => hes entry (mem_cons_of_mem _ h)) hnodup.2 with
      ⟨⟨entry, hmem, hfills⟩, hnone⟩ | ⟨hfits, items, hitems, hread⟩
    · refine .inl ⟨⟨entry, mem_cons_of_mem _ hmem, hfills⟩, ?_⟩
      rw [saveEntries, hnone]
      rfl
    rcases saveToFileConcat_spec hentry htag items with
      ⟨hfills, hnone⟩ | ⟨hfit, parts, hconcat, hparts, hflat⟩
    · refine .inl ⟨⟨_, mem_cons_self, hfills⟩, ?_⟩
      rw [saveEntries, hitems, Option.bind_some, hnone]
    refine .inr ⟨?_, _, by rw [saveEntries, hitems, Option.bind_some, hconcat], ?_⟩
    · intro entry hmem
      rcases mem_cons.mp hmem with rfl | hold
      · exact hfit
      · exact hfits entry hold
    intro G st hrep hnew
    have hnames : ∀ part ∈ parts, part ≠ [] ∧ ∀ name ∈ part, PlainName name := by
      refine fun part hpart => ⟨hparts part hpart, fun name hname => hentry.plain name ?_⟩
      rw [← hflat]
      exact mem_flatten_of_mem hpart hname
    obtain ⟨st₁, G₁, hgroup, hrep₁, hthis, hothers⟩ := parsing_groupItems hrep hnames
      (hflat ▸ hentry.ne_nil) (hflat ▸ hentry.nodup) (hnew tag mem_cons_self)
    have hfresh : ∀ t, key t ∈ es.map Prod.fst → G₁.members t = none := by
      intro t ht
      have hdiff : t ≠ tag := by
        rintro rfl
        exact hnodup.1 ht
      rw [hothers t hdiff]
      exact hnew t (mem_cons_of_mem _ ht)
    obtain ⟨st₂, G₂, hrest, hrep₂, hmembers⟩ := hread G₁ st₁ hrep₁ hfresh
    refine ⟨st₂, G₂, ?_, hrep₂, fun t l => ?_⟩
    · rw [parsing, if_pos rfl, hgroup, Option.bind_some]
      exact hrest
    · rw [hmembers, mem_cons, Prod.mk.injEq, key_inj]
      by_cases ht : t = tag
      · subst ht
        rw [hthis, hflat, hnew t mem_cons_self]
        simp [eq_comm, or_comm]
      · rw [hothers t ht]
        simp [ht]

theorem Represents.savableEntry (h : Represents groups G) (hG : Savable G) {entry}
    (hentry : entry ∈ entries groups.table) : SavableEntry entry := by
  obtain ⟨k, l⟩ := entry
  have hholds : Probe.Holds groups.capacity groups.elt k l := holds_iff_mem_entries.mpr hentry
  obtain ⟨tag, rfl⟩ := h.keys k l hholds
  have hmembers := (h.members_iff tag l).mpr hholds
  exact ⟨⟨tag, rfl, hG.tag_cstring tag l hmembers⟩, hG.ne_nil tag l hmembers,
    G.nodup tag l hmembers, hG.plain tag l hmembers⟩

theorem Represents.congr {G'} (h : Represents groups G)
    (hmembers : ∀ tag l, G'.members tag = some l ↔ G.members tag = some l) : Represents groups G' :=
  ⟨h.inv, h.keys, fun tag l => (hmembers tag l).trans (h.members_iff tag l)⟩

/-- The section for the groups is where the parser was asked to write it. -/
def ReturnsLastWritten (retrieve : Option Items → Option Items) : Prop :=
  ∀ written : Option Items,
    retrieve written = some (.ptr (ofString "logicalgroup") (written.getD .nil) .nil)

/-- **The table is saved, and loading what was saved gives it back**: the same tags, and for each
tag the same members in the same order. -/
def Persists (retrieve : Option Items → Option Items) (groups : Groups) (G : TagMap)
    (st : Loading) : Prop :=
  ∃ (written : Option Items) (st' : Loading), saveToFileInternal groups = some written ∧
    loadFromFile (retrieve written) st = some (.success, st') ∧ Represents st'.groups G

section Persist

variable {retrieve : Option Items → Option Items} {groups : Groups} {G : TagMap} {st : Loading}

/-- What is loaded is what the parser makes of the section. -/
theorem loadFromFile_section (hretrieve : ReturnsLastWritten retrieve) (written : Option Items)
    {st'} (h : parsing (written.getD .nil) .success st = some (.success, st')) :
    loadFromFile (retrieve written) st = some (.success, st') := by
  rw [hretrieve, loadFromFile, parseFromFile, parseSections, if_pos rfl, h]
  rfl

/-- The entries of a table are saved, or a line of one of them is full. -/
theorem Represents.saveEntries (hgroups : Represents groups G) (hG : Savable G) :
    ((∃ tag l, G.members tag = some l ∧ fillsLine 0 (l.map List.length) = true) ∧
      saveLoop groups (groups.capacity + 1) none = none) ∨
    ((∀ tag l, G.members tag = some l → fillsLine 0 (l.map List.length) = false) ∧
      ∃ items, saveLoop groups (groups.capacity + 1) none = some items ∧
        ∀ st : Loading, Represents st.groups empty → ∃ st' : Loading,
          parsing items .success st = some (.success, st') ∧ Represents st'.groups G) := by
  rw [saveLoop_table]
  rcases saveEntries_spec (entries groups.table) (fun entry h => hgroups.savableEntry hG h)
      (nodup_keys_entries hgroups.inv.chained) with
    ⟨⟨⟨k, l⟩, hmem, hfills⟩, hnone⟩ | ⟨hfits, items, hitems, hread⟩
  · obtain ⟨tag, hk, -⟩ := (hgroups.savableEntry hG hmem).key
    subst hk
    exact .inl ⟨⟨tag, l, (hgroups.mem_entries_iff tag l).mp hmem, hfills⟩, hnone⟩
  · refine .inr ⟨fun tag l hl => ?_, items, hitems, fun st hst => ?_⟩
    · exact hfits (key tag, l) ((hgroups.mem_entries_iff tag l).mpr hl)
    · obtain ⟨st', G', hparse, hrep, hmembers⟩ := hread empty st hst fun _ _ => rfl
      refine ⟨st', hparse, hrep.congr fun tag l => ?_⟩
      rw [hmembers, hgroups.mem_entries_iff]
      simp [empty]

/-- A full line is written past the end of the buffer, and nothing is saved. -/
theorem not_persists (hgroups : Represents groups G) (hG : Savable G) {tag l}
    (hl : G.members tag = some l) (hfills : fillsLine 0 (l.map List.length) = true) :
    ¬ Persists retrieve groups G st := by
  rintro ⟨written, st', hsave, -, -⟩
  have hsize : groups.getSize ≠ 0 := by
    intro hzero
    rw [hgroups.getSize_eq_zero_iff.mp hzero] at hl
    cases hl
  rcases hgroups.saveEntries hG with ⟨-, hnone⟩ | ⟨hfits, -⟩
  · rw [saveToFileInternal, if_neg hsize, hnone] at hsave
    cases hsave
  · rw [hfits tag l hl] at hfills
    cases hfills

/-- **Groups persist exactly when no line is full.** -/
theorem persists_iff (retrieve : Option Items → Option Items)
    (hretrieve : ReturnsLastWritten retrieve) (groups : Groups) (G : TagMap)
    (hgroups : Represents groups G) (hG : Savable G) (st : Loading)
    (hst : Represents st.groups TagMap.empty) : Persists retrieve groups G st ↔
      ∀ tag l, G.members tag = some l → fillsLine 0 (l.map List.length) = false := by
  constructor
  · intro h tag l hl
    cases hfills : fillsLine 0 (l.map List.length) with
    | false => rfl
    | true => exact absurd h (not_persists hgroups hG hl hfills)
  · intro h
    by_cases hsize : groups.getSize = 0
    · -- no groups: an empty section
      refine ⟨none, st, if_pos hsize, loadFromFile_section hretrieve none rfl, ?_⟩
      refine hst.congr fun tag l => ?_
      rw [hgroups.getSize_eq_zero_iff.mp hsize]
      rfl
    · rcases hgroups.saveEntries hG with ⟨⟨tag, l, hl, hfills⟩, -⟩ | ⟨-, items, hitems, hread⟩
      · rw [h tag l hl] at hfills
        cases hfills
      · obtain ⟨st', hparse, hrep⟩ := hread st hst
        refine ⟨some items, st', ?_, loadFromFile_section hretrieve (some items) hparse, hrep⟩
        rw [saveToFileInternal, if_neg hsize, hitems]
        rfl

end Persist

/-! ## 7. Two tables -/

/-- A table with one group. -/
theorem exists_oneGroup (hne : tag ≠ []) (htag : 0 ∉ tag) {names} (hnames : names ≠ [])
    (hnodup : names.Nodup) (hplain : ∀ name ∈ names, PlainName name) :
    ∃ (groups : Groups) (G : TagMap), Represents groups G ∧ Savable G ∧
      ∀ t l, G.members t = some l ↔ t = tag ∧ l = names := by
  obtain ⟨groups, -, hrep⟩ := (represents_init hashSize).add tag
    (extractNodeNames_line hnames hplain false)
  have hmembers : ∀ t l, (TagMap.empty.add tag names).members t = some l ↔
      t = tag ∧ l = names := by
    intro t l
    have hone : TagMap.appendNew [] names = names := by
      rw [TagMap.appendNew_eq, foldl_appendUnique_of_nodup (by simpa using hnodup)]
      rfl
    by_cases ht : t = tag
    · simp [TagMap.add, TagMap.empty, ht, hone, eq_comm]
    · simp [TagMap.add, TagMap.empty, ht]
  refine ⟨groups, _, hrep, ⟨?_, ?_, ?_, ?_⟩, hmembers⟩
  all_goals
    intro t l hl
    obtain ⟨rfl, rfl⟩ := (hmembers t l).mp hl
    assumption

/-- A parser that keeps the section. -/
def keepSection (written : Option Items) : Option Items :=
  some (.ptr (ofString "logicalgroup") (written.getD .nil) .nil)

/-- Two nodes in a rack. -/
theorem persists_iff_rack : ∃ (groups : Groups) (G : TagMap), Represents groups G ∧
    G.members (ofString "rack1") = some [ofString "node-1", ofString "node-2"] ∧
    Persists keepSection groups G ⟨none, HashTable.init hashSize, false⟩ := by
  have hplain : ∀ name ∈ [ofString "node-1", ofString "node-2"], PlainName name := by
    intro name hname
    simp only [mem_cons, not_mem_nil, or_false] at hname
    rcases hname with rfl | rfl <;> exact ⟨by decide, by decide +kernel, by decide⟩
  obtain ⟨groups, G, hrep, hG, hmembers⟩ := @exists_oneGroup (ofString "rack1") (by decide)
    (by decide) _ (cons_ne_nil _ _) (by decide) hplain
  refine ⟨groups, G, hrep, (hmembers _ _).mpr ⟨rfl, rfl⟩, ?_⟩
  refine (persists_iff keepSection (fun _ => rfl) groups G hrep hG _
    (represents_init hashSize)).mpr fun tag l hl => ?_
  obtain ⟨-, rfl⟩ := (hmembers tag l).mp hl
  decide

theorem plainName_replicate {n} (hc : isNameChar c = true) (hpos : n ≠ 0) (hlt : n < 500) :
    PlainName (List.replicate n c) := by
  refine ⟨?_, fun d hd => ?_, ?_⟩
  · rwa [ne_eq, replicate_eq_nil_iff]
  · rwa [eq_of_mem_replicate hd]
  · rwa [length_replicate]

theorem replicate_ne_replicate {n m d} (hpos : n ≠ 0) (hne : c ≠ d) :
    List.replicate n c ≠ List.replicate m d := by
  intro h
  have hmem : c ∈ List.replicate m d := h ▸ mem_replicate.mpr ⟨hpos, rfl⟩
  exact hne (eq_of_mem_replicate hmem)

/-- **Names of 499, 499 and 12 characters fill a line**: with their commas they have 1012. -/
theorem full_line_is_lost : ∃ (groups : Groups) (G : TagMap), Represents groups G ∧ Savable G ∧
    ¬ Persists keepSection groups G ⟨none, HashTable.init hashSize, false⟩ := by
  have hplain : ∀ name ∈ [List.replicate 499 97, List.replicate 499 98, List.replicate 12 99],
      PlainName name := by
    rw [forall_mem_cons, forall_mem_cons, forall_mem_singleton]
    refine ⟨?_, ?_, ?_⟩ <;> exact plainName_replicate (by decide) (by decide) (by decide)
  have hnodup : [List.replicate 499 97, List.replicate 499 98,
      List.replicate 12 (99 : UInt8)].Nodup := by
    rw [nodup_cons, nodup_cons, mem_cons, List.mem_singleton, List.mem_singleton,
      not_or]
    refine ⟨⟨?_, ?_⟩, ?_, nodup_singleton _⟩ <;>
      exact replicate_ne_replicate (by decide) (by decide)
  obtain ⟨groups, G, hrep, hG, hmembers⟩ := @exists_oneGroup (ofString "rack1") (by decide)
    (by decide) _ (cons_ne_nil _ _) hnodup hplain
  refine ⟨groups, G, hrep, hG, not_persists hrep hG ((hmembers _ _).mpr ⟨rfl, rfl⟩) ?_⟩
  rw [map_cons, map_cons, map_singleton, length_replicate,
    length_replicate, length_replicate]
  decide

end Sensys.Orcm.LogicalGroup
