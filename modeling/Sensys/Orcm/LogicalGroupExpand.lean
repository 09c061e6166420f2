/-
# Expanding group tags

`orcm_logical_group_parse_array_string` is meant to return the plain names of its input and those
reachable from its tags through the table.  It keeps a work list of tags and, beside it, a COUNT
of the tags on the list; the count is raised for every member that is a tag, but the list only
grows when the tag is not on it yet.  So the two part company as soon as a tag is met that is
already waiting, and then the loop cannot end well: it runs until the list is empty with a
positive count, and takes the length of a `NULL` string -- or for ever, if the groups are cyclic.

`parseArrayString_expands_iff` is the exact condition for the intended result, by generations of
tags (`Worklist.Ends`).
-/
import Sensys.Orcm.LogicalGroup
import Sensys.Opal.HashTableRefines

namespace Sensys.Orcm.LogicalGroup

open Opal Orte Worklist List

/-- The finite map the table stands for. -/
abbrev GroupMap := Finmap fun _ : Str => List Str

/-! ## 1. What the expansion is for -/

/-- The members of a tag; none if there is no such group. -/
def membersOf (m : GroupMap) (tag : Str) : List Str := (m.lookup (key tag)).getD []

/-- The member is itself the tag of a group. -/
def isTag (m : GroupMap) (member : Str) : Bool := (m.lookup (key member)).isSome

/-- The members of a tag that are tags. -/
def childTags (m : GroupMap) (tag : Str) : List Str := (membersOf m tag).filter (isTag m)

/-- The members of a tag that are plain names. -/
def plainMembers (m : GroupMap) (tag : Str) : List Str :=
  (membersOf m tag).filter fun x => !isTag m x

/-- The tags of an input list: the names marked with `$`, without the mark. -/
def inputTags (input : List Str) : List Str :=
  (input.filter fun x => decide (x.head? = some 36)).map List.tail

/-- The plain names of an input list. -/
def inputNames (input : List Str) : List Str :=
  input.filter fun x => !decide (x.head? = some 36)

/-- **The names an input list stands for**: its plain names, and the plain members of the tags
reachable from its tags. -/
def Denotes (m : GroupMap) (input : List Str) (x : Str) : Prop :=
  x ∈ inputNames input ∨
    ∃ tag, Reach (childTags m) (inputTags input) tag ∧ x ∈ plainMembers m tag

/-- The names an expression lists; a blank expression lists none. -/
def Lists (regex : Str) (erange : Bool) (input : List Str) : Prop :=
  (trimString regex = [] ∧ input = []) ∨
    (trimString regex ≠ [] ∧
      ∃ e, extractNodeNames (some (trimString regex)) erange = some (.ok input, e))

/-! ## 2. One round of the loop -/

section Loop

variable {groups : Groups} {m : GroupMap} (h : Refines hashKeyPtr groups m)

include h

theorem getTag_eq (tag : Str) :
    getTag groups tag = some ((m.lookup (key tag)).elim (.error .errNotFound) .ok) :=
  getValue_spec h (key tag)

theorem expandMembers_eq : ∀ members st,
    expandMembers groups members st = some {
        count := st.count + (members.filter (isTag m)).length
        tagArray := (members.filter (isTag m)).foldl appendUnique st.tagArray
        oArrayString :=
          (members.filter fun x => !isTag m x).foldl appendUnique st.oArrayString }
  | [], st => by simp [expandMembers]
  | x :: members, st => by
    have ih := expandMembers_eq members
    rw [expandMembers, getTag_eq h, argvAppendUniqueNosize_eq]
    cases hx : m.lookup (key x) with
    | none =>
      have htag : isTag m x = false := by simp [isTag, hx]
      simp [ih, htag]
    | some value =>
      have htag : isTag m x = true := by simp [isTag, hx]
      simp only [Option.bind_some, Option.elim_some, ih, htag, filter_cons, if_true,
        length_cons, foldl_cons, Bool.not_true, Bool.false_eq_true, if_false]
      congr 2
      omega

/-- **One round**: the child tags are counted and appended where missing, the plain members go to
the result. -/
theorem expandTag_eq (tag st) : expandTag groups tag st = some
      { count := st.count + (childTags m tag).length
        tagArray := (childTags m tag).foldl appendUnique st.tagArray
        oArrayString := (plainMembers m tag).foldl appendUnique st.oArrayString } := by
  rw [expandTag, getTag_eq h]
  cases hx : m.lookup (key tag) with
  | none => simp [childTags, plainMembers, membersOf, hx]
  | some value =>
    simp only [Option.bind_some, Option.elim_some, expandMembers_eq h, childTags, plainMembers,
      membersOf, hx, Option.getD_some]

theorem tagToMembersNested_cons (fuel : ℕ) {count} (hc : 0 < count) (tag : Str) (q out : List Str) :
    tagToMembersNested groups (fuel + 1) ⟨count, tag :: q, out⟩ =
      tagToMembersNested groups fuel ⟨count + (childTags m tag).length - 1,
          ((childTags m tag).foldl appendUnique (tag :: q)).tail,
          (plainMembers m tag).foldl appendUnique out⟩ := by
  rw [tagToMembersNested]
  simp only [if_pos hc, expandTag_eq h, Option.bind_some, argvDelete_first]

/-- **A count above the length of the list never comes back.** -/
theorem tagToMembersNested_stuck : ∀ fuel {count q} out, (q.length : ℤ) < count →
    tagToMembersNested groups fuel ⟨count, q, out⟩ = none
  | 0, _, _, _, _ => rfl
  | fuel + 1, count, [], out, hlt => by
    have hc : 0 < count := by simpa using hlt
    simp [tagToMembersNested, hc]
  | fuel + 1, count, tag :: q, out, hlt => by
    have hc : 0 < count := by
      omega
    have hlen := length_foldl_appendUnique_le (childTags m tag) (tag :: q)
    rw [tagToMembersNested_cons h fuel hc]
    refine tagToMembersNested_stuck fuel _ ?_
    rw [length_cons] at hlen hlt
    rw [length_tail]
    omega

/-- **A round without repetition**: the count is the length of the list again. -/
theorem tagToMembersNested_next (fuel : ℕ) {tag q} (hnd : (tag :: q ++ childTags m tag).Nodup)
    (out : List Str) : tagToMembersNested groups (fuel + 1) ⟨(tag :: q).length, tag :: q, out⟩ =
      tagToMembersNested groups fuel ⟨(q ++ childTags m tag).length, q ++ childTags m tag,
        (plainMembers m tag).foldl appendUnique out⟩ := by
  have hcount : ((tag :: q).length : ℤ) + (childTags m tag).length - 1
      = ((q ++ childTags m tag).length : ℤ) := by
    simp only [length_cons, length_append]
    omega
  rw [tagToMembersNested_cons h fuel (by simp), foldl_appendUnique_of_nodup hnd, hcount]
  rfl

/-! ## 3. When the loop ends -/

/-- **A list that drains is expanded**: the loop ends, and the result has the plain members of
everything reachable. -/
theorem tagToMembersNested_of_drains {q} (hq : Drains (childTags m) q) :
    ∀ out : List Str, out.Nodup →
    ∃ fuel out', tagToMembersNested groups fuel ⟨q.length, q, out⟩ = some (.success, out') ∧
      out'.Nodup ∧
      ∀ x, x ∈ out' ↔ x ∈ out ∨ ∃ tag, Reach (childTags m) q tag ∧ x ∈ plainMembers m tag := by
  induction hq with
  | nil =>
    intro out hout
    refine ⟨1, out, by simp [tagToMembersNested], hout, ?_⟩
    intro x
    simp [reach_nil]
  | @cons tag q hnd _ ih =>
    intro out hout
    obtain ⟨fuel, out', hrun, hnd', hmem⟩ :=
      ih ((plainMembers m tag).foldl appendUnique out) (nodup_foldl_appendUnique hout)
    refine ⟨fuel + 1, out', ?_, hnd', ?_⟩
    · rw [tagToMembersNested_next h fuel hnd, hrun]
    · intro x
      rw [hmem, mem_foldl_appendUnique, or_assoc]
      constructor
      · rintro (hx | hx | ⟨t, ht, hx⟩)
        · exact .inl hx
        · exact .inr ⟨tag, reach_cons.mpr (.inl rfl), hx⟩
        · exact .inr ⟨t, reach_cons.mpr (.inr ht), hx⟩
      · rintro (hx | ⟨t, ht, hx⟩)
        · exact .inl hx
        · rcases reach_cons.mp ht with rfl | ht
          · exact .inr (.inl hx)
          · exact .inr (.inr ⟨t, ht, hx⟩)

/-- A loop that ends has drained its list. -/
theorem drains_of_tagToMembersNested : ∀ fuel {q out r}, q.Nodup →
    tagToMembersNested groups fuel ⟨q.length, q, out⟩ = some r → Drains (childTags m) q
  | 0, _, _, _, _, hrun => by cases hrun
  | fuel + 1, [], _, _, _, _ => Drains.nil
  | fuel + 1, tag :: q, out, r, hq, hrun => by
    by_cases hnd : (tag :: q ++ childTags m tag).Nodup
    · rw [tagToMembersNested_next h fuel hnd] at hrun
      exact Drains.cons hnd (drains_of_tagToMembersNested fuel (nodup_cons.mp hnd).2 hrun)
    · -- a tag was counted that is waiting already
      rw [tagToMembersNested_cons h fuel (by simp)] at hrun
      have hlt := length_foldl_appendUnique_lt hq hnd
      rw [tagToMembersNested_stuck h fuel _ ?_] at hrun
      · cases hrun
      · have hpos : 0 < ((childTags m tag).foldl appendUnique (tag :: q)).length :=
          length_pos_of_mem (mem_foldl_appendUnique.mpr (.inl mem_cons_self))
        rw [length_tail]
        omega

end Loop

/-! ## 4. The whole function -/

theorem sortNames_eq : ∀ names tags out, sortNames names (tags, out) =
      ((inputTags names).foldl appendUnique tags, (inputNames names).foldl appendUnique out)
  | [], tags, out => rfl
  | name :: names, tags, out => by
    rw [sortNames, argvAppendUniqueNosize_eq]
    by_cases hn : name.head? = some 36
    · simp [hn, sortNames_eq names, inputTags, inputNames]
    · simp [hn, sortNames_eq names, inputTags, inputNames]

/-- The list without its repetitions, in the order of first occurrence. -/
def distinct (l : List Str) : List Str := l.foldl appendUnique []

variable {groups : Groups}

/-- The function is sorting, then expanding. -/
theorem parseArrayString_eq {regex erange input} (hin : Lists regex erange input) (fuel : ℕ) :
    parseArrayString groups regex erange (fuel + 1) =
      tagToMembersNested groups (fuel + 1)
        ⟨(distinct (inputTags input)).length, distinct (inputTags input),
          distinct (inputNames input)⟩ := by
  rcases hin with ⟨hblank, rfl⟩ | ⟨hne, e, hread⟩
  · simp [parseArrayString, hblank, distinct, inputTags, inputNames, tagToMembersNested]
  · simp only [parseArrayString, if_neg hne, hread, Option.bind_some, sortNames_eq, argvCount]
    rfl

/-- **When the expansion does what it is for.**  On any table in order and any expression, the
function returns the names its input stands for, without duplicates, if and only if the
generations of the input's tags end without repetition. -/
theorem parseArrayString_expands_iff {groups : Groups} {m : GroupMap}
    (h : Refines hashKeyPtr groups m) {regex : Str} {erange : Bool} {input : List Str}
    (hin : Lists regex erange input) :
    (∃ fuel out, parseArrayString groups regex erange fuel = some (.success, out) ∧ out.Nodup ∧
        ∀ x, x ∈ out ↔ Denotes m input x) ↔ Ends (childTags m) (distinct (inputTags input)) := by
  have hdistinct : ∀ l : List Str, (distinct l).Nodup :=
    fun l => nodup_foldl_appendUnique nodup_nil
  rw [← drains_iff]
  constructor
  · rintro ⟨fuel, out, hrun, -, -⟩
    cases fuel with
    | zero =>
      rcases hin with ⟨-, rfl⟩ | ⟨hne, e, hread⟩
      · exact Drains.nil
      · simp [parseArrayString, hne, hread, tagToMembersNested] at hrun
    | succ fuel =>
      rw [parseArrayString_eq hin] at hrun
      exact drains_of_tagToMembersNested h _ (hdistinct _) hrun
  · intro hdrains
    obtain ⟨fuel, out, hrun, hnd, hmem⟩ :=
      tagToMembersNested_of_drains h hdrains (distinct (inputNames input)) (hdistinct _)
    cases fuel with
    | zero => cases hrun
    | succ fuel =>
      refine ⟨fuel + 1, out, by rw [parseArrayString_eq hin, hrun], hnd, ?_⟩
      intro x
      rw [hmem, Denotes]
      simp [Reach, distinct, mem_foldl_appendUnique]

/-! ## 5. No name is listed twice -/

theorem expandMembers_nodup : ∀ {members st st'},
    expandMembers groups members st = some st' → st.oArrayString.Nodup → st'.oArrayString.Nodup
  | [], st, st', h, hnd => by
    cases h
    exact hnd
  | member :: members, st, st', h, hnd => by
    obtain ⟨found, -, h⟩ := Option.bind_eq_some_iff.mp h
    cases found with
    | ok => exact expandMembers_nodup h hnd
    | error =>
      rw [argvAppendUniqueNosize_eq] at h
      exact expandMembers_nodup h (nodup_appendUnique member hnd)

theorem tagToMembersNested_nodup :
    ∀ {fuel st rc out}, tagToMembersNested groups fuel st = some (rc, out) →
      st.oArrayString.Nodup → out.Nodup
  | fuel + 1, ⟨count, [], array⟩, rc, out, h, hnd => by
    rw [tagToMembersNested] at h
    split at h
    · cases h
    · cases h
      exact hnd
  | fuel + 1, ⟨count, tag :: q, array⟩, rc, out, h, hnd => by
    rw [tagToMembersNested] at h
    split at h
    · obtain ⟨st', hexpand, h⟩ := Option.bind_eq_some_iff.mp h
      obtain ⟨found, -, hexpand⟩ := Option.bind_eq_some_iff.mp hexpand
      have harray : st'.oArrayString.Nodup := by
        cases found with
        | ok => exact expandMembers_nodup hexpand hnd
        | error =>
          cases hexpand
          exact hnd
      exact tagToMembersNested_nodup h harray
    · cases h
      exact hnd

/-- **An expression that names a node twice gives it once**, whatever the groups. -/
theorem parseArrayString_nodup {regex erange fuel rc out}
    (h : parseArrayString groups regex erange fuel = some (rc, out)) : out.Nodup := by
  rw [parseArrayString] at h
  split at h
  · cases h
    exact nodup_nil
  · obtain ⟨⟨names, e⟩, -, h⟩ := Option.bind_eq_some_iff.mp h
    cases names with
    | error rc =>
      cases h
      exact nodup_nil
    | ok names =>
      simp only [sortNames_eq] at h
      exact tagToMembersNested_nodup h (nodup_foldl_appendUnique nodup_nil)

/-! ## 6. Two tables -/

section Tables

open CString

/-- Every finite map of groups has a table. -/
theorem exists_table : ∀ bindings : List (Str × List Str), ∃ groups : Groups,
    Refines hashKeyPtr groups (bindings.foldl (fun m b => m.insert (key b.1) b.2) ∅) := by
  intro bindings
  induction bindings using List.reverseRecOn with
  | nil => exact ⟨_, init_spec hashKeyPtr hashSize⟩
  | append_singleton bindings b ih =>
    obtain ⟨groups, h⟩ := ih
    obtain ⟨groups', -, h'⟩ := setValue_spec h (key b.1) b.2
    exact ⟨groups', by simpa using h'⟩

/-- One group `g` with the member `x`. -/
def oneGroup : GroupMap := (∅ : GroupMap).insert (key (ofString "g")) [ofString "x"]

/-- The ordinary case: a group of plain names is expanded. -/
theorem parseArrayString_expands_oneGroup : ∃ groups : Groups, Refines hashKeyPtr groups oneGroup ∧
    ∃ fuel out, parseArrayString groups (ofString "$g,y") false fuel = some (.success, out) ∧
      out.Nodup ∧ ∀ x, x ∈ out ↔ Denotes oneGroup [ofString "$g", ofString "y"] x := by
  obtain ⟨groups, h⟩ := exists_table [(ofString "g", [ofString "x"])]
  have hlists : Lists (ofString "$g,y") false [ofString "$g", ofString "y"] :=
    .inr ⟨by decide, false, by rfl⟩
  have hdrains : Drains (childTags oneGroup) [ofString "g"] := by
    refine Drains.cons ?_ ?_
    · decide
    · exact Drains.nil
  exact ⟨groups, h, (parseArrayString_expands_iff h hlists).mpr ((drains_iff _).mp hdrains)⟩

/-- Two groups that contain each other. -/
def mutualGroups : GroupMap :=
  ((∅ : GroupMap).insert (key (ofString "a")) [ofString "b"]).insert (key (ofString "b"))
    [ofString "a"]

theorem childTags_mutualGroups : childTags mutualGroups (ofString "a") = [ofString "b"] ∧
      childTags mutualGroups (ofString "b") = [ofString "a"] := by
  have ha : mutualGroups.lookup (key (ofString "a")) = some [ofString "b"] := by
    rw [mutualGroups, Finmap.lookup_insert_of_ne _ (by decide), Finmap.lookup_insert]
  have hb : mutualGroups.lookup (key (ofString "b")) = some [ofString "a"] := by
    rw [mutualGroups, Finmap.lookup_insert]
  constructor
  · simp [childTags, membersOf, isTag, ha, hb]
  · simp [childTags, membersOf, isTag, ha, hb]

/-- **Groups that contain each other are never expanded**: on the table of `mutualGroups` the
expansion of `$a` does not return. -/
theorem mutualGroups_not_expanded : ∃ groups : Groups,
    Refines hashKeyPtr groups mutualGroups ∧ Lists (ofString "$a") false [ofString "$a"] ∧
    ∀ fuel, parseArrayString groups (ofString "$a") false fuel = none := by
  obtain ⟨groups, h⟩ := exists_table [(ofString "a", [ofString "b"]), (ofString "b", [ofString "a"])]
  have h : Refines hashKeyPtr groups mutualGroups := h
  have hlists : Lists (ofString "$a") false [ofString "$a"] := .inr ⟨by decide, false, by rfl⟩
  refine ⟨groups, h, hlists, ?_⟩
  obtain ⟨hab, hba⟩ := childTags_mutualGroups
  have hnever : ∀ fuel out, tagToMembersNested groups fuel ⟨1, [ofString "a"], out⟩ = none ∧
      tagToMembersNested groups fuel ⟨1, [ofString "b"], out⟩ = none := by
    intro fuel
    induction fuel with
    | zero => exact fun out => ⟨rfl, rfl⟩
    | succ fuel ih =>
      intro out
      have ha := @tagToMembersNested_next _ _ h fuel (ofString "a") [] (by rw [hab]; decide) out
      have hb := @tagToMembersNested_next _ _ h fuel (ofString "b") [] (by rw [hba]; decide) out
      exact ⟨ha.trans (ih _).2, hb.trans (ih _).1⟩
  intro fuel
  cases fuel with
  | zero => rfl
  | succ fuel =>
    exact (hnever _ _).1

end Tables

end Sensys.Orcm.LogicalGroup
