/-
# Listing groups

`orcm_logical_group_list` of `orcm/util/logical_group.c` returns the part of a group table that a
tag and a member text ask for: a table of its own, the table it is given for `*` and `*`, or `NULL`
(for a text that is refused, and for a tag that is not there).  `list_spec` says that this is the
INTERSECTION of the table with what is asked, whichever of the four paths is taken, and that the
table is the same after the call.
-/
import Sensys.Orcm.LogicalGroupTable

namespace Sensys.Orcm.LogicalGroup

open Opal Orte Worklist List CString HashTable

/-! ## 1. The model

A function that is given the table returns it as well, as it is after the call; a listing `none` is
`NULL`. -/

/-- `orcm_logical_group_list_specific_members`: the members asked for that some item equals. -/
def listSpecificMembers (value members : List Str) : Option (List Str) :=
  let newValue := members.filter (memberExist value)
  if newValue.isEmpty then none else some newValue

/-- The members of a group that are listed; `none` for `members` is `do_all_member`. -/
def newValueOf (members : Option (List Str)) (value : List Str) : Option (List Str) :=
  match members with
  | none => some value
  | some members => listSpecificMembers value members

/-- The new table gets the members of a tag, unless they are `NULL`. -/
def setNewValue (oGroups : Groups) (k : Str) : Option (List Str) → Option Groups
  | none => some oGroups
  | some newValue => (oGroups.setValue hashKeyPtr k newValue).map Prod.snd

/-- The loop of `orcm_logical_group_list_all_tags`, from the node `inMember` on. -/
def listAllTagsLoop (groups : Groups) (members : List Str) :
    ℕ → Option ℕ → Groups → Option (Groups × Groups)
  | 0, _, _ => none
  | fuel + 1, inMember, oGroups =>
    match groups.getNextKey inMember with
    | .error _ => some (oGroups, groups)
    | .ok ((k, value), oMember) =>
      (setNewValue oGroups k (listSpecificMembers value members)).bind
        (listAllTagsLoop groups members fuel (some oMember))

/-- `orcm_logical_group_list_all_tags`. -/
def listAllTags (members : Option (List Str)) (groups : Groups) : Option (Option Groups × Groups) :=
  match members with
  | none => some (some groups, groups)
  | some members =>
    (listAllTagsLoop groups members (groups.capacity + 1) none (HashTable.init hashSize)).map
      fun (oGroups, groups) => (some oGroups, groups)

/-- `orcm_logical_group_list_a_tag`. -/
def listATag (tag : Str) (members : Option (List Str)) (groups : Groups) :
    Option (Option Groups × Groups) :=
  (getTag groups tag).bind fun
    | .error _ => some (none, groups)
    | .ok value =>
      (setNewValue (HashTable.init hashSize) (key tag) (newValueOf members value)).map
        fun oGroups => (some oGroups, groups)

/-- `orcm_logical_group_list_internal`. -/
def listInternal (tag : Str) (members : Option (List Str)) (groups : Groups) :
    Option (Option Groups × Groups) :=
  if isDoAllWildcard tag then listAllTags members groups else listATag tag members groups

/-- `orcm_logical_group_list`, with a table. -/
def list (tag regex : Str) (groups : Groups) (erange : Bool) : Option (Option Groups × Groups) :=
  if isDoAllWildcard regex then listInternal tag none groups
  else
    (extractNodeNames (some regex) erange).bind fun
      | (.error _, _) => some (none, groups)
      | (.ok members, _) => listInternal tag (some members) groups

/-! ## 2. What is asked for -/

/-- **The listing `G'` is the part of `G` in the named tags and the members asked for** (all, for
`none`). -/
structure ListsPart (named : Str → Bool) (members : Option (List Str)) (G G' : TagMap) : Prop where
  tags : ∀ t, (G'.members t).isSome ↔ named t = true ∧ ∃ l, G.members t = some l ∧
    ∀ ms, members = some ms → ∃ x ∈ ms, x ∈ l
  members : ∀ t l', G'.members t = some l' → ∃ l, G.members t = some l ∧
    ∀ x, x ∈ l' ↔ x ∈ l ∧ ∀ ms, members = some ms → x ∈ ms

section Asked

variable {members : Option (List Str)} {l l' : List Str}

theorem newValueOf_isSome_iff :
    (newValueOf members l).isSome ↔ ∀ ms, members = some ms → ∃ x ∈ ms, x ∈ l := by
  cases members with
  | none => simp [newValueOf]
  | some ms =>
    rw [newValueOf, listSpecificMembers]
    split_ifs with hnone
    · simpa [memberExist] using hnone
    · simpa [memberExist] using hnone

theorem newValueOf_eq_some (hl : l.Nodup) (hms : ∀ ms, members = some ms → ms.Nodup)
    (h : newValueOf members l = some l') :
    l'.Nodup ∧ ∀ x, x ∈ l' ↔ x ∈ l ∧ ∀ ms, members = some ms → x ∈ ms := by
  cases members with
  | none =>
    cases h
    exact ⟨hl, by simp⟩
  | some ms =>
    simp only [newValueOf, listSpecificMembers] at h
    split at h
    · cases h
    · cases h
      exact ⟨(hms ms rfl).filter _, by simp [memberExist, and_comm]⟩

/-- A listing made tag by tag. -/
theorem ListsPart.of_members {named G G'} (hms : ∀ ms, members = some ms → ms.Nodup)
    (h : ∀ t, G'.members t = if named t then (G.members t).bind (newValueOf members) else none) :
    ListsPart named members G G' := by
  constructor
  · intro t
    rw [h]
    cases hl : G.members t <;> by_cases hnamed : named t = true <;>
      simp [hnamed, newValueOf_isSome_iff]
  · intro t l' hl'
    rw [h] at hl'
    split at hl'
    · obtain ⟨l, hl, hnew⟩ := Option.bind_eq_some_iff.mp hl'
      exact ⟨l, hl, (newValueOf_eq_some (G.nodup t l hl) hms hnew).2⟩
    · cases hl'

end Asked

/-! ## 3. The paths -/

section Paths

variable {groups oGroups : Groups} {G G₀ : TagMap} {tag : Str}

/-- Members for a tag that is not there. -/
theorem Represents.setNewValue {newValue} (h : Represents oGroups G₀) (htag : G₀.members tag = none)
    (hnodup : ∀ l ∈ newValue, l.Nodup) :
    ∃ oGroups' G', LogicalGroup.setNewValue oGroups (key tag) newValue = some oGroups' ∧
      Represents oGroups' G' ∧ ∀ t, G'.members t = if t = tag then newValue else G₀.members t := by
  cases newValue with
  | none =>
    refine ⟨oGroups, G₀, rfl, h, fun t => ?_⟩
    split_ifs with ht
    · rw [ht, htag]
    · rfl
  | some l =>
    have hmembers : ∀ t, (G₀.add tag l).members t = if t = tag then some l else G₀.members t := by
      intro t
      have hnew := foldl_appendUnique_of_nodup (show ([] ++ l).Nodup from hnodup l rfl)
      simp only [TagMap.add, htag, TagMap.appendNew_eq, Option.getD_none, hnew, nil_append]
    obtain ⟨oGroups', hset, h'⟩ := h.setValue tag l hmembers
    exact ⟨oGroups', G₀.add tag l, by rw [LogicalGroup.setNewValue, hset]; rfl, h', hmembers⟩

/-- The walk over these elements of the table. -/
def listEntries (newValue : List Str → Option (List Str)) :
    List (Str × List Str) → Groups → Option Groups
  | [], oGroups => some oGroups
  | (k, value) :: es, oGroups =>
    (LogicalGroup.setNewValue oGroups k (newValue value)).bind (listEntries newValue es)

theorem listAllTagsLoop_eq (groups members) :
    listAllTagsLoop groups members (groups.capacity + 1) none = fun oGroups =>
      (listEntries (newValueOf (some members)) (entries groups.table) oGroups).map (·, groups) := by
  refine walk_spec groups (listAllTagsLoop groups members) (fun es oGroups =>
    (listEntries (newValueOf (some members)) es oGroups).map (·, groups)) ?_ ?_
  · intro fuel node rc hend
    funext oGroups
    rw [listAllTagsLoop, hend, listEntries]
    rfl
  · intro fuel node e i es hnext hrest
    funext oGroups
    rw [listAllTagsLoop, hnext, listEntries, Option.map_bind]
    simp only [hrest]
    rfl

theorem listEntries_spec {newValue} (hnew : ∀ l l', l.Nodup → newValue l = some l' → l'.Nodup) :
    ∀ es {oGroups G₀}, Represents oGroups G₀ →
      (es.map Prod.fst).Nodup →
      (∀ k l, (k, l) ∈ es → l.Nodup ∧ ∃ tag, k = key tag ∧ G₀.members tag = none) →
      ∃ oGroups' G', listEntries newValue es oGroups = some oGroups' ∧
        Represents oGroups' G' ∧ ∀ t l', G'.members t = some l' ↔
          G₀.members t = some l' ∨ ∃ l, (key t, l) ∈ es ∧ newValue l = some l'
  | [], oGroups, G₀, h, _, _ => ⟨oGroups, G₀, rfl, h, by simp⟩
  | (k, l) :: es, oGroups, G₀, h, hkeys, hes => by
    obtain ⟨hl, tag, rfl, htag⟩ := hes k l mem_cons_self
    obtain ⟨hkey, hkeys⟩ := nodup_cons.mp hkeys
    have hother : ∀ t l', (key t, l') ∈ es → t ≠ tag := by
      rintro t l' hmem rfl
      exact hkey (mem_map.mpr ⟨_, hmem, rfl⟩)
    obtain ⟨oGroups₁, G₁, hset, h₁, hmembers₁⟩ := h.setNewValue htag fun l' => hnew l l' hl
    obtain ⟨oGroups', G', hrun, h', hmembers⟩ := listEntries_spec hnew es h₁ hkeys (by
      intro k' l' hmem
      obtain ⟨hl', t, rfl, ht⟩ := hes k' l' (mem_cons_of_mem _ hmem)
      exact ⟨hl', t, rfl, by rw [hmembers₁, if_neg (hother t l' hmem), ht]⟩)
    refine ⟨oGroups', G', by rw [listEntries, hset]; exact hrun, h', ?_⟩
    intro t l'
    rw [hmembers, hmembers₁]
    by_cases ht : t = tag
    · subst ht
      have hnone : ∀ l'', (key t, l'') ∉ es := fun l'' hmem => hother t l'' hmem rfl
      simp [htag, hnone]
    · simp [ht, key_inj]

variable {members : Option (List Str)}

theorem Represents.listATag (h : Represents groups G) (tag : Str)
    (hms : ∀ ms, members = some ms → ms.Nodup) :
    ∃ result G', LogicalGroup.listATag tag members groups = some (result, groups) ∧
      Represents (result.getD (init hashSize)) G' ∧
      ∀ t, G'.members t = if t = tag then (G.members t).bind (newValueOf members) else none := by
  rw [LogicalGroup.listATag, h.getTag_eq]
  cases hv : G.members tag with
  | none =>
    refine ⟨none, TagMap.empty, rfl, represents_init hashSize, fun t => ?_⟩
    split_ifs with ht
    · rw [ht, hv]
      rfl
    · rfl
  | some v =>
    obtain ⟨oGroups, G', hset, h', hmembers⟩ := (represents_init hashSize).setNewValue
      (show TagMap.empty.members tag = none from rfl) fun l' hl' => (newValueOf_eq_some (G.nodup tag v hv) hms hl').1
    refine ⟨some oGroups, G', by simp [hset], h', fun t => ?_⟩
    rw [hmembers]
    split_ifs with ht
    · rw [ht, hv]
      rfl
    · rfl

theorem Represents.listAllTags (h : Represents groups G)
    (hms : ∀ ms, members = some ms → ms.Nodup) :
    ∃ result G', LogicalGroup.listAllTags members groups = some (result, groups) ∧
      Represents (result.getD (init hashSize)) G' ∧
      ∀ t, G'.members t = (G.members t).bind (newValueOf members) := by
  cases members with
  | none =>
    refine ⟨some groups, G, rfl, h, fun t => ?_⟩
    cases G.members t <;> rfl
  | some ms =>
    obtain ⟨oGroups, G', hrun, h', hmembers⟩ := listEntries_spec
      (fun l l' hl hnew => (newValueOf_eq_some hl hms hnew).1) (entries groups.table)
      (represents_init hashSize) (nodup_keys_entries h.inv.chained) (by
        intro k l hmem
        obtain ⟨t, rfl⟩ := h.keys k l (holds_iff_mem_entries.mpr hmem)
        exact ⟨G.nodup t l ((h.mem_entries_iff t l).mp hmem), t, rfl, rfl⟩)
    refine ⟨some oGroups, G', ?_, h', fun t => ?_⟩
    · simp only [LogicalGroup.listAllTags, listAllTagsLoop_eq, hrun]
      rfl
    · ext l'
      simp [hmembers, h.mem_entries_iff, TagMap.empty, Option.bind_eq_some_iff]

end Paths

/-- **A listing is the intersection**, for a text without duplicates that parses and for `*`, on
the named tag and on all; and the table is left as it was. -/
theorem list_spec {groups : Groups} {G : TagMap} (h : Represents groups G) (tag regex : Str)
    (erange : Bool) (hregex : isDoAllWildcard regex = true ∨ ∃ names e,
      extractNodeNames (some regex) erange = some (.ok names, e) ∧ names.Nodup) :
    ∃ result G', list tag regex groups erange = some (result, groups) ∧
      Represents (result.getD (HashTable.init hashSize)) G' ∧
      ListsPart (namedBy tag) (goneOf regex erange) G G' := by
  have hinternal : list tag regex groups erange = listInternal tag (goneOf regex erange) groups ∧
      ∀ ms, goneOf regex erange = some ms → ms.Nodup := by
    rw [list, goneOf]
    cases hwild : isDoAllWildcard regex with
    | true => simp
    | false =>
      obtain ⟨names, e, hnames, hnodup⟩ := hregex.resolve_left (by simp [hwild])
      simpa [listed, hnames] using hnodup
  obtain ⟨hlist, hms⟩ := hinternal
  rw [hlist, listInternal]
  cases htag : isDoAllWildcard tag with
  | true =>
    obtain ⟨result, G', hrun, h', hmembers⟩ := h.listAllTags hms
    refine ⟨result, G', hrun, h', ListsPart.of_members hms fun t => ?_⟩
    rw [hmembers, namedBy, htag]
    rfl
  | false =>
    obtain ⟨result, G', hrun, h', hmembers⟩ := h.listATag tag hms
    refine ⟨result, G', hrun, h', ListsPart.of_members hms fun t => ?_⟩
    rw [hmembers, namedBy, htag]
    simp

/-- Of the members `b`, `c` and `d` the group `g` has two, and the group `h` is not asked for. -/
theorem list_spec_overlap : ∃ groups G, Represents groups G ∧
    G.members (ofString "g") = some [ofString "a", ofString "b", ofString "c"] ∧
    G.members (ofString "h") = some [ofString "d"] ∧
    ∃ result G', list (ofString "g") (ofString "b,c,d") groups false = some (result, groups) ∧
      Represents (result.getD (HashTable.init hashSize)) G' ∧
      ListsPart (namedBy (ofString "g")) (goneOf (ofString "b,c,d") false) G G' ∧
      G'.members (ofString "h") = none ∧ ∃ l, G'.members (ofString "g") = some l ∧
        ∀ x, x ∈ l ↔ x = ofString "b" ∨ x = ofString "c" := by
  have hg : extractNodeNames (some (ofString "a,b,c")) false =
      some (.ok [ofString "a", ofString "b", ofString "c"], false) := by decide +kernel
  have hh : extractNodeNames (some (ofString "d")) false = some (.ok [ofString "d"], false) := by
    decide +kernel
  have hasked : extractNodeNames (some (ofString "b,c,d")) false =
      some (.ok [ofString "b", ofString "c", ofString "d"], false) := by decide +kernel
  obtain ⟨groups₁, -, h₁⟩ := (represents_init 10).add (ofString "g") hg
  obtain ⟨groups, -, h⟩ := h₁.add (ofString "h") hh
  obtain ⟨result, G', hlist, h', hpart⟩ := list_spec h (ofString "g") (ofString "b,c,d") false
    (.inr ⟨_, false, hasked, by decide⟩)
  refine ⟨groups, _, h, by decide, by decide, result, G', hlist, h', hpart, ?_, ?_⟩
  · have hnot : ¬ (G'.members (ofString "h")).isSome = true := fun hsome =>
      absurd ((hpart.tags _).mp hsome).1 (by decide)
    simpa using hnot
  · have hgone : goneOf (ofString "b,c,d") false =
        some [ofString "b", ofString "c", ofString "d"] := by
      rw [goneOf, listed, hasked]
      rfl
    have hsome : (G'.members (ofString "g")).isSome = true := (hpart.tags _).mpr
      ⟨by decide, _, rfl, fun ms hms => ⟨ofString "b", ?_, by decide⟩⟩
    · obtain ⟨l', hl'⟩ := Option.isSome_iff_exists.mp hsome
      obtain ⟨l, hl, hmem⟩ := hpart.members _ l' hl'
      obtain rfl : [ofString "a", ofString "b", ofString "c"] = l := Option.some.inj hl
      refine ⟨l', hl', fun x => (hmem x).trans ?_⟩
      rw [hgone]
      constructor
      · rintro ⟨hx, hms⟩
        have hb := hms _ rfl
        simp only [mem_cons, not_mem_nil, or_false] at hx
        rcases hx with rfl | hx
        · exact absurd hb (by decide)
        · exact hx
      · rintro (rfl | rfl) <;> exact ⟨by decide, by rintro ms ⟨⟩; decide⟩
    · rw [hgone] at hms
      cases hms
      decide

end Sensys.Orcm.LogicalGroup
