/-
# The group table as a map from tags to members

What `orcm_logical_group_add` and `orcm_logical_group_remove` are for: a finite map from tags to
duplicate-free, ordered member lists (`TagMap`).  `add` appends the members a tag did not have;
`remove` deletes the named members, or all, from the named tag, or from every tag, and a tag left
without members disappears.

The table does this, with one exception.  `remove("*", members)` walks over the hash table and
deletes tags from it on the way, and a deletion moves the elements behind the deleted one.  An
element that moves INTO the slot the walk is at is never visited, and keeps the members it should
have lost.  `NoSkip` excludes that: no tag that the call empties lies on the probe path of a tag
stored in a later slot.  `groupTable_refines_tagMap` is the refinement for all sequences of calls
under it.

A call that fails changes nothing (`failsCleanly_iff`), with one exception too: an `add` whose text
is refused releases the list of a tag that exists, and the table keeps the released list.
-/
import Sensys.Orcm.LogicalGroup
import Sensys.Opal.HashTableRefines
import Mathlib.Data.Set.Finite.Basic

namespace Sensys.Orcm.LogicalGroup

open Opal Orte Worklist List CString LogicalGroup HashTable

/-! ## 1. The abstract map -/

/-- **A finite map from tags to member lists without duplicates.**  The two facts are fields, so that
every operation shows once that it keeps them. -/
structure TagMap where
  members : Str → Option (List Str)
  nodup : ∀ tag l, members tag = some l → l.Nodup
  finite : {tag | (members tag).isSome}.Finite

namespace TagMap

/-- No tags. -/
def empty : TagMap where
  members := fun _ => none
  nodup := by intro tag l h; cases h
  finite := by simp

/-- `new` appended to `old`, without what is there already.  Stated with a filter, so that the old
members are seen to stay in front and in order; the code appends them one by one. -/
def appendNew (old new : List Str) : List Str :=
  old ++ (new.filter fun x => !old.contains x).foldl appendUnique []

theorem appendNew_eq (old new) : appendNew old new = new.foldl appendUnique old := by
  have hsplit := foldl_appendUnique_append new old []
  rw [List.append_nil] at hsplit
  rw [hsplit, appendNew]
  congr 3
  funext x
  simp

/-- Append members to one tag. -/
def add (G : TagMap) (tag : Str) (new : List Str) : TagMap where
  members := fun t =>
    if t = tag then some (appendNew ((G.members tag).getD []) new) else G.members t
  nodup := by
    intro t l h
    split at h
    · cases h
      rw [appendNew_eq]
      refine nodup_foldl_appendUnique ?_
      cases hold : G.members tag with
      | none => exact nodup_nil
      | some old => exact G.nodup tag old hold
    · exact G.nodup t l h
  finite := by
    refine (G.finite.insert tag).subset ?_
    intro t ht
    by_cases htag : t = tag
    · exact Or.inl htag
    · right
      simpa [htag] using ht

/-- What is left of a member list; `none` when nothing is, because a tag without members is no tag. -/
def reduce (gone : Option (List Str)) (l : List Str) : Option (List Str) :=
  match gone with
  | none => none
  | some gone =>
    if l.filter (fun x => !gone.contains x) = [] then none
    else some (l.filter fun x => !gone.contains x)

theorem reduce_nodup {gone l l'} (hl : l.Nodup) (h : reduce gone l = some l') : l'.Nodup := by
  unfold reduce at h
  split at h
  · cases h
  · split at h
    · cases h
    · cases h
      exact hl.filter _

/-- Delete the members `gone` (all, for `none`) from the tags that `named` selects. -/
def remove (G : TagMap) (named : Str → Bool) (gone : Option (List Str)) : TagMap where
  members := fun t => if named t then (G.members t).bind (reduce gone) else G.members t
  nodup := by
    intro t l h
    split at h
    · obtain ⟨old, hold, hred⟩ := Option.bind_eq_some_iff.mp h
      exact reduce_nodup (G.nodup t old hold) hred
    · exact G.nodup t l h
  finite := by
    refine G.finite.subset ?_
    intro t ht
    simp only [Set.mem_ofPred_eq] at ht ⊢
    split at ht
    · cases hold : G.members t with
      | none => simp [hold] at ht
      | some old => rfl
    · exact ht

end TagMap

/-! ## 2. The calls, on the map -/

/-- One call of the interface, with the `errno` it is made under. -/
inductive Call where
  | add (tag regex : Str) (erange : Bool)
  | remove (tag regex : Str) (erange : Bool)

/-- The members an expression lists; what a failing expression lists does not matter. -/
def listed (regex : Str) (erange : Bool) : List Str :=
  match extractNodeNames (some regex) erange with
  | some (.ok names, _) => names
  | _ => []

/-- The member string of the call parses. -/
def Call.Parses : Call → Prop
  | .add _ regex erange => ∃ names e, extractNodeNames (some regex) erange = some (.ok names, e)
  | .remove _ regex erange => isDoAllWildcard regex = true ∨
      ∃ names e, extractNodeNames (some regex) erange = some (.ok names, e)

/-- The members a `remove` names; `none` for all. -/
def goneOf (regex : Str) (erange : Bool) : Option (List Str) :=
  if isDoAllWildcard regex then none else some (listed regex erange)

/-- The tags a `remove` names. -/
def namedBy (tag : Str) (t : Str) : Bool := isDoAllWildcard tag || decide (t = tag)

open Classical in
/-- The return code of a `remove`.  It succeeds only if EVERY named tag has ALL the members that are to
go; a call that would be right for some of the tags only is refused as a whole. -/
noncomputable def removeRc (G : TagMap) (tag : Str) (gone : Option (List Str)) : Rc :=
  if ∀ t, G.members t = none then .errNoAnyGroup
  else if isDoAllWildcard tag = false ∧ G.members tag = none then .errGroupNotExist
  else if ∀ t l ms, namedBy tag t = true → G.members t = some l → gone = some ms → ∀ x ∈ ms, x ∈ l
    then .success
  else .errNodeNotExist

/-- **What a call does to the map.**  `add` is defined for texts that parse, and those always succeed. -/
noncomputable def tagMapApply (G : TagMap) : Call → Rc × TagMap
  | .add tag regex erange => (.success, G.add tag (listed regex erange))
  | .remove tag regex erange =>
    (removeRc G tag (goneOf regex erange),
      if removeRc G tag (goneOf regex erange) = .success then
        G.remove (namedBy tag) (goneOf regex erange)
      else G)

/-- A sequence of calls on the map. -/
noncomputable def tagMapRun : TagMap → List Call → List Rc × TagMap
  | G, [] => ([], G)
  | G, c :: cs =>
    ((tagMapApply G c).1 :: (tagMapRun (tagMapApply G c).2 cs).1,
      (tagMapRun (tagMapApply G c).2 cs).2)

/-! ## 3. The calls, on the table -/

/-- One call on the table. -/
def applyCall (groups : Groups) : Call → Option (Rc × Groups)
  | .add tag regex erange => LogicalGroup.add tag regex groups erange
  | .remove tag regex erange => LogicalGroup.remove tag regex groups erange

/-- A sequence of calls on the table. -/
def runCalls : Groups → List Call → Option (List Rc × Groups)
  | groups, [] => some ([], groups)
  | groups, c :: cs =>
    (applyCall groups c).bind fun r => (runCalls r.2 cs).map fun rs => (r.1 :: rs.1, rs.2)

/-- **No tag the call empties lies on the probe path of a tag in a later slot.**  If slot `i` becomes
free, an element behind it is moved only if its probe path crosses `i`; and the walk, which goes on at
`i + 1`, misses what was moved to `i`. -/
def NoSkip (groups : Groups) (ms : List Str) : Prop :=
  ∀ i k v, groups.elt i = some (k, v) → (∀ x ∈ v, x ∈ ms) →
    ∀ q x, i < q → groups.elt q = some x → ¬ Probe.Crosses hashKeyPtr groups.capacity x.1 q i

/-- The condition on a call, in the state before it: it concerns `remove("*", members)` only. -/
def Call.Safe (groups : Groups) : Call → Prop
  | .add _ _ _ => True
  | .remove tag regex erange =>
    isDoAllWildcard tag = true → ∀ ms, goneOf regex erange = some ms → NoSkip groups ms

/-- Every call of a sequence is safe in the state it is made in. -/
def SafeCalls : Groups → List Call → Prop
  | _, [] => True
  | groups, c :: cs =>
    c.Safe groups ∧ ∀ rc groups', applyCall groups c = some (rc, groups') → SafeCalls groups' cs

/-- **The table represents the map.**  Keys are tags with their terminating zero, which the library of
the hash table does not know of. -/
structure Represents (groups : Groups) (G : TagMap) : Prop where
  inv : Inv hashKeyPtr groups
  keys : ∀ k v, Probe.Holds groups.capacity groups.elt k v → ∃ tag, k = key tag
  members_iff : ∀ tag v,
    G.members tag = some v ↔ Probe.Holds groups.capacity groups.elt (key tag) v

theorem key_inj {a b} : key a = key b ↔ a = b := by
  simp [key]

/-- A table that stands for a map by keys represents the map by tags. -/
theorem represents_of_map {groups G m} (hm : Refines hashKeyPtr groups m)
    (hkeys : ∀ k v, m.lookup k = some v → ∃ tag, k = key tag)
    (hlookup : ∀ tag, m.lookup (key tag) = G.members tag) : Represents groups G :=
  ⟨hm.toInv, fun k v hv => hkeys k v ((hm.lookup_iff k v).mpr hv),
    fun tag v => by rw [← hlookup, hm.lookup_iff]⟩

theorem represents_init (tableSize : ℕ) : Represents (init tableSize) TagMap.empty :=
  represents_of_map (init_spec hashKeyPtr tableSize) (by simp) fun _ => Finmap.lookup_empty _

section Represented

variable {groups : Groups} {G : TagMap}

section

variable (h : Represents groups G)
include h

/-- The map by keys that the table stands for: through it the rules of the hash table apply. -/
theorem Represents.exists_map :
    ∃ m : Finmap (fun _ : Str => List Str), Refines hashKeyPtr groups m ∧
      (∀ tag, m.lookup (key tag) = G.members tag) := by
  obtain ⟨m, hm⟩ := h.inv.exists_refines
  refine ⟨m, hm, fun tag => ?_⟩
  ext v
  exact (hm.lookup_iff _ _).trans (h.members_iff tag v).symm

theorem Represents.getTag_eq (tag : Str) :
    getTag groups tag = some ((G.members tag).elim (.error .errNotFound) .ok) := by
  obtain ⟨m, hm, hlookup⟩ := h.exists_map
  rw [getTag, getValue_spec hm, hlookup]

/-- Setting the members of a tag. -/
theorem Represents.setValue (tag : Str) (v : List Str) {G'}
    (hG' : ∀ t, G'.members t = if t = tag then some v else G.members t) :
    ∃ groups', groups.setValue hashKeyPtr (key tag) v = some (.success, groups') ∧
      Represents groups' G' := by
  obtain ⟨m, hm, hlookup⟩ := h.exists_map
  obtain ⟨groups', hset, hm'⟩ := setValue_spec hm (key tag) v
  refine ⟨groups', hset, represents_of_map hm' ?_ ?_⟩
  · intro k w hw
    rcases (lookup_insert_iff hm.lookup_iff v k w).mp hw with ⟨rfl, -⟩ | ⟨-, hold⟩
    · exact ⟨tag, rfl⟩
    · exact h.keys k w hold
  · intro t
    rw [hG']
    by_cases ht : t = tag
    · rw [ht, if_pos rfl, Finmap.lookup_insert]
    · rw [if_neg ht, Finmap.lookup_insert_of_ne _ (by rwa [ne_eq, key_inj]), hlookup]

/-- Removing a tag that is there. -/
theorem Represents.removeValue {tag v} (hv : G.members tag = some v) {G'}
    (hG' : ∀ t, G'.members t = if t = tag then none else G.members t) :
    ∃ groups', groups.removeValue hashKeyPtr (key tag) = some (.success, groups') ∧
      Represents groups' G' := by
  obtain ⟨m, hm, hlookup⟩ := h.exists_map
  obtain ⟨groups', hrem, hm'⟩ := removeValue_spec hm (key tag)
  rw [hlookup, hv] at hrem
  refine ⟨groups', hrem, represents_of_map hm' ?_ ?_⟩
  · intro k w hw
    exact h.keys k w ((hm.lookup_iff k w).mp ((lookup_erase_iff _ _ _).mp hw).2)
  · intro t
    rw [hG']
    by_cases ht : t = tag
    · rw [ht, if_pos rfl, Finmap.lookup_erase]
    · rw [if_neg ht, Finmap.lookup_erase_ne (by rwa [ne_eq, key_inj]), hlookup]

end

end Represented

/-! ## 4. One tag -/

theorem addMembers_eq (new old) : addMembers new old = TagMap.appendNew old new := by
  rw [TagMap.appendNew_eq]
  induction new generalizing old with
  | nil => rfl
  | cons x new ih =>
    rw [addMembers, ih, foldl_cons]
    by_cases hx : x ∈ old <;> simp [appendUnique, memberExist, hx]

variable {v : List Str} {groups : Groups}

/-- From a list without duplicates the loop deletes every member it names: it removes the first match
and goes on with the next name, and there is no second match. -/
theorem removeItems_eq_filter (ms : List Str) (hv : v.Nodup) :
    removeItems ms v = v.filter fun x => !ms.contains x := by
  induction ms generalizing v with
  | nil => simp [removeItems]
  | cons m ms ih =>
    have hstep : removeItems (m :: ms) v = removeItems ms (v.erase m) := rfl
    rw [hstep, ih (hv.erase m), hv.erase_eq_filter, filter_filter]
    refine filter_congr ?_
    intro x _
    by_cases hx : x = m <;> simp [hx]

theorem allMembersExistOneTag_eq (v ms) :
    allMembersExistOneTag v ms = if ∀ x ∈ ms, x ∈ v then .success else .errNodeNotExist := by
  simp [allMembersExistOneTag, memberExist]

theorem TagMap.reduce_some {ms} (hv : v.Nodup) :
    TagMap.reduce (some ms) v = if removeItems ms v = [] then none else some (removeItems ms v) := by
  rw [removeItems_eq_filter ms hv, TagMap.reduce]

/-- `add`, on a tag that may or may not be there: without one the list starts empty. -/
theorem Represents.add {G} (h : Represents groups G) (tag : Str) {regex erange names e}
    (hnames : extractNodeNames (some regex) erange = some (.ok names, e)) :
    ∃ groups', LogicalGroup.add tag regex groups erange = some (.success, groups') ∧
      Represents groups' (G.add tag names) := by
  have hold : hashTableGet groups tag = some ((G.members tag).getD []) := by
    rw [hashTableGet, h.getTag_eq]
    cases G.members tag <;> rfl
  rw [LogicalGroup.add, hold, hnames]
  simp only [Option.bind_some, addMembers_eq]
  exact h.setValue tag _ fun _ => rfl

/-- What `remove` on one tag makes of the map. -/
theorem TagMap.remove_one {G : TagMap} {tag named} (hnamed : ∀ t, named t = true ↔ t = tag)
    (hv : G.members tag = some v) (gone : Option (List Str)) (t : Str) :
    (G.remove named gone).members t = if t = tag then TagMap.reduce gone v else G.members t := by
  simp only [TagMap.remove, hnamed]
  split
  · simp [*]
  · rfl

/-- Members of one tag are removed: the tag goes with its last member. -/
theorem Represents.removeMembers {G : TagMap} (h : Represents groups G) {tag named}
    (hnamed : ∀ t, named t = true ↔ t = tag) (hv : G.members tag = some v) (ms : List Str) :
    ∃ groups', hashTableRemoveMembers tag v ms groups = some (.success, groups') ∧
      Represents groups' (G.remove named (some ms)) := by
  have hmem := TagMap.remove_one hnamed hv (some ms)
  rw [TagMap.reduce_some (G.nodup tag v hv)] at hmem
  simp only [hashTableRemoveMembers]
  by_cases hempty : removeItems ms v = []
  · simp only [hempty, if_true] at hmem ⊢
    exact h.removeValue hv hmem
  · simp only [hempty, if_false] at hmem ⊢
    exact h.setValue tag _ hmem

/-! ## 5. The walk over all tags -/

/-- **Where the walk of `remove_all_tags` is.**  The tags stored before slot `i` have lost the
members; the slots from `i` on are as they were before the call, and so nothing is skipped.

`behind` is the part that `NoSkip` is for: without it a deletion at `i` could pull an element from
behind to a slot before the walk. -/
structure Reduced (t₀ : Groups) (ms : List Str) (i : ℕ) (groups : Groups) : Prop where
  inv : Inv hashKeyPtr groups
  capacity_eq : groups.capacity = t₀.capacity
  behind : ∀ q, i ≤ q → groups.elt q = t₀.elt q
  holds_iff : ∀ k v, Probe.Holds groups.capacity groups.elt k v ↔
    ∃ q < t₀.capacity, ∃ v₀, t₀.elt q = some (k, v₀) ∧
      if q < i then v = removeItems ms v₀ ∧ v ≠ [] else v = v₀

section Walk

variable {t₀ groups : Groups} {ms : List Str} {i : ℕ}

theorem Reduced.start (h : Inv hashKeyPtr t₀) (ms : List Str) : Reduced t₀ ms 0 t₀ := by
  refine ⟨h, rfl, fun _ _ => rfl, ?_⟩
  intro k v
  constructor
  · rintro ⟨q, hq, hs⟩
    exact ⟨q, hq, v, hs, rfl⟩
  · rintro ⟨q, hq, _, hs, rfl⟩
    exact ⟨q, hq, hs⟩

/-- Free slots are passed over. -/
theorem Reduced.skip (h : Reduced t₀ ms i groups) {j} (hij : i ≤ j)
    (hfree : ∀ q, i ≤ q → q < j → groups.elt q = none) : Reduced t₀ ms j groups := by
  refine ⟨h.inv, h.capacity_eq, fun q hq => h.behind q (by omega), ?_⟩
  intro k v
  rw [h.holds_iff]
  refine exists_congr fun q => and_congr_right fun _ => exists_congr fun v₀ =>
    and_congr_right fun hs => ?_
  have hout : ¬ (i ≤ q ∧ q < j) := by
    rintro ⟨hiq, hqj⟩
    have hnone := hfree q hiq hqj
    rw [h.behind q hiq, hs] at hnone
    cases hnone
  have hiff : q < i ↔ q < j := by omega
  simp [hiff]

/-- The bindings after the tag at slot `i` has been dealt with. -/
theorem Reduced.holds_step (h₀ : Inv hashKeyPtr t₀) (h : Reduced t₀ ms i groups)
    (hi : i < t₀.capacity) {k value} (hs : t₀.elt i = some (k, value)) (k' : Str) (v' : List Str) :
    (∃ q < t₀.capacity, ∃ v₀, t₀.elt q = some (k', v₀) ∧
      if q < i + 1 then v' = removeItems ms v₀ ∧ v' ≠ [] else v' = v₀) ↔
    (k' = k ∧ v' = removeItems ms value ∧ v' ≠ []) ∨
      (k' ≠ k ∧ Probe.Holds groups.capacity groups.elt k' v') := by
  rw [h.holds_iff]
  constructor
  · rintro ⟨q, hq, v₀, hq₀, hval⟩
    by_cases hqi : q = i
    · subst hqi
      rw [hs] at hq₀
      cases hq₀
      left
      simpa using hval
    · right
      have hlt : q < i + 1 ↔ q < i := by omega
      simp only [hlt] at hval
      refine ⟨?_, q, hq, v₀, hq₀, hval⟩
      rintro rfl
      exact hqi (h₀.chained.inj q i k' v₀ value hq hi hq₀ hs)
  · rintro (⟨rfl, hv', hne⟩ | ⟨hk, q, hq, v₀, hq₀, hval⟩)
    · refine ⟨i, hi, value, hs, ?_⟩
      simp [hv'.symm, hne]
    · refine ⟨q, hq, v₀, hq₀, ?_⟩
      have hqi : q ≠ i := by
        rintro rfl
        rw [hs] at hq₀
        cases hq₀
        exact hk rfl
      have hlt : q < i + 1 ↔ q < i := by omega
      simpa only [hlt] using hval

/-- **One step of the walk**, on the tag at slot `i`: either it loses all its members and is removed
from the table, where the frame of the deletion and `NoSkip` keep the slots behind; or its list is
replaced in its slot. -/
theorem Reduced.step (h₀ : Inv hashKeyPtr t₀) (hsafe : NoSkip t₀ ms)
    (hnodup : ∀ k v, Probe.Holds t₀.capacity t₀.elt k v → v.Nodup) (h : Reduced t₀ ms i groups)
    (hi : i < t₀.capacity) {tag value} (hs : groups.elt i = some (key tag, value)) :
    ∃ groups', hashTableRemoveMembers tag value ms groups = some (.success, groups') ∧
      Reduced t₀ ms (i + 1) groups' := by
  have hs₀ : t₀.elt i = some (key tag, value) := (h.behind i le_rfl).symm.trans hs
  have hi' : i < groups.capacity := by rw [h.capacity_eq]; exact hi
  have hbind := h.holds_step h₀ hi hs₀
  by_cases hempty : removeItems ms value = []
  · have hgone : ∀ x ∈ value, x ∈ ms := by
      rw [removeItems_eq_filter ms (hnodup _ _ ⟨i, hi, hs₀⟩)] at hempty
      simpa using hempty
    obtain ⟨groups', hrem, hinv', hcap', hholds'⟩ := removeEltAt_spec h.inv hi' hs
    -- nothing behind `i` is on a path across `i`, so nothing is moved
    have hframe := removeEltAt_frame h.inv hi' hs (fun q x hq hx => by
      rw [h.behind q (by omega)] at hx
      rw [h.capacity_eq]
      exact hsafe i _ _ hs₀ hgone q x hq hx) hrem
    refine ⟨groups', ?_, hinv', hcap'.trans h.capacity_eq, ?_, ?_⟩
    · simp only [hashTableRemoveMembers, hempty, if_true, removeValue_at h.inv hi' hs, hrem]
    · intro q hq
      rw [hframe q (by omega), h.behind q (by omega)]
    · intro k' v'
      rw [hholds', hbind, hempty]
      constructor
      · exact .inr
      · rintro (⟨-, hv', hne⟩ | hrest)
        · exact absurd hv' hne
        · exact hrest
  · obtain ⟨m, hm⟩ := h.inv.exists_refines
    have hset := setValue_existing hm (removeItems ms value) hi' hs
    refine ⟨_, ?_, hset.toInv, ?_, ?_, ?_⟩
    · simp only [hashTableRemoveMembers, hempty, if_false]
      exact setValue_at h.inv _ hi' hs
    · simpa [capacity] using h.capacity_eq
    · intro q hq
      have hqi : q ≠ i := by omega
      rw [← h.behind q (by omega)]
      simp only [elt]
      rw [slots_set _ _ hi', Function.update_of_ne hqi]
    · intro k' v'
      rw [← hset.lookup_iff, lookup_insert_iff hm.lookup_iff, hbind]
      constructor
      · rintro (⟨hk, rfl⟩ | hrest)
        · exact .inl ⟨hk, rfl, hempty⟩
        · exact .inr hrest
      · rintro (⟨hk, hv', -⟩ | hrest)
        · exact .inl ⟨hk, hv'⟩
        · exact .inr hrest

/-- **The walk reaches every tag**: it ends, and the whole table is reduced.  Induction on the fuel,
with the slot where the walk is; every step goes to a later slot, so that one more than the capacity is
enough. -/
theorem removeAllTagsLoop_reduces (h₀ : Inv hashKeyPtr t₀) (hsafe : NoSkip t₀ ms)
    (hnodup : ∀ k v, Probe.Holds t₀.capacity t₀.elt k v → v.Nodup)
    (hkeys : ∀ k v, Probe.Holds t₀.capacity t₀.elt k v → ∃ tag, k = key tag) : ∀ fuel node groups,
      startOf node ≤ t₀.capacity → t₀.capacity < fuel + startOf node →
      Reduced t₀ ms (startOf node) groups →
      ∃ groups', removeAllTagsLoop ms fuel node groups = some (.success, groups') ∧
        Reduced t₀ ms t₀.capacity groups' := by
  intro fuel
  induction fuel with
  | zero =>
    intro node groups hstart hfuel
    omega
  | succ fuel ih =>
    intro node groups hstart hfuel h
    rw [removeAllTagsLoop]
    rcases getNextKey_spec groups node with ⟨hend, hfree⟩ | ⟨x, i, hnext, hle, hi, hx, hfree⟩
    · rw [hend]
      rw [h.capacity_eq] at hfree
      exact ⟨groups, rfl, h.skip hstart hfree⟩
    · obtain ⟨k, value⟩ := x
      rw [h.capacity_eq] at hi
      have hat := h.skip hle hfree
      obtain ⟨tag, rfl⟩ := hkeys k value ⟨i, hi, (hat.behind i le_rfl).symm.trans hx⟩
      obtain ⟨groups', hrun, hred⟩ := hat.step h₀ hsafe hnodup hi hx
      obtain ⟨groups'', hrest, hdone⟩ :=
        ih (some i) groups' hi (by rw [startOf]; omega) hred
      refine ⟨groups'', ?_, hdone⟩
      simp only [hnext, key, dropLast_concat, hrun, Option.bind_some, ne_eq,
        not_true_eq_false, if_false, hrest]

/-- The walk that checks the members first.  It changes nothing, so that it is a function of the entries
in the order of their slots. -/
theorem allMembersExistAllTags_eq (groups ms) :
    allMembersExistAllTags groups ms (groups.capacity + 1) none =
      some (if ∀ e ∈ entries groups.table, ∀ x ∈ ms, x ∈ e.2 then .success
        else .errNodeNotExist) := by
  refine walk_spec groups (allMembersExistAllTags groups ms) (fun es =>
    some (if ∀ e ∈ es, ∀ x ∈ ms, x ∈ e.2 then .success else .errNodeNotExist)) ?_ ?_
  · intro fuel node rc hend
    simp [allMembersExistAllTags, hend]
  · intro fuel node e i es hnext hrest
    simp only [allMembersExistAllTags, hnext, hrest, allMembersExistOneTag_eq, forall_mem_cons]
    by_cases hall : ∀ x ∈ ms, x ∈ e.2
    · simp only [ite_and, if_pos hall, ne_eq, not_true_eq_false, if_false]
    · simp only [ite_and, if_neg hall, ne_eq, reduceCtorEq, not_false_eq_true, if_true]

end Walk

/-! ## 6. The calls -/

section Calls

variable {groups : Groups} {G : TagMap}

theorem Represents.nodup (h : Represents groups G) (k : Str) (v : List Str)
    (hv : Probe.Holds groups.capacity groups.elt k v) : v.Nodup := by
  obtain ⟨tag, rfl⟩ := h.keys k v hv
  exact G.nodup tag v ((h.members_iff tag v).mpr hv)

variable {tag : Str}

/-- What `remove` on every tag makes of the map. -/
theorem TagMap.remove_every (G : TagMap) (htag : isDoAllWildcard tag = true)
    (gone : Option (List Str)) (t : Str) :
    (G.remove (namedBy tag) gone).members t = (G.members t).bind (TagMap.reduce gone) := by
  simp [TagMap.remove, namedBy, htag]

/-- A reduced table represents the reduced map: behind the last slot all tags have been reduced. -/
theorem Reduced.represents (h : Represents groups G) {ms groups'}
    (hred : Reduced groups ms groups.capacity groups') (htag : isDoAllWildcard tag = true) :
    Represents groups' (G.remove (namedBy tag) (some ms)) := by
  have hholds : ∀ k v, Probe.Holds groups'.capacity groups'.elt k v ↔
      ∃ v₀, Probe.Holds groups.capacity groups.elt k v₀ ∧ v = removeItems ms v₀ ∧ v ≠ [] := by
    intro k v
    rw [hred.holds_iff]
    constructor
    · rintro ⟨q, hq, v₀, hs, hval⟩
      rw [if_pos hq] at hval
      exact ⟨v₀, ⟨q, hq, hs⟩, hval⟩
    · rintro ⟨v₀, ⟨q, hq, hs⟩, hval⟩
      exact ⟨q, hq, v₀, hs, by rwa [if_pos hq]⟩
  refine ⟨hred.inv, ?_, ?_⟩
  · intro k v hv
    obtain ⟨v₀, hv₀, -⟩ := (hholds k v).mp hv
    exact h.keys k v₀ hv₀
  · intro t v
    rw [hholds, G.remove_every htag, Option.bind_eq_some_iff]
    refine exists_congr fun v₀ => ?_
    rw [h.members_iff]
    refine and_congr_right fun hv₀ => ?_
    rw [TagMap.reduce_some (h.nodup _ _ hv₀)]
    by_cases hempty : removeItems ms v₀ = []
    · simp [hempty]
    · constructor
      · intro hv
        rw [if_neg hempty, Option.some.injEq] at hv
        subst hv
        exact ⟨rfl, hempty⟩
      · rintro ⟨rfl, -⟩
        rw [if_neg hempty]

/-- The table is empty exactly when the map is. -/
theorem Represents.getSize_eq_zero_iff (h : Represents groups G) :
    groups.getSize = 0 ↔ ∀ t, G.members t = none := by
  rw [getSize, h.inv.size_eq, ← length_entries, length_eq_zero_iff]
  constructor
  · intro hnone t
    cases hv : G.members t with
    | none => rfl
    | some v =>
      have hmem := holds_iff_mem_entries.mp ((h.members_iff t v).mp hv)
      rw [hnone] at hmem
      cases hmem
  · intro hnone
    rw [eq_nil_iff_forall_not_mem]
    rintro ⟨k, v⟩ hmem
    have hv := holds_iff_mem_entries.mpr hmem
    obtain ⟨tag, rfl⟩ := h.keys k v hv
    have := (h.members_iff tag v).mpr hv
    rw [hnone tag] at this
    cases this

theorem Represents.mem_entries_iff (h : Represents groups G) (tag : Str) (l : List Str) :
    (key tag, l) ∈ entries groups.table ↔ G.members tag = some l := by
  rw [h.members_iff]
  exact holds_iff_mem_entries.symm

section RemoveRc

variable (hsome : ¬ ∀ t, G.members t = none)
  (htag : ¬ (isDoAllWildcard tag = false ∧ G.members tag = none))

include hsome htag

open Classical in
/-- The return code once there is some group and the tag exists. -/
theorem removeRc_of_exists (gone : Option (List Str)) : removeRc G tag gone =
      if ∀ t l ms, namedBy tag t = true → G.members t = some l → gone = some ms →
        ∀ x ∈ ms, x ∈ l then .success else .errNodeNotExist := by
  rw [removeRc, if_neg hsome, if_neg htag]

theorem removeRc_none : removeRc G tag none = .success := by
  simp [removeRc_of_exists hsome htag]

end RemoveRc

/-- `remove` on every tag: all members by clearing the table, or some by the two walks. -/
theorem Represents.removeAllTags (h : Represents groups G)
    (htag : isDoAllWildcard tag = true) (gone : Option (List Str))
    (hsome : ¬ ∀ t, G.members t = none) (hsafe : ∀ ms, gone = some ms → NoSkip groups ms) :
    ∃ groups', LogicalGroup.removeAllTags gone groups = some (removeRc G tag gone, groups') ∧
      Represents groups' (if removeRc G tag gone = .success then G.remove (namedBy tag) gone
        else G) := by
  cases gone with
  | none =>
    rw [removeRc_none hsome (by simp [htag]), if_pos rfl]
    refine ⟨groups.removeAll.2, rfl, ?_⟩
    obtain ⟨m, hm, -⟩ := h.exists_map
    refine represents_of_map (removeAll_spec hm).2 (by simp) fun t => ?_
    rw [G.remove_every htag]
    cases G.members t <;> rfl
  | some ms =>
    have hcheck : allMembersExistAllTags groups ms (groups.capacity + 1) none =
        some (removeRc G tag (some ms)) := by
      rw [allMembersExistAllTags_eq, removeRc_of_exists hsome (by simp [htag]), Option.some.injEq]
      classical
      refine if_congr ⟨?_, ?_⟩ rfl rfl
      · intro hall t l ms' _ hl hms
        cases hms
        exact hall (key t, l) ((h.mem_entries_iff t l).mpr hl)
      · rintro hall ⟨k, v⟩ hmem
        obtain ⟨t, rfl⟩ := h.keys k v (holds_iff_mem_entries.mpr hmem)
        exact hall t v ms (by simp [namedBy, htag]) ((h.mem_entries_iff t v).mp hmem) rfl
    simp only [LogicalGroup.removeAllTags, hcheck, Option.bind_some]
    by_cases hok : removeRc G tag (some ms) = .success
    · obtain ⟨groups', hrun, hred⟩ := removeAllTagsLoop_reduces h.inv (hsafe ms rfl) h.nodup h.keys
        (groups.capacity + 1) none groups (Nat.zero_le _) (by rw [startOf]; omega)
        (Reduced.start h.inv ms)
      refine ⟨groups', by simp [hok, hrun], ?_⟩
      rw [if_pos hok]
      exact hred.represents h htag
    · exact ⟨groups, by rw [if_pos hok], by rwa [if_neg hok]⟩

/-- `remove` on one tag; no walk, and no condition. -/
theorem Represents.removeOneTag (h : Represents groups G)
    (htag : isDoAllWildcard tag = false) (gone : Option (List Str))
    (hsome : ¬ ∀ t, G.members t = none) :
    ∃ groups', removeATag tag gone groups = some (removeRc G tag gone, groups') ∧
      Represents groups' (if removeRc G tag gone = .success then G.remove (namedBy tag) gone
        else G) := by
  rw [removeATag, h.getTag_eq]
  cases hv : G.members tag with
  | none =>
    have hrc : removeRc G tag gone = .errGroupNotExist := by
      rw [removeRc, if_neg hsome, if_pos ⟨htag, hv⟩]
    rw [hrc, if_neg (by decide)]
    exact ⟨groups, rfl, h⟩
  | some v =>
    have hnamed : ∀ t, namedBy tag t = true ↔ t = tag := fun t => by simp [namedBy, htag]
    simp only [Option.elim, Option.bind_some]
    cases gone with
    | none =>
      rw [removeRc_none hsome (by simp [hv]), if_pos rfl]
      exact h.removeValue hv (TagMap.remove_one hnamed hv none)
    | some ms =>
      have hcheck : allMembersExistOneTag v ms = removeRc G tag (some ms) := by
        rw [allMembersExistOneTag_eq, removeRc_of_exists hsome (by simp [hv])]
        classical
        refine if_congr ⟨?_, fun hall => hall tag v ms ((hnamed tag).mpr rfl) hv rfl⟩ rfl rfl
        intro hall t l ms' ht hl hms
        rw [(hnamed t).mp ht, hv] at hl
        cases hl
        cases hms
        exact hall
      simp only [hcheck]
      by_cases hok : removeRc G tag (some ms) = .success
      · simp only [hok, ne_eq, not_true_eq_false, if_false, if_true]
        exact h.removeMembers hnamed hv ms
      · exact ⟨groups, by rw [if_pos hok], by rwa [if_neg hok]⟩

/-- **One call on the table is one call on the map**: the step of the refinement.  The code looks at the
size of the table before it parses the members, the map at both at once; `hbody` says that this makes
no difference. -/
theorem applyCall_refines (h : Represents groups G) (c : Call) (hparse : c.Parses)
    (hsafe : c.Safe groups) : ∃ groups', applyCall groups c = some ((tagMapApply G c).1, groups') ∧
      Represents groups' (tagMapApply G c).2 := by
  cases c with
  | add tag regex erange =>
    obtain ⟨names, e, hnames⟩ := hparse
    have hlisted : listed regex erange = names := by rw [listed, hnames]
    rw [applyCall, tagMapApply, hlisted]
    exact h.add tag hnames
  | remove tag regex erange =>
    simp only [applyCall, tagMapApply]
    have hbody : groups.getSize ≠ 0 → remove tag regex groups erange
        = removeInternal tag (goneOf regex erange) groups := by
      intro hsize
      rw [remove, if_neg hsize, goneOf]
      cases hwild : isDoAllWildcard regex with
      | true => rfl
      | false =>
        obtain ⟨names, e, hnames⟩ := hparse.resolve_left (by simp [hwild])
        simp [listed, hnames]
    by_cases hempty : ∀ t, G.members t = none
    · have hsize := h.getSize_eq_zero_iff.mpr hempty
      have hrc : removeRc G tag (goneOf regex erange) = .errNoAnyGroup := by
        rw [removeRc, if_pos hempty]
      refine ⟨groups, ?_, ?_⟩
      · rw [remove, if_pos hsize, hrc]
      · rw [hrc, if_neg (by decide)]
        exact h
    · rw [hbody (fun hsize => hempty (h.getSize_eq_zero_iff.mp hsize)), removeInternal]
      cases htag : isDoAllWildcard tag with
      | true => exact h.removeAllTags htag _ hempty (hsafe htag)
      | false => exact h.removeOneTag htag _ hempty

end Calls

/-- **Every safe sequence of calls**, by induction on it. -/
theorem runCalls_refines : ∀ calls {groups G},
    Represents groups G → (∀ c ∈ calls, c.Parses) → SafeCalls groups calls →
    ∃ groups', runCalls groups calls = some ((tagMapRun G calls).1, groups') ∧
      Represents groups' (tagMapRun G calls).2
  | [], groups, _, h, _, _ => ⟨groups, rfl, h⟩
  | c :: cs, groups, G, h, hparse, hsafe => by
    obtain ⟨groups₁, hcall, h₁⟩ :=
      applyCall_refines h c (hparse c mem_cons_self) hsafe.1
    obtain ⟨groups', hrun, h'⟩ := runCalls_refines cs h₁
      (fun c hc => hparse c (mem_cons_of_mem _ hc)) (hsafe.2 _ _ hcall)
    exact ⟨groups', by simp [runCalls, hcall, hrun, tagMapRun], h'⟩

/-- **The group table refines the map from tags to members**: from an empty table of any size,
every sequence of calls whose member strings parse returns, with the codes of the map and a table
that represents it, as long as no `remove("*", members)` empties a tag that lies on the probe path
of a tag stored behind it. -/
theorem groupTable_refines_tagMap (tableSize : ℕ) (calls : List Call)
    (hparse : ∀ c ∈ calls, c.Parses) (hsafe : SafeCalls (HashTable.init tableSize) calls) :
    ∃ groups', runCalls (HashTable.init tableSize) calls
        = some ((tagMapRun TagMap.empty calls).1, groups') ∧
      Represents groups' (tagMapRun TagMap.empty calls).2 :=
  runCalls_refines calls (represents_init tableSize) hparse hsafe

/-- Nothing is skipped when no tag loses all its members: nothing is deleted from the table then. -/
theorem noSkip_of_none_emptied {ms} (h : ∀ e ∈ entries groups.table, ∃ x ∈ e.2, x ∉ ms) :
    NoSkip groups ms := by
  intro i k v hs hall
  by_cases hi : i < groups.table.length
  · obtain ⟨x, hx, hxm⟩ := h (k, v) (mem_entries.mpr ⟨i, hi, hs⟩)
    exact absurd (hall x hx) hxm
  · simp [elt, slots, List.getD, getElem?_eq_none (not_lt.mp hi)] at hs

/-- Two overlapping groups, and one member taken out of both. -/
theorem groupTable_refines_tagMap_two : let calls : List Call :=
      [.add (CString.ofString "g1") (CString.ofString "a,b") false,
        .add (CString.ofString "g2") (CString.ofString "b,c") false,
        .remove (CString.ofString "*") (CString.ofString "b") false]
    ∃ groups', runCalls (HashTable.init 10) calls
        = some ((tagMapRun TagMap.empty calls).1, groups') ∧
      Represents groups' (tagMapRun TagMap.empty calls).2 := by
  intro calls
  refine groupTable_refines_tagMap 10 calls ?_ ?_
  · intro c hc
    simp only [calls, mem_cons, not_mem_nil, or_false] at hc
    rcases hc with rfl | rfl | rfl
    · exact ⟨[ofString "a", ofString "b"], false, by decide +kernel⟩
    · exact ⟨[ofString "b", ofString "c"], false, by decide +kernel⟩
    · exact .inr ⟨[ofString "b"], false, by decide +kernel⟩
  · refine ⟨trivial, fun rc₁ groups₁ h₁ => ⟨trivial, fun rc₂ groups₂ h₂ => ⟨?_, ?_⟩⟩⟩
    · intro _ ms hms
      have hgone : goneOf (ofString "b") false = some [ofString "b"] := by
        decide +kernel
      obtain rfl : [ofString "b"] = ms := Option.some.inj (hgone.symm.trans hms)
      -- both groups keep a member
      have hkeep : ((runCalls (init 10) (calls.take 2)).map fun r =>
          (entries r.2.table).all fun e => e.2.any fun x => decide (x ∉ [ofString "b"]))
          = some true := by decide +kernel
      have hrun : runCalls (init 10) (calls.take 2) = some ([rc₁, rc₂], groups₂) := by
        simp [calls, runCalls, h₁, h₂]
      rw [hrun, Option.map_some, Option.some.injEq] at hkeep
      refine noSkip_of_none_emptied ?_
      simpa only [all_eq_true, any_eq_true, decide_eq_true_eq] using hkeep
    · exact fun _ _ _ => trivial

/-! ## 7. Calls that fail -/

section Failures

variable {G : TagMap} {tag : Str}

/-- The walk never fails, whatever it skips: it deletes from tags that are there.  No `NoSkip` is
needed, as only the code is asked for; the table still represents some map after every step. -/
theorem Represents.removeAllTagsLoop_success {ms rc groups'} :
    ∀ fuel node {groups G}, Represents groups G →
      removeAllTagsLoop ms fuel node groups = some (rc, groups') → rc = .success
  | 0, _, _, _, _, hrun => by cases hrun
  | fuel + 1, node, groups, G, h, hrun => by
    rw [removeAllTagsLoop] at hrun
    rcases getNextKey_spec groups node with ⟨hend, -⟩ | ⟨⟨k, v⟩, i, hnext, -, hi, hx, -⟩
    · rw [hend] at hrun
      cases hrun
      rfl
    · obtain ⟨tag, rfl⟩ := h.keys k v ⟨i, hi, hx⟩
      have hv := (h.members_iff tag v).mpr ⟨i, hi, hx⟩
      obtain ⟨groups₁, hremove, h₁⟩ := h.removeMembers (fun t => decide_eq_true_iff) hv ms
      simp only [hnext, key, dropLast_concat, hremove, Option.bind_some, ne_eq,
        not_true_eq_false, if_false] at hrun
      exact h₁.removeAllTagsLoop_success fuel (some i) hrun

/-- A `remove` that fails has changed nothing: all errors are found before the first change. -/
theorem Represents.remove_error (h : Represents groups G) {regex : Str} {erange rc groups'}
    (hcall : remove tag regex groups erange = some (rc, groups')) (hrc : rc ≠ .success) :
    groups' = groups := by
  have hinternal : ∀ gone, removeInternal tag gone groups = some (rc, groups') →
      groups' = groups := by
    intro gone hrun
    simp only [removeInternal, removeATag, h.getTag_eq] at hrun
    split at hrun
    · cases gone with
      | none =>
        cases hrun
        exact absurd rfl hrc
      | some ms =>
        obtain ⟨checked, -, hrun⟩ := Option.bind_eq_some_iff.mp hrun
        split at hrun
        · cases hrun
          rfl
        · exact absurd (h.removeAllTagsLoop_success _ _ hrun) hrc
    · cases hv : G.members tag with
      | none =>
        rw [hv] at hrun
        cases hrun
        rfl
      | some v =>
        simp only [hv, Option.elim, Option.bind_some] at hrun
        cases gone with
        | none =>
          obtain ⟨groups₁, hremove, -⟩ := h.removeValue hv
            (TagMap.remove_one (fun t => decide_eq_true_iff) hv none)
          cases hremove.symm.trans hrun
          exact absurd rfl hrc
        | some ms =>
          simp only at hrun
          split at hrun
          · cases hrun
            rfl
          · obtain ⟨groups₁, hremove, -⟩ := h.removeMembers (fun t => decide_eq_true_iff) hv ms
            cases hremove.symm.trans hrun
            exact absurd rfl hrc
  rw [remove] at hcall
  split at hcall
  · cases hcall
    rfl
  · split at hcall
    · exact hinternal none hcall
    · obtain ⟨⟨result, e⟩, -, hcall⟩ := Option.bind_eq_some_iff.mp hcall
      cases result with
      | error rc' =>
        cases hcall
        rfl
      | ok members => exact hinternal (some members) hcall

/-- The lists of the table that a call has released.  `add` works on the list that the table has, and
releases it on its error path as if it were its own. -/
def Call.releases (groups : Groups) (rc : Rc) : Call → List Str
  | .add tag _ _ => addReleases tag groups rc
  | .remove _ _ _ => []

/-- **If the call fails, every tag has the members it had, in lists that are still there.**  The second
part is what a look at the table alone does not show: the pointer is the same, and dangling. -/
def FailsCleanly (groups : Groups) (c : Call) : Prop :=
  ∀ rc groups', applyCall groups c = some (rc, groups') → rc ≠ .success →
    (∀ tag, getTag groups' tag = getTag groups tag) ∧ c.releases groups rc = []

/-- The member text is refused. -/
def Refused (regex : Str) (erange : Bool) : Prop :=
  ∃ rc e, extractNodeNames (some regex) erange = some (.error rc, e) ∧ rc ≠ .success

/-- **A failed call changes nothing unless it adds a text that is refused to a tag that exists.** -/
theorem failsCleanly_iff (h : Represents groups G) (c : Call) : FailsCleanly groups c ↔
      ∀ tag regex erange, c = .add tag regex erange → Refused regex erange →
        G.members tag = none := by
  cases c with
  | remove tag regex erange =>
    refine iff_of_true ?_ (by intro _ _ _ hc; cases hc)
    intro rc groups' hcall hrc
    rw [h.remove_error hcall hrc]
    exact ⟨fun _ => rfl, rfl⟩
  | add tag regex erange =>
    have hreleases : ∀ rc, rc ≠ .success →
        (Call.releases groups rc (.add tag regex erange) = [] ↔ G.members tag = none) := by
      intro rc hrc
      cases hv : G.members tag <;> simp [Call.releases, addReleases, h.getTag_eq, hv, hrc]
    constructor
    · rintro hclean _ _ _ hc ⟨rc, e, hrefused, hrc⟩
      cases hc
      have hcall : applyCall groups (.add tag regex erange) = some (rc, groups) := by
        simp [applyCall, add, hashTableGet, h.getTag_eq, hrefused]
      exact (hreleases rc hrc).mp (hclean rc groups hcall hrc).2
    · intro hnew rc groups' hcall hrc
      obtain ⟨_, -, hrest⟩ := Option.bind_eq_some_iff.mp hcall
      obtain ⟨⟨result, e⟩, hextract, hrest⟩ := Option.bind_eq_some_iff.mp hrest
      cases result with
      | error rc' =>
        cases hrest
        refine ⟨fun _ => rfl, (hreleases rc hrc).mpr ?_⟩
        exact hnew tag regex erange rfl ⟨rc, e, hextract, hrc⟩
      | ok names =>
        obtain ⟨groups₁, hadd, -⟩ := h.add tag hextract
        cases hadd.symm.trans hcall
        exact absurd rfl hrc

/-- A refused text for a new tag leaves a table with another tag as it is. -/
theorem failsCleanly_iff_new : ∃ groups G, Represents groups G ∧
    G.members (ofString "h") = some [ofString "a"] ∧
    FailsCleanly groups (.add (ofString "g") (ofString "a[") false) := by
  have hok : extractNodeNames (some (ofString "a")) false
      = some (.ok [ofString "a"], false) := by decide +kernel
  obtain ⟨groups, -, h⟩ := (represents_init 10).add (ofString "h") hok
  refine ⟨groups, _, h, by decide, (failsCleanly_iff h _).mpr ?_⟩
  rintro tag regex erange ⟨⟩ -
  decide

/-- **A refused text releases the list of the group `g`**, which the table keeps. -/
theorem refused_add_releases : ∃ groups : Groups,
    applyCall (HashTable.init 10) (.add (CString.ofString "g") (CString.ofString "a") false)
      = some (.success, groups) ∧
    applyCall groups (.add (CString.ofString "g") (CString.ofString "a[") false)
      = some (.errBadParam, groups) ∧
    ¬ FailsCleanly groups (.add (CString.ofString "g") (CString.ofString "a[") false) := by
  have hok : extractNodeNames (some (ofString "a")) false
      = some (.ok [ofString "a"], false) := by decide +kernel
  have hrefused : extractNodeNames (some (ofString "a[")) false
      = some (.error .errBadParam, false) := by decide +kernel
  obtain ⟨groups, hadd, h⟩ := (represents_init 10).add (ofString "g") hok
  have hcall : applyCall groups (.add (ofString "g") (ofString "a[") false)
      = some (.errBadParam, groups) := by
    simp [applyCall, add, hashTableGet, h.getTag_eq, hrefused]
  refine ⟨groups, hadd, hcall, fun hclean => ?_⟩
  have hreleases := (hclean _ _ hcall (by decide)).2
  simp [Call.releases, addReleases, h.getTag_eq, TagMap.add] at hreleases

end Failures

end Sensys.Orcm.LogicalGroup
