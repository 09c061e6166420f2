/-
# A tag the walk skips

The converse side of `Sensys.Orcm.LogicalGroupTable`: the tags `Aa` and `BB`, whose hash is the same
because `31 * 'A' + 'a'` is `31 * 'B' + 'B'`.  The second is stored behind the first; deleting the
first moves the second into its slot; the walk of `remove("*", members)` goes on behind that slot,
ends, and reports success (`removeAll_skips_a_tag`).

The calls that look at a few slots are evaluated; what the walk finds in the 2011 slots follows from
which of them are free.
-/
import Sensys.Orcm.LogicalGroupTable

namespace Sensys.Orcm.LogicalGroup

open Opal Orte Worklist CString List HashTable

/-! ## 1. The table -/

deriving instance DecidableEq for HashTable

/-- The table after both calls of `add`. -/
def twoTags : Groups :=
  { (HashTable.init hashSize : Groups) with
    table := ((HashTable.init hashSize : Groups).table.set 1120
      (some (key (ofString "Aa"), [ofString "x"]))).set 1121
        (some (key (ofString "BB"), [ofString "x"]))
    size := 2 }

/-- The table after the first of the two is deleted: the second has MOVED. -/
def oneTag : Groups :=
  { twoTags with
    table := (twoTags.table.set 1120 (some (key (ofString "BB"), [ofString "x"]))).set 1121 none
    size := 1 }

theorem removeValue_twoTags :
    twoTags.removeValue hashKeyPtr (key (ofString "Aa")) = some (.success, oneTag) := by
  decide +kernel

variable {q : ℕ} {groups : Groups} {member : Str}

theorem slots_set_of_ne {t i} (h : q ≠ i) (x : Option (Str × List Str)) :
    slots (t.set i x) q = slots t q := by
  simp [slots, getElem?_set_ne h.symm]

theorem elt_twoTags (h : q ≠ 1120) (h' : q ≠ 1121) : twoTags.elt q = none := by
  rw [elt, twoTags, slots_set_of_ne h', slots_set_of_ne h]
  exact congrFun (slots_replicate _) q

theorem elt_oneTag (h : q ≠ 1120) : oneTag.elt q = none := by
  by_cases h' : q = 1121
  · subst h'
    decide +kernel
  · rw [elt, oneTag, slots_set_of_ne h', slots_set_of_ne h]
    exact elt_twoTags h h'

/-! ## 2. The walk -/

theorem getNextKey_twoTags :
    twoTags.getNextKey none = .ok ((key (ofString "Aa"), [ofString "x"]), 1120) := by
  have hfirst : twoTags.elt 1120 = some (key (ofString "Aa"), [ofString "x"]) := by decide +kernel
  rcases getNextKey_spec twoTags none with ⟨-, hfree⟩ | ⟨x, i, hnext, -, -, hx, hfree⟩
  · rw [hfree 1120 (Nat.zero_le _) (by decide +kernel)] at hfirst
    cases hfirst
  · have hle : ¬ 1120 < i := by
      intro hlt
      rw [hfree 1120 (Nat.zero_le _) hlt] at hfirst
      cases hfirst
    obtain rfl : i = 1120 := by
      by_contra hne
      rw [elt_twoTags hne (by omega)] at hx
      cases hx
    rw [hfirst] at hx
    cases hx
    exact hnext

theorem getNextKey_oneTag : oneTag.getNextKey (some 1120) = .error .error := by
  rcases getNextKey_spec oneTag (some 1120) with ⟨hend, -⟩ | ⟨x, i, -, hle, -, hx, -⟩
  · exact hend
  · rw [startOf] at hle
    rw [elt_oneTag (by omega)] at hx
    cases hx

theorem allMembersExistAllTags_twoTags :
    allMembersExistAllTags twoTags [ofString "x"] (twoTags.capacity + 1) none = some .success := by
  rw [allMembersExistAllTags_eq, if_pos]
  rintro e he
  obtain ⟨q, -, hs⟩ := mem_entries.mp he
  have hslots : ∀ q ∈ [1120, 1121], ∀ e ∈ twoTags.elt q, e.2 = [ofString "x"] := by
    decide +kernel
  by_cases hq : q ∈ [1120, 1121]
  · rw [hslots q hq e hs]
    exact fun _ h => h
  · simp only [mem_cons, not_mem_nil, or_false, not_or] at hq
    cases (elt_twoTags hq.1 hq.2).symm.trans hs

/-- One round of the walk, which deletes from a tag. -/
theorem removeAllTagsLoop_round {ms value groups' node k i}
    (hnext : groups.getNextKey node = .ok ((k, value), i))
    (hremove : hashTableRemoveMembers k.dropLast value ms groups = some (.success, groups'))
    (fuel : ℕ) : removeAllTagsLoop ms (fuel + 1) node groups =
      removeAllTagsLoop ms fuel (some i) groups' := by
  rw [removeAllTagsLoop, hnext]
  simp [hremove]

theorem removeAllTagsLoop_end {ms node} (hend : groups.getNextKey node = .error .error) (fuel : ℕ) :
    removeAllTagsLoop ms (fuel + 1) node groups = some (.success, groups) := by
  rw [removeAllTagsLoop, hend]

/-- **The walk never sees the second tag**: it keeps the member it should lose. -/
theorem removeAllTagsLoop_twoTags (fuel : ℕ) :
    removeAllTagsLoop [ofString "x"] (fuel + 2) none twoTags = some (.success, oneTag) := by
  have hremove : hashTableRemoveMembers (key (ofString "Aa")).dropLast [ofString "x"]
      [ofString "x"] twoTags = some (.success, oneTag) := by
    have hkey : key (key (ofString "Aa")).dropLast = key (ofString "Aa") := by decide
    rw [hashTableRemoveMembers, if_pos (by decide), hkey, removeValue_twoTags]
  rw [removeAllTagsLoop_round getNextKey_twoTags hremove, removeAllTagsLoop_end getNextKey_oneTag]

/-! ## 3. The calls -/

/-- The calls `add(tag, member)`, `add(tag', member)`, `remove("*", member)`. -/
def skippingCalls (tag tag' member : Str) : List Call :=
  [.add tag member false, .add tag' member false, .remove [42] member false]

/-- `remove("*", member)`, from its check and its walk. -/
theorem remove_all {groups'} (hsize : groups.size ≠ 0) (hwild : isDoAllWildcard member = false)
    (hmember : extractNodeNames (some member) false = some (.ok [member], false))
    (hcheck : allMembersExistAllTags groups [member] (groups.capacity + 1) none = some .success)
    (hloop : removeAllTagsLoop [member] (groups.capacity + 1) none groups = some (.success, groups')) :
    LogicalGroup.remove [42] member groups false = some (.success, groups') := by
  rw [LogicalGroup.remove, if_neg (by rwa [getSize]), hwild, hmember]
  simp [removeInternal, isDoAllWildcard, removeAllTags, hcheck, hloop]

theorem runCalls_concat {c rc groups₁ groups₂} :
    ∀ {cs groups rcs}, runCalls groups cs = some (rcs, groups₁) →
      applyCall groups₁ c = some (rc, groups₂) →
        runCalls groups (cs ++ [c]) = some (rcs ++ [rc], groups₂)
  | [], _, _, h, hc => by
    cases h
    simp [runCalls, hc]
  | _ :: _, _, _, h, hc => by
    obtain ⟨r, hr, h⟩ := Option.bind_eq_some_iff.mp h
    obtain ⟨rs, hrs, h⟩ := Option.map_eq_some_iff.mp h
    cases h
    rw [cons_append, runCalls, hr, Option.bind_some, runCalls_concat hrs hc]
    rfl

theorem runCalls_skippingCalls : runCalls (init hashSize)
        (skippingCalls (ofString "Aa") (ofString "BB") (ofString "x")) =
      some ([.success, .success, .success], oneTag) := by
  have hadd : runCalls (init hashSize) [.add (ofString "Aa") (ofString "x") false,
      .add (ofString "BB") (ofString "x") false] = some ([.success, .success], twoTags) := by
    decide +kernel
  have hloop : removeAllTagsLoop [ofString "x"] (twoTags.capacity + 1) none twoTags =
      some (.success, oneTag) := by
    have hpos : 1 ≤ twoTags.capacity := by decide +kernel
    rw [show twoTags.capacity + 1 = twoTags.capacity - 1 + 2 by omega, removeAllTagsLoop_twoTags]
  have hremove : applyCall twoTags (.remove [42] (ofString "x") false) =
      some (.success, oneTag) :=
    remove_all (by decide) (by decide) (by decide +kernel) allMembersExistAllTags_twoTags hloop
  simpa only [skippingCalls, cons_append, nil_append] using runCalls_concat hadd hremove

/-- Adding one member to groups that have only it. -/
theorem TagMap.add_only {G : TagMap} (h : ∀ t l, G.members t = some l → l = [member]) (tag : Str) :
    ∀ t l, (G.add tag [member]).members t = some l → l = [member] := by
  intro t l hl
  simp only [TagMap.add] at hl
  split at hl
  · cases hold : G.members tag with
    | none => simpa [hold, TagMap.appendNew, appendUnique, eq_comm] using hl
    | some old =>
      obtain rfl := h tag old hold
      simpa [hold, TagMap.appendNew, eq_comm] using hl
  · exact h t l hl

/-- On the map the second tag loses the member, and disappears. -/
theorem skippingCalls_lose {tag tag' : Str} (hwild : isDoAllWildcard member = false)
    (hmember : extractNodeNames (some member) false = some (.ok [member], false)) :
    (tagMapRun TagMap.empty (skippingCalls tag tag' member)).2.members tag' = none := by
  have hlisted : listed member false = [member] := by rw [listed, hmember]
  have hgone : goneOf member false = some [member] := by simp [goneOf, hwild, hlisted]
  simp only [skippingCalls, tagMapRun, tagMapApply, hlisted, hgone]
  set G := (TagMap.empty.add tag [member]).add tag' [member] with hG
  have honly : ∀ t l, G.members t = some l → l = [member] :=
    TagMap.add_only (TagMap.add_only (by intro t l hl; cases hl) tag) tag'
  obtain ⟨l, hl⟩ : ∃ l, G.members tag' = some l := by simp [hG, TagMap.add]
  have hrc : removeRc G [42] (some [member]) = .success := by
    rw [removeRc_of_exists (fun hnone => by simp [hnone] at hl) (by simp [isDoAllWildcard]),
      if_pos]
    intro t l' ms _ hl' hms
    cases hms
    rw [honly t l' hl']
    exact fun _ h => h
  rw [if_pos hrc, G.remove_every (by simp [isDoAllWildcard]), hl, honly tag' l hl]
  simp [TagMap.reduce]

/-- **`remove("*", "x")` skips the tag `BB`** in a table of `HASH_SIZE`. -/
theorem removeAll_skips_a_tag :
    (∀ c ∈ skippingCalls (CString.ofString "Aa") (CString.ofString "BB") (CString.ofString "x"),
      c.Parses) ∧ ∃ groups', runCalls (HashTable.init hashSize)
        (skippingCalls (CString.ofString "Aa") (CString.ofString "BB") (CString.ofString "x"))
        = some ([.success, .success, .success], groups') ∧
      getTag groups' (CString.ofString "BB") = some (.ok [CString.ofString "x"]) ∧
      ¬ Represents groups' (tagMapRun TagMap.empty
        (skippingCalls (CString.ofString "Aa") (CString.ofString "BB")
          (CString.ofString "x"))).2 := by
  have hx : extractNodeNames (some (CString.ofString "x")) false
      = some (.ok [CString.ofString "x"], false) := by decide +kernel
  have hwild : isDoAllWildcard (CString.ofString "x") = false := by decide +kernel
  constructor
  · intro c hc
    simp only [skippingCalls, mem_cons, not_mem_nil, or_false] at hc
    rcases hc with rfl | rfl | rfl
    · exact ⟨_, _, hx⟩
    · exact ⟨_, _, hx⟩
    · exact .inr ⟨_, _, hx⟩
  · have hget : getTag oneTag (ofString "BB") = some (.ok [ofString "x"]) := by decide +kernel
    refine ⟨oneTag, runCalls_skippingCalls, hget, ?_⟩
    intro hrep
    rw [hrep.getTag_eq, skippingCalls_lose hwild hx] at hget
    cases hget

end Sensys.Orcm.LogicalGroup
