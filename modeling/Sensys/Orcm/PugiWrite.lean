/-
# Reading back a section that was written

`pugi_impl::writeSection` writes a section of the tree in place, or adds one, and `retrieveSection`
looks it up by its key and its name (`orcm/mca/parser/pugi/pugi_impl.cpp`).  The lookup gives COPIES
of all the sections of the tree with that key and name (`retrieveSection_eq`), and a write changes
the list of ONE item, whatever is around it (`Context`).

A section has its name in the list that is written.  Without overwriting, the input is ADDED to what
the section holds; and overwriting it with a list that has no `name` item leaves it without a name,
while a new section gets one.

* `lookup_exact`: a lookup gives a copy of every item that is asked for, and of no other.
* `section_is_found`: the section is found again, with the items of the input among those that stay;
  unless it is overwritten and has lost its name.
* `port_is_still_there`: a section that the input is added to.

A lookup goes through the tree once for the items of a list and once more for the lists inside, and
puts what it finds deeper in FRONT of what it has.  So the order is not that of the file, and the
results are stated up to permutation.
-/
import Mathlib.Data.List.Perm.Basic
import Sensys.Orcm.Pugi

namespace Sensys.Orcm.Pugi

open CString List
open Opal.Dss (Stop)
open Workflow (Items)

/-! ## 1. Copies -/

/-- The items of a tree at any depth, in the order of the file. -/
def allItems : Items → List Items
  | .nil => []
  | .string k value next => .string k value .nil :: allItems next
  | .ptr k list next => .ptr k list .nil :: (allItems list ++ allItems next)
  | .other k next => .other k .nil :: allItems next

/-- A keyless item without a list: this is what a comment of the file becomes. -/
def isComment : Items → Bool
  | .string k _ _ | .other k _ => k.isEmpty
  | _ => false

/-- The second list is the first one with comments put in, at any depth.  The rules say nothing of how
a copy is made: they put comments in one at a time, and all other items stay in their places. -/
inductive Commented : Items → Items → Prop where
  | nil : Commented .nil .nil
  | comment {copy next : Items} (value : Str) (h : Commented copy next) :
      Commented copy (.string [] value next)
  | keyless {copy next : Items} (h : Commented copy next) : Commented copy (.other [] next)
  | string {copy next : Items} (key value : Str) (h : Commented copy next) :
      Commented (.string key value copy) (.string key value next)
  | ptr {copy list copies next : Items} (key : Str) (hlist : Commented copy list)
      (h : Commented copies next) : Commented (.ptr key copy copies) (.ptr key list next)
  | other {copy next : Items} (key : Str) (h : Commented copy next) :
      Commented (.other key copy) (.other key next)

/-- **A copy has the whole tree except its comments**: with those put back in it is the tree, and it
has none itself. -/
structure IsCopy (copy list : Items) : Prop where
  commented : Commented copy list
  comments : ∀ item ∈ allItems copy, isComment item = false

/-- `duplicateList` makes a copy.  A list without a key is no comment, and is gone through like any
other. -/
theorem isCopy_duplicateList (list : Items) : IsCopy (duplicateList list) list := by
  induction list with
  | nil => exact ⟨.nil, by simp [duplicateList, allItems]⟩
  | string key value next ih =>
    by_cases hkey : key = []
    · simp only [duplicateList, hkey, if_true]
      exact ⟨.comment value ih.commented, ih.comments⟩
    · simp only [duplicateList, hkey, if_false]
      refine ⟨.string key value ih.commented, forall_mem_cons.mpr ⟨?_, ih.comments⟩⟩
      simpa [isComment] using hkey
  | ptr key list next ihlist ih =>
    refine ⟨.ptr key ihlist.commented ih.commented, forall_mem_cons.mpr ⟨rfl, ?_⟩⟩
    exact forall_mem_append.mpr ⟨ihlist.comments, ih.comments⟩
  | other key next ih =>
    by_cases hkey : key = []
    · simp only [duplicateList, hkey, if_true]
      exact ⟨.keyless ih.commented, ih.comments⟩
    · simp only [duplicateList, hkey, if_false]
      refine ⟨.other key ih.commented, forall_mem_cons.mpr ⟨?_, ih.comments⟩⟩
      simpa [isComment] using hkey

/-- There is one copy of a tree only.  Induction on how the comments were put in: at an item that is
not one of them the key cannot be empty, because the copy has no comments. -/
theorem IsCopy.eq {copy list} (h : IsCopy copy list) : copy = duplicateList list := by
  obtain ⟨hcommented, hcomments⟩ := h
  induction hcommented with
  | nil => rfl
  | comment value _ ih => simpa [duplicateList] using ih hcomments
  | keyless _ ih => simpa [duplicateList] using ih hcomments
  | string key value _ ih =>
    obtain ⟨hkey, hrest⟩ := forall_mem_cons.mp hcomments
    have hkey : key ≠ [] := by simpa [isComment] using hkey
    rw [duplicateList, if_neg hkey, ih hrest]
  | ptr key _ _ ihlist ih =>
    obtain ⟨hlist, hrest⟩ := forall_mem_append.mp (forall_mem_cons.mp hcomments).2
    rw [duplicateList, ihlist hlist, ih hrest]
  | other key _ ih =>
    obtain ⟨hkey, hrest⟩ := forall_mem_cons.mp hcomments
    have hkey : key ≠ [] := by simpa [isComment] using hkey
    rw [duplicateList, if_neg hkey, ih hrest]

/-- What `duplicateList` makes of some trees are copies of them, in whatever order they come. -/
theorem exists_copied {copies lists : List Items} (h : copies.Perm (lists.map duplicateList)) :
    ∃ copied, copied.Perm lists ∧ Forall₂ IsCopy copies copied := by
  obtain ⟨copied, heq, hperm⟩ := (iff_of_eq (congrFun₂ (eq_map_comp_perm _) _ _)).mpr h
  refine ⟨copied, hperm, ?_⟩
  rw [heq, forall₂_map_left_iff]
  exact forall₂_same.mpr fun list _ => isCopy_duplicateList list

theorem Commented.refl (list : Items) : Commented list list := by
  induction list with
  | nil => exact .nil
  | string key value _ ih => exact .string key value ih
  | ptr key _ _ ihlist ih => exact .ptr key ihlist ih
  | other key _ ih => exact .other key ih

/-- There are no comments in a copy, so that it is its own copy. -/
theorem duplicateList_duplicateList (list : Items) :
    duplicateList (duplicateList list) = duplicateList list :=
  (IsCopy.eq ⟨.refl _, (isCopy_duplicateList list).comments⟩).symm

/-- A copy has the names of the list: what is dropped has no key. -/
theorem names_duplicateList : ∀ list : Items, names (duplicateList list) = names list
  | .nil => rfl
  | .string key value next => by
    have ih := names_duplicateList next
    have hname : ([] : Str) ≠ nameKey := by decide
    unfold duplicateList
    split
    · rename_i hkey
      rw [ih, hkey, names, if_neg hname]
    · simp only [names, ih]
  | .ptr _ _ next => names_duplicateList next
  | .other key next => by
    unfold duplicateList
    split <;> exact names_duplicateList next

theorem duplicateList_append (a b : Items) :
    duplicateList (a.append b) = (duplicateList a).append (duplicateList b) := by
  induction a with
  | nil => rfl
  | ptr key _ _ _ ih => exact congrArg (Items.ptr key _) ih
  | string _ _ _ ih | other _ _ ih =>
    simp only [Items.append, duplicateList, ih]
    split <;> rfl

/-! ## 2. The sections of a tree -/

section Sections

variable {key name : Str}

/-- The search for a name stops at the first one that fits, and goes on behind one that does not. -/
theorem matchesName_iff (hname : name ≠ []) : ∀ list : Items,
    matchesName name list = true ↔ name ∈ names list
  | .nil => by simp [matchesName, names, hname]
  | .string k value next => by
    have ih := matchesName_iff hname next
    simp only [matchesName, names, hname, if_false]
    by_cases hk : k = nameKey
    · by_cases hvalue : name = value <;> simp [hk, hvalue, ih]
    · simp [hk, ih]
  | .ptr _ _ next => matchesName_iff hname next
  | .other _ next => matchesName_iff hname next

variable (key name)

/-- The lists of all the items in a tree that match, in the order of the file. -/
def sections : Items → List Items
  | .nil => []
  | .string _ _ next => sections next
  | .ptr k list next =>
    if itemMatchesKeyAndName key name k list then list :: (sections list ++ sections next)
    else sections list ++ sections next
  | .other _ next => sections next

/-- The items of a list, each by itself. -/
def items : Items → List Items
  | .nil => []
  | .string k value next => .string k value .nil :: items next
  | .ptr k list next => .ptr k list .nil :: items next
  | .other k next => .other k .nil :: items next

/-- What a lookup is for: items with the key and, if a name is given, with a list that has it. -/
def isAskedFor : Items → Bool
  | .nil => false
  | .string k _ _ | .other k _ => decide (k = key) && name.isEmpty
  | .ptr k list _ => decide (k = key) && (name.isEmpty || (names list).contains name)

/-- `searchInList`. -/
def searchInList (list : Items) : Items :=
  if name = [] then searchKeyInList key list else searchKeyAndNameInList key name list

/-- Copies of the items that are asked for. -/
def copies (found : List Items) : List Items :=
  (found.filter (isAskedFor key name)).map duplicateList

/-- Items with the key and these lists. -/
def ofLists (lists : List Items) : Items := lists.foldr (fun list next => .ptr key list next) .nil

variable {key name}

theorem itemMatches_eq (hname : name ≠ []) (k : Str) (list : Items) :
    itemMatchesKeyAndName key name k list = isAskedFor key name (.ptr k list .nil) := by
  rw [itemMatchesKeyAndName, Bool.eq_iff_iff]
  simp [isAskedFor, matchesName_iff hname, hname, eq_comm (a := k)]

/-- Whether an item matches depends on the names in its list only. -/
theorem itemMatches_congr (hname : name ≠ []) {a b} (h : names a = names b) (k : Str) :
    itemMatchesKeyAndName key name k a = itemMatchesKeyAndName key name k b := by
  unfold itemMatchesKeyAndName
  rw [Bool.eq_iff_iff, Bool.and_eq_true, Bool.and_eq_true, matchesName_iff hname,
    matchesName_iff hname, h]

theorem key_of_itemMatches {k list} (h : itemMatchesKeyAndName key name k list = true) :
    k = key := by
  unfold itemMatchesKeyAndName at h
  rw [Bool.and_eq_true, decide_eq_true_eq] at h
  exact h.1.symm

theorem items_append (a b : Items) : items (a.append b) = items a ++ items b := by
  induction a with
  | nil => rfl
  | ptr _ _ _ _ ih | string _ _ _ ih | other _ _ ih => exact congrArg (_ :: ·) ih

theorem copies_cons (item : Items) (found : List Items) : copies key name (item :: found) =
    if isAskedFor key name item then duplicateList item :: copies key name found
    else copies key name found := by
  simp only [copies, filter_cons]
  split <;> rfl

/-- One list: the search copies all of it first, and then deletes what does not match.  So a
comment is never found, and `hkey` excludes that one is asked for. -/
theorem items_searchInList (hkey : key ≠ []) (list : Items) :
    items (searchInList key name list) = copies key name (items list) := by
  by_cases hname : name = []
  · subst hname
    simp only [searchInList, if_true, searchKeyInList]
    induction list with
    | nil => rfl
    | ptr k list next _ ih =>
      by_cases hk : k = key <;>
        simp [duplicateList, keepKey, items, copies_cons, isAskedFor, hk, eq_comm (a := key), ih]
    | string k value next ih | other k next ih =>
      by_cases hk : k = key
      · simp [duplicateList, keepKey, items, copies_cons, isAskedFor, hk, hkey, ih]
      · by_cases hempty : k = [] <;>
          simp [duplicateList, keepKey, items, copies_cons, isAskedFor, hk, Ne.symm hk,
            hempty, hkey, ih]
  · simp only [searchInList, hname, if_false, searchKeyAndNameInList]
    induction list with
    | nil => rfl
    | ptr k list next _ ih =>
      simp only [duplicateList, keepMatches, items, copies_cons, ← itemMatches_eq hname,
        itemMatches_congr hname (names_duplicateList list)]
      split <;> simp [items, ih]
    | string k value next ih | other k next ih =>
      by_cases hempty : k = [] <;>
        simp [duplicateList, keepMatches, items, copies_cons, isAskedFor, hname, hempty, ih]

/-- The lists inside: what is found there joins `result`.  The items of `tree` itself are left to the
other search, and are added on the left to say so.  Counted, since the order is another one. -/
theorem items_searchChildren (hkey : key ≠ []) (tree result : Items) :
    (items (searchChildren (searchInList key name) tree result) ++
      copies key name (items tree)).Perm (items result ++ copies key name (allItems tree)) := by
  simp only [perm_iff_count, count_append]
  intro x
  induction tree generalizing result with
  | nil => rfl
  | string k value next ih | other k next ih =>
    have := ih result
    simp only [searchChildren, items, allItems, copies_cons]
    split <;> grind
  | ptr k list next ihlist ih =>
    -- what is found below is all that is asked for in the list of the item
    have hbelow := ihlist (searchInList key name list)
    have hnext := ih ((searchChildren (searchInList key name) list
      (searchInList key name list)).append result)
    rw [items_searchInList hkey] at hbelow
    rw [items_append, count_append] at hnext
    have happend : copies key name (allItems list ++ allItems next) =
        copies key name (allItems list) ++ copies key name (allItems next) := by
      simp [copies]
    simp only [searchChildren, items, allItems, copies_cons, happend]
    split <;> simp only [count_cons, count_append] <;> omega

/-- What both searches of a tree find: the items of its list, and those of the lists inside. -/
theorem items_searchTree (hkey : key ≠ []) (tree : Items) :
    (items (searchChildren (searchInList key name) tree (searchInList key name tree))).Perm
      (copies key name (allItems tree)) := by
  have h := @items_searchChildren key name hkey tree (searchInList key name tree)
  rw [items_searchInList hkey] at h
  exact (perm_append_right_iff _).mp (h.trans perm_append_comm)

/-- With and without a name the searches have the same shape. -/
theorem retrieveSection_searchTree (hkey : key ≠ []) (root : Items) :
    retrieveSection root key name =
      searchChildren (searchInList key name) root (searchInList key name root) := by
  unfold retrieveSection searchKeyInTree searchKeyAndNameInTree searchInList
  split
  · contradiction
  · split <;> rfl

/-- The items that are asked for by a name are the sections. -/
theorem filter_allItems (hname : name ≠ []) (tree : Items) :
    (allItems tree).filter (isAskedFor key name) =
      (sections key name tree).map (Items.ptr key · .nil) := by
  induction tree with
  | nil => rfl
  | string _ _ _ ih | other _ _ ih => simpa [allItems, isAskedFor, hname, sections] using ih
  | ptr k list next ihlist ih =>
    rw [allItems, filter_cons, sections, ← itemMatches_eq hname]
    split
    · rename_i hmatch
      simp [ihlist, ih, key_of_itemMatches hmatch]
    · simp [ihlist, ih]

/-- A list with these items is made of their lists. -/
theorem eq_ofLists : ∀ {found lists},
    items found = lists.map (Items.ptr key · .nil) → found = ofLists key lists
  | .nil, lists, h => by rw [map_eq_nil_iff.mp h.symm]; rfl
  | .ptr _ list next, _ :: _, h => by
    obtain ⟨hitem, hrest⟩ := cons.inj h
    cases hitem
    exact congrArg (Items.ptr key list) (eq_ofLists hrest)
  | .string _ _ _, _ :: _, h | .other _ _, _ :: _, h => by cases (cons.inj h).1

/-- **A lookup by a name gives copies of the sections.**  Only items with a list have a name, so that
what is found is a list of such items, and is determined by their lists. -/
theorem retrieveSection_eq (hkey : key ≠ []) (hname : name ≠ []) (root : Items) :
    ∃ lists : List Items, lists.Perm ((sections key name root).map duplicateList) ∧
      retrieveSection root key name = ofLists key lists := by
  have h : (items (retrieveSection root key name)).Perm
      (((sections key name root).map duplicateList).map (Items.ptr key · .nil)) := by
    rw [retrieveSection_searchTree hkey, map_map]
    have h := @items_searchTree key name hkey root
    rwa [copies, filter_allItems hname, map_map] at h
  obtain ⟨lists, heq, hperm⟩ := (iff_of_eq (congrFun₂ (eq_map_comp_perm _) _ _)).mpr h
  exact ⟨lists, hperm, eq_ofLists heq⟩

/-- The sections of a copy are the copies of the sections: comments have no list. -/
theorem sections_duplicateList (hname : name ≠ []) (list : Items) :
    sections key name (duplicateList list) = (sections key name list).map duplicateList := by
  induction list with
  | nil => rfl
  | ptr k list next hlist ih =>
    unfold duplicateList sections
    rw [itemMatches_congr hname (names_duplicateList list), hlist, ih]
    split <;> simp
  | string _ _ _ ih | other _ _ ih =>
    unfold duplicateList
    split <;> exact ih

theorem sections_append (a b : Items) :
    sections key name (a.append b) = sections key name a ++ sections key name b := by
  induction a with
  | nil => rfl
  | string _ _ _ ih | other _ _ ih => exact ih
  | ptr k list next _ ih =>
    simp only [Items.append, sections, ih]
    split <;> simp

/-- **A lookup gives a copy of every item that is asked for**, at any depth, and of no other; and the
parser is left as it was. -/
theorem lookup_exact (key name : Str) (hkey : key ≠ []) (p : Parser) :
    ∃ result found, p.retrieve key name = (.ok result, p) ∧
      found.Perm ((allItems p.root).filter (isAskedFor key name)) ∧
      Forall₂ IsCopy (items result) found := by
  have hcopies := @items_searchTree key name hkey p.root
  rw [← retrieveSection_searchTree hkey] at hcopies
  obtain ⟨found, hperm, hall⟩ := exists_copied hcopies
  exact ⟨_, found, rfl, hperm, hall⟩

end Sections

/-! ## 3. What is around a section -/

/-- A tree with a hole, which takes an item and those that follow it.  A write is a hole that is filled
with something else; what it leaves alone is the context. -/
inductive Context where
  | hole
  | string (key value : Str) (next : Context)
  | ptr (key : Str) (list : Items) (next : Context)
  | inside (key : Str) (list : Context) (next : Items)
  | other (key : Str) (next : Context)

/-- The tree with the hole filled. -/
def Context.fill : Context → Items → Items
  | .hole, items => items
  | .string key value next, items => .string key value (next.fill items)
  | .ptr key list next, items => .ptr key list (next.fill items)
  | .inside key list next, items => .ptr key (list.fill items) next
  | .other key next, items => .other key (next.fill items)

/-- Items are a context for those behind them. -/
theorem exists_fill_eq_append : ∀ front : Items, ∃ C : Context, ∀ items,
    C.fill items = front.append items
  | .nil => ⟨.hole, fun _ => rfl⟩
  | .string key value next =>
    let ⟨C, h⟩ := exists_fill_eq_append next
    ⟨.string key value C, fun items => congrArg (Items.string key value) (h items)⟩
  | .ptr key list next =>
    let ⟨C, h⟩ := exists_fill_eq_append next
    ⟨.ptr key list C, fun items => congrArg (Items.ptr key list) (h items)⟩
  | .other key next =>
    let ⟨C, h⟩ := exists_fill_eq_append next
    ⟨.other key C, fun items => congrArg (Items.other key) (h items)⟩

namespace Context

/-- The names in the list that has the hole depend on the names among what is filled in. -/
theorem names_fill {a b} (h : names a = names b) : ∀ C : Context,
    names (C.fill a) = names (C.fill b)
  | .hole => h
  | .string key value next => by
    unfold fill names
    rw [names_fill h next]
  | .ptr _ _ next => names_fill h next
  | .inside _ _ _ => rfl
  | .other _ next => names_fill h next

variable {key name : Str}

/-- What is around only adds sections. -/
theorem length_sections_le (a : Items) (C : Context) :
    (sections key name a).length ≤ (sections key name (C.fill a)).length := by
  induction C with
  | hole => exact le_rfl
  | string _ _ _ ih | other _ _ ih => exact ih
  | ptr _ _ _ ih | inside _ _ _ ih =>
    simp only [fill, sections]
    split <;> simp only [length_cons, length_append] <;> omega

/-- **If there are no sections outside of the hole**, there are none when the hole is filled with
other items, as long as the names among them are the same.  Induction on the context, from the outside:
an item around the hole is no section before, by counting, and stays none, because its names do not
change. -/
theorem sections_fill (hname : name ≠ []) {a b} (hnames : names b = names a) :
    ∀ C : Context, (sections key name (C.fill a)).length ≤ (sections key name a).length →
      sections key name (C.fill b) = sections key name b
  | .hole, _ => rfl
  | .string _ _ next, h => sections_fill hname hnames next h
  | .ptr k list next, h => by
    have hle := @length_sections_le key name a next
    simp only [fill, sections] at h ⊢
    split at h
    · simp only [length_cons, length_append] at h
      omega
    · rename_i hmatch
      rw [length_append] at h
      have hlist : sections key name list = [] := eq_nil_of_length_eq_zero (by omega)
      rw [if_neg hmatch, hlist, sections_fill hname hnames next (by omega), nil_append]
  | .inside k list next, h => by
    have hle := @length_sections_le key name a list
    simp only [fill, sections] at h ⊢
    rw [itemMatches_congr hname (names_fill hnames list)]
    split at h
    · simp only [length_cons, length_append] at h
      omega
    · rename_i hmatch
      rw [length_append] at h
      have hnext : sections key name next = [] := eq_nil_of_length_eq_zero (by omega)
      rw [if_neg hmatch, hnext, sections_fill hname hnames list (by omega), List.append_nil]
  | .other _ next, h => sections_fill hname hnames next h

end Context

/-! ## 4. What a write does -/

section Write

variable {input : Items} {key name : Str} {overwrite : Bool}

/-- The input is inserted somewhere; where that is does not matter for what is found. -/
theorem joinLast_eq (input list : Items) : ∃ front back : Items, list = front.append back ∧
    input.joinLast list = front.append (input.append back) := by
  fun_induction Items.joinLast input list with
  | case1 => exact ⟨.nil, .nil, rfl, input.append_nil.symm⟩
  | case2 | case4 | case6 => exact ⟨.nil, _, rfl, rfl⟩
  | case3 key value next _ ih =>
    obtain ⟨front, back, heq, hjoin⟩ := ih
    exact ⟨.string key value front, back, congrArg _ heq, congrArg _ hjoin⟩
  | case5 key list next _ ih =>
    obtain ⟨front, back, heq, hjoin⟩ := ih
    exact ⟨.ptr key list front, back, congrArg _ heq, congrArg _ hjoin⟩
  | case7 key next _ ih =>
    obtain ⟨front, back, heq, hjoin⟩ := ih
    exact ⟨.other key front, back, congrArg _ heq, congrArg _ hjoin⟩

/-- A write to the tree replaces the list of the first section on its way: an item before the lists
inside it, and these before the items that follow. -/
theorem writeToTree_some : ∀ {root root'},
    writeToTree input key name overwrite root = some root' → ∃ (C : Context) (old next : Items),
      root = C.fill (.ptr key old next) ∧
      root' = C.fill (.ptr key (appendToList input overwrite old) next) ∧
      itemMatchesKeyAndName key name key old = true
  | .string k value next, root', h => by
    obtain ⟨next', hnext, rfl⟩ := Option.map_eq_some_iff.mp h
    obtain ⟨C, old, behind, rfl, rfl, hmatch⟩ := writeToTree_some hnext
    exact ⟨.string k value C, old, behind, rfl, rfl, hmatch⟩
  | .ptr k list next, root', h => by
    unfold writeToTree at h
    split at h
    · rename_i hmatch
      cases key_of_itemMatches hmatch
      cases h
      exact ⟨.hole, list, next, rfl, rfl, hmatch⟩
    · split at h
      · rename_i list' hlist
        cases h
        obtain ⟨C, old, behind, rfl, rfl, hmatch⟩ := writeToTree_some hlist
        exact ⟨.inside k C next, old, behind, rfl, rfl, hmatch⟩
      · obtain ⟨next', hnext, rfl⟩ := Option.map_eq_some_iff.mp h
        obtain ⟨C, old, behind, rfl, rfl, hmatch⟩ := writeToTree_some hnext
        exact ⟨.ptr k list C, old, behind, rfl, rfl, hmatch⟩
  | .other k next, root', h => by
    obtain ⟨next', hnext, rfl⟩ := Option.map_eq_some_iff.mp h
    obtain ⟨C, old, behind, rfl, rfl, hmatch⟩ := writeToTree_some hnext
    exact ⟨.other k C, old, behind, rfl, rfl, hmatch⟩

/-- It finds one if there is one. -/
theorem writeToTree_none {root} (h : writeToTree input key name overwrite root = none) :
    sections key name root = [] := by
  induction root with
  | nil => rfl
  | string _ _ _ ih | other _ _ ih => exact ih (Option.map_eq_none_iff.mp h)
  | ptr k list next hlist ih =>
    unfold writeToTree at h
    split at h
    · cases h
    · split at h
      · cases h
      · rename_i hmatch _ hnone
        rw [sections, if_neg hmatch, hlist hnone, ih (Option.map_eq_none_iff.mp h), nil_append]

/-- A new section goes into the list of the first item of the tree. -/
theorem appendListToRootNode_ok {root root'}
    (h : appendListToRootNode input key name root = .ok root') : ∃ (C : Context) (next : Items),
      root = C.fill next ∧ root' = C.fill (.ptr key (newSection input name) next) := by
  unfold appendListToRootNode at h
  split at h
  · cases h
  · rename_i k list next
    obtain ⟨front, back, hlist, hjoin⟩ :=
      joinLast_eq (.ptr key (newSection input name) .nil) list
    obtain ⟨C, hC⟩ := exists_fill_eq_append front
    cases h
    refine ⟨.inside k C next, back, ?_, ?_⟩
    · unfold Context.fill
      rw [hC, ← hlist]
    · unfold Context.fill
      rw [hC, hjoin]
      rfl
  · cases h

/-- Saving the file leaves the tree. -/
theorem saveSection_ok {p p'} (h : saveSection p = (.ok (), p')) : p'.root = p.root := by
  obtain ⟨_, _, hget, hsave⟩ := Failing.of_bind_ok h
  cases hget
  rcases hdoc : saveDocument p.root with _ | doc
  · simp only [hdoc] at hsave
    cases hsave
  · simp only [hdoc] at hsave
    cases hsave
    rfl

/-- **A write that succeeds** writes to a section, or adds one if there is none.  In both cases it is
one hole that is filled in another way. -/
theorem writeSection_ok {p p'} (hkey : key ≠ [])
    (h : writeSection input key name overwrite p = (.ok (), p')) :
    (∃ (C : Context) (old next : Items), p.root = C.fill (.ptr key old next) ∧
      p'.root = C.fill (.ptr key (appendToList input overwrite old) next) ∧
      itemMatchesKeyAndName key name key old = true) ∨
    (sections key name p.root = [] ∧ ∃ (C : Context) (next : Items), p.root = C.fill next ∧
      p'.root = C.fill (.ptr key (newSection input name) next)) := by
  obtain ⟨_, _, hget, h⟩ := Failing.of_bind_ok h
  cases hget
  rw [if_neg hkey] at h
  rcases hwrite : writeToTree input key name overwrite p.root with _ | root
  · simp only [hwrite] at h
    refine .inr ⟨writeToTree_none hwrite, ?_⟩
    rcases happend : appendListToRootNode input key name p.root with stop | root
    · simp only [happend] at h
      cases h
    · simp only [happend] at h
      obtain ⟨_, _, hset, hsave⟩ := Failing.of_bind_ok h
      cases hset
      rw [saveSection_ok hsave]
      exact appendListToRootNode_ok happend
  · simp only [hwrite] at h
    obtain ⟨_, _, hset, hsave⟩ := Failing.of_bind_ok h
    cases hset
    rw [saveSection_ok hsave]
    exact .inl (writeToTree_some hwrite)

end Write

/-! ## 5. Reading it back -/

/-- The trees differ in the list of one item with the key, or the second one has that item and the
first one does not. -/
def Replaced (key : Str) (new root root' : Items) : Prop :=
  ∃ (C : Context) (next : Items), root' = C.fill (.ptr key new next) ∧
    (root = C.fill next ∨ ∃ old, root = C.fill (.ptr key old next))

section Written

variable {input new old next root root' : Items} {key name : Str}

section

variable (hname : name ≠ [])
include hname

theorem itemMatches_iff : itemMatchesKeyAndName key name key new = true ↔ name ∈ names new := by
  unfold itemMatchesKeyAndName
  rw [Bool.and_eq_true, decide_eq_true_eq, matchesName_iff hname, and_iff_right rfl]

theorem sections_of_named (hnamed : name ∈ names new) :
    sections key name (.ptr key new .nil) = new :: sections key name new := by
  rw [sections, if_pos ((itemMatches_iff hname).mpr hnamed), sections, List.append_nil]

/-- With no sections outside of the hole and behind it, one that is put there is the only one. -/
theorem sections_fill_ptr (hnext : sections key name next = []) {C : Context} {a}
    (hfew : (sections key name (C.fill a)).length ≤ (sections key name a).length)
    (hnames : names next = names a) (new : Items) :
    sections key name (C.fill (.ptr key new next)) = sections key name (.ptr key new .nil) := by
  rw [Context.sections_fill (b := .ptr key new next) hname hnames C hfew]
  simp only [sections, hnext]

/-- The only section of a tree: there is none in it, and no other one when it is replaced.  By counting:
the sections of the item are among those of the tree, and the item is one. -/
theorem sections_of_one {C : Context}
    (hone : (sections key name (C.fill (.ptr key old next))).length ≤ 1)
    (hmatch : itemMatchesKeyAndName key name key old = true) :
    sections key name (C.fill (.ptr key old next)) = [old] ∧ sections key name old = [] ∧
      ∀ new, sections key name (C.fill (.ptr key new next)) =
        sections key name (.ptr key new .nil) := by
  have hle := @Context.length_sections_le key name (.ptr key old next) C
  have hlength : (sections key name (.ptr key old next)).length =
      (sections key name old).length + (sections key name next).length + 1 := by
    rw [sections, if_pos hmatch, length_cons, length_append]
  have hold : sections key name old = [] := eq_nil_of_length_eq_zero (by omega)
  have hnext : sections key name next = [] := eq_nil_of_length_eq_zero (by omega)
  have hfew : (sections key name (C.fill (.ptr key old next))).length ≤
      (sections key name (.ptr key old next)).length := by omega
  have hreplace := sections_fill_ptr hname hnext hfew rfl
  refine ⟨?_, hold, hreplace⟩
  rw [hreplace, sections_of_named hname ((itemMatches_iff hname).mp hmatch), hold]

/-- In a tree without such sections, one that is added is the only one. -/
theorem sections_of_none {C : Context} (hnone : sections key name (C.fill next) = [])
    (new : Items) :
    sections key name (C.fill (.ptr key new next)) = sections key name (.ptr key new .nil) := by
  have hle := @Context.length_sections_le key name next C
  rw [hnone, length_nil] at hle
  have hnext : sections key name next = [] := eq_nil_of_length_eq_zero (by omega)
  exact sections_fill_ptr hname hnext (by rw [hnone]; exact Nat.zero_le _) rfl new

end

/-- **What a write that succeeds leaves**, where there was at most one section: a new one, or the
one there was with the input, and no others but those inside. -/
theorem writeSection_spec {overwrite : Bool} {p p'} (hkey : key ≠ []) (hname : name ≠ [])
    (hone : (sections key name p.root).length ≤ 1)
    (hwrite : writeSection input key name overwrite p = (.ok (), p')) :
    ∃ new, Replaced key new p.root p'.root ∧
      sections key name p'.root = sections key name (.ptr key new .nil) ∧
      (sections key name p.root = [] ∧ new = newSection input name ∨
        ∃ old, sections key name p.root = [old] ∧ sections key name old = [] ∧
          name ∈ names old ∧ new = appendToList input overwrite old) := by
  obtain ⟨C, old, next, hroot, hroot', hmatch⟩ | ⟨hnone, C, next, hroot, hroot'⟩ :=
    writeSection_ok hkey hwrite
  · rw [hroot] at hone
    obtain ⟨hsections, hinner, hreplace⟩ := sections_of_one hname hone hmatch
    rw [← hroot] at hsections
    refine ⟨appendToList input overwrite old, ⟨C, next, hroot', .inr ⟨old, hroot⟩⟩, ?_,
      .inr ⟨old, hsections, hinner, (itemMatches_iff hname).mp hmatch, rfl⟩⟩
    rw [hroot']
    exact hreplace _
  · refine ⟨newSection input name, ⟨C, next, hroot', .inl hroot⟩, ?_, .inl ⟨hnone, rfl⟩⟩
    rw [hroot] at hnone
    rw [hroot']
    exact sections_of_none hname hnone _

end Written

/-! ## 6. Items that come back -/

/-- The items other than the name, of a copy. -/
theorem rest_duplicateList : ∀ list : Items, rest (duplicateList list) = duplicateList (rest list)
  | .nil => rfl
  | .string key value next => by
    have ih := rest_duplicateList next
    have hname : nameKey ≠ [] := by decide
    by_cases hkey : key = nameKey
    · subst hkey
      simp only [duplicateList, rest, hname, if_false, if_true, ih]
    · simp only [duplicateList, rest, hkey, if_false]
      split
      · exact ih
      · simp only [rest, hkey, if_false, ih]
  | .ptr key list next => congrArg (Items.ptr key _) (rest_duplicateList next)
  | .other key next => by
    have ih := rest_duplicateList next
    simp only [duplicateList, rest]
    split
    · exact ih
    · exact congrArg (Items.other key) ih

/-! ## 7. What is read back -/

section Cases

variable {input old root root' : Items} {key name : Str}

/-- A new section gets its name, whatever is in the input. -/
theorem newSection_eq (hname : name ≠ []) : newSection input name = .string nameKey name input := by
  unfold newSection addValuesToList
  rw [if_neg hname, if_pos rfl]

/-- What the input is added to keeps its names, and gets no sections but those of the input. -/
theorem mem_names_joinLast (h : name ∈ names old) : name ∈ names (input.joinLast old) := by
  obtain ⟨front, back, rfl, hjoin⟩ := joinLast_eq input old
  rw [hjoin]
  simp only [names_append, mem_append] at h ⊢
  tauto

theorem sections_joinLast (h : sections key name old = []) :
    sections key name (input.joinLast old) = sections key name input := by
  obtain ⟨front, back, rfl, hjoin⟩ := joinLast_eq input old
  rw [sections_append, append_eq_nil_iff] at h
  rw [hjoin, sections_append, sections_append, h.1, h.2, List.append_nil, nil_append]

end Cases

/-- What stays of a section that is written to: nothing, or all but its name and its comments. -/
def Stays (overwrite : Bool) (around : Items) : List Items → Prop
  | [] => around = .nil
  | old :: _ =>
    if overwrite then around = .nil else ∃ copy, IsCopy copy old ∧ around = rest copy

/-- **A section that is written is found**, with such sections as are in the input; it has the items
of the input, with those around them that stay; and nothing else is changed.

`hone` is there because a write stops at the first section of the name; `hinput` because another name
in the input would make it another section; and `hnamed` because overwriting takes the name away. -/
theorem section_is_found (input : Items) (key name : Str) (overwrite : Bool) (p p' : Parser)
    (hkey : key ≠ []) (hname : name ≠ []) (hone : (sections key name p.root).length ≤ 1)
    (hinput : names input = [] ∨ names input = [name])
    (hnamed : overwrite = true → sections key name p.root ≠ [] → names input ≠ [])
    (hwrite : writeSection input key name overwrite p = (.ok (), p')) :
    ∃ (new newCopy inputCopy front back : Items) (copies copied : List Items),
      Replaced key new p.root p'.root ∧ retrieveSection p'.root key name = ofLists key copies ∧
      copied.Perm (new :: sections key name input) ∧ Forall₂ IsCopy copies copied ∧
      IsCopy newCopy new ∧ IsCopy inputCopy input ∧
      rest newCopy = front.append ((rest inputCopy).append back) ∧
      Stays overwrite (front.append back) (sections key name p.root) := by
  obtain ⟨new, hreplaced, hsections, hnew⟩ := writeSection_spec hkey hname hone hwrite
  -- it has its name, and such sections as are in the input
  suffices h : name ∈ names new ∧ (sections key name new).map duplicateList =
        (sections key name input).map duplicateList ∧
      ∃ front back : Items, rest (duplicateList new) =
          front.append ((rest (duplicateList input)).append back) ∧
        Stays overwrite (front.append back) (sections key name p.root) by
    obtain ⟨hmem, hinner, front, back, hrest, hstays⟩ := h
    obtain ⟨copies, hperm, hretrieve⟩ := retrieveSection_eq hkey hname p'.root
    rw [hsections, sections_of_named hname hmem, map_cons, hinner, ← map_cons] at hperm
    obtain ⟨copied, hcopied, hcopies⟩ := exists_copied hperm
    exact ⟨new, duplicateList new, duplicateList input, front, back, copies, copied, hreplaced,
      hretrieve, hcopied, hcopies, isCopy_duplicateList new, isCopy_duplicateList input, hrest, hstays⟩
  obtain ⟨hnone, rfl⟩ | ⟨old, hold, hinner, hmem, rfl⟩ := hnew
  · rw [newSection_eq hname, names, if_pos rfl, sections]
    refine ⟨mem_cons_self, rfl, .nil, .nil, ?_, ?_⟩
    · rw [rest_duplicateList, rest, if_pos rfl, rest_duplicateList, Items.append_nil]
      rfl
    · rw [hnone]
      rfl
  · rw [hold]
    cases overwrite with
    | true =>
      -- the list is a copy of the input now, and looked up it is copied again
      change name ∈ names (duplicateList input) ∧
        (sections key name (duplicateList input)).map duplicateList = _ ∧ _
      have hne := hnamed rfl (by rw [hold]; exact cons_ne_nil old [])
      rw [names_duplicateList, hinput.resolve_left hne, sections_duplicateList hname, map_map]
      refine ⟨mem_singleton_self name,
        map_congr_left fun list _ => duplicateList_duplicateList list, .nil, .nil, ?_, rfl⟩
      rw [Items.append_nil]
      exact congrArg rest (duplicateList_duplicateList input)
    | false =>
      obtain ⟨front, back, heq, hjoin⟩ := joinLast_eq input old
      refine ⟨mem_names_joinLast hmem, congrArg _ (sections_joinLast hinner),
        rest (duplicateList front), rest (duplicateList back), ?_,
        duplicateList old, isCopy_duplicateList old, ?_⟩
      · change rest (duplicateList (input.joinLast old)) = _
        rw [hjoin]
        simp only [duplicateList_append, rest_append]
      · rw [heq, duplicateList_append, rest_append]

/-- `<configuration><aggregator name="agg"><port>55820</port></aggregator></configuration>`. -/
def aggregatorDoc : Nodes :=
  .element (ofString "configuration") [] (.element (ofString "aggregator")
    [(ofString "name", ofString "agg")]
    (.element (ofString "port") [] (.pcdata (ofString "55820") .nil) .nil) .nil) .nil

/-- A parser that has loaded it. -/
def aggregatorFile : Parser where
  root := .ptr (ofString "configuration") (.ptr (ofString "aggregator")
    (.string nameKey (ofString "agg") (.string (ofString "port") (ofString "55820") .nil)) .nil)
    .nil
  file := aggregatorDoc

/-- A file in which the section has comments, and a list of its own. -/
def commentedFile : Parser where
  root := .ptr (ofString "configuration") (.string [] (ofString "site")
    (.ptr (ofString "aggregator") (.string nameKey (ofString "agg") (.string [] (ofString "ports")
      (.ptr (ofString "ports") (.string [] (ofString "tcp")
        (.string (ofString "port") (ofString "55820") .nil)) .nil))) .nil)) .nil
  file := .nil

/-- The section is found by its name, with the list inside and without the two comments. -/
theorem lookup_exact_commented : ∃ result found,
    commentedFile.retrieve (ofString "aggregator") (ofString "agg") = (.ok result, commentedFile) ∧
    found.Perm [.ptr (ofString "aggregator") (.string nameKey (ofString "agg")
      (.string [] (ofString "ports") (.ptr (ofString "ports") (.string [] (ofString "tcp")
        (.string (ofString "port") (ofString "55820") .nil)) .nil))) .nil] ∧
    Forall₂ IsCopy (items result) found ∧
    result = .ptr (ofString "aggregator") (.string nameKey (ofString "agg")
      (.ptr (ofString "ports") (.string (ofString "port") (ofString "55820") .nil) .nil)) .nil := by
  obtain ⟨result, found, hrun, hfound, hcopies⟩ :=
    lookup_exact (ofString "aggregator") (ofString "agg") (by decide) commentedFile
  refine ⟨result, found, hrun, hfound, hcopies, ?_⟩
  cases hrun
  decide

/-- A host, to be written to the section. -/
def hostItems : Items := .string (ofString "host") (ofString "agg01") .nil

/-- The host is added to the section, which is found with both. -/
theorem section_is_found_host :
    ∃ (p' : Parser) (new newCopy inputCopy front back : Items) (copies copied : List Items),
      writeSection hostItems (ofString "aggregator") (ofString "agg") false aggregatorFile =
        (.ok (), p') ∧ Replaced (ofString "aggregator") new aggregatorFile.root p'.root ∧
      retrieveSection p'.root (ofString "aggregator") (ofString "agg") =
        ofLists (ofString "aggregator") copies ∧ copied.Perm
        (new :: sections (ofString "aggregator") (ofString "agg") hostItems) ∧
      Forall₂ IsCopy copies copied ∧ IsCopy newCopy new ∧ IsCopy inputCopy hostItems ∧
      rest newCopy = front.append ((rest inputCopy).append back) ∧
      Stays false (front.append back)
        (sections (ofString "aggregator") (ofString "agg") aggregatorFile.root) := by
  have hwrite : writeSection hostItems (ofString "aggregator") (ofString "agg") false
      aggregatorFile = (.ok (), _) := rfl
  obtain ⟨new, newCopy, inputCopy, front, back, copies, copied, hfound⟩ :=
    section_is_found hostItems _ _ false _ _ (by decide) (by decide) (by decide) (by decide)
      (by decide) hwrite
  exact ⟨_, new, newCopy, inputCopy, front, back, copies, copied, hwrite, hfound⟩

/-- **Without overwriting**, the section that is read back has the port as well. -/
theorem port_is_still_there : convertXmlNodeToOpalList aggregatorDoc = some aggregatorFile.root ∧
    (sections (ofString "aggregator") (ofString "agg") aggregatorFile.root).length = 1 ∧
    names hostItems = [] ∧
    (writeSection hostItems (ofString "aggregator") (ofString "agg") false aggregatorFile).1 =
      .ok () ∧ retrieveSection
      (writeSection hostItems (ofString "aggregator") (ofString "agg") false aggregatorFile).2.root
      (ofString "aggregator") (ofString "agg") =
        .ptr (ofString "aggregator") (.string nameKey (ofString "agg")
          (.string (ofString "host") (ofString "agg01")
            (.string (ofString "port") (ofString "55820") .nil))) .nil := by
  decide

/-- **Overwritten with the host alone**, the section has lost its name, and is not found. -/
example : (writeSection hostItems (ofString "aggregator") (ofString "agg") true
      aggregatorFile).1 = .ok () ∧
    retrieveSection
      (writeSection hostItems (ofString "aggregator") (ofString "agg") true aggregatorFile).2.root
      (ofString "aggregator") (ofString "agg") = .nil := by
  decide

end Sensys.Orcm.Pugi
