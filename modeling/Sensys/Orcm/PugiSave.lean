/-
# Saving a configuration document

A tree that was loaded is saved and loaded again (`orcm/mca/parser/pugi/pugi_impl.cpp`).  What comes
back has the items in their order, except for the `name` items of each list: loading puts each one
in FRONT of the others, so they are reversed again and again (`convert_nodesOf`); and those of the
document itself are lost, because a document has no attributes.

* `saved_iff`: a document survives if and only if it has no `name` at the top, and the `name` items
  of each list read the same backwards.
* `two_names_are_swapped`: a name as an attribute and as an element.
-/
import Sensys.Orcm.Pugi

namespace Sensys.Orcm.Pugi

open CString List Option
open Workflow (Items)

/-! ## 1. What loading gives -/

theorem trim_trim (s : Str) : trim (trim s) = trim s := by
  unfold trim
  have hright : ((s.rdropWhile isSpace).dropWhile isSpace).rdropWhile isSpace =
      (s.rdropWhile isSpace).dropWhile isSpace := by
    rw [rdropWhile_eq_self_iff]
    intro hne
    -- what is left of a string ends as the string does
    rw [(dropWhile_suffix isSpace).getLast hne]
    exact rdropWhile_last_not _ _ _
  rw [hright, dropWhile_idempotent]

/-- `name` items in front of a list. -/
def nameItems (values : List Str) (list : Items) : Items :=
  values.foldr (fun value list => .string nameKey value list) list

/-- The `name` items come first. -/
def NamesFirst (list : Items) : Prop := nameItems (names list) (rest list) = list

/-- What holds of the items that were loaded: they are trimmed, and the names come first in every
list of theirs. -/
def Tidy : Items → Prop
  | .nil => True
  | .string key value next => trim key = key ∧ trim value = value ∧ Tidy next
  | .ptr key list next => trim key = key ∧ NamesFirst list ∧ Tidy list ∧ Tidy next
  | .other _ _ => False

theorem Tidy.append : ∀ {a b}, Tidy a → Tidy b → Tidy (a.append b)
  | .nil, _, _, hb => hb
  | .string _ _ _, _, ha, hb => ⟨ha.1, ha.2.1, ha.2.2.append hb⟩
  | .ptr _ _ _, _, ha, hb => ⟨ha.1, ha.2.1, ha.2.2.1, ha.2.2.2.append hb⟩

variable (values : List Str)

theorem nameItems_append (a b : Items) :
    (nameItems values a).append b = nameItems values (a.append b) := by
  induction values with
  | nil => rfl
  | cons value values ih => exact congrArg (Items.string nameKey value) ih

variable {list root : Items}

/-- An item that is no name is appended. -/
theorem NamesFirst.append {item} (h : NamesFirst list) (hnames : names item = [])
    (hrest : rest item = item) : NamesFirst (list.append item) := by
  unfold NamesFirst at h ⊢
  rw [names_append, hnames, List.append_nil, rest_append, hrest, ← nameItems_append, h]

/-- A list as loading builds it. -/
structure Loaded (list : Items) : Prop where
  tidy : Tidy list
  namesFirst : NamesFirst list

theorem Loaded.addValuesToList (h : Loaded list) (key value : Str) :
    Loaded (addValuesToList (trim key) (trim value) list) := by
  unfold Pugi.addValuesToList
  split
  · rename_i hkey
    refine ⟨⟨trim_trim key, trim_trim value, h.tidy⟩, ?_⟩
    rw [hkey]
    exact congrArg (Items.string nameKey (trim value)) h.namesFirst
  · rename_i hkey
    refine ⟨h.tidy.append ⟨trim_trim key, trim_trim value, trivial⟩, h.namesFirst.append ?_ ?_⟩
    · simp [names, hkey]
    · simp [rest, hkey]

theorem Loaded.appendPtr {children} (h : Loaded list) (hchildren : Loaded children) (key : Str) :
    Loaded (list.append (.ptr (trim key) children .nil)) :=
  ⟨h.tidy.append ⟨trim_trim key, hchildren.namesFirst, hchildren.tidy, trivial⟩,
    h.namesFirst.append rfl rfl⟩

theorem loaded_nil : Loaded .nil := ⟨trivial, rfl⟩

theorem Loaded.addNodeAttributesToList (h : Loaded list)
    (attributes : List (Str × Str)) : Loaded (addNodeAttributesToList attributes list) := by
  induction attributes generalizing list with
  | nil => exact h
  | cons a attributes ih => exact ih (h.addValuesToList a.1 a.2)

theorem Loaded.addNodesToList : ∀ nodes {list}, Loaded list →
    Loaded (addNodesToList nodes list)
  | .nil, _, h => h
  | .element name attributes children next, list, h => by
    refine Loaded.addNodesToList next ?_
    split
    · exact h.addValuesToList name _
    · exact h.appendPtr (Loaded.addNodesToList children
        (loaded_nil.addNodeAttributesToList attributes)) name
  | .pcdata _ next, list, h => Loaded.addNodesToList next (h.appendPtr loaded_nil [])
  | .cdata _ next, list, h => Loaded.addNodesToList next (h.appendPtr loaded_nil [])
  | .comment value next, list, h => Loaded.addNodesToList next (h.addValuesToList [] value)

theorem loaded_of_convert {doc} (h : convertXmlNodeToOpalList doc = some root) : Loaded root := by
  unfold convertXmlNodeToOpalList at h
  split at h
  · cases h
  · cases h
    exact Loaded.addNodesToList doc loaded_nil

/-! ## 2. What saving and loading again gives -/

/-- The nodes that the items of a list become. -/
def nodesOf : Items → Nodes
  | .nil => .nil
  | .string key value next =>
    if key = nameKey then nodesOf next
    else if key = [] then .comment value (nodesOf next)
    else .element key [] (.pcdata value .nil) (nodesOf next)
  | .ptr key list next =>
    .element key ((names list).map fun value => (nameKey, value)) (nodesOf list) (nodesOf next)
  | .other _ next => nodesOf next

theorem convertOpalListToXmlNodes_eq : ∀ {list}, Tidy list →
    convertOpalListToXmlNodes list =
      some ((names list).map fun value => (nameKey, value), nodesOf list)
  | .nil, _ => rfl
  | .string key value next, h => by
    simp only [convertOpalListToXmlNodes, convertOpalListToXmlNodes_eq h.2.2, names, nodesOf,
      bind_eq_bind, bind_some]
    by_cases hname : key = nameKey
    · simp [hname]
    · simp only [hname, if_false]
      split <;> rfl
  | .ptr key list next, h => by
    simp only [convertOpalListToXmlNodes, convertOpalListToXmlNodes_eq h.2.2.1,
      convertOpalListToXmlNodes_eq h.2.2.2, names, nodesOf, bind_eq_bind,
      bind_some, Option.pure_def]

theorem saveDocument_eq (h : Tidy list) : saveDocument list = some (nodesOf list) := by
  unfold saveDocument
  rw [convertOpalListToXmlNodes_eq h]
  rfl

/-- What comes back of the items that are not names: the names of each of their lists reversed. -/
def reloaded : Items → Items
  | .nil => .nil
  | .string key value next =>
    if key = nameKey then reloaded next else .string key value (reloaded next)
  | .ptr key list next =>
    .ptr key (nameItems (names list).reverse (reloaded list)) (reloaded next)
  | .other _ next => reloaded next

/-- No saved node starts with a text. -/
theorem leafValue_nodesOf : ∀ list : Items, leafValue (nodesOf list) = none
  | .nil => rfl
  | .string key value next => by
    simp only [nodesOf]
    split
    · exact leafValue_nodesOf next
    · split <;> rfl
  | .ptr _ _ _ => rfl
  | .other _ next => leafValue_nodesOf next

/-- Attributes are put in front, one after the other. -/
theorem addNodeAttributesToList_names {values : List Str} (h : ∀ value ∈ values, trim value = value)
    (list : Items) : addNodeAttributesToList (values.map fun value => (nameKey, value)) list =
      nameItems values.reverse list := by
  have hkey : trim nameKey = nameKey := by decide
  unfold addNodeAttributesToList
  induction values generalizing list with
  | nil => rfl
  | cons value values ih =>
    rw [map_cons, foldl_cons, ih fun v hv => h v (mem_cons_of_mem _ hv)]
    simp only [hkey, h value mem_cons_self, addValuesToList, if_true]
    simp [nameItems]

theorem Tidy.trim_names : ∀ {list}, Tidy list → ∀ value ∈ names list, trim value = value
  | .nil, _, _, hv => by cases hv
  | .string key v next, h, value, hv => by
    simp only [names] at hv
    split at hv
    · obtain rfl | hv := mem_cons.mp hv
      · exact h.2.1
      · exact h.2.2.trim_names value hv
    · exact h.2.2.trim_names value hv
  | .ptr _ _ _, h, value, hv => h.2.2.2.trim_names value hv

/-- **What is loaded from the saved nodes.** -/
theorem addNodesToList_nodesOf : ∀ {list}, Tidy list → ∀ front : Items,
    addNodesToList (nodesOf list) front = front.append (reloaded list)
  | .nil, _, front => front.append_nil.symm
  | .string key value next, h, front => by
    simp only [nodesOf, reloaded]
    by_cases hname : key = nameKey
    · rw [if_pos hname, if_pos hname, addNodesToList_nodesOf h.2.2]
    · rw [if_neg hname, if_neg hname]
      split_ifs with hempty
      · rw [addNodesToList, addNodesToList_nodesOf h.2.2]
        have hcomment : ([] : Str) ≠ nameKey := by decide
        rw [addValuesToList, if_neg hcomment, Items.append_assoc, h.2.1, hempty]
        rfl
      · rw [addNodesToList, addNodesToList_nodesOf h.2.2]
        simp only [leafValue, h.1, h.2.1, addValuesToList, hname, if_false, Items.append_assoc]
        rfl
  | .ptr key list next, h, front => by
    simp only [nodesOf, reloaded]
    rw [addNodesToList, addNodesToList_nodesOf h.2.2.2, leafValue_nodesOf]
    simp only [addNodesToList_nodesOf h.2.2.1, addNodeAttributesToList_names h.2.2.1.trim_names,
      h.1, Items.append_assoc, nameItems_append]
    rfl

/-- **Saved and loaded again**, a tree has its lists with the names reversed, and its own names are
lost. -/
theorem convert_nodesOf (h : Tidy root) :
    convertXmlNodeToOpalList (nodesOf root) = some (reloaded root) := by
  unfold convertXmlNodeToOpalList
  rw [leafValue_nodesOf]
  simp only [addNodesToList_nodesOf h]
  rfl

/-! ## 3. When that is the same tree -/

/-- In every list of the items, the names read the same backwards. -/
def Mirrored : Items → Prop
  | .nil => True
  | .string _ _ next => Mirrored next
  | .ptr _ list next => (names list).reverse = names list ∧ Mirrored list ∧ Mirrored next
  | .other _ next => Mirrored next

theorem names_nameItems (list : Items) : names (nameItems values list) = values ++ names list := by
  induction values with
  | nil => rfl
  | cons value values ih =>
    show names (.string nameKey value (nameItems values list)) = _
    simp only [names, if_true, ih, cons_append]

theorem rest_nameItems (list : Items) : rest (nameItems values list) = rest list := by
  induction values with
  | nil => rfl
  | cons value values ih =>
    show rest (.string nameKey value (nameItems values list)) = _
    simp only [rest, if_true, ih]

/-- There are no names among what comes back. -/
theorem names_reloaded : ∀ list : Items, names (reloaded list) = []
  | .nil => rfl
  | .string key value next => by
    simp only [reloaded]
    split
    · exact names_reloaded next
    · rename_i hname
      simp only [names, hname, if_false, names_reloaded next]
  | .ptr _ _ next => names_reloaded next
  | .other _ next => names_reloaded next

theorem rest_reloaded : ∀ list : Items, rest (reloaded list) = reloaded list
  | .nil => rfl
  | .string key value next => by
    simp only [reloaded]
    split
    · exact rest_reloaded next
    · rename_i hname
      simp only [rest, hname, if_false, rest_reloaded next]
  | .ptr key list next => congrArg (Items.ptr key _) (rest_reloaded next)
  | .other _ next => rest_reloaded next

/-- A list comes back as it was if its names are the same backwards and its other items come
back. -/
theorem nameItems_reloaded_iff (h : NamesFirst list) :
    nameItems (names list).reverse (reloaded list) = list ↔
      (names list).reverse = names list ∧ reloaded list = rest list := by
  constructor
  · intro heq
    have hnames := congrArg names heq
    have hrest := congrArg rest heq
    rw [names_nameItems, names_reloaded, List.append_nil] at hnames
    rw [rest_nameItems, rest_reloaded] at hrest
    exact ⟨hnames, hrest⟩
  · rintro ⟨hnames, hrest⟩
    rw [hnames, hrest]
    exact h

/-- **The items other than names come back** if and only if the names of each list are mirrored. -/
theorem reloaded_eq_rest_iff : ∀ {list}, Tidy list →
    (reloaded list = rest list ↔ Mirrored list)
  | .nil, _ => iff_of_true rfl trivial
  | .string key value next, h => by
    have ih := reloaded_eq_rest_iff h.2.2
    simp only [reloaded, rest, Mirrored]
    split
    · exact ih
    · simpa using ih
  | .ptr key list next, h => by
    simp only [reloaded, rest, Mirrored, Items.ptr.injEq, true_and]
    rw [nameItems_reloaded_iff h.2.1, reloaded_eq_rest_iff h.2.2.1, reloaded_eq_rest_iff h.2.2.2,
      and_assoc]

/-- **The tree comes back** if, moreover, it has no names of its own. -/
theorem Loaded.reloaded_eq_iff (h : Loaded root) :
    reloaded root = root ↔ names root = [] ∧ Mirrored root := by
  rw [← reloaded_eq_rest_iff h.tidy]
  constructor
  · intro heq
    refine ⟨?_, ?_⟩
    · rw [← heq]
      exact names_reloaded root
    · rw [← rest_reloaded, heq]
  · rintro ⟨hnames, hrest⟩
    have hfirst := h.namesFirst
    unfold NamesFirst at hfirst
    rw [hnames, ← hrest] at hfirst
    exact hfirst

/-- **A document that is saved and loaded again** gives the same tree if and only if the tree has no
names at the top, and mirrored names in all its lists. -/
theorem saved_iff (doc : Nodes) (root : Items) (hload : convertXmlNodeToOpalList doc = some root) :
    (saveDocument root).bind convertXmlNodeToOpalList = some root ↔
      names root = [] ∧ Mirrored root := by
  have h := loaded_of_convert hload
  rw [saveDocument_eq h.tidy, bind_some, convert_nodesOf h.tidy, some.injEq,
    h.reloaded_eq_iff]

/-- `<!-- sites --><configuration name="site"><version>3.0</version></configuration>`. -/
def siteDoc : Nodes :=
  .comment (ofString " sites ") (.element (ofString "configuration")
    [(ofString "name", ofString "site")]
    (.element (ofString "version") [] (.pcdata (ofString "3.0") .nil) .nil) .nil)

/-- What it is loaded as. -/
def siteItems : Items :=
  .string [] (ofString "sites") (.ptr (ofString "configuration")
    (.string nameKey (ofString "site") (.string (ofString "version") (ofString "3.0") .nil)) .nil)

/-- One name in each list is saved without loss. -/
theorem saved_iff_site : convertXmlNodeToOpalList siteDoc = some siteItems ∧
    (saveDocument siteItems).bind convertXmlNodeToOpalList = some siteItems :=
  ⟨by decide, (saved_iff siteDoc siteItems (by decide)).mpr
    ⟨by decide, by decide, trivial, trivial⟩⟩

/-- `<a name="x"><name>y</name></a>`: a name as an attribute and another one as an element. -/
def twoNames : Nodes :=
  .element (ofString "a") [(ofString "name", ofString "x")]
    (.element (ofString "name") [] (.pcdata (ofString "y") .nil) .nil) .nil

/-- **They come back in the other order.** -/
theorem two_names_are_swapped : convertXmlNodeToOpalList twoNames = some (.ptr (ofString "a")
      (.string nameKey (ofString "y") (.string nameKey (ofString "x") .nil)) .nil) ∧
    (saveDocument (.ptr (ofString "a")
      (.string nameKey (ofString "y") (.string nameKey (ofString "x") .nil)) .nil)).bind
        convertXmlNodeToOpalList = some (.ptr (ofString "a")
      (.string nameKey (ofString "x") (.string nameKey (ofString "y") .nil)) .nil) := by
  constructor <;> decide

end Sensys.Orcm.Pugi
