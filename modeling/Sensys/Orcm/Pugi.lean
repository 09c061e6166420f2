/-
# The parser of configuration files

`orcm/mca/parser/pugi/pugi_impl.cpp`: a file is loaded by pugixml and converted to a list of items
(`Items`): an item has a key, and a string or a list of its own.  Sections are looked up in that
tree and written to it, and the tree is converted back and saved.

* Loading (section 2) folds attributes, elements with a text, and comments into string items, and
  puts the items with the key `name` in FRONT.
* Saving (section 3) makes attributes of the items with the key `name`, comments of those without a
  key, and elements of all others.
* Sections are found by their key and a `name` item (section 4), and are written in place or, if
  there is none, into the first element of the document (section 5).

A `char *` that is `NULL` is treated as an empty string is, everywhere.  An item that is neither a
string nor a list is an `OPAL_INT`.  Memory is not exhausted, and files can be written.
-/
import Mathlib.Data.List.DropRight
import Sensys.Orcm.Workflow

namespace Sensys.Orcm.Workflow

/-! ## 1. Lists of items -/

/-- One list behind another. -/
def Items.append : Items → Items → Items
  | .nil, more => more
  | .string key value next, more => .string key value (next.append more)
  | .ptr key list next, more => .ptr key list (next.append more)
  | .other key next, more => .other key (next.append more)

/-- `opal_list_join(list, opal_list_get_last(list), input)`: the other items are inserted in front
of the LAST one.  The last item of an empty list is its end. -/
def Items.joinLast (input : Items) : Items → Items
  | .nil => input
  | .string key value .nil => input.append (.string key value .nil)
  | .string key value next => .string key value (joinLast input next)
  | .ptr key list .nil => input.append (.ptr key list .nil)
  | .ptr key list next => .ptr key list (joinLast input next)
  | .other key .nil => input.append (.other key .nil)
  | .other key next => .other key (joinLast input next)

@[simp] theorem Items.append_nil : ∀ list : Items, list.append .nil = list
  | .nil => rfl
  | .string key value next => congrArg (Items.string key value) next.append_nil
  | .ptr key list next => congrArg (Items.ptr key list) next.append_nil
  | .other key next => congrArg (Items.other key) next.append_nil

theorem Items.append_assoc : ∀ a b c : Items, (a.append b).append c = a.append (b.append c)
  | .nil, _, _ => rfl
  | .string key value next, b, c => congrArg (Items.string key value) (next.append_assoc b c)
  | .ptr key list next, b, c => congrArg (Items.ptr key list) (next.append_assoc b c)
  | .other key next, b, c => congrArg (Items.other key) (next.append_assoc b c)

end Sensys.Orcm.Workflow

namespace Sensys.Orcm.Pugi

open CString
open Opal.Dss (Stop)
open Workflow (Items)

/-- The key of a name. -/
def nameKey : Str := ofString "name"

/-- The values of the items with the key `name`. -/
def names : Items → List Str
  | .nil => []
  | .string key value next => if key = nameKey then value :: names next else names next
  | .ptr _ _ next => names next
  | .other _ next => names next

/-- The items other than those. -/
def rest : Items → Items
  | .nil => .nil
  | .string key value next => if key = nameKey then rest next else .string key value (rest next)
  | .ptr key list next => .ptr key list (rest next)
  | .other key next => .other key (rest next)

theorem names_append : ∀ a b : Items, names (a.append b) = names a ++ names b
  | .nil, _ => rfl
  | .string key value next, b => by
    simp only [Items.append, names, names_append next b]
    split <;> rfl
  | .ptr _ _ next, b => names_append next b
  | .other _ next, b => names_append next b

theorem rest_append : ∀ a b : Items, rest (a.append b) = (rest a).append (rest b)
  | .nil, _ => rfl
  | .string key value next, b => by
    simp only [Items.append, rest, rest_append next b]
    split <;> rfl
  | .ptr key list next, b => congrArg (Items.ptr key list) (rest_append next b)
  | .other key next, b => congrArg (Items.other key) (rest_append next b)

/-! ## 2. Loading -/

/-- The nodes that pugixml has for a file: a node, and those that follow it.  Declarations,
processing instructions and the document type are not asked for. -/
inductive Nodes where
  | nil
  | element (name : Str) (attributes : List (Str × Str)) (children next : Nodes)
  | pcdata (value : Str) (next : Nodes)
  | cdata (value : Str) (next : Nodes)
  | comment (value : Str) (next : Nodes)
  deriving DecidableEq, Repr

/-- `trim`. -/
def trim (s : Str) : Str := (s.rdropWhile isSpace).dropWhile isSpace

/-- `isLeafNode` with `child_value`: a node is a leaf if a text comes first in it. -/
def leafValue : Nodes → Option Str
  | .pcdata value _ => some value
  | _ => none

/-- `addValuesToList`. -/
def addValuesToList (key value : Str) (list : Items) : Items :=
  if key = nameKey then .string key value list else list.append (.string key value .nil)

/-- `addNodeAttributesToList`. -/
def addNodeAttributesToList (attributes : List (Str × Str)) (list : Items) : Items :=
  attributes.foldl (fun list a => addValuesToList (trim a.1) (trim a.2) list) list

/-- `addNodeToList`, for a node and those that follow it.  A text that does not come first, and all
character data, is a node without name and children. -/
def addNodesToList : Nodes → Items → Items
  | .nil, list => list
  | .element name attributes children next, list =>
    addNodesToList next <|
      match leafValue children with
      | some value => addValuesToList (trim name) (trim value) list
      | none => list.append (.ptr (trim name)
          (addNodesToList children (addNodeAttributesToList attributes .nil)) .nil)
  | .pcdata _ next, list => addNodesToList next (list.append (.ptr [] .nil .nil))
  | .cdata _ next, list => addNodesToList next (list.append (.ptr [] .nil .nil))
  | .comment value next, list => addNodesToList next (addValuesToList [] (trim value) list)

/-- `convertXmlNodeToOpalList` for a document: what `extractFromEmptyKeyList` takes out of the list
of the document itself.  A document that starts with a text would be a leaf. -/
def convertXmlNodeToOpalList (doc : Nodes) : Option Items :=
  match leafValue doc with
  | some _ => none
  | none => some (addNodesToList doc .nil)

/-! ## 3. Saving -/

/-- `convertOpalListToXmlNodes`: the attributes and the nodes that a list makes in the node it is
for. -/
def convertOpalListToXmlNodes : Items → Option (List (Str × Str) × Nodes)
  | .nil => some ([], .nil)
  | .string key value next => do
    let (attributes, nodes) ← convertOpalListToXmlNodes next
    if key = nameKey then pure ((key, value) :: attributes, nodes)
    else if key = [] then pure (attributes, .comment value nodes)
    else pure (attributes, .element key [] (.pcdata value .nil) nodes)
  | .ptr key list next => do
    let (own, children) ← convertOpalListToXmlNodes list
    let (attributes, nodes) ← convertOpalListToXmlNodes next
    pure (attributes, .element key own children nodes)
  | .other _ _ => none

/-- The document that a tree is saved as.  `append_attribute` does nothing for a document. -/
def saveDocument (root : Items) : Option Nodes := (convertOpalListToXmlNodes root).map Prod.snd

/-! ## 4. Sections -/

/-- `duplicateList`: a copy without the comments. -/
def duplicateList : Items → Items
  | .nil => .nil
  | .string key value next =>
    if key = [] then duplicateList next else .string key value (duplicateList next)
  | .ptr key list next => .ptr key (duplicateList list) (duplicateList next)
  | .other key next => if key = [] then duplicateList next else .other key (duplicateList next)

/-- The loop of `itemMatchesKeyAndName`. -/
def matchesName (name : Str) : Items → Bool
  | .nil => decide (name = [])
  | .string key value next =>
    if key = nameKey then
      if name = [] then false else if name = value then true else matchesName name next
    else matchesName name next
  | .ptr _ _ next => matchesName name next
  | .other _ next => matchesName name next

/-- `itemMatchesKeyAndName`, for an item with a list. -/
def itemMatchesKeyAndName (key name : Str) (itemKey : Str) (list : Items) : Bool :=
  decide (key = itemKey) && matchesName name list

/-- The loop of `searchKeyInList`. -/
def keepKey (key : Str) : Items → Items
  | .nil => .nil
  | .string k value next =>
    if key = k then .string k value (keepKey key next) else keepKey key next
  | .ptr k list next => if key = k then .ptr k list (keepKey key next) else keepKey key next
  | .other k next => if key = k then .other k (keepKey key next) else keepKey key next

/-- The loop of `searchKeyAndNameInList`. -/
def keepMatches (key name : Str) : Items → Items
  | .nil => .nil
  | .string _ _ next => keepMatches key name next
  | .ptr k list next =>
    if itemMatchesKeyAndName key name k list then .ptr k list (keepMatches key name next)
    else keepMatches key name next
  | .other _ next => keepMatches key name next

/-- `searchKeyInList`.  No list is an empty one. -/
def searchKeyInList (key : Str) (srcList : Items) : Items := keepKey key (duplicateList srcList)

/-- `searchKeyAndNameInList`. -/
def searchKeyAndNameInList (key name : Str) (srcList : Items) : Items :=
  keepMatches key name (duplicateList srcList)

/-- The loop of the searches in a tree, which joins what is found in the lists of a list IN FRONT of
what was found so far. -/
def searchChildren (inList : Items → Items) : Items → Items → Items
  | .nil, result => result
  | .string _ _ next, result => searchChildren inList next result
  | .ptr _ list next, result =>
    searchChildren inList next ((searchChildren inList list (inList list)).append result)
  | .other _ next, result => searchChildren inList next result

/-- `searchKeyInTree`. -/
def searchKeyInTree (key : Str) (tree : Items) : Items :=
  searchChildren (searchKeyInList key) tree (searchKeyInList key tree)

/-- `searchKeyAndNameInTree`. -/
def searchKeyAndNameInTree (key name : Str) (tree : Items) : Items :=
  searchChildren (searchKeyAndNameInList key name) tree (searchKeyAndNameInList key name tree)

/-- `retrieveSection`, in the tree of a parser. -/
def retrieveSection (root : Items) (key name : Str) : Items :=
  if key = [] then .nil
  else if name = [] then searchKeyInTree key root
  else searchKeyAndNameInTree key name root

/-! ## 5. Writing -/

/-- `pugi_impl`: the tree, and the file. -/
structure Parser where
  root : Items
  file : Nodes
  deriving DecidableEq, Repr

/-- `retrieveSection`, of a parser. -/
def Parser.retrieve (key name : Str) : Failing Stop Parser Items := do
  let p ← get
  pure (retrieveSection p.root key name)

/-- `appendToList`. -/
def appendToList (input : Items) (overwrite : Bool) (srcList : Items) : Items :=
  if overwrite then duplicateList input else input.joinLast srcList

/-- `writeToTree` with a key: the first match that is found is written to. -/
def writeToTree (input : Items) (key name : Str) (overwrite : Bool) : Items → Option Items
  | .nil => none
  | .string k value next => (writeToTree input key name overwrite next).map (.string k value)
  | .ptr k list next =>
    if itemMatchesKeyAndName key name k list then
      some (.ptr k (appendToList input overwrite list) next)
    else
      match writeToTree input key name overwrite list with
      | some list => some (.ptr k list next)
      | none => (writeToTree input key name overwrite next).map (.ptr k list)
  | .other k next => (writeToTree input key name overwrite next).map (.other k)

/-- The section that `appendListToRootNode` makes. -/
def newSection (input : Items) (name : Str) : Items :=
  if name = [] then input else addValuesToList nameKey name input

/-- `appendListToRootNode`.  An empty list has no first element, and what stands there instead is
looked at. -/
def appendListToRootNode (input : Items) (key name : Str) : Items → Except Stop Items
  | .nil => .error .undefined
  | .ptr k list next =>
    .ok (.ptr k ((Items.ptr key (newSection input name) .nil).joinLast list) next)
  | _ => .error (.rc .error)

/-- `saveSection`. -/
def saveSection : Failing Stop Parser Unit := do
  let p ← get
  match saveDocument p.root with
  | none => throw (.rc .errNotImplemented)
  | some doc => set { p with file := doc }

/-- `writeSection`.  Without a key, what is overwritten is freed, with the tree still pointing to
it. -/
def writeSection (input : Items) (key name : Str) (overwrite : Bool) :
    Failing Stop Parser Unit := do
  let p ← get
  if key = [] then
    if overwrite then throw .undefined
    else do
      set { p with root := input.joinLast p.root }
      saveSection
  else
    match writeToTree input key name overwrite p.root with
    | some root => do
      set { p with root := root }
      saveSection
    | none =>
      match appendListToRootNode input key name p.root with
      | .error stop => throw stop
      | .ok root => do
        set { p with root := root }
        saveSection

end Sensys.Orcm.Pugi
