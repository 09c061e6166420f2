/-
# Logical groups

The model of the group table of `orcm/util/logical_group.c`: a hash table from group tags to
lists of members, `orcm_logical_group_add` and `orcm_logical_group_remove` on it, and
`orcm_logical_group_parse_array_string`, which expands the tags of a node expression.

The table is the `opal_hash_table_t` of `Sensys.Opal.HashTable` with pointer keys; a tag is stored
under its bytes with the terminating zero (`strlen(tag) + 1`).  A member list is an `opal_list_t`
that belongs to its tag alone, so changing it in place and setting it as the tag's value are one
operation here.

`none` stands for a call that does not return: a loop that does not end, or a crash.
-/
import Sensys.Opal.HashTable
import Sensys.Opal.Argv
import Sensys.Orte.Regex

namespace Sensys.Orcm.LogicalGroup

open Opal Orte

/-- The table of the groups. -/
abbrev Groups := HashTable Str (List Str)

/-- `HASH_SIZE`. -/
def hashSize : ℕ := 1000

/-- The key of a tag: its bytes with the terminating zero. -/
def key (tag : Str) : Str := tag ++ [0]

/-- `opal_hash_table_get_value_ptr` on a tag. -/
def getTag (groups : Groups) (tag : Str) : Option (Except Rc (List Str)) :=
  groups.getValue hashKeyPtr (key tag)

/-- `is_do_all_wildcard`. -/
def isDoAllWildcard (text : Str) : Bool := decide (text = [42])

/-! ## 1. Adding members -/

/-- `member_exist`. -/
def memberExist (groupMembers : List Str) (newMember : Str) : Bool :=
  groupMembers.contains newMember

/-- The loop of `orcm_logical_group_add_internal`. -/
def addMembers : List Str → List Str → List Str
  | [], groupMembers => groupMembers
  | newMember :: newMembers, groupMembers =>
    addMembers newMembers
      (if memberExist groupMembers newMember then groupMembers else groupMembers ++ [newMember])

/-- `orcm_logical_group_hash_table_get`: the members of a tag, an empty list for a new one. -/
def hashTableGet (groups : Groups) (tag : Str) : Option (List Str) :=
  (getTag groups tag).map fun
    | .ok groupMembers => groupMembers
    | .error _ => []

/-- `orcm_logical_group_add`, with a table. -/
def add (tag regex : Str) (ioGroups : Groups) (erange : Bool) : Option (Rc × Groups) :=
  (hashTableGet ioGroups tag).bind fun groupMembers =>
    (extractNodeNames (some regex) erange).bind fun
      | (.error rc, _) => some (rc, ioGroups)
      | (.ok newMembers, _) =>
        ioGroups.setValue hashKeyPtr (key tag) (addMembers newMembers groupMembers)

/-- The tags whose member list a call of `orcm_logical_group_add` with this result has released
while the table still has it: the cleanup after an error releases the list the call works on, which
is the table's own when the tag was there. -/
def addReleases (tag : Str) (ioGroups : Groups) (rc : Rc) : List Str :=
  match getTag ioGroups tag with
  | some (.ok _) => if rc = .success then [] else [tag]
  | _ => []

/-! ## 2. Removing members -/

/-- `orcm_logical_group_all_members_exist_one_tag`. -/
def allMembersExistOneTag (value members : List Str) : Rc :=
  if members.all (memberExist value) then .success else .errNodeNotExist

/-- The loop of `orcm_logical_group_all_members_exist_all_tags`, from the node `inMember` on. -/
def allMembersExistAllTags (groups : Groups) (members : List Str) : ℕ → Option ℕ → Option Rc
  | 0, _ => none
  | fuel + 1, inMember =>
    match groups.getNextKey inMember with
    | .error _ => some .success
    | .ok ((_, value), outMember) =>
      if allMembersExistOneTag value members ≠ .success then
        some (allMembersExistOneTag value members)
      else allMembersExistAllTags groups members fuel (some outMember)

/-- The loop of `orcm_logical_group_hash_table_remove_members`: for each member, the first item
equal to it goes. -/
def removeItems (members value : List Str) : List Str :=
  members.foldl (fun value member => value.erase member) value

/-- `orcm_logical_group_hash_table_remove_members`: a tag left without members disappears. -/
def hashTableRemoveMembers (tag : Str) (value members : List Str) (ioGroups : Groups) :
    Option (Rc × Groups) :=
  let value := removeItems members value
  if value = [] then ioGroups.removeValue hashKeyPtr (key tag)
  else ioGroups.setValue hashKeyPtr (key tag) value

/-- The second loop of `orcm_logical_group_remove_all_tags`, from the node `inMember` on.  The key
of an element is its tag with the terminating zero. -/
def removeAllTagsLoop (members : List Str) : ℕ → Option ℕ → Groups → Option (Rc × Groups)
  | 0, _, _ => none
  | fuel + 1, inMember, ioGroups =>
    match ioGroups.getNextKey inMember with
    | .error _ => some (.success, ioGroups)
    | .ok ((k, value), outMember) =>
      (hashTableRemoveMembers k.dropLast value members ioGroups).bind fun (rc, ioGroups) =>
        if rc ≠ .success then some (rc, ioGroups)
        else removeAllTagsLoop members fuel (some outMember) ioGroups

/-- `orcm_logical_group_remove_all_tags`; `none` for the members is `do_all_member`. -/
def removeAllTags (members : Option (List Str)) (ioGroups : Groups) : Option (Rc × Groups) :=
  match members with
  | none => some ioGroups.removeAll
  | some members =>
    (allMembersExistAllTags ioGroups members (ioGroups.capacity + 1) none).bind fun rc =>
      if rc ≠ .success then some (rc, ioGroups)
      else removeAllTagsLoop members (ioGroups.capacity + 1) none ioGroups

/-- `orcm_logical_group_remove_a_tag`. -/
def removeATag (tag : Str) (members : Option (List Str)) (ioGroups : Groups) :
    Option (Rc × Groups) :=
  (getTag ioGroups tag).bind fun
    | .error rc => some (if rc = .errNotFound then .errGroupNotExist else rc, ioGroups)
    | .ok value =>
      match members with
      | none => ioGroups.removeValue hashKeyPtr (key tag)
      | some members =>
        if allMembersExistOneTag value members ≠ .success then
          some (allMembersExistOneTag value members, ioGroups)
        else hashTableRemoveMembers tag value members ioGroups

/-- `orcm_logical_group_remove_internal`. -/
def removeInternal (tag : Str) (members : Option (List Str)) (ioGroups : Groups) :
    Option (Rc × Groups) :=
  if isDoAllWildcard tag then removeAllTags members ioGroups else removeATag tag members ioGroups

/-- `orcm_logical_group_remove`, with a table. -/
def remove (tag regex : Str) (ioGroups : Groups) (erange : Bool) : Option (Rc × Groups) :=
  if ioGroups.getSize = 0 then some (.errNoAnyGroup, ioGroups)
  else if isDoAllWildcard regex then removeInternal tag none ioGroups
  else
    (extractNodeNames (some regex) erange).bind fun
      | (.error rc, _) => some (rc, ioGroups)
      | (.ok members, _) => removeInternal tag (some members) ioGroups

/-! ## 3. Expanding tags -/

/-- The variables of `orcm_logical_group_tag_to_members_nested`. -/
structure Nested where
  count : ℤ
  tagArray : List Str
  oArrayString : List Str
  deriving DecidableEq, Repr

/-- The loop over the members of one tag.  A member that is a tag is appended to the work list and
COUNTED, also when it is on the list already. -/
def expandMembers (groups : Groups) : List Str → Nested → Option Nested
  | [], st => some st
  | member :: members, st =>
    (getTag groups member).bind fun
      | .ok _ =>
        expandMembers groups members
          { st with tagArray := argvAppendUniqueNosize st.tagArray member, count := st.count + 1 }
      | .error _ =>
        expandMembers groups members
          { st with oArrayString := argvAppendUniqueNosize st.oArrayString member }

/-- One round on the tag at the front of the work list, without the deletion. -/
def expandTag (groups : Groups) (tag : Str) (st : Nested) : Option Nested :=
  (getTag groups tag).bind fun
    | .ok value => expandMembers groups value st
    | .error _ => some st

/-- `orcm_logical_group_tag_to_members_nested`.  With `count` positive and the array empty, the
tag is `NULL` and `strlen(tag)` crashes. -/
def tagToMembersNested (groups : Groups) : ℕ → Nested → Option (Rc × List Str)
  | 0, _ => none
  | fuel + 1, st =>
    if 0 < st.count then
      match st.tagArray with
      | [] => none
      | tag :: _ =>
        (expandTag groups tag st).bind fun st =>
          match argvDelete st.count st.tagArray 0 1 with
          | (.success, count, tagArray) =>
            tagToMembersNested groups fuel { st with count := count, tagArray := tagArray }
          | (rc, _, _) => some (rc, st.oArrayString)
    else some (.success, st.oArrayString)

/-- `orcm_logical_group_trim_string`. -/
def trimString (string : Str) : Str :=
  let blank : UInt8 → Bool := fun c => c == 32 || c == 9
  let string := string.dropWhile blank
  match string with
  | [] => []
  -- the first character is never trimmed from the end
  | c :: rest => c :: (rest.reverse.dropWhile blank).reverse

/-- The loop that sorts the extracted names into tags and plain names. -/
def sortNames : List Str → List Str × List Str → List Str × List Str
  | [], arrays => arrays
  | name :: names, (tagArray, oArrayString) =>
    sortNames names <|
      if name.head? = some 36 then (argvAppendUniqueNosize tagArray name.tail, oArrayString)
      else (tagArray, argvAppendUniqueNosize oArrayString name)

/-- `orcm_logical_group_parse_array_string`, into an empty array.  `fuel` bounds the rounds of the
expansion. -/
def parseArrayString (groups : Groups) (regex : Str) (erange : Bool) (fuel : ℕ) :
    Option (Rc × List Str) :=
  if trimString regex = [] then some (.success, [])
  else
    (extractNodeNames (some (trimString regex)) erange).bind fun
      | (.error rc, _) => some (rc, [])
      | (.ok regexArray, _) =>
        let (tagArray, oArrayString) := sortNames regexArray ([], [])
        tagToMembersNested groups fuel
          { count := argvCount tagArray, tagArray := tagArray, oArrayString := oArrayString }

end Sensys.Orcm.LogicalGroup
