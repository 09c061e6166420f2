/-
# The letter case of tags

`read_config` compares all tags with `strcasecmp`, `define_system` compares the names of the
converted objects with `strcmp`.  In between `tolower_cstr` was meant to make up for it, and does
nothing.  So the spelling of a tag matters where its text gets into an object: at the top, and for
the attributes of schedulers and of the controllers in junctions that are converted.

* `same_system_of_spelt_alike`: two trees that differ only in the letter case of tags have the same
  result, if `read_config` refuses them, or if such a tag is written in small letters in both trees
  or in neither.
* `capital_port_is_lost`: a controller with `<PORT>`, which is checked like one with `<port>`, and
  then has no port.

The first holds for the failures too: both trees are refused with the same code.

What `read_config` does is followed once for all pairs of trees: it has the same result, and where the
tags are spelt alike (a proposition `P` that stands for the assumption) the objects are alike.
-/
import Sensys.Orcm.File30Build

namespace Sensys.Orcm.File30

open CString Failing List
open Opal.Dss (Stop CharPtr)
open Workflow (Items)
open CfgiWire (Config Scheduler)

/-! ## 1. Trees that differ in letter case -/

/-- The tree with its tags in small letters. -/
def lowerTags : Items → Items
  | .nil => .nil
  | .string tag value next => .string (lower tag) value (lowerTags next)
  | .ptr tag list next => .ptr (lower tag) (lowerTags list) (lowerTags next)
  | .other tag next => .other (lower tag) (lowerTags next)

/-- Two trees differ only in the letter case of tags. -/
def SameUpToCase (t t' : Items) : Prop := lowerTags t = lowerTags t'

/-- The names that `parse_orcm_config` knows. -/
def configTags : List Str := [txPort, txCores, txMcaParams, txLog, txEnvar, txAggregat]

/-- The names that `parse_node` knows. -/
def nodeTags : List Str := txName :: configTags

/-- The names that `parse_scheduler` knows. -/
def schedulerTags : List Str := txQueues :: fdNode :: configTags

/-- Where a list stands in the document: in the configuration, in a junction that is converted (of a
node, or not), among attributes with these names, or where nothing is converted. -/
inductive Place where
  | configuration
  | junction (isNode : Bool)
  | attributes (words : List Str)
  | elsewhere
  deriving DecidableEq, Repr

/-- The type of a junction. -/
def junctionType (list : Items) : Option Str :=
  (getTypeAndName list none none ⟨0, 0⟩).1.toOption.bind Prod.fst

/-- The types of junctions. -/
def junctionTypes : List Str := [fdCluster, fdRow, fdRack, fdNode]

/-- Where the list of a junction stands: one of a type that is not known is passed over. -/
def junctionPlace (list : Items) : Place :=
  match junctionType list with
  | some type =>
    if junctionTypes.any (caseEq · type) then .junction (caseEq fdNode type) else .elsewhere
  | none => .elsewhere

/-- Where the list of an item stands. -/
def Place.below : Place → Str → Items → Place
  | configuration, tag, list =>
    if caseEq tag txJunction then junctionPlace list
    else if caseEq tag txScheduler then attributes schedulerTags
    else elsewhere
  | junction isNode, tag, list =>
    if caseEq tag txJunction then junctionPlace list
    else if caseEq tag txControl then attributes (if isNode then nodeTags else configTags)
    else elsewhere
  | _, _, _ => elsewhere

/-- The tags that are later compared with `strcmp`. -/
def Place.exactTags : Place → List Str
  | attributes words => words
  | _ => []

/-- Two names are the same one of these words, or none of them. -/
def Alike (words : List Str) (name name' : Str) : Prop := ∀ w ∈ words, name = w ↔ name' = w

instance (words : List Str) (name name' : Str) : Decidable (Alike words name name') :=
  inferInstanceAs (Decidable (∀ w ∈ words, name = w ↔ name' = w))

/-- The tags that are compared with `strcmp` are spelt alike in the two lists. -/
def alikeIn : Place → Items → Items → Bool
  | place, .string tag _ next, .string tag' _ next' =>
    decide (Alike place.exactTags tag tag') && alikeIn place next next'
  | place, .ptr tag list next, .ptr _ list' next' =>
    alikeIn (place.below tag list) list list' && alikeIn place next next'
  | place, .other _ next, .other _ next' => alikeIn place next next'
  | _, _, _ => true

/-- **The tags that are compared with `strcmp` are spelt alike in the two documents.**  Only the first
item is looked at, and what is in it only if it is called `configuration`. -/
def speltAlike : Items → Items → Bool
  | .ptr tag list _, .ptr tag' list' _ =>
    decide (Alike [txConfig] tag tag') &&
      (decide (tag ≠ txConfig) || alikeIn .configuration list list')
  | _, _ => true

/-- The lists differ in letter case only; and if `P` holds, they are spelt alike.  The place of a list
is read off the first tree; the type of a junction is a value, and the same in both. -/
inductive Corresponds (P : Prop) : Place → Items → Items → Prop where
  | nil {place : Place} : Corresponds P place .nil .nil
  | string {place : Place} {tag tag' value : Str} {next next' : Items} (hcase : lower tag = lower tag')
      (hspelt : P → Alike place.exactTags tag tag') (hnext : Corresponds P place next next') :
      Corresponds P place (.string tag value next) (.string tag' value next')
  | ptr {place : Place} {tag tag' : Str} {list list' next next' : Items}
      (hcase : lower tag = lower tag') (hlist : Corresponds P (place.below tag list) list list')
      (hnext : Corresponds P place next next') :
      Corresponds P place (.ptr tag list next) (.ptr tag' list' next')
  | other {place : Place} {tag tag' : Str} {next next' : Items} (hcase : lower tag = lower tag')
      (hnext : Corresponds P place next next') :
      Corresponds P place (.other tag next) (.other tag' next')

theorem corresponds_of_alikeIn {P : Prop} : ∀ {t t' place},
    SameUpToCase t t' → (P → alikeIn place t t' = true) → Corresponds P place t t'
  | .nil, t', place, hcase, _ => by
    cases t' <;> simp [SameUpToCase, lowerTags] at hcase
    exact .nil
  | .string tag value next, t', place, hcase, hspelt => by
    cases t' <;> simp only [SameUpToCase, lowerTags, Items.string.injEq, reduceCtorEq] at hcase
    obtain ⟨htag, rfl, hnext⟩ := hcase
    simp only [alikeIn, Bool.and_eq_true, decide_eq_true_eq] at hspelt
    exact .string htag (fun hP => (hspelt hP).1)
      (corresponds_of_alikeIn hnext fun hP => (hspelt hP).2)
  | .ptr tag list next, t', place, hcase, hspelt => by
    cases t' <;> simp only [SameUpToCase, lowerTags, Items.ptr.injEq, reduceCtorEq] at hcase
    obtain ⟨htag, hlist, hnext⟩ := hcase
    simp only [alikeIn, Bool.and_eq_true] at hspelt
    exact .ptr htag (corresponds_of_alikeIn hlist fun hP => (hspelt hP).1)
      (corresponds_of_alikeIn hnext fun hP => (hspelt hP).2)
  | .other tag next, t', place, hcase, hspelt => by
    cases t' <;> simp only [SameUpToCase, lowerTags, Items.other.injEq, reduceCtorEq] at hcase
    exact .other hcase.1 (corresponds_of_alikeIn hcase.2 hspelt)

/-! ## 2. The checks do not see letter case

Every check compares tags with `strcasecmp`, on one side or the other.  So its result on a tree is its
result on the tree in small letters, which two trees that differ only in letter case have in common. -/

variable {P : Prop} {place : Place} {t t' : Items} {words tags : List Str} {name name' : Str}
  {x x' : Xml}

variable (tag : Str)

theorem searchLexItem_lower : searchLexItem (lower tag) = searchLexItem tag := by
  funext value record
  simp only [searchLexItem, caseEq_lower_right]

theorem isNotIgnored_lower : isNotIgnored (lower tag) = isNotIgnored tag := by
  simp only [isNotIgnored, caseEq_lower_right]

variable (t)

theorem searchLexTagsAndField_lowerTags :
    searchLexTagsAndField (lowerTags t) = searchLexTagsAndField t := by
  induction t with
  | nil => rfl
  | _ =>
    funext record
    simp only [lowerTags, searchLexTagsAndField, searchLexItem_lower, isNotIgnored_lower, *]

/-- The tags noted so far only count up to letter case. -/
theorem noteSingleton_lower (ss : List Str) (failed : Bool) :
    noteSingleton (lower tag) (ss.map lower) failed =
      ((noteSingleton tag ss failed).1.map lower, (noteSingleton tag ss failed).2) := by
  have hsingleton : isSingleton (lower tag) = isSingleton tag := by
    simp only [isSingleton, any_cons, any_nil, caseEq_lower_left]
  have hany : (ss.map lower).any (caseEq · (lower tag)) = ss.any (caseEq · tag) := by
    simp only [any_map, Function.comp_def, caseEq_lower_left, caseEq_lower_right]
  rw [noteSingleton, noteSingleton, hsingleton]
  split <;> simp [hany]

theorem searchSingletons_lowerTags (ss : List Str) (failed : Bool) :
    searchSingletons (lowerTags t) (ss.map lower) failed = searchSingletons t ss failed := by
  induction t generalizing ss failed with
  | nil => rfl
  | ptr tag list next ihlist ihnext =>
    have hlist := ihlist []
    simp only [lowerTags, searchSingletons, noteSingleton_lower, isNotIgnored_lower, map_nil,
      ihnext] at hlist ⊢
    simp only [hlist]
  | _ => simp only [lowerTags, searchSingletons, noteSingleton_lower, isNotIgnored_lower, *]

theorem controllerHostPort_lowerTags : controllerHostPort (lowerTags t) = controllerHostPort t := by
  induction t with
  | nil => rfl
  | _ =>
    funext host port
    simp only [lowerTags, controllerHostPort, caseEq_lower_right, *]

theorem scanJunction_lowerTags : scanJunction (lowerTags t) = scanJunction t := by
  induction t with
  | nil => rfl
  | _ =>
    funext junction
    simp only [lowerTags, scanJunction, checkControllerHostsPorts, caseEq_lower_right,
      controllerHostPort_lowerTags, *]

theorem checkConfigureEach_lowerTags : checkConfigureEach (lowerTags t) = checkConfigureEach t := by
  induction t with
  | nil => rfl
  | _ =>
    funext pairs
    simp only [lowerTags, checkConfigureEach, checkJunctionHostsPorts, checkSchedulerHostsPorts,
      checkControllerHostsPorts, caseEq_lower_right, controllerHostPort_lowerTags,
      scanJunction_lowerTags, *]

theorem getTypeAndName_lowerTags : getTypeAndName (lowerTags t) = getTypeAndName t := by
  induction t with
  | nil => rfl
  | _ =>
    funext type name
    simp only [lowerTags, getTypeAndName, caseEq_lower_left, *]

/-- **The three checks have the same result.** -/
theorem checks_lowerTags : checkLexTagsAndField (lowerTags t) = checkLexTagsAndField t ∧
      checkDuplicateSingleton (lowerTags t) = checkDuplicateSingleton t ∧
      checkConfigureHostsPorts (lowerTags t) = checkConfigureHostsPorts t := by
  refine ⟨?_, ?_, ?_⟩
  · rw [checkLexTagsAndField, checkLexTagsAndField, searchLexTagsAndField_lowerTags]
  · rw [checkDuplicateSingleton, checkDuplicateSingleton, ← searchSingletons_lowerTags t []]
    rfl
  · cases t with
    | ptr tag list next => simp only [lowerTags, checkConfigureHostsPorts,
        checkConfigureEach_lowerTags]
    | _ => rfl

variable {t}

/-- What has the same value on the tree in small letters has the same value on both trees. -/
theorem SameUpToCase.congr {β : Type} {f : Items → β} (h : SameUpToCase t t')
    (hf : ∀ t, f (lowerTags t) = f t) : f t = f t' := by
  rw [← hf t, h, hf]

theorem Corresponds.sameUpToCase (h : Corresponds P place t t') : SameUpToCase t t' := by
  unfold SameUpToCase
  induction h with
  | nil => rfl
  | _ => simp only [lowerTags, *]

/-! ## 3. The conversion keeps the spelling

The two conversions run side by side: they stop at the same item with the same code, or give objects
that correspond.  Each loop has a lemma, by induction on the correspondence of the lists it runs over,
in the place where it is called. -/

/-- The names that are compared in the objects attached to an object: each parser of the building knows
a few and passes over the others. -/
def tagsIn (name : Str) : List Str :=
  if name = txControl then configTags
  else if name = txScheduler then schedulerTags
  else if name = fdNode then nodeTags
  else if name = fdRack then [txControl, fdNode]
  else if name = fdRow then [txControl, fdRack]
  else if name = fdCluster then [txControl, fdRow]
  else [fdCluster, txScheduler]

/-- Two lists of objects are the same but for names; and if `P` holds, for names that nobody compares
with anything. -/
inductive XmlAlike (P : Prop) : List Str → Xml → Xml → Prop where
  | nil {words : List Str} : XmlAlike P words .nil .nil
  | item {words : List Str} {name name' : Str} {value : List Str} {subvals subvals' next next' : Xml}
      (hname : P → Alike words name name') (hsubvals : XmlAlike P (tagsIn name) subvals subvals')
      (hnext : XmlAlike P words next next') :
      XmlAlike P words (.item name value subvals next) (.item name' value subvals' next')

theorem alike_refl (words name) : Alike words name name := fun _ _ => Iff.rfl

theorem Alike.eq {w} (h : Alike words name name') (hw : w ∈ words) :
    (name = w) = (name' = w) := propext (h w hw)

theorem Alike.mono {words'} (h : Alike words name name') (hsub : words' ⊆ words) :
    Alike words' name name' := fun w hw => h w (hsub hw)

/-- Attributes have nothing attached to them.  Their names are where the spelling of a tag survives:
`tolower_cstr` is called, and returns it as it is. -/
theorem xmlAlike_attributeObject {value next next'} (hname : P → Alike words name name')
    (hnext : XmlAlike P words next next') :
    XmlAlike P words (attributeObject name value next) (attributeObject name' value next') := by
  rw [attributeObject, attributeObject, tolowerCstr_eq, tolowerCstr_eq]
  exact .item hname .nil hnext

theorem XmlAlike.append {y y'} (h : XmlAlike P words x x') (h' : XmlAlike P words y y') :
    XmlAlike P words (x.append y) (x'.append y') := by
  induction h with
  | nil => exact h'
  | item hname hsubvals _ _ ih => exact .item hname hsubvals (ih h')

/-- The controller of a node: its host is dropped, and the rest joins the attributes of the node. -/
theorem mergeControllerWithNode_related
    (h : Corresponds P place t t') (hplace : place = .attributes nodeTags) :
    Related (XmlAlike P nodeTags) (mergeControllerWithNode t) (mergeControllerWithNode t') := by
  induction h with
  | nil => exact related_pure .nil
  | @string place tag tag' value next next' hcase hspelt _ ihnext =>
    subst hplace
    rw [mergeControllerWithNode, mergeControllerWithNode, caseEq_congr_left hcase]
    split
    · exact (ihnext rfl).bind fun _ _ hrest =>
        related_pure (xmlAlike_attributeObject hspelt hrest)
    · exact ihnext rfl
  | ptr => exact related_throw _
  | other hcase _ ihnext =>
    rw [mergeControllerWithNode, mergeControllerWithNode, caseEq_congr_left hcase]
    split
    · exact related_throw _
    · exact ihnext hplace

/-- The controller of a cluster, row or rack: the hosts are values, the rest are attributes. -/
theorem parseControllerEach_related (h : Corresponds P place t t')
    (hplace : place = .attributes configTags) :
    Related (fun p q => p.1 = q.1 ∧ XmlAlike P configTags p.2 q.2) (parseControllerEach t)
      (parseControllerEach t') := by
  induction h with
  | nil => exact related_pure ⟨rfl, .nil⟩
  | string hcase hspelt _ ihnext =>
    subst hplace
    refine (ihnext rfl).bind ?_
    rintro ⟨hosts, attributes⟩ ⟨hosts', attributes'⟩ ⟨rfl, hattributes⟩
    dsimp only
    rw [caseEq_congr_left hcase]
    split
    · exact related_pure ⟨rfl, hattributes⟩
    · exact related_pure ⟨rfl, xmlAlike_attributeObject hspelt hattributes⟩
  | ptr => exact related_throw _
  | other => exact related_throw _

theorem parseControllerTag_related (h : Corresponds P (.attributes configTags) t t') :
    Related (XmlAlike P words) (parseControllerTag t) (parseControllerTag t') := by
  refine (parseControllerEach_related h rfl).bind ?_
  rintro ⟨hosts, attributes⟩ ⟨hosts', attributes'⟩ ⟨rfl, hattributes⟩
  exact related_pure (.item (fun _ => alike_refl _ _) hattributes .nil)

/-- `get_type_and_name` counts nothing, so that `junctionType` may run it from any counters. -/
theorem getTypeAndName_state : ∀ t type name counters, getTypeAndName t type name counters =
    ((getTypeAndName t type name ⟨0, 0⟩).1, counters)
  | .nil, _, _, _ => rfl
  | .string tag value next, type, name, counters => by
    simp only [getTypeAndName]
    split_ifs <;> exact getTypeAndName_state next _ _ counters
  | .ptr tag list next, type, name, counters | .other tag next, type, name, counters => by
    simp only [getTypeAndName]
    split_ifs
    · rfl
    · exact getTypeAndName_state next type name counters

theorem getTypeAndName_related (t : Items) :
    Related (fun p q => p = q ∧ junctionType t = p.1) (getTypeAndName t none none)
      (getTypeAndName t none none) := by
  intro counters
  rw [getTypeAndName_state, junctionType]
  cases (getTypeAndName t none none ⟨0, 0⟩).1 with
  | error e => exact .error e counters
  | ok p => exact .ok counters ⟨rfl, rfl⟩

theorem caseEq_fdNode {type} (htype : type ∈ junctionTypes) :
    caseEq fdNode type = decide (type = fdNode) := by
  simp only [junctionTypes, mem_cons, not_mem_nil, or_false] at htype
  rcases htype with rfl | rfl | rfl | rfl <;> decide

/-- A junction that is parsed as one of a type stands in such a place. -/
theorem junctionPlace_eq {itemType type} (hitem : junctionType t = some itemType)
    (htype : type ∈ junctionTypes) (h : caseEq type itemType = true) :
    junctionPlace t = .junction (decide (type = fdNode)) := by
  have hany : junctionTypes.any (caseEq · itemType) = true := any_eq_true.mpr ⟨type, htype, h⟩
  have hnode : caseEq fdNode itemType = decide (type = fdNode) := by
    rw [caseEq_congr_right (caseEq_iff.mp h).symm, caseEq_fdNode htype]
  rw [junctionPlace, hitem]
  simp only [hany, if_true, hnode]

/-- A junction of known type is parsed with its own type, and gives an object of that name. -/
theorem selectParseJunctionTag_related
    (h : SameUpToCase t t') {each each' : Str → Conv (Xml × ℕ)}
    (heach : ∀ type ∈ junctionTypes, junctionPlace t = .junction (decide (type = fdNode)) →
      Related (fun p q => XmlAlike P (tagsIn type) p.1 q.1 ∧ p.2 = q.2) (each type) (each' type))
    (parentType : Str) :
    Related (XmlAlike P words) (selectParseJunctionTag t (parseJunctionWith each) parentType)
      (selectParseJunctionTag t' (parseJunctionWith each') parentType) := by
  rw [selectParseJunctionTag, selectParseJunctionTag, h.congr getTypeAndName_lowerTags]
  refine (h.congr getTypeAndName_lowerTags ▸ getTypeAndName_related t).bind ?_
  rintro ⟨itemType, name⟩ _ ⟨rfl, hitem⟩
  dsimp only at hitem ⊢
  split <;> [skip; exact related_throw _]
  rename_i itemType itemName
  have hparse : ∀ type ∈ junctionTypes, caseEq type itemType = true → Related (XmlAlike P words)
      (parseJunctionWith each itemName type) (parseJunctionWith each' itemName type) := by
    intro type htype hcase
    refine (heach type htype (junctionPlace_eq hitem htype hcase)).bind ?_
    rintro ⟨subvals, n⟩ ⟨subvals', n'⟩ ⟨hsubvals, hn⟩
    dsimp only at hsubvals hn ⊢
    subst hn
    split
    · exact related_throw _
    · exact related_pure (.item (fun _ => alike_refl _ _) hsubvals .nil)
  have hinner : ∀ outer, ∀ type ∈ junctionTypes, caseEq type itemType = true →
      Related (XmlAlike P words)
        (parseInnerJunction outer type (parseJunctionWith each itemName) parentType)
        (parseInnerJunction outer type (parseJunctionWith each' itemName) parentType) := by
    intro outer type htype hcase
    rw [parseInnerJunction, parseInnerJunction]
    split
    · exact related_throw _
    · exact hparse type htype hcase
  split_ifs with _ hcluster hrow hrack hnode
  · exact related_throw _
  · refine (related_refl _).bind fun _ _ _ => (related_refl _).bind ?_
    rintro counters _ rfl
    split
    · exact related_throw _
    · exact hparse fdCluster (by simp [junctionTypes]) hcluster
  · exact hinner _ _ (by simp [junctionTypes]) hrow
  · exact hinner _ _ (by simp [junctionTypes]) hrack
  · exact hinner _ _ (by simp [junctionTypes]) hnode
  · exact related_pure .nil

/-- The rest of a list, behind what one item gives. -/
theorem related_behind {rest rest' : Conv (Xml × ℕ)}
    (h : Related (fun p q => XmlAlike P tags p.1 q.1 ∧ p.2 = q.2) rest rest') ⦃here here' : Xml⦄
    (hhere : XmlAlike P tags here here') (n : ℕ) :
    Related (fun p q => XmlAlike P tags p.1 q.1 ∧ p.2 = q.2)
      (rest >>= fun p => pure (here.append p.1, p.2 + n))
      (rest' >>= fun p => pure (here'.append p.1, p.2 + n)) :=
  h.bind fun _ _ hp => related_pure ⟨hhere.append hp.1, congrArg (· + n) hp.2⟩

/-- The loop over a junction.  The induction is for all types at once: a junction inside is parsed with
its own type, and its place says which one that is. -/
theorem parseJunctionEach_related (h : Corresponds P place t t') : ∀ type ∈ junctionTypes,
    place = .junction (decide (type = fdNode)) →
      Related (fun p q => XmlAlike P (tagsIn type) p.1 q.1 ∧ p.2 = q.2) (parseJunctionEach t type)
        (parseJunctionEach t' type) := by
  induction h with
  | nil => exact fun type _ _ => related_pure ⟨.nil, rfl⟩
  | string hcase _ _ ihnext | other hcase _ ihnext =>
    intro type htype hplace
    simp only [parseJunctionEach, caseEq_congr_left hcase]
    split
    · exact related_throw _
    · exact ihnext type htype hplace
  | @ptr place tag tag' list list' next next' hcase hlist _ ihlist ihnext =>
    rintro type htype rfl
    have hrest := related_behind (ihnext type htype rfl)
    simp only [parseJunctionEach, ← caseEq_congr_left hcase, caseEq_fdNode htype]
    rw [Place.below] at hlist ihlist
    split_ifs with hjunction hcontrol hnode
    · rw [if_pos hjunction] at ihlist
      exact (selectParseJunctionTag_related hlist.sameUpToCase ihlist type).bind
        fun _ _ hhere => hrest hhere 1
    · rw [if_neg hjunction, if_pos hcontrol, if_neg (by simpa using hnode)] at hlist
      exact (parseControllerTag_related hlist).bind fun _ _ hhere => hrest hhere 0
    · obtain rfl : type = fdNode := by simpa using hnode
      rw [if_neg hjunction, if_pos hcontrol, if_pos (by simp)] at hlist
      exact (mergeControllerWithNode_related hlist rfl).bind fun _ _ hhere => hrest hhere 0
    · exact ihnext type htype rfl

/-- A scheduler: `shost` is renamed to `node` however it is spelt, and everything else keeps its tag. -/
theorem parseSchedulerEach_related (h : Corresponds P place t t')
    (hplace : place = .attributes schedulerTags) :
    Related (XmlAlike P schedulerTags) (parseSchedulerEach t) (parseSchedulerEach t') := by
  induction h with
  | nil => exact related_pure .nil
  | string hcase hspelt _ ihnext =>
    subst hplace
    rw [parseSchedulerEach, parseSchedulerEach, caseEq_congr_left hcase]
    refine (ihnext rfl).bind fun _ _ hrest => related_pure ?_
    split
    · exact xmlAlike_attributeObject (fun _ => alike_refl _ _) hrest
    · exact xmlAlike_attributeObject hspelt hrest
  | ptr => exact related_throw _
  | other => exact related_throw _

theorem parseSchedulerTag_related (h : Corresponds P (.attributes schedulerTags) t t') :
    Related (XmlAlike P words) (parseSchedulerTag t) (parseSchedulerTag t') := by
  refine (parseSchedulerEach_related h rfl).bind fun _ _ hattributes => ?_
  refine (related_refl _).bind fun _ _ _ => (related_refl _).bind ?_
  rintro counters _ rfl
  split
  · exact related_throw _
  · exact related_pure (.item (fun _ => alike_refl _ _) hattributes .nil)

theorem parseConfigurationEach_related (h : Corresponds P place t t')
    (hplace : place = .configuration) :
    Related (fun p q => XmlAlike P [fdCluster, txScheduler] p.1 q.1 ∧ p.2 = q.2)
      (parseConfigurationEach t) (parseConfigurationEach t') := by
  induction h with
  | nil => exact related_pure ⟨.nil, rfl⟩
  | string hcase _ _ ihnext | other hcase _ ihnext =>
    simp only [parseConfigurationEach, caseEq_congr_left hcase]
    split
    · exact related_throw _
    · exact ihnext hplace
  | @ptr place tag tag' list list' next next' hcase hlist _ _ ihnext =>
    subst hplace
    have hrest := related_behind (ihnext rfl)
    simp only [parseConfigurationEach, ← caseEq_congr_left hcase]
    rw [Place.below] at hlist
    split_ifs with hjunction hscheduler
    · rw [if_pos hjunction] at hlist
      rw [hlist.sameUpToCase.congr getTypeAndName_lowerTags]
      refine (related_refl _).bind ?_
      rintro ⟨type, name⟩ _ rfl
      exact (selectParseJunctionTag_related hlist.sameUpToCase (parseJunctionEach_related hlist)
        _).bind fun _ _ hhere => hrest hhere _
    · rw [if_neg hjunction, if_pos hscheduler] at hlist
      exact (parseSchedulerTag_related hlist).bind fun _ _ hhere => hrest hhere 0
    · exact ihnext rfl

theorem parseConfigurationTag_related (h : Corresponds P .configuration t t') :
    Related (XmlAlike P [fdCluster, txScheduler]) (parseConfigurationTag t)
      (parseConfigurationTag t') := by
  refine (parseConfigurationEach_related h rfl).bind ?_
  rintro ⟨subvals, n⟩ ⟨subvals', n'⟩ ⟨hsubvals, hn⟩
  dsimp only at hsubvals hn ⊢
  subst hn
  split
  · exact related_throw _
  · exact related_pure hsubvals

/-- Two documents as they are converted: one object each, and alike inside if that is looked at. -/
def DocumentAlike (P : Prop) (x x' : Xml) : Prop :=
  ∃ tag tag' subvals subvals', x = .item tag [] subvals .nil ∧ x' = .item tag' [] subvals' .nil ∧
    (P → Alike [txConfig] tag tag') ∧
    XmlAlike (P ∧ tag = txConfig) [fdCluster, txScheduler] subvals subvals'

/-- **What `read_config` makes of two such trees.**  The checks have equal results.  The conversion looks
at the first item only, and inside it the spelling counts only where the item is called `configuration`
exactly: `define_system` passes over any other.  Hence the stronger proposition for what is inside. -/
theorem readConfig_related (h : SameUpToCase t t') (hspelt : P → speltAlike t t' = true) :
    Related (DocumentAlike P) (readConfig t) (readConfig t') := by
  have hconvert : Related (DocumentAlike P) (silent (convertToXmlParserList t) : Errno Xml)
      (silent (convertToXmlParserList t')) := by
    cases t with
    | nil =>
      cases t' <;> simp [SameUpToCase, lowerTags] at h
      exact related_throw _
    | string tag value next =>
      cases t' <;> simp only [SameUpToCase, lowerTags, Items.string.injEq, reduceCtorEq] at h
      rw [convertToXmlParserList, convertToXmlParserList, caseEq_congr_left h.1]
      split <;> exact related_throw _
    | other tag next =>
      cases t' <;> simp only [SameUpToCase, lowerTags, Items.other.injEq, reduceCtorEq] at h
      rw [convertToXmlParserList, convertToXmlParserList, caseEq_congr_left h.1]
      split <;> exact related_throw _
    | ptr tag list next =>
      cases t' <;> simp only [SameUpToCase, lowerTags, Items.ptr.injEq, reduceCtorEq] at h
      rename_i tag' list' next'
      obtain ⟨htag, hlist, -⟩ := h
      simp only [speltAlike, Bool.and_eq_true, decide_eq_true_eq, Bool.or_eq_true] at hspelt
      rw [convertToXmlParserList, convertToXmlParserList, ← caseEq_congr_left htag]
      by_cases hconfig : caseEq tag txConfig = true
      · rw [if_neg (by simp [hconfig]), if_neg (by simp [hconfig]), tolowerCstr_eq, tolowerCstr_eq]
        have hcorresponds : Corresponds (P ∧ tag = txConfig) .configuration list list' :=
          corresponds_of_alikeIn hlist fun hP => (hspelt hP.1).2.resolve_left (not_not.mpr hP.2)
        have hsub := parseConfigurationTag_related hcorresponds ⟨0, 0⟩
        generalize parseConfigurationTag list ⟨0, 0⟩ = r,
          parseConfigurationTag list' ⟨0, 0⟩ = r' at hsub ⊢
        cases hsub with
        | ok s hsubvals =>
          exact related_pure ⟨tag, tag', _, _, rfl, rfl, fun hP => (hspelt hP).1, hsubvals⟩
        | error e s =>
          cases e
          · exact related_throw _
          · exact related_throw _
      · rw [if_pos (by simp [hconfig]), if_pos (by simp [hconfig])]
        exact related_throw _
  rw [readConfig, readConfig, h.congr fun t => (checks_lowerTags t).1,
    h.congr fun t => (checks_lowerTags t).2.1, h.congr fun t => (checks_lowerTags t).2.2]
  refine (related_refl _).bind fun _ _ _ => (related_refl _).bind fun _ _ _ =>
    (related_refl _).bind ?_
  rintro erange _ rfl
  exact (related_refl _).bind fun _ _ _ => (related_refl _).bind fun _ _ _ => hconvert

/-! ## 4. The building does not see other names

From here on the names are alike.  The building takes the objects apart as it goes, so that two runs
are related: the same rows, racks and nodes, and what is left of the objects still alike. -/

variable {α : Type}

theorem parseOrcmConfig_congr (h : Alike configTags name name') (cfg : Config)
    (value : List Str) : parseOrcmConfig cfg name value = parseOrcmConfig cfg name' value := by
  have hiff : ∀ w ∈ configTags, (name = w) = (name' = w) := fun _ => h.eq
  simp only [configTags, mem_cons, not_mem_nil, or_false, forall_eq_or_imp,
    forall_eq] at hiff
  simp only [parseOrcmConfig, hiff]

theorem parseConfigs_congr : ∀ {words}, words = configTags →
    XmlAlike True words x x' → parseConfigs x = parseConfigs x' := by
  intro words hwords h
  induction h with
  | nil => rfl
  | item hname _ _ _ ih =>
    subst hwords
    funext cfg
    rw [parseConfigs, parseConfigs, parseOrcmConfig_congr (hname trivial), ih rfl]

/-- Two results of parsing: the same object, and objects that are still alike. -/
def SameParsed {β : Type} (words : List Str) (p q : β × Xml) : Prop :=
  p.1 = q.1 ∧ XmlAlike True words p.2 q.2

/-- The objects attached to a member only count up to names that nobody compares.  Shown for nodes, and
from the members of a rack or a row for the rack or the row. -/
def Member.Respects (member : Member α) (words : List Str) : Prop :=
  ∀ (a : α) {x x' : Xml}, XmlAlike True words x x' →
    Related (SameParsed words) (member.parse a x) (member.parse a x')

theorem parseNode_congr (h : Alike nodeTags name name') (nodename : Str)
    (node : CfgiWire.Node) (value : List Str) :
    parseNode nodename node name value = parseNode nodename node name' value := by
  have hname := h.eq mem_cons_self
  have hconfig := parseOrcmConfig_congr (h.mono (subset_cons_self _ _)) node.config value
  simp only [parseNode, hname, hconfig]

theorem parseNodeEach_related (nodename : Str)
    (h : XmlAlike True words x x') (hwords : words = nodeTags) : ∀ node,
      Related (SameParsed words) (parseNodeEach nodename node x)
        (parseNodeEach nodename node x') := by
  induction h with
  | nil => exact fun node => related_pure ⟨rfl, .nil⟩
  | item hname hsubvals _ _ ih =>
    intro node
    rw [parseNodeEach, parseNodeEach, parseNode_congr (hwords ▸ hname trivial)]
    refine (related_refl _).bind ?_
    rintro ⟨node, value⟩ _ rfl
    refine (ih hwords node).bind ?_
    rintro ⟨node, next⟩ ⟨_, next'⟩ ⟨rfl, hnext⟩
    exact related_pure ⟨rfl, .item hname hsubvals hnext⟩

theorem nodeMember_respects (nodename : Str) : (nodeMember nodename).Respects nodeTags :=
  fun node _ _ h => parseNodeEach_related nodename h rfl node

section Members

variable {member : Member α} {words : List Str} (hmember : member.Respects words)

include hmember

/-- A member is looked up by its name, or made. -/
theorem applyTo_related (name : Str) : ∀ members {x x'}, XmlAlike True words x x' →
    Related (SameParsed words) (applyTo member name members x) (applyTo member name members x')
  | [], x, x', h => by
    refine (hmember (member.new name) h).bind ?_
    rintro ⟨a, x⟩ ⟨_, x'⟩ ⟨rfl, hx⟩
    exact related_pure ⟨rfl, hx⟩
  | a :: members, x, x', h => by
    rw [applyTo, applyTo]
    split
    · refine (hmember a h).bind ?_
      rintro ⟨a, x⟩ ⟨_, x'⟩ ⟨rfl, hx⟩
      exact related_pure ⟨rfl, hx⟩
    · refine (applyTo_related name members h).bind ?_
      rintro ⟨members, x⟩ ⟨_, x'⟩ ⟨rfl, hx⟩
      exact related_pure ⟨rfl, hx⟩

variable (nodename : Str)

theorem defineNames_related (parent : CharPtr) :
    ∀ names members {x x'}, XmlAlike True words x x' →
      Related (SameParsed words) (defineNames nodename member parent names members x)
        (defineNames nodename member parent names members x')
  | [], members, x, x', h => related_pure ⟨rfl, h⟩
  | name :: names, members, x, x', h => by
    refine (applyTo_related hmember _ members h).bind ?_
    rintro ⟨members, x⟩ ⟨_, x'⟩ ⟨rfl, hx⟩
    exact defineNames_related parent names members hx

theorem defineVals_related (parent : CharPtr) :
    ∀ vals members {x x'}, XmlAlike True words x x' →
      Related (SameParsed words) (defineVals nodename member parent vals members x)
        (defineVals nodename member parent vals members x')
  | [], members, x, x', h => related_pure ⟨rfl, h⟩
  | val :: vals, members, x, x', h => by
    refine (related_refl _).bind ?_
    rintro names _ rfl
    split
    · exact related_throw _
    · refine (defineNames_related hmember nodename parent names members h).bind ?_
      rintro ⟨members, x⟩ ⟨_, x'⟩ ⟨rfl, hx⟩
      exact defineVals_related parent vals members hx

/-- A rack or a row: one step for its controller, its members or a name it does not know. -/
theorem parseGroupEach_related {memberTag} (hwords : tagsIn memberTag = words)
    {tags x x'} (h : XmlAlike True tags x x') (htags : tags = [txControl, memberTag]) :
    ∀ group, Related (SameParsed tags) (parseGroupEach nodename member memberTag group x)
      (parseGroupEach nodename member memberTag group x') := by
  induction h with
  | nil => exact fun group => related_pure ⟨rfl, .nil⟩
  | @item tags name name' value subvals subvals' next next' hname hsubvals _ _ ih =>
    intro group
    have hcontrol := (hname trivial).eq (w := txControl) (by simp [htags])
    have hmemberTag := (hname trivial).eq (w := memberTag) (by simp [htags])
    have hfirst : Related
        (fun p q => p.1 = q.1 ∧ p.2.1 = q.2.1 ∧ XmlAlike True (tagsIn name) p.2.2 q.2.2)
        (parseGroup nodename member memberTag group name value subvals)
        (parseGroup nodename member memberTag group name' value subvals') := by
      simp only [parseGroup, ← hcontrol, ← hmemberTag]
      split
      next hn =>
        cases value with
        | nil => exact related_throw _
        | cons host hosts =>
          have hsame := parseConfigs_congr (by rw [hn]; rfl) hsubvals
          exact related_pure ⟨by rw [hsame], rfl, hsubvals⟩
      next hn =>
        split
        next hm =>
          cases value with
          | nil => exact related_throw _
          | cons text texts =>
            rw [hm, hwords] at hsubvals ⊢
            refine (defineVals_related hmember nodename group.name (argvSplit text) group.members
              hsubvals).bind ?_
            rintro ⟨members, x⟩ ⟨_, x'⟩ ⟨rfl, hx⟩
            exact related_pure ⟨rfl, rfl, hx⟩
        next hm => exact related_pure ⟨rfl, rfl, hsubvals⟩
    refine hfirst.bind ?_
    rintro ⟨group, value, subvals⟩ ⟨_, _, subvals'⟩ ⟨rfl, rfl, hsubvals⟩
    refine (ih htags group).bind ?_
    rintro ⟨group, next⟩ ⟨_, next'⟩ ⟨rfl, hnext⟩
    exact related_pure ⟨rfl, .item hname hsubvals hnext⟩

end Members

variable (nodename : Str)

theorem rackMember_respects : (rackMember nodename).Respects [txControl, fdNode] :=
  fun rack _ _ h => parseGroupEach_related (nodeMember_respects nodename) nodename (by rfl) h rfl rack

theorem rowMember_respects : (rowMember nodename).Respects [txControl, fdRack] :=
  fun row _ _ h => parseGroupEach_related (rackMember_respects nodename) nodename (by rfl) h rfl row

section

variable (h : XmlAlike True tags x x')
include h

theorem parseCluster_congr (htags : tags = [txControl, fdRow]) : ∀ cluster named,
      parseCluster nodename cluster named x = parseCluster nodename cluster named x' := by
  induction h with
  | nil => exact fun _ _ => rfl
  | @item tags name name' value subvals subvals' next next' hname hsubvals _ _ ih =>
    intro cluster named
    have hcontrol := (hname trivial).eq (w := txControl) (by simp [htags])
    have hrow := (hname trivial).eq (w := fdRow) (by simp [htags])
    simp only [parseCluster, ← hcontrol, ← hrow]
    split
    next hn => simp only [parseConfigs_congr (by rw [hn]; rfl) hsubvals, ih htags]
    next hn =>
      split
      next hr =>
        cases value with
        | nil => rfl
        | cons text texts =>
          rw [hr] at hsubvals
          refine Related.eq ((defineVals_related (rowMember_respects nodename) nodename cluster.name
            (argvSplit text) cluster.members hsubvals).bind ?_)
          rintro ⟨rows, x⟩ ⟨_, x'⟩ ⟨rfl, -⟩
          rw [ih htags]
          exact related_refl _
      next => exact ih htags cluster named

theorem parseScheduler_congr (htags : tags = schedulerTags) : ∀ scheduler named,
      parseScheduler nodename scheduler named x = parseScheduler nodename scheduler named x' := by
  induction h with
  | nil => exact fun _ _ => rfl
  | @item tags name name' value subvals subvals' next next' hname _ _ _ ih =>
    intro scheduler named
    subst htags
    have hqueues := (hname trivial).eq (w := txQueues) (by simp [schedulerTags])
    have hnode := (hname trivial).eq (w := fdNode) (by simp [schedulerTags])
    have hconfig : Alike configTags name name' :=
      (hname trivial).mono fun _ hw => mem_cons_of_mem _ (mem_cons_of_mem _ hw)
    simp only [parseScheduler, hqueues, hnode, parseOrcmConfig_congr hconfig, ih rfl]

theorem defineEach_congr (htags : tags = [fdCluster, txScheduler]) : ∀ system,
      defineEach nodename system x = defineEach nodename system x' := by
  induction h with
  | nil => exact fun _ => rfl
  | @item tags name name' value subvals subvals' next next' hname hsubvals _ _ ih =>
    intro system
    have hcluster := (hname trivial).eq (w := fdCluster) (by simp [htags])
    have hscheduler := (hname trivial).eq (w := txScheduler) (by simp [htags])
    simp only [defineEach, ← hcluster, ← hscheduler]
    split
    next hn => simp only [parseCluster_congr nodename hsubvals (by rw [hn]; rfl), ih htags]
    next hn =>
      split
      next hs => simp only [parseScheduler_congr nodename hsubvals (by rw [hs]; rfl), ih htags]
      next => rfl

end

/-! ## 5. Main results -/

/-- `read_config` accepts the document: the checks pass, and it can be converted.  If it does not, no
system is built, and both trees end with the same code. -/
def Accepted (erange : Bool) (t : Items) : Prop := ∃ config, (readConfig t erange).1 = .ok config

instance (erange t) : Decidable (Accepted erange t) :=
  decidable_of_iff ((readConfig t erange).1.toOption.isSome = true) (by
    rw [Accepted]
    cases (readConfig t erange).1 <;> simp [Except.toOption])

/-- **Letter case does not matter where the exact tags are spelt alike.**  For two trees that differ
only in the letter case of tags, reading and building has the same result, with whatever `errno` the
two calls start, if `read_config` refuses the tree, or if at the top (`configuration`), in every
scheduler and in every controller of a junction of known type (the names that `parse_orcm_config`,
`parse_node` and `parse_scheduler` know) a tag is in small letters in both trees or in neither. -/
theorem same_system_of_spelt_alike (nodename : Str) (erange erange' : Bool) {t t' : Items}
    (hcase : SameUpToCase t t') (hspelt : Accepted erange t → speltAlike t t' = true) :
    readAndDefine nodename erange erange' t = readAndDefine nodename erange erange' t' := by
  have hread := readConfig_related hcase hspelt erange
  have haccepted : ∀ config s, readConfig t erange = (.ok config, s) → Accepted erange t :=
    fun config s hrun => ⟨config, by rw [hrun]⟩
  rw [readAndDefine, readAndDefine]
  generalize readConfig t erange = r, readConfig t' erange = r' at hread haccepted ⊢
  cases hread with
  | error e s => rfl
  | ok s hx =>
    obtain ⟨tag, tag', subvals, subvals', rfl, rfl, htag, hsubvals⟩ := hx
    have hP := haccepted _ s rfl
    have htop : (tag = txConfig) = (tag' = txConfig) := (htag hP).eq (by simp)
    simp only [defineSystem, ← htop]
    split
    next hconfig =>
      have hsame := defineEach_congr nodename (eq_true (And.intro hP hconfig) ▸ hsubvals) rfl
      rw [hsame]
    next => rfl

/-- A configuration whose tags for junctions, hosts and ports are spelt like this. -/
def spelt (junction host port : String) : Items :=
  let leaf (tag value : String) (next : Items) : Items := .string (ofString tag) (ofString value) next
  let node (tag : String) (list next : Items) : Items := .ptr (ofString tag) list next
  node "configuration"
    (leaf "role" "record"
      (node junction
        (leaf "type" "cluster" (leaf "name" "c"
          (node junction
            (leaf "type" "row" (leaf "name" "r"
              (node junction
                (leaf "type" "rack" (leaf "name" "k"
                  (node "controller"
                    (leaf host "agg" (leaf port "55805" (leaf "aggregator" "yes" .nil)))
                    (node junction (leaf "type" "node" (leaf "name" "n[2:1-3]" .nil)) .nil))))
                .nil)))
            .nil)))
        (node "scheduler" (leaf "shost" "sms" (leaf "port" "55820" .nil)) .nil)))
    .nil

/-- Junctions and hosts in other letters, with the same result; it is a system with a cluster. -/
theorem same_system_of_spelt_alike_junction :
    SameUpToCase (spelt "junction" "host" "port") (spelt "JUNCTION" "Host" "port") ∧
      readAndDefine [] false false (spelt "junction" "host" "port") =
        readAndDefine [] false false (spelt "JUNCTION" "Host" "port") ∧
      ((readAndDefine [] false false (spelt "junction" "host" "port")).toOption.map
        fun system => system.clusters.length) = some 1 := by
  have hcase : SameUpToCase (spelt "junction" "host" "port") (spelt "JUNCTION" "Host" "port") := by
    rw [SameUpToCase]
    decide +kernel
  exact ⟨hcase, same_system_of_spelt_alike [] false false hcase (by decide +kernel),
    by decide +kernel⟩

/-- The ports of the controllers of all racks. -/
def rackPorts (system : System) : List CharPtr :=
  system.clusters.flatMap fun cluster => cluster.members.flatMap fun row =>
    row.members.map fun rack => rack.controller.config.port

/-- **A port in capital letters is lost.**  Both trees are read; in the second system the controller
of the rack has no port. -/
theorem capital_port_is_lost :
    SameUpToCase (spelt "junction" "host" "port") (spelt "junction" "host" "PORT") ∧
      ((readAndDefine [] false false (spelt "junction" "host" "port")).toOption.map rackPorts) =
        some [some (ofString "55805")] ∧
      ((readAndDefine [] false false (spelt "junction" "host" "PORT")).toOption.map rackPorts) =
        some [none] := by
  refine ⟨?_, by decide +kernel, by decide +kernel⟩
  rw [SameUpToCase]
  decide +kernel

end Sensys.Orcm.File30
