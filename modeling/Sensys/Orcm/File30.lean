/-
# Reading a configuration file of version 3

The parser gives `orcm/mca/cfgi/file30` a tree of tags (`Items`, the list with its successor).
`read_config` checks it three times and then converts it to `orcm_cfgi_xml_parser_t` objects, from
which `define_system` builds the clusters.  This file has the functions of
`cfgi_file30_helpers.c` but for the check of hosts and ports:

* `check_lex_tags_and_field`: the values of some tags, and that some tags are there at all;
* `check_duplicate_singleton`: tags that may not stand twice in one list
  (`checkDuplicateSingleton_iff`: it finds them all, and nothing else);
* `convert_to_orcm_cfgi_xml_parser_t_list`: the nesting of the junctions, and the conversion.

Tags are compared with `strcasecmp` in all of them.  The converted objects are named by constants,
except for the attributes of controllers and schedulers and for the object at the top: those keep
the tag, through `tolower_cstr`, which is meant to convert it to small letters and does nothing
(`tolowerCstr_eq`).

A result `undefined` is a read of a list where there is a string, or of a string where there is a
list.  Memory is not exhausted, and messages are left out.
-/
import Sensys.Orcm.Workflow

namespace Sensys.Orcm.File30

open CString List
open Opal.Dss (Stop)
open Workflow (Items)

/-! ## 1. Tags and values -/

def txAggregat : Str := ofString "aggregator"
def txConfig : Str := ofString "configuration"
def txControl : Str := ofString "controller"
def txCount : Str := ofString "count"
def txCores : Str := ofString "cores"
def txCreation : Str := ofString "creation"
def txEnvar : Str := ofString "envar"
def txHost : Str := ofString "host"
def txJunction : Str := ofString "junction"
def txLog : Str := ofString "log"
def txMcaParams : Str := ofString "mca-params"
def txName : Str := ofString "name"
def txPort : Str := ofString "port"
def txQueues : Str := ofString "queues"
def txRole : Str := ofString "role"
def txScheduler : Str := ofString "scheduler"
def txShost : Str := ofString "shost"
def txType : Str := ofString "type"
def txVersion : Str := ofString "version"

def fdCluster : Str := ofString "cluster"
def fdRow : Str := ofString "row"
def fdRack : Str := ofString "rack"
def fdNode : Str := ofString "node"
def fdRecord : Str := ofString "record"

/-- A function returned `ORCM_ERR_BAD_PARAM`. -/
def badParam {σ α : Type} : Failing Stop σ α := throw (.rc .errBadParam)

/-- `value.data.string`, which an item with a list does not have. -/
def stringOf {σ : Type} : Option Str → Failing Stop σ Str
  | some value => pure value
  | none => throw .undefined

/-! ## 2. The check of the values -/

/-- `check_lex_port_field`. -/
def checkLexPortField (fieldValue : Str) : Bool :=
  let (number, _, endptr) := strtol fieldValue
  decide (endptr = []) && decide (0 ≤ number ∧ number ≤ 65535)

/-- The counters of `check_lex_tags_and_field`. -/
structure LexCounts where
  role : ℕ
  aggs : ℕ
  shost : ℕ
  deriving DecidableEq, Repr

/-- `check_record_field`: the new count. -/
def checkRecordField (fieldValue : Str) (record : ℕ) : Failing Stop LexCounts ℕ :=
  if caseEq fdRecord fieldValue then
    if 1 < record + 1 then badParam else pure (record + 1)
  else badParam

/-- `check_aggregator_yes_no_field`. -/
def checkAggregatorYesNoField (fieldValue : Str) : Bool :=
  caseEq (ofString "yes") fieldValue || caseEq (ofString "no") fieldValue

/-- `is_not_ignored`: the tags whose lists are searched. -/
def isNotIgnored (tag : Str) : Bool :=
  caseEq txJunction tag || caseEq txControl tag || caseEq txConfig tag || caseEq txScheduler tag

/-- What `search_lex_tags_and_field` does with an item itself: `record_count`. -/
def searchLexItem (tag : Str) (value : Option Str) (record : ℕ) : Failing Stop LexCounts ℕ := do
  if caseEq txShost tag then
    modify fun counts => { counts with shost := counts.shost + 1 }
  let record ← if caseEq txRole tag then do
      modify fun counts => { counts with role := counts.role + 1 }
      let value ← stringOf value
      checkRecordField value record
    else pure record
  if caseEq txAggregat tag then
    let value ← stringOf value
    if caseEq (ofString "yes") value then
      modify fun counts => { counts with aggs := counts.aggs + 1 }
    if !checkAggregatorYesNoField value then badParam
  if caseEq txPort tag then
    let value ← stringOf value
    if !checkLexPortField value then badParam
  pure record

/-- `search_lex_tags_and_field`; `record_count` starts anew in every list. -/
def searchLexTagsAndField : Items → ℕ → Failing Stop LexCounts Unit
  | .nil, _ => pure ()
  | .string tag value next, record => do
    let record ← searchLexItem tag (some value) record
    searchLexTagsAndField next record
  | .ptr tag list next, record => do
    let record ← searchLexItem tag none record
    if isNotIgnored tag then searchLexTagsAndField list 0
    searchLexTagsAndField next record
  | .other tag next, record => do
    let record ← searchLexItem tag none record
    if isNotIgnored tag then throw .undefined
    searchLexTagsAndField next record

/-- `check_lex_tags_and_field`.  The counters are looked at before the result of the search. -/
def checkLexTagsAndField (root : Items) : Except Stop Unit :=
  match searchLexTagsAndField root 0 ⟨0, 0, 0⟩ with
  | (.error .undefined, _) => .error .undefined
  | (ret, counts) =>
    if counts.aggs = 0 ∨ counts.role = 0 ∨ counts.shost = 0 then .error (.rc .errBadParam) else ret

/-! ## 3. The check for duplicates -/

/-- `is_singleton`.  The switch on the first letter only saves comparisons. -/
def isSingleton (tag : Str) : Bool :=
  [txAggregat, txControl, txCount, txCores, txCreation, txEnvar, txHost, txLog, txName, txPort,
    txRole, txScheduler, txShost, txType, txVersion].any (caseEq tag)

/-- A tag joins the singletons of its list; `singleton_error` is set if it is there already. -/
def noteSingleton (tag : Str) (singletons : List Str) (failed : Bool) : List Str × Bool :=
  if isSingleton tag then (singletons ++ [tag], failed || singletons.any fun s => caseEq s tag)
  else (singletons, failed)

/-- `search_singletons`, with the singletons of the list so far and `singleton_error`. -/
def searchSingletons : Items → List Str → Bool → Except Stop Bool
  | .nil, _, failed => .ok failed
  | .string tag _ next, singletons, failed =>
    let (singletons, failed) := noteSingleton tag singletons failed
    searchSingletons next singletons failed
  | .ptr tag list next, singletons, failed =>
    let (singletons, failed) := noteSingleton tag singletons failed
    if isNotIgnored tag then do
      let failed ← searchSingletons list [] failed
      if failed then .ok true else searchSingletons next singletons failed
    else searchSingletons next singletons failed
  | .other tag next, singletons, failed =>
    let (singletons, failed) := noteSingleton tag singletons failed
    if isNotIgnored tag then .error .undefined else searchSingletons next singletons failed

/-- `check_duplicate_singleton`. -/
def checkDuplicateSingleton (root : Items) : Except Stop Unit := do
  let failed ← searchSingletons root [] false
  if failed then .error (.rc .errBadParam) else .ok ()

/-- The tags of a list. -/
def tags : Items → List Str
  | .nil => []
  | .string tag _ next | .ptr tag _ next | .other tag next => tag :: tags next

/-- The tags of every list that belongs to the configuration: to the whole of it, a junction, a
controller or a scheduler, however these are spelt. -/
def tagsBelow : Items → List (List Str)
  | .nil => []
  | .ptr tag list next =>
    (if (["configuration", "junction", "controller", "scheduler"].map ofString).contains (lower tag)
      then tags list :: tagsBelow list
      else []) ++ tagsBelow next
  | .string _ _ next | .other _ next => tagsBelow next

/-- The singletons among some tags, in small letters. -/
def singletonsIn (tags : List Str) : List Str := (tags.filter isSingleton).map lower

/-- The trees of the parser: an item is a string or a list. -/
def Parsed : Items → Prop
  | .nil => True
  | .string _ _ next => Parsed next
  | .ptr _ list next => Parsed list ∧ Parsed next
  | .other _ _ => False

theorem isNotIgnored_iff {tag : Str} : isNotIgnored tag = true ↔ (["configuration", "junction",
    "controller", "scheduler"].map ofString).contains (lower tag) = true := by
  have hlist : ["configuration", "junction", "controller", "scheduler"].map ofString =
      [lower txConfig, lower txJunction, lower txControl, lower txScheduler] := by decide
  rw [hlist, contains_iff_mem]
  simp only [isNotIgnored, caseEq_comm _ tag, Bool.or_eq_true, caseEq_iff, mem_cons, not_mem_nil,
    or_false]
  tauto

/-- A tag that is noted is one more of the list. -/
theorem noteSingleton_iff (tag : Str) (rest ss : List Str) (failed : Bool) :
    ((noteSingleton tag ss failed).2 = false ∧ (singletonsIn rest).Nodup ∧
        ∀ s ∈ (noteSingleton tag ss failed).1, lower s ∉ singletonsIn rest) ↔
      failed = false ∧ (singletonsIn (tag :: rest)).Nodup ∧
        ∀ s ∈ ss, lower s ∉ singletonsIn (tag :: rest) := by
  by_cases htag : isSingleton tag = true
  · have hsingletons : singletonsIn (tag :: rest) = lower tag :: singletonsIn rest := by
      simp [singletonsIn, htag]
    simp only [noteSingleton, htag, if_true, hsingletons, Bool.or_eq_false_iff,
      any_eq_false, caseEq_iff, nodup_cons, mem_cons, mem_append,
      mem_nil_iff, or_false]
    grind
  · simp [noteSingleton, singletonsIn, htag]

/-- **The search finds the duplicates**, of the list with the tags noted before and of those
below. -/
theorem searchSingletons_iff {t} (h : Parsed t) (ss : List Str) (failed : Bool) :
    searchSingletons t ss failed = .ok false ↔
      (failed = false ∧ (singletonsIn (tags t)).Nodup ∧ ∀ s ∈ ss, lower s ∉ singletonsIn (tags t)) ∧
        ∀ below ∈ tagsBelow t, (singletonsIn below).Nodup := by
  induction t generalizing ss failed with
  | nil => simp [searchSingletons, tags, tagsBelow, singletonsIn]
  | string tag _ next ih => rw [searchSingletons, ih h, noteSingleton_iff, tags, tagsBelow]
  | other => exact h.elim
  | ptr tag list next ihlist ih =>
    rw [tags, ← noteSingleton_iff, tagsBelow]
    by_cases htag : isNotIgnored tag = true
    · -- the rest is searched with the flag that the list below has left
      have hnext : searchSingletons (.ptr tag list next) ss failed = .ok false ↔
          searchSingletons list [] (noteSingleton tag ss failed).2 = .ok false ∧
            searchSingletons next (noteSingleton tag ss failed).1 false = .ok false := by
        simp only [searchSingletons, htag, if_true]
        rcases searchSingletons list [] (noteSingleton tag ss failed).2 with _ | _ | _ <;>
          simp [bind, Except.bind]
      rw [hnext, ihlist h.1, ih h.2]
      simp only [if_pos (isNotIgnored_iff.mp htag), not_mem_nil, false_implies, implies_true, and_true,
        true_and, cons_append, forall_mem_cons, forall_mem_append]
      tauto
    · simp only [searchSingletons, htag, Bool.false_eq_true, if_false, ih h.2,
        if_neg (mt isNotIgnored_iff.mpr htag), nil_append]

/-- **The check for duplicates is exact.** -/
theorem checkDuplicateSingleton_iff {root : Items} (h : Parsed root) :
    checkDuplicateSingleton root = .ok () ↔
      ∀ list ∈ tags root :: tagsBelow root, (singletonsIn list).Nodup := by
  have hsearch := searchSingletons_iff h [] false
  simp only [not_mem_nil, false_implies, implies_true, true_and, and_true] at hsearch
  rw [forall_mem_cons, ← hsearch, checkDuplicateSingleton]
  rcases searchSingletons root [] false with _ | _ | _ <;> simp [bind, Except.bind]

/-- A controller with two hosts. -/
def twoHosts : Items :=
  .ptr txControl (.string txHost [] (.string (ofString "HOST") [] .nil)) .nil

theorem checkDuplicateSingleton_twoHosts :
    Parsed twoHosts ∧ checkDuplicateSingleton twoHosts ≠ .ok () := by
  have h : Parsed twoHosts := ⟨trivial, trivial⟩
  refine ⟨h, fun hok => ?_⟩
  have honce := (checkDuplicateSingleton_iff h).mp hok _ (.tail _ (.head _))
  exact absurd honce (by decide)

/-! ## 4. The conversion -/

/-- A list of `orcm_cfgi_xml_parser_t` objects: the first one, with its list, and the rest. -/
inductive Xml where
  | nil
  | item (name : Str) (value : List Str) (subvals next : Xml)
  deriving DecidableEq, Repr

/-- `opal_list_append`, of a whole list. -/
def Xml.append : Xml → Xml → Xml
  | nil, rest => rest
  | item name value subvals next, rest => item name value subvals (next.append rest)

/-- `tolower_cstr`: `'A' >= *t && 'Z' <= *t` is asked of every character. -/
def tolowerCstr (s : Str) : Str :=
  s.map fun c => if 65 ≥ c.toNat ∧ 90 ≤ c.toNat then c - 65 + 97 else c

/-- **The conversion to small letters converts nothing.** -/
theorem tolowerCstr_eq (s : Str) : tolowerCstr s = s := by
  have hid : (fun c : UInt8 => if 65 ≥ c.toNat ∧ 90 ≤ c.toNat then c - 65 + 97 else c) = id := by
    funext c
    rw [if_neg (by omega), id]
  rw [tolowerCstr, hid, map_id]

/-- An attribute of a controller, a node or a scheduler: `build_cfgi_xml_parser_object` with one
value. -/
def attributeObject (name value : Str) (next : Xml) : Xml :=
  .item (tolowerCstr name) [value] .nil next

/-- The globals `number_of_clusters` and `schedulers_count`. -/
structure Counters where
  numberOfClusters : ℕ
  schedulersCount : ℕ
  deriving DecidableEq, Repr

/-- A conversion. -/
abbrev Conv := Failing Stop Counters

/-- `get_type_and_name`, with the type and the name so far. -/
def getTypeAndName : Items → Option Str → Option Str → Conv (Option Str × Option Str)
  | .nil, type, name => pure (type, name)
  | .string tag value next, type, name =>
    if caseEq tag txName then getTypeAndName next type (some value)
    else if caseEq tag txType then getTypeAndName next (some value) name
    else getTypeAndName next type name
  | .ptr tag _ next, type, name | .other tag next, type, name =>
    if caseEq tag txName || caseEq tag txType then throw .undefined
    else getTypeAndName next type name

/-- `merge_controller_with_node`: the attributes without the host. -/
def mergeControllerWithNode : Items → Conv Xml
  | .nil => pure .nil
  | .string tag value next =>
    if !caseEq tag txHost then do
      let rest ← mergeControllerWithNode next
      pure (attributeObject tag value rest)
    else mergeControllerWithNode next
  | .ptr _ _ _ => badParam
  | .other tag next =>
    if !caseEq tag txHost then throw .undefined else mergeControllerWithNode next

/-- The loop of `parse_controller_tag`: the hosts and the attributes. -/
def parseControllerEach : Items → Conv (List Str × Xml)
  | .nil => pure ([], .nil)
  | .string tag value next => do
    let (hosts, attributes) ← parseControllerEach next
    if caseEq tag txHost then pure (value :: hosts, attributes)
    else pure (hosts, attributeObject tag value attributes)
  | .ptr _ _ _ => badParam
  | .other _ _ => throw .undefined

/-- `parse_controller_tag`. -/
def parseControllerTag (source : Items) : Conv Xml := do
  let (hosts, attributes) ← parseControllerEach source
  pure (.item txControl hosts attributes .nil)

/-- `parse_cluster_junction`; `parse` is `parse_junction_tag` on the list and the name. -/
def parseClusterJunction (parse : Str → Conv Xml) : Conv Xml := do
  modify fun counters => { counters with numberOfClusters := counters.numberOfClusters + 1 }
  let counters ← get
  if 1 < counters.numberOfClusters then badParam else parse fdCluster

/-- A junction of a type that has its place in one other type only. -/
def parseInnerJunction (outer type : Str) (parse : Str → Conv Xml) (parentType : Str) : Conv Xml :=
  if !caseEq outer parentType then badParam else parse type

/-- `parse_row_junction`. -/
def parseRowJunction := parseInnerJunction fdCluster fdRow

/-- `parse_rack_junction`. -/
def parseRackJunction := parseInnerJunction fdRow fdRack

/-- `parse_node_junction`. -/
def parseNodeJunction := parseInnerJunction fdRack fdNode

/-- `select_parse_junction_tag`; `parse` is `parse_junction_tag` on the list.  A junction of a type
that is not known is passed over. -/
def selectParseJunctionTag (list : Items) (parse : Str → Str → Conv Xml) (parentType : Str) :
    Conv Xml := do
  let (itemType, itemName) ← getTypeAndName list none none
  match itemType, itemName with
  | some itemType, some itemName =>
    if caseEq fdNode parentType then badParam
    else if caseEq fdCluster itemType then parseClusterJunction (parse itemName)
    else if caseEq fdRow itemType then parseRowJunction (parse itemName) parentType
    else if caseEq fdRack itemType then parseRackJunction (parse itemName) parentType
    else if caseEq fdNode itemType then parseNodeJunction (parse itemName) parentType
    else pure .nil
  | _, _ => badParam

/-- `parse_junction_tag` around its loop, which counts the junctions. -/
def parseJunctionWith (each : Str → Conv (Xml × ℕ)) (name type : Str) : Conv Xml := do
  let (subvals, junctionCounter) ← each type
  if junctionCounter = 0 && !caseEq fdNode type then badParam
  pure (.item type [name] subvals .nil)

/-- The loop of `parse_junction_tag`: the objects and `junction_counter`. -/
def parseJunctionEach : Items → Str → Conv (Xml × ℕ)
  | .nil, _ => pure (.nil, 0)
  | .ptr tag list next, type =>
    if caseEq tag txJunction then do
      let here ← selectParseJunctionTag list (parseJunctionWith (parseJunctionEach list)) type
      let (rest, junctionCounter) ← parseJunctionEach next type
      pure (here.append rest, junctionCounter + 1)
    else if caseEq tag txControl then do
      let here ←
        if !caseEq fdNode type then parseControllerTag list else mergeControllerWithNode list
      let (rest, junctionCounter) ← parseJunctionEach next type
      pure (here.append rest, junctionCounter)
    else parseJunctionEach next type
  | .string tag _ next, type | .other tag next, type =>
    if caseEq tag txJunction || caseEq tag txControl then throw .undefined
    else parseJunctionEach next type

/-- `parse_junction_tag`. -/
def parseJunctionTag (source : Items) : Str → Str → Conv Xml :=
  parseJunctionWith (parseJunctionEach source)

/-- The loop of `parse_scheduler_tag`: the attributes, with the host named like a node. -/
def parseSchedulerEach : Items → Conv Xml
  | .nil => pure .nil
  | .string tag value next => do
    let rest ← parseSchedulerEach next
    pure (attributeObject (if caseEq tag txShost then fdNode else tag) value rest)
  | .ptr _ _ _ => badParam
  | .other _ _ => throw .undefined

/-- `parse_scheduler_tag`. -/
def parseSchedulerTag (source : Items) : Conv Xml := do
  let attributes ← parseSchedulerEach source
  modify fun counters => { counters with schedulersCount := counters.schedulersCount + 1 }
  let counters ← get
  if counters.schedulersCount ≠ 1 then badParam
  pure (.item txScheduler [] attributes .nil)

/-- The loop of `parse_configuration_tag`: the objects and `clusters_found`. -/
def parseConfigurationEach : Items → Conv (Xml × ℕ)
  | .nil => pure (.nil, 0)
  | .ptr tag list next =>
    if caseEq tag txJunction then do
      let (type, _) ← getTypeAndName list none none
      let here ← selectParseJunctionTag list (parseJunctionTag list) txConfig
      let (rest, clustersFound) ← parseConfigurationEach next
      let found := match type with
        | some type => if caseEq type fdCluster then 1 else 0
        | none => 0
      pure (here.append rest, clustersFound + found)
    else if caseEq tag txScheduler then do
      let here ← parseSchedulerTag list
      let (rest, clustersFound) ← parseConfigurationEach next
      pure (here.append rest, clustersFound)
    else parseConfigurationEach next
  | .string tag _ next | .other tag next =>
    if caseEq tag txJunction || caseEq tag txScheduler then throw .undefined
    else parseConfigurationEach next

/-- `parse_configuration_tag`. -/
def parseConfigurationTag (source : Items) : Conv Xml := do
  let (subvals, clustersFound) ← parseConfigurationEach source
  if clustersFound ≠ 1 then badParam
  pure subvals

/-- `convert_to_orcm_cfgi_xml_parser_t_list`, which looks at the first item only. -/
def convertToXmlParserList : Items → Except Stop Xml
  | .ptr tag list _ =>
    if !caseEq tag txConfig then .error (.rc .errBadParam)
    else match parseConfigurationTag list ⟨0, 0⟩ with
      | (.ok subvals, _) => .ok (.item (tolowerCstr tag) [] subvals .nil)
      | (.error stop, _) => .error stop
  | .string tag _ _ | .other tag _ =>
    if !caseEq tag txConfig then .error (.rc .errBadParam) else .error .undefined
  | .nil => .error .undefined

end Sensys.Orcm.File30
