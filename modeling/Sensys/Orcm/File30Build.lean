/-
# Building a system from a configuration of version 3

The first half of `define_system` (`orcm/mca/cfgi/file30/cfgi_file30.c`): from the converted objects
it makes the schedulers, the clusters and in them the rows, racks and nodes, each with the
configuration of its controller.  The second half, which gives the daemons their names, is the model
of `CfgiNumbering`.

Names are compared with `strcmp` here.  A row, a rack or a node whose name is there already is not
made again.  `get_controller_name` replaces the name it is given IN PLACE: when an element stands
for several rows or racks, the second one finds the `@` of a controller gone and the name of the
first one in its stead.  So the functions return the objects too.

`orcm_rack_t`, `orcm_row_t` and `orcm_cluster_t` have a name, a controller and members (`Group`), and
the code for rows and for racks is the same but for that (`parseGroup`).  Pointers from a member to
what it is in are left out.
-/
import Sensys.Orcm.File30Hosts
import Sensys.Orcm.CfgiWire

namespace Sensys.Orcm.File30

open CString
open Opal.Dss (Stop CharPtr)
open Workflow (Items)
open CfgiWire (Config Scheduler)
open Orte (comma pieces)

/-! ## 1. Configurations -/

/-- `opal_argv_split` at the commas, which leaves out what is empty. -/
def argvSplit (s : Str) : List Str := (pieces s).filter (· ≠ [])

/-- `OPAL_MCA_PREFIX`. -/
def mcaPrefix : Str := ofString "ORCM_MCA_"

/-- A parameter with the leading text that all of them have. -/
def mcaParam (val : Str) : Str :=
  if val.take mcaPrefix.length ≠ mcaPrefix then mcaPrefix ++ val else val

/-- The variable whose text starts with `compare` is replaced, or a new one added. -/
def setVariable (compare newvalue : Str) : List Str → List Str
  | [] => [newvalue]
  | s :: env =>
    if s.take compare.length = compare then newvalue :: env
    else s :: setVariable compare newvalue env

/-- `opal_setenv`, with `overwrite`. -/
def setenv (name : String) (value : Str) (env : List Str) : List Str :=
  let compare := ofString name ++ ofString "="
  setVariable compare (compare ++ value) env

/-- `parse_orcm_config`. -/
def parseOrcmConfig (cfg : Config) (name : Str) (value : List Str) : Config :=
  match value with
  | [] => if name = txAggregat then { cfg with aggregator := true } else cfg
  | value :: _ =>
    if name = txPort then { cfg with port := some value }
    else if name = txCores then
      { cfg with mcaParams :=
          cfg.mcaParams ++ [mcaPrefix ++ ofString "orte_daemon_cores=" ++ value] }
    else if name = txMcaParams then
      { cfg with mcaParams := cfg.mcaParams ++ (argvSplit value).map mcaParam }
    else if name = txLog then
      let env := setenv "OPAL_OUTPUT_REDIRECT" (ofString "file") cfg.env
      let env := setenv "OPAL_OUTPUT_LOCATION" value env
      { cfg with env := setenv "OPAL_OUTPUT_SUFFIX" (ofString ".log") env }
    else if name = txEnvar then { cfg with env := cfg.env ++ argvSplit value }
    else if name = txAggregat then
      { cfg with aggregator := decide (value.head? = some 121) }
    else cfg

/-- The configuration that is attached to a controller. -/
def parseConfigs : Xml → Config → Config
  | .nil, cfg => cfg
  | .item name value _ next, cfg => parseConfigs next (parseOrcmConfig cfg name value)

/-! ## 2. Elements with members -/

/-- `ORTE_NODE_STATE_UNKNOWN`. -/
def stateUnknown : Int8 := 1

/-- `orcm_rack_t`, `orcm_row_t` and `orcm_cluster_t`. -/
structure Group (α : Type) where
  name : CharPtr
  controller : CfgiWire.Node
  members : List α
  deriving DecidableEq

/-- The constructor, and the name. -/
def Group.new {α : Type} (name : Str) : Group α := ⟨some name, CfgiWire.Node.new, []⟩

/-- The first `@` of a name, replaced. -/
def replaceFirstAt (parent name : Str) : Str :=
  match name.dropWhile (· ≠ atSign) with
  | [] => name
  | _ :: rest => name.takeWhile (· ≠ atSign) ++ parent ++ rest

/-- `get_controller_name`; `nodename` is that of `orte_process_info`. -/
def getControllerName (nodename elementName : Str) (parentName : CharPtr) : Str :=
  if elementName = localhost then nodename
  else match parentName with
    | none => elementName
    | some parentName => replaceFirstAt parentName elementName

/-- What is done with a kind of member: how one is made, its name, and the loop over the objects
that are attached to it. -/
structure Member (α : Type) where
  new : Str → α
  name : α → CharPtr
  parse : α → Xml → Errno (α × Xml)

variable {α : Type}

/-- The objects are applied to the member of this name, which is made if it is not there. -/
def applyTo (member : Member α) (name : Str) : List α → Xml → Errno (List α × Xml)
  | [], subvals => do
    let (a, subvals) ← member.parse (member.new name) subvals
    pure ([a], subvals)
  | a :: members, subvals =>
    if member.name a = some name then do
      let (a, subvals) ← member.parse a subvals
      pure (a :: members, subvals)
    else do
      let (members, subvals) ← applyTo member name members subvals
      pure (a :: members, subvals)

/-- The loop over the names that an expression stands for. -/
def defineNames (nodename : Str) (member : Member α) (parent : CharPtr) :
    List Str → List α → Xml → Errno (List α × Xml)
  | [], members, subvals => pure (members, subvals)
  | name :: names, members, subvals => do
    let (members, subvals) ←
      applyTo member (getControllerName nodename name parent) members subvals
    defineNames nodename member parent names members subvals

/-- The loop over the expressions between the commas. -/
def defineVals (nodename : Str) (member : Member α) (parent : CharPtr) :
    List Str → List α → Xml → Errno (List α × Xml)
  | [], members, subvals => pure (members, subvals)
  | val :: vals, members, subvals => do
    let names ← extractNodeNames val
    if names = [] then badParam
    let (members, subvals) ← defineNames nodename member parent names members subvals
    defineVals nodename member parent vals members subvals

/-- `parse_rack` and `parse_row`: an object is the controller, or defines members. -/
def parseGroup (nodename : Str) (member : Member α) (memberTag : Str) (group : Group α) (name : Str)
    (value : List Str) (subvals : Xml) : Errno (Group α × List Str × Xml) :=
  if name = txControl then
    match value with
    | [] => badParam
    | host :: hosts =>
      let host := getControllerName nodename host group.name
      pure ({ group with controller := { group.controller with
                name := some host
                state := stateUnknown
                config := parseConfigs subvals group.controller.config } }, host :: hosts, subvals)
  else if name = memberTag then
    match value with
    | [] => badParam
    | text :: _ => do
      let (members, subvals) ←
        defineVals nodename member group.name (argvSplit text) group.members subvals
      pure ({ group with members := members }, value, subvals)
  else pure (group, value, subvals)

/-- The loop over the objects of a rack or a row. -/
def parseGroupEach (nodename : Str) (member : Member α) (memberTag : Str) :
    Group α → Xml → Errno (Group α × Xml)
  | group, .nil => pure (group, .nil)
  | group, .item name value subvals next => do
    let (group, value, subvals) ←
      parseGroup nodename member memberTag group name value subvals
    let (group, next) ← parseGroupEach nodename member memberTag group next
    pure (group, .item name value subvals next)

/-! ## 3. Nodes, racks, rows and clusters -/

/-- `parse_node`. -/
def parseNode (nodename : Str) (node : CfgiWire.Node) (name : Str) (value : List Str) :
    Errno (CfgiWire.Node × List Str) :=
  if name = txName then
    match value with
    | [] => badParam
    | text :: texts =>
      let text := getControllerName nodename text none
      pure ({ node with name := some text }, text :: texts)
  else pure ({ node with config := parseOrcmConfig node.config name value }, value)

/-- The loop over the objects of a node. -/
def parseNodeEach (nodename : Str) : CfgiWire.Node → Xml → Errno (CfgiWire.Node × Xml)
  | node, .nil => pure (node, .nil)
  | node, .item name value subvals next => do
    let (node, value) ← parseNode nodename node name value
    let (node, next) ← parseNodeEach nodename node next
    pure (node, .item name value subvals next)

/-- The nodes of a rack. -/
def nodeMember (nodename : Str) : Member CfgiWire.Node where
  new name := { CfgiWire.Node.new with name := some name, state := stateUnknown }
  name := CfgiWire.Node.name
  parse := parseNodeEach nodename

/-- `orcm_rack_t`. -/
abbrev Rack := Group CfgiWire.Node

/-- The racks of a row: `parse_rack`. -/
def rackMember (nodename : Str) : Member Rack where
  new := Group.new
  name := Group.name
  parse := parseGroupEach nodename (nodeMember nodename) fdNode

/-- `orcm_row_t`. -/
abbrev Row := Group Rack

/-- The rows of a cluster: `parse_row`. -/
def rowMember (nodename : Str) : Member Row where
  new := Group.new
  name := Group.name
  parse := parseGroupEach nodename (rackMember nodename) fdRack

/-- `orcm_cluster_t`. -/
abbrev Cluster := Group Row

/-- `parse_cluster`, with `only_one_cluster_controller`: only the first controller gives the cluster
its name. -/
def parseCluster (nodename : Str) : Cluster → Bool → Xml → Errno Cluster
  | cluster, _, .nil => pure cluster
  | cluster, named, .item name value subvals next =>
    if name = txControl then
      match value with
      | [] => badParam
      | host :: _ =>
        let host := getControllerName nodename host cluster.name
        let controller :=
          if named then cluster.controller
          else { cluster.controller with
            name := some (getControllerName nodename host none)
            state := stateUnknown }
        parseCluster nodename
          { cluster with controller := { controller with
              config := parseConfigs subvals controller.config } } true next
    else if name = fdRow then
      match value with
      | [] => badParam
      | text :: _ => do
        let (rows, _) ← defineVals nodename (rowMember nodename) cluster.name (argvSplit text)
          cluster.members subvals
        parseCluster nodename { cluster with members := rows } named next
    else parseCluster nodename cluster named next

/-! ## 4. Schedulers and the system -/

/-- `parse_scheduler`, with `only_one_scheduler`. -/
def parseScheduler (nodename : Str) : Scheduler → Bool → Xml → Errno Scheduler
  | scheduler, _, .nil => pure scheduler
  | scheduler, named, .item name value _ next =>
    if name = txQueues then
      match value with
      | [] => badParam
      | _ :: _ =>
        parseScheduler nodename { scheduler with queues := scheduler.queues ++ value } named next
    else if name = fdNode then
      match value with
      | [] => badParam
      | host :: _ =>
        let controller :=
          if named then scheduler.controller
          else { scheduler.controller with name := some (getControllerName nodename host none) }
        parseScheduler nodename { scheduler with controller := controller } true next
    else
      parseScheduler nodename { scheduler with controller := { scheduler.controller with
        config := parseOrcmConfig scheduler.controller.config name value } } named next

/-- `orcm_clusters` and `orcm_schedulers`. -/
structure System where
  clusters : List Cluster
  schedulers : List Scheduler
  deriving DecidableEq

/-- The loop of `define_system` over the objects of the configuration. -/
def defineEach (nodename : Str) : System → Xml → Errno System
  | system, .nil => pure system
  | system, .item name value subvals next =>
    if name = fdCluster then do
      let cluster ← parseCluster nodename ⟨value.head?, CfgiWire.Node.new, []⟩ false subvals
      defineEach nodename { system with clusters := system.clusters ++ [cluster] } next
    else if name = txScheduler then do
      let scheduler ← parseScheduler nodename Scheduler.new false subvals
      defineEach nodename { system with schedulers := system.schedulers ++ [scheduler] } next
    else badParam

/-- `define_system`, up to the point where all objects are made.  Objects with another name than
`configuration` are passed over. -/
def defineSystem (nodename : Str) : System → Xml → Errno System
  | system, .nil => pure system
  | system, .item name _ subvals next =>
    if name = txConfig then do
      let system ← defineEach nodename system subvals
      defineSystem nodename system next
    else defineSystem nodename system next

/-- `read_config` and then `define_system`, each with the `errno` that it finds. -/
def readAndDefine (nodename : Str) (erange erange' : Bool) (cfgi : Items) : Except Stop System :=
  match readConfig cfgi erange with
  | (.error stop, _) => .error stop
  | (.ok config, _) => (defineSystem nodename ⟨[], []⟩ config erange').1

end Sensys.Orcm.File30
