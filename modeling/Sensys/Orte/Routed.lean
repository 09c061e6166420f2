/-
# The routing module of the orcm daemons

The model of `init_routes` and `get_route` in `orte/mca/routed/orcm/routed_orcm.c`.

`init_routes` walks through the cluster section of the definition and keeps two things for the
process that runs it: the name of its parent, and the list of its children, each with a bitmap of
the vpids below that child.  The list grows at its end, and the variable `child` points to the
member appended last; here the members appended by the call are kept the latest first (`Walk`),
so that `child` is the head, and `NULL` if there is none.

`none` stands for what is undefined: a bit set through `child == NULL`, a bit set in a bitmap whose
initialisation failed, or the name of the scheduler read uninitialised.

The lifeline of a process, which only `route_lost` reads, is not part of the model.
-/
import Sensys.Opal.Bitmap
import Sensys.Orcm.Cfgi

namespace Sensys.Orte.Routed

open Opal Orcm

/-! ## 1. Processes and their routes -/

/-- The types of process the module tells apart. -/
inductive ProcType where
  | tool | scheduler | aggregator | daemon
  deriving DecidableEq, Repr

/-- What a process knows about itself: `ORTE_PROC_MY_NAME`, its type, `num_procs`,
`ORTE_PROC_MY_SCHEDULER` and `orte_routing_is_enabled`. -/
structure Process where
  name : ProcName
  procType : ProcType
  numProcs : ℕ
  scheduler : ProcName
  routingIsEnabled : Bool
  deriving DecidableEq, Repr

/-- `orte_routed_tree_t`. -/
structure RoutedTree where
  vpid : ℕ
  relatives : Bitmap
  deriving DecidableEq, Repr

/-- `ORTE_PROC_MY_PARENT` and `my_children`. -/
structure Routes where
  parent : ProcName
  children : List RoutedTree
  deriving DecidableEq, Repr

/-- The routes of a process that has not been told anything. -/
def noRoutes : Routes := ⟨nameInvalid, []⟩

/-- The routes while `init_routes` runs: the children appended by it, the latest first. -/
structure Walk where
  parent : ProcName
  added : List RoutedTree
  deriving DecidableEq, Repr

/-- A new child. -/
def addChild (me : Process) (vpid : ℕ) (walk : Walk) : Walk :=
  { walk with
    added := ⟨vpid, (Bitmap.construct.init (int32 me.numProcs)).2⟩ :: walk.added }

/-- `opal_bitmap_set_bit(&child->relatives, vpid)`. -/
def addRelative (vpid : ℕ) (walk : Walk) : Option Walk :=
  match walk.added with
  | [] => none
  | child :: added =>
    (child.relatives.setBit (int32 vpid)).map fun (_, relatives) =>
      { walk with added := { child with relatives := relatives } :: added }

/-! ## 2. The levels of the hierarchy -/

/-- A controller on the way: whether it is there, its name, and whether it is the process. -/
structure Level where
  present : Bool
  name : ProcName
  iAm : Bool
  deriving DecidableEq, Repr

/-- The level of a row or rack controller. -/
def level (me : Process) (name : ProcName) : Level :=
  ⟨name.isPresent, name, name.isPresent && decide (name = me.name)⟩

/-- The level of the scheduler. -/
def schedLevel (me : Process) (name : ProcName) : Level :=
  ⟨name.isPresent, name, decide (name = me.name)⟩

/-- The level of the cluster controller. -/
def clusterLevel (me : Process) (sched : Level) (name : ProcName) : Level :=
  ⟨name.isPresent, name, name.isPresent && !sched.iAm && decide (name = me.name)⟩

/-- The parent of the process: the nearest controller that is there, or itself. -/
def nearest (me : Process) (levels : List Level) : ProcName :=
  match levels.find? Level.present with
  | some level => level.name
  | none => me.name

/-! ## 3. `init_routes` -/

/-- The cluster controller.  Its parent is the scheduler, if there is one. -/
def initCluster (me : Process) (sched cluster : Level) (walk : Walk) : Walk :=
  if cluster.present then
    if sched.iAm then addChild me cluster.name.vpid walk
    else if cluster.iAm then
      if sched.present then { walk with parent := sched.name } else walk
    else walk
  else walk

/-- The controller of a row. -/
def initRowController (me : Process) (sched cluster row : Level) (walk : Walk) : Option Walk :=
  if row.present then
    let walk :=
      if sched.iAm && cluster.present then addRelative row.name.vpid walk
      else if cluster.iAm || (!cluster.present && sched.iAm) then
        some (addChild me row.name.vpid walk)
      else some walk
    walk.map fun walk =>
      if row.iAm then { walk with parent := nearest me [cluster, sched] } else walk
  else some walk

/-- The controller of a rack. -/
def initRackController (me : Process) (sched cluster row rack : Level) (walk : Walk) :
    Option Walk :=
  if rack.present then
    let walk :=
      if row.iAm || (cluster.iAm && !row.present) ||
          (sched.iAm && !cluster.present && !row.present) then
        some (addChild me rack.name.vpid walk)
      else if cluster.iAm || sched.iAm then addRelative rack.name.vpid walk
      else some walk
    walk.map fun walk =>
      if rack.iAm then { walk with parent := nearest me [row, cluster, sched] } else walk
  else some walk

/-- A node of a rack. -/
def initNode (me : Process) (sched cluster row rack : Level) (name : ProcName) (walk : Walk) :
    Option Walk :=
  let walk :=
    if rack.iAm || (row.iAm && !rack.present) ||
        (cluster.iAm && !row.present && !rack.present) ||
        (sched.iAm && !cluster.present && !row.present && !rack.present) then
      some (addChild me name.vpid walk)
    else if row.iAm || cluster.iAm || sched.iAm then addRelative name.vpid walk
    else some walk
  walk.map fun walk =>
    if me.name = name then { walk with parent := nearest me [rack, row, cluster, sched] } else walk

/-- The nodes of a rack, until the end of its buffer. -/
def initNodes (me : Process) (sched cluster row rack : Level) :
    List Orcm.Item → Walk → Option (Rc × Walk)
  | [], walk => some (.success, walk)
  | .name name :: items, walk =>
    (initNode me sched cluster row rack name walk).bind fun walk =>
      initNodes me sched cluster row rack items walk
  | _ :: _, walk => some (.errPackMismatch, walk)

/-- The buffer of a rack. -/
def initRack (me : Process) (sched cluster row : Level) : List Orcm.Item → Walk → Option (Rc × Walk)
  | [], walk => some (.errUnpackReadPastEndOfBuffer, walk)
  | .name name :: items, walk =>
    (initRackController me sched cluster row (level me name) walk).bind fun walk =>
      initNodes me sched cluster row (level me name) items walk
  | _ :: _, walk => some (.errPackMismatch, walk)

/-- A loop of `init_routes` over as many buffers as a count says; it ends with the first error. -/
def initEach (init : List Orcm.Item → Walk → Option (Rc × Walk)) :
    ℕ → List Orcm.Item → Walk → Option (Rc × Walk)
  | 0, _, walk => some (.success, walk)
  | _ + 1, [], walk => some (.errUnpackReadPastEndOfBuffer, walk)
  | count + 1, .buffer buffer :: items, walk =>
    (init buffer walk).bind fun (rc, walk) =>
      if rc = .success then initEach init count items walk else some (rc, walk)
  | _ + 1, _ :: _, walk => some (.errPackMismatch, walk)

/-- The buffer of a row. -/
def initRow (me : Process) (sched cluster : Level) : List Orcm.Item → Walk → Option (Rc × Walk)
  | [], walk => some (.errUnpackReadPastEndOfBuffer, walk)
  | [.int32 _], walk => some (.errUnpackReadPastEndOfBuffer, walk)
  | .int32 nracks :: .name name :: items, walk =>
    (initRowController me sched cluster (level me name) walk).bind fun walk =>
      initEach (initRack me sched cluster (level me name)) nracks.toNat items walk
  | _ :: _, walk => some (.errPackMismatch, walk)

/-- What is packed for a cluster. -/
def initRows (me : Process) (sched : Level) : List Orcm.Item → Walk → Option (Rc × Walk)
  | [], walk => some (.errUnpackReadPastEndOfBuffer, walk)
  | [.name name], walk =>
    some (.errUnpackReadPastEndOfBuffer, initCluster me sched (clusterLevel me sched name) walk)
  | .name name :: .int32 nrows :: items, walk =>
    initEach (initRow me sched (clusterLevel me sched name)) nrows.toNat items
      (initCluster me sched (clusterLevel me sched name) walk)
  | .name name :: _, walk =>
    some (.errPackMismatch, initCluster me sched (clusterLevel me sched name) walk)
  | _ :: _, walk => some (.errPackMismatch, walk)

/-- The definition of the system.  A scheduler section with an invalid name ends `init_routes` with
the return code of the successful read. -/
def readDefinition (me : Process) (ndat : List Orcm.Item) (routes : Routes) : Option (Rc × Routes) :=
  match ndat with
  | [] => some (.errUnpackReadPastEndOfBuffer, routes)
  | .buffer [] :: _ => none
  | .buffer (.name schedName :: _) :: items =>
    if schedName.isPresent = false then some (.success, routes)
    else if me.procType = .tool then some (.success, { routes with parent := schedName })
    else
      (initRows me (schedLevel me schedName) items ⟨routes.parent, []⟩).map fun (rc, walk) =>
        (rc, ⟨walk.parent, routes.children ++ walk.added.reverse⟩)
  | .buffer (_ :: _) :: _ => some (.errPackMismatch, routes)
  | _ :: _ => some (.errPackMismatch, routes)

/-- `init_routes`. -/
def initRoutes (me : Process) (job : ℕ) (ndat : Option (List Orcm.Item)) (routes : Routes) :
    Option (Rc × Routes) :=
  match ndat with
  | none => some (.success, routes)
  | some ndat =>
    if job ≠ me.name.jobid then some (.success, routes) else readDefinition me ndat routes

/-! ## 4. `get_route` -/

/-- The loop over the children: the target itself if it is a child, or the child it is below. -/
def searchChildren (me : Process) (target : ProcName) : List RoutedTree → Option ProcName
  | [] => none
  | child :: children =>
    if child.vpid = target.vpid then some target
    else if child.relatives.isSetBit (int32 target.vpid) then some ⟨me.name.jobid, child.vpid⟩
    else searchChildren me target children

/-- `get_route`. -/
def getRoute (me : Process) (routes : Routes) (target : ProcName) : ProcName :=
  if me.procType = .tool then if target.jobid = 0 then me.scheduler else target
  else if me.routingIsEnabled = false then target
  else if target = me.name then target
  else if target.jobid ≠ me.name.jobid ∧ me.procType = .scheduler then target
  else if me.procType = .daemon then ⟨me.name.jobid, routes.parent.vpid⟩
  else (searchChildren me target routes.children).getD ⟨me.name.jobid, routes.parent.vpid⟩

end Sensys.Orte.Routed
