/-
# Defining the system

The second half of `define_system` in `orcm/mca/cfgi/file30/cfgi_file30.c`: the schedulers and the
clusters have been parsed, and every daemon gets its process name.  Names are given out in the
order of the walk: the schedulers, then for each cluster its controller, and row by row the row's
controller, and rack by rack the rack's controller and its nodes.  A controller whose state is
undefined is not there and keeps the invalid name.

The names are packed as they are given out.  Here a cluster is first named (`nameCluster`) and
then packed (`packCluster`), which gives the same buffer.  A buffer is the list of the values that
were packed; the counts of rows and racks are packed as `int32_t`.

Which of the daemons a process is, the URIs, and the names of the HNP and the daemon of a process
are not part of the model.
-/
import Sensys.Constants
import Sensys.Orcm.CfgiTypes

namespace Sensys.Orcm

/-! ## 1. Process names -/

/-- `ORTE_NAME_INVALID`. -/
def nameInvalid : ProcName := ⟨2 ^ 32 - 1, 2 ^ 32 - 1⟩

/-- The test for a controller that is there. -/
def ProcName.isPresent (name : ProcName) : Bool :=
  name.jobid != nameInvalid.jobid && name.vpid != nameInvalid.vpid

/-- `++vpid`. -/
def nextVpid (vpid : ℕ) : ℕ := (vpid + 1) % 2 ^ 32

/-- A loop of `define_system` that names the members of a list. -/
def nameEach {α β : Type} (name : ℕ → α → β × ℕ) : ℕ → List α → List β × ℕ
  | vpid, [] => ([], vpid)
  | vpid, a :: as =>
    let (b, vpid) := name vpid a
    let (bs, vpid) := nameEach name vpid as
    (b :: bs, vpid)

/-- The name of a daemon that is there. -/
def nameDaemon {α : Type} (vpid : ℕ) (_ : α) : ProcName × ℕ := (⟨0, vpid⟩, nextVpid vpid)

/-- The name of a controller, by its state. -/
def nameController (vpid : ℕ) (state : NodeState) : ProcName × ℕ :=
  if state ≠ .undef then nameDaemon vpid state else (nameInvalid, vpid)

/-- The names of a rack. -/
def nameRack (vpid : ℕ) (rack : Rack NodeState) : Rack ProcName × ℕ :=
  let (controller, vpid) := nameController vpid rack.controller
  let (nodes, vpid) := nameEach nameDaemon vpid rack.nodes
  (⟨controller, nodes⟩, vpid)

/-- The names of a row. -/
def nameRow (vpid : ℕ) (row : Row NodeState) : Row ProcName × ℕ :=
  let (controller, vpid) := nameController vpid row.controller
  let (racks, vpid) := nameEach nameRack vpid row.racks
  (⟨controller, racks⟩, vpid)

/-- The names of a cluster. -/
def nameCluster (vpid : ℕ) (cluster : Cluster NodeState) : Cluster ProcName × ℕ :=
  let (controller, vpid) := nameController vpid cluster.controller
  let (rows, vpid) := nameEach nameRow vpid cluster.rows
  (⟨controller, rows⟩, vpid)

/-! ## 2. Buffers -/

/-- A packed value. -/
inductive Item where
  | name (name : ProcName)
  | int32 (n : ℤ)
  | buffer (items : List Item)

/-- The buffer of a rack. -/
def packRack (rack : Rack ProcName) : List Item := .name rack.controller :: rack.nodes.map .name

/-- The buffer of a row. -/
def packRow (row : Row ProcName) : List Item :=
  .int32 (int32 row.racks.length) :: .name row.controller ::
    row.racks.map fun rack => .buffer (packRack rack)

/-- What is packed for a cluster. -/
def packCluster (cluster : Cluster ProcName) : List Item :=
  .name cluster.controller :: .int32 (int32 cluster.rows.length) ::
    cluster.rows.map fun row => .buffer (packRow row)

/-- What `define_system` makes: the names, `num_procs`, and the cluster section of the buffer. -/
structure SystemDefinition where
  schedulers : List ProcName
  clusters : List (Cluster ProcName)
  numProcs : ℕ
  clusterbuf : List Item

/-- `define_system`, for a number of schedulers.  Without any, the vpids start at one. -/
def defineSystem (schedulers : ℕ) (clusters : List (Cluster NodeState)) : SystemDefinition :=
  let (schedulers, vpid) := nameEach nameDaemon 0 (List.replicate schedulers ())
  let vpid := if schedulers.length = 0 then 1 else vpid
  let (clusters, vpid) := nameEach nameCluster vpid clusters
  { schedulers := schedulers
    clusters := clusters
    numProcs := vpid
    clusterbuf := .buffer (schedulers.map .name) :: clusters.flatMap packCluster }

end Sensys.Orcm
