/-
# Nodes and clusters

The data types of `orcm/mca/cfgi/cfgi_types.h` and `orcm/mca/scd/scd_types.h` that the scheduler
and the configuration share: nodes with their two states, and the tree of a cluster, its rows,
racks and nodes.  The tree is generic in what it holds for each daemon.

`orcm_util_get_dependents` is here because it reads nothing but the tree.
-/
import Sensys.Lib.CString

namespace Sensys.Orcm

/-- `orte_process_name_t`. -/
structure ProcName where
  jobid : ℕ
  vpid : ℕ
  deriving DecidableEq, Repr

theorem ProcName.eq_iff {a b : ProcName} : a = b ↔ a.jobid = b.jobid ∧ a.vpid = b.vpid := by
  cases a
  cases b
  simp

/-- `orcm_node_state_t`. -/
inductive NodeState where
  | undef | unknown | up | down | sesterm | drain | resume
  deriving DecidableEq, Repr

/-- `orcm_scd_node_state_t`. -/
inductive ScdNodeState where
  | undef | unknown | unalloc | alloc | exclusive
  deriving DecidableEq, Repr

/-- `orcm_node_t`, with the fields the scheduler reads. -/
structure Node where
  name : Str
  daemon : ProcName
  state : NodeState
  scdState : ScdNodeState
  deriving DecidableEq, Repr

/-- `orcm_rack_t`. -/
structure Rack (α : Type) where
  controller : α
  nodes : List α
  deriving DecidableEq, Repr

/-- `orcm_row_t`. -/
structure Row (α : Type) where
  controller : α
  racks : List (Rack α)
  deriving DecidableEq, Repr

/-- `orcm_cluster_t`. -/
structure Cluster (α : Type) where
  controller : α
  rows : List (Row α)
  deriving DecidableEq, Repr

section Dependents

variable {α : Type}

/-- Everything below the controller of a row. -/
def Row.below (row : Row α) : List α := row.racks.flatMap fun rack => rack.controller :: rack.nodes

/-- Everything below the controller of a cluster. -/
def Cluster.below (cluster : Cluster α) : List α :=
  cluster.rows.flatMap fun row => row.controller :: row.below

variable [DecidableEq α]

/-- The search among the racks of a row. -/
def dependentsInRacks (root : α) : List (Rack α) → Option (List α)
  | [] => none
  | rack :: racks =>
    if rack.controller = root then some rack.nodes else dependentsInRacks root racks

/-- The search among the rows of a cluster. -/
def dependentsInRows (root : α) : List (Row α) → Option (List α)
  | [] => none
  | row :: rows =>
    if row.controller = root then some row.below
    else (dependentsInRacks root row.racks).or (dependentsInRows root rows)

/-- `orcm_util_get_dependents`: what hangs below the controller `root`; `none` for
`ORCM_ERR_NOT_FOUND`. -/
def getDependents (root : α) : List (Cluster α) → Option (List α)
  | [] => none
  | cluster :: clusters =>
    if cluster.controller = root then some cluster.below
    else (dependentsInRows root cluster.rows).or (getDependents root clusters)

end Dependents

end Sensys.Orcm
