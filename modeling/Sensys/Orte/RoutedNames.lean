/-
# The daemons of a system

What `define_system` names, for one scheduler and one cluster: the scheduler is daemon 0, and the
vpids of the cluster's daemons are the numbers from 1 on, in preorder (`nameCluster_consecutive`).  So
the daemons are the labels of one tree, all different, with the scheduler as its root
(`systemTree`).

The counts of rows and racks are packed as `int32_t`, and the bitmaps of the routing module count
bits in `int`.  `Fits` says that the definition is small enough for both.
-/
import Sensys.Orte.RoutedWalk
import Mathlib.Data.List.Range

namespace Sensys.Orte.Routed

open Opal Orcm List

/-! ## 1. How many daemons there are -/

/-- A controller counts if it is there. -/
def controllerSize (state : NodeState) : ℕ := if state ≠ .undef then 1 else 0

/-- The daemons of a rack. -/
def rackSize (rack : Orcm.Rack NodeState) : ℕ := controllerSize rack.controller + rack.nodes.length

/-- The daemons of a row. -/
def rowSize (row : Row NodeState) : ℕ :=
  controllerSize row.controller + (row.racks.map rackSize).sum

/-- The daemons of a cluster. -/
def clusterSize (cluster : Cluster NodeState) : ℕ :=
  controllerSize cluster.controller + (cluster.rows.map rowSize).sum

/-- **The definition fits the types it is packed with.** -/
structure Fits (cluster : Cluster NodeState) : Prop extends Counted cluster where
  size : clusterSize cluster + 1 ≤ Bitmap.sizeLimit

/-! ## 2. The vpids -/

/-- Naming `a` from `vpid` on gives the next numbers to the labels of its forest. -/
structure Consecutive {α β : Type} (name : ℕ → α → β × ℕ) (forest : β → Forest ℕ) (size : α → ℕ)
    (vpid : ℕ) (a : α) : Prop where
  next : (name vpid a).2 = vpid + size a
  labels : (forest (name vpid a).1).labels = List.range' vpid (size a)

/-- The forest of a node. -/
def leaf (name : ProcName) : Forest ℕ := .cons name.vpid .nil .nil

theorem leaves_eq : ∀ names : List ProcName, leaves names = forestOf leaf names
  | [] => rfl
  | name :: names => congrArg (Forest.cons name.vpid .nil) (leaves_eq names)

/-- The numbers that are names of daemons. -/
def vpidLimit : ℕ := 2 ^ 32 - 1

variable {vpid job : ℕ} {cluster : Cluster ProcName} {name : ProcName}

theorem isPresent_of_lt (h : vpid < vpidLimit) : ProcName.isPresent ⟨0, vpid⟩ = true := by
  simp only [vpidLimit] at h
  simp [ProcName.isPresent, nameInvalid]
  omega

theorem nextVpid_eq (h : vpid < vpidLimit) : nextVpid vpid = vpid + 1 := by
  simp only [vpidLimit] at h
  exact Nat.mod_eq_of_lt (by omega)

/-- A loop of `define_system`. -/
theorem nameEach_consecutive {α β : Type} {name} {forest : β → Forest ℕ} {size} :
    ∀ (as : List α) (vpid : ℕ), (∀ a ∈ as, ∀ vpid, vpid + size a ≤ vpidLimit →
        Consecutive name forest size vpid a) → vpid + (as.map size).sum ≤ vpidLimit →
      Consecutive (nameEach name) (forestOf forest) (fun as => (as.map size).sum) vpid as
  | [], vpid, _, _ => ⟨rfl, rfl⟩
  | a :: as, vpid, h, hle => by
    rw [map_cons, sum_cons] at hle
    have hone := h a mem_cons_self vpid (by omega)
    have hrest := nameEach_consecutive as (vpid + size a)
      (fun b hb => h b (mem_cons_of_mem _ hb)) (by omega)
    constructor
    · simp only [nameEach, hone.next, hrest.next, map_cons, sum_cons]
      omega
    · simp only [nameEach, hone.next, forestOf, Forest.labels_append, hone.labels, hrest.labels,
        map_cons, sum_cons, range'_append_1]

theorem nameDaemon_consecutive (node : NodeState) {vpid} (h : vpid + 1 ≤ vpidLimit) :
    Consecutive nameDaemon leaf (fun _ => 1) vpid node :=
  ⟨nextVpid_eq h, rfl⟩

/-- The controller takes the first number, if it is there. -/
theorem nameController_eq (vpid : ℕ) (state : NodeState)
    (hle : vpid + controllerSize state ≤ vpidLimit) :
    (nameController vpid state).2 = vpid + controllerSize state ∧
      ∀ forest, (controlled (nameController vpid state).1 forest).labels
        = List.range' vpid (controllerSize state) ++ forest.labels := by
  rw [nameController]
  by_cases hstate : state ≠ .undef
  · rw [controllerSize, if_pos hstate] at hle ⊢
    have hpresent : ProcName.isPresent ⟨0, vpid⟩ = true := isPresent_of_lt (by omega)
    rw [if_pos hstate]
    refine ⟨nextVpid_eq (by omega), fun forest => ?_⟩
    simp [nameDaemon, controlled, hpresent, Forest.labels]
  · rw [controllerSize, if_neg hstate] at hle ⊢
    rw [if_neg hstate]
    refine ⟨rfl, fun forest => ?_⟩
    simp [controlled, ProcName.isPresent]

/-- A controller and then its members. -/
theorem Consecutive.controlled {α β : Type} {name} {forest : β → Forest ℕ} {size state} {a : α}
    (hle : vpid + controllerSize state ≤ vpidLimit)
    (h : Consecutive name forest size (vpid + controllerSize state) a) :
    (name (nameController vpid state).2 a).2 = vpid + (controllerSize state + size a) ∧
      (controlled (nameController vpid state).1
        (forest (name (nameController vpid state).2 a).1)).labels
        = List.range' vpid (controllerSize state + size a) := by
  obtain ⟨hnext, hlabels⟩ := nameController_eq vpid state hle
  rw [hnext, h.next, hlabels, h.labels, range'_append_1]
  exact ⟨Nat.add_assoc _ _ _, rfl⟩

theorem nameRack_consecutive (rack : Orcm.Rack NodeState) (vpid : ℕ)
    (hle : vpid + rackSize rack ≤ vpidLimit) :
    Consecutive nameRack rackForest rackSize vpid rack := by
  have hlength : (rack.nodes.map fun _ => 1).sum = rack.nodes.length := by simp
  rw [rackSize] at hle
  have hnodes := nameEach_consecutive rack.nodes (vpid + controllerSize rack.controller)
    (fun node _ _ => nameDaemon_consecutive node) (by omega)
  obtain ⟨hnext, hlabels⟩ := hnodes.controlled (by omega)
  rw [hlength] at hnext hlabels
  rw [← leaves_eq] at hlabels
  exact ⟨hnext, hlabels⟩

theorem nameRow_consecutive (row : Row NodeState) (vpid : ℕ)
    (hle : vpid + rowSize row ≤ vpidLimit) : Consecutive nameRow rowForest rowSize vpid row := by
  rw [rowSize] at hle
  have hracks := nameEach_consecutive row.racks (vpid + controllerSize row.controller)
    (fun rack _ => nameRack_consecutive rack) (by omega)
  obtain ⟨hnext, hlabels⟩ := hracks.controlled (by omega)
  exact ⟨hnext, hlabels⟩

/-- **The vpids of a cluster are consecutive, in preorder.** -/
theorem nameCluster_consecutive (cluster : Cluster NodeState) (vpid : ℕ)
    (hle : vpid + clusterSize cluster ≤ vpidLimit) :
    Consecutive nameCluster clusterForest clusterSize vpid cluster := by
  rw [clusterSize] at hle
  have hrows := nameEach_consecutive cluster.rows (vpid + controllerSize cluster.controller)
    (fun row _ => nameRow_consecutive row) (by omega)
  obtain ⟨hnext, hlabels⟩ := hrows.controlled (by omega)
  exact ⟨hnext, hlabels⟩

/-! ## 3. The names belong to job 0 -/

theorem nameController_jobid (vpid state) :
    (nameController vpid state).1.isPresent = true → (nameController vpid state).1.jobid = 0 := by
  rw [nameController]
  split
  · exact fun _ => rfl
  · intro h
    simp [ProcName.isPresent] at h

/-- What the members of a list have in common, whatever their numbers, the loop keeps. -/
theorem nameEach_all {α β : Type} {name} {P : β → Prop} :
    ∀ (as : List α) (vpid : ℕ), (∀ a ∈ as, ∀ vpid, P (name vpid a).1) →
      ∀ b ∈ (nameEach name vpid as).1, P b
  | [], _, _, b, hb => by cases hb
  | a :: as, vpid, h, b, hb => by
    rcases mem_cons.mp hb with rfl | hb
    · exact h a mem_cons_self vpid
    · exact nameEach_all as _ (fun c hc => h c (mem_cons_of_mem _ hc)) b hb

theorem length_nameEach {α β : Type} (name : ℕ → α → β × ℕ) :
    ∀ as vpid, (nameEach name vpid as).1.length = as.length
  | [], _ => rfl
  | _ :: as, _ => congrArg (· + 1) (length_nameEach name as _)

theorem nameRow_of (vpid : ℕ) (row : Row NodeState) : RowOf 0 (nameRow vpid row).1 :=
  ⟨nameController_jobid vpid row.controller,
    nameEach_all row.racks _ fun rack _ vpid =>
      ⟨nameController_jobid vpid rack.controller, nameEach_all rack.nodes _ fun _ _ _ => rfl⟩⟩

theorem nameCluster_of (vpid : ℕ) (cluster : Cluster NodeState) :
    ClusterOf 0 (nameCluster vpid cluster).1 :=
  ⟨nameController_jobid vpid cluster.controller,
    nameEach_all cluster.rows _ fun row _ vpid => nameRow_of vpid row⟩

theorem Counted.named {cluster} (h : Counted cluster) (vpid : ℕ) :
    Counted (nameCluster vpid cluster).1 := by
  refine ⟨(length_nameEach nameRow cluster.rows _).trans_lt h.rows, ?_⟩
  exact nameEach_all cluster.rows _ fun row hmem vpid =>
    (length_nameEach nameRack row.racks _).trans_lt (h.racks row hmem)

/-! ## 4. The daemons -/

/-- A controller that is there; all of them are aggregators. -/
def controllerDaemon (name : ProcName) : List (ProcName × ProcType) :=
  if name.isPresent then [(name, .aggregator)] else []

/-- The daemons of a rack, with their types. -/
def rackDaemons (rack : Orcm.Rack ProcName) : List (ProcName × ProcType) :=
  controllerDaemon rack.controller ++ rack.nodes.map fun name => (name, .daemon)

/-- The daemons of a row. -/
def rowDaemons (row : Row ProcName) : List (ProcName × ProcType) :=
  controllerDaemon row.controller ++ row.racks.flatMap rackDaemons

/-- The daemons of a cluster. -/
def clusterDaemons (cluster : Cluster ProcName) : List (ProcName × ProcType) :=
  controllerDaemon cluster.controller ++ cluster.rows.flatMap rowDaemons

/-- The daemons of a system. -/
def daemons (system : SystemDefinition) : List (ProcName × ProcType) :=
  system.schedulers.map (fun name => (name, .scheduler)) ++
    system.clusters.flatMap clusterDaemons

/-- The names of the labels of a forest. -/
def named (job : ℕ) (forest : Forest ℕ) : List ProcName :=
  forest.labels.map fun vpid => ⟨job, vpid⟩

theorem named_leaf (h : name.jobid = job) (below : Forest ℕ) :
    named job (.cons name.vpid below .nil) = name :: named job below := by
  have hname : (⟨job, name.vpid⟩ : ProcName) = name := ProcName.eq_iff.mpr ⟨h.symm, rfl⟩
  simp [named, Forest.labels, hname]

theorem named_controlled (h : name.isPresent = true → name.jobid = job) (forest : Forest ℕ) :
    named job (controlled name forest)
      = (controllerDaemon name).map Prod.fst ++ named job forest := by
  rw [controlled, controllerDaemon]
  cases hp : name.isPresent with
  | false => simp
  | true => simp [named_leaf (h hp)]

theorem named_forestOf {α : Type} {forest} {daemonsOf : α → List (ProcName × ProcType)} :
    ∀ as : List α,
      (∀ a ∈ as, named job (forest a) = (daemonsOf a).map Prod.fst) →
      named job (forestOf forest as) = (as.flatMap daemonsOf).map Prod.fst
  | [], _ => rfl
  | a :: as, h => by
    have hone := h a mem_cons_self
    have hrest := named_forestOf as fun b hb => h b (mem_cons_of_mem _ hb)
    rw [named] at hone hrest ⊢
    simp [forestOf, Forest.labels_append, hone, hrest]

theorem named_rackForest {rack} (h : RackOf job rack) :
    named job (rackForest rack) = (rackDaemons rack).map Prod.fst := by
  have hnodes : named job (forestOf leaf rack.nodes)
      = (rack.nodes.flatMap fun name => [(name, ProcType.daemon)]).map Prod.fst :=
    named_forestOf rack.nodes fun name hmem => named_leaf (h.nodes name hmem) .nil
  rw [rackForest, named_controlled h.controller, leaves_eq, hnodes, rackDaemons, map_append,
    ← map_eq_flatMap]

theorem named_rowForest {row} (h : RowOf job row) :
    named job (rowForest row) = (rowDaemons row).map Prod.fst := by
  rw [rowForest, named_controlled h.controller,
    named_forestOf row.racks fun rack hmem => named_rackForest (h.racks rack hmem), rowDaemons,
    map_append]

/-- **The daemons of a cluster are the labels of its forest.** -/
theorem named_clusterForest (h : ClusterOf job cluster) :
    named job (clusterForest cluster) = (clusterDaemons cluster).map Prod.fst := by
  rw [clusterForest, named_controlled h.controller,
    named_forestOf cluster.rows fun row hmem => named_rowForest (h.rows row hmem),
    clusterDaemons, map_append]

theorem leaf_controlled {forest} (h : Forest.Leaf vpid forest) (name : ProcName) :
    Forest.Leaf vpid (controlled name forest) := by
  rw [controlled]
  split
  · exact .down _ h
  · exact h

theorem leaf_forestOf {α : Type} {forest a} :
    ∀ {as : List α}, a ∈ as → Forest.Leaf vpid (forest a) → Forest.Leaf vpid (forestOf forest as)
  | b :: as, hmem, h => by
    rcases mem_cons.mp hmem with rfl | hmem
    · exact h.append_left _
    · exact (leaf_forestOf hmem h).append_right _

variable {daemon : ProcName × ProcType}

theorem type_of_mem_controllerDaemon (h : daemon ∈ controllerDaemon name) :
    daemon.2 = .aggregator := by
  rw [controllerDaemon] at h
  split at h
  · rw [List.mem_singleton] at h
    rw [h]
  · cases h

/-- Below the scheduler there are aggregators and nodes, and the nodes are the leaves. -/
theorem type_of_mem_clusterDaemons (h : daemon ∈ clusterDaemons cluster) : daemon.2 = .aggregator ∨
      daemon.2 = .daemon ∧ Forest.Leaf daemon.1.vpid (clusterForest cluster) := by
  rcases mem_append.mp h with hcontroller | hrows
  · exact .inl (type_of_mem_controllerDaemon hcontroller)
  · obtain ⟨row, hrow, hmem⟩ := mem_flatMap.mp hrows
    rcases mem_append.mp hmem with hcontroller | hracks
    · exact .inl (type_of_mem_controllerDaemon hcontroller)
    · obtain ⟨rack, hrack, hmem⟩ := mem_flatMap.mp hracks
      rcases mem_append.mp hmem with hcontroller | hnodes
      · exact .inl (type_of_mem_controllerDaemon hcontroller)
      · obtain ⟨name, hname, rfl⟩ := mem_map.mp hnodes
        have hleaf : Forest.Leaf name.vpid (leaves rack.nodes) := by
          rw [leaves_eq]
          exact leaf_forestOf hname (.here _)
        exact .inr ⟨rfl, leaf_controlled (leaf_forestOf hrow
          (leaf_controlled (leaf_forestOf hrack (leaf_controlled hleaf _)) _)) _⟩

end Sensys.Orte.Routed
