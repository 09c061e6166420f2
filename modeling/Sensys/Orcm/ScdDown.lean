/-
# Nodes that go down

A `DOWN` message names a daemon.  `orcm_util_get_dependents` searches the clusters, their rows and
their racks for a controller of that name and returns everything below it; without one, or with
nothing below it, the list is the daemon itself.  `update_nodestate_byproc` then looks every name up
in the pool of the scheduler, which holds the nodes of the racks and no controllers.

The search stops at the FIRST controller with the name, and the first node with a name is the one
that is set.  Both are exact when names are distinct; a controller that is not there has the name
`absent`, and so do all others that are not there.

* `nodeDown_takes_subtree`: the nodes that go down are the daemon and what is below it.
-/
import Sensys.Orcm.Scd

namespace Sensys.Orcm.Scd

open List

/-! ## 1. What is below a controller -/

section Tree

variable {α : Type}

/-- The controllers of the clusters, the rows and the racks. -/
def controllers (clusters : List (Cluster α)) : List α :=
  clusters.flatMap fun cluster => cluster.controller ::
    cluster.rows.flatMap fun row => row.controller :: row.racks.map Rack.controller

/-- **The node `x` lies below the controller `d`**: it is in a rack, and `d` controls the rack, its row
or its cluster. -/
def Below (clusters : List (Cluster α)) (d x : α) : Prop :=
  ∃ cluster ∈ clusters, ∃ row ∈ cluster.rows, ∃ rack ∈ row.racks, x ∈ rack.nodes ∧
    (d = cluster.controller ∨ d = row.controller ∨ d = rack.controller)

/-- The controllers, each with what the search returns for it. -/
def controlled (clusters : List (Cluster α)) : List (α × List α) :=
  clusters.flatMap fun cluster => (cluster.controller, cluster.below) ::
    cluster.rows.flatMap fun row => (row.controller, row.below) ::
      row.racks.map fun rack => (rack.controller, rack.nodes)

/-- The compute nodes. -/
def computeNodes (clusters : List (Cluster α)) : List α :=
  clusters.flatMap fun cluster => cluster.rows.flatMap fun row => row.racks.flatMap Rack.nodes

variable {clusters : List (Cluster α)} {absent d x : α}

theorem mem_controllers : d ∈ controllers clusters ↔ ∃ cluster ∈ clusters,
    d = cluster.controller ∨ ∃ row ∈ cluster.rows,
      d = row.controller ∨ ∃ rack ∈ row.racks, rack.controller = d := by
  simp only [controllers, mem_flatMap, mem_cons, mem_map]

theorem map_fst_controlled (clusters : List (Cluster α)) :
    (controlled clusters).map Prod.fst = controllers clusters := by
  simp only [controlled, controllers, map_flatMap, map_cons, map_map]
  rfl

variable [DecidableEq α]

instance (clusters : List (Cluster α)) (d x : α) : Decidable (Below clusters d x) := by
  unfold Below
  infer_instance

/-- The daemons that are there have distinct names, and the compute nodes are there. -/
structure DistinctDaemons (absent : α) (clusters : List (Cluster α)) : Prop where
  present : absent ∉ computeNodes clusters
  nodup : ((controllers clusters ++ computeNodes clusters).filter (· != absent)).Nodup

theorem lookup_cons_eq (d a : α) (below : List α) (entries : List (α × List α)) :
    ((a, below) :: entries).lookup d = if a = d then some below else entries.lookup d := by
  rw [lookup_cons, BEq.comm]
  cases h : a == d <;> simp_all

theorem dependentsInRacks_eq (d : α) : ∀ racks : List (Rack α),
    dependentsInRacks d racks = (racks.map fun rack => (rack.controller, rack.nodes)).lookup d
  | [] => rfl
  | rack :: racks => by
    rw [dependentsInRacks, dependentsInRacks_eq d racks, map_cons, lookup_cons_eq]

theorem dependentsInRows_eq (d : α) : ∀ rows : List (Row α),
    dependentsInRows d rows = (rows.flatMap fun row => (row.controller, row.below) ::
      row.racks.map fun rack => (rack.controller, rack.nodes)).lookup d
  | [] => rfl
  | row :: rows => by
    rw [dependentsInRows, dependentsInRows_eq d rows, dependentsInRacks_eq, flatMap_cons,
      cons_append, lookup_cons_eq, lookup_append]

/-- **The search is a lookup** among the controllers. -/
theorem getDependents_eq (d : α) : ∀ clusters : List (Cluster α),
    getDependents d clusters = (controlled clusters).lookup d
  | [] => rfl
  | cluster :: clusters => by
    have ih := getDependents_eq d clusters
    rw [controlled] at ih ⊢
    rw [getDependents, ih, dependentsInRows_eq, flatMap_cons, cons_append, lookup_cons_eq,
      lookup_append]

section

variable (h : DistinctDaemons absent clusters)
include h

/-- A compute node is no controller. -/
theorem DistinctDaemons.notMem_controllers (hx : x ∈ computeNodes clusters) :
    x ∉ controllers clusters := by
  intro hcontroller
  have hne : (x != absent) = true := by simpa using fun heq : x = absent => h.present (heq ▸ hx)
  have hnodup := h.nodup
  rw [filter_append, nodup_append] at hnodup
  exact hnodup.2.2 x (mem_filter.mpr ⟨hcontroller, hne⟩) x (mem_filter.mpr ⟨hx, hne⟩) rfl

/-- **The entries that have a node are those of the controllers above it.**  An entry also has the
controllers in between, which no compute node is called like. -/
theorem DistinctDaemons.below_iff (hx : x ∈ computeNodes clusters) :
    Below clusters d x ↔ ∃ below, (d, below) ∈ controlled clusters ∧ x ∈ below := by
  have hnot : ∀ cluster ∈ clusters, ∀ row ∈ cluster.rows, x ≠ row.controller ∧
      ∀ rack ∈ row.racks, rack.controller ≠ x := by
    have hcontrollers := h.notMem_controllers hx
    rw [mem_controllers] at hcontrollers
    push Not at hcontrollers
    exact fun cluster hcluster => (hcontrollers cluster hcluster).2
  have hnodes : ∀ cluster ∈ clusters, ∀ row ∈ cluster.rows, x ∈ row.below →
      ∃ rack ∈ row.racks, x ∈ rack.nodes := by
    intro cluster hcluster row hrow hmem
    obtain ⟨rack, hrack, hmem⟩ := mem_flatMap.mp hmem
    have hrack' := ((hnot cluster hcluster row hrow).2 rack hrack).symm
    exact ⟨rack, hrack, (mem_cons.mp hmem).resolve_left hrack'⟩
  constructor
  · rintro ⟨cluster, hcluster, row, hrow, rack, hrack, hx, rfl | rfl | rfl⟩
    · refine ⟨cluster.below, mem_flatMap.mpr ⟨cluster, hcluster, mem_cons_self⟩, ?_⟩
      refine mem_flatMap.mpr ⟨row, hrow, mem_cons_of_mem _ (mem_flatMap.mpr ⟨rack, hrack, ?_⟩)⟩
      exact mem_cons_of_mem _ hx
    · refine ⟨row.below, mem_flatMap.mpr ⟨cluster, hcluster, mem_cons_of_mem _ ?_⟩, ?_⟩
      · exact mem_flatMap.mpr ⟨row, hrow, mem_cons_self⟩
      · exact mem_flatMap.mpr ⟨rack, hrack, mem_cons_of_mem _ hx⟩
    · refine ⟨rack.nodes, mem_flatMap.mpr ⟨cluster, hcluster, mem_cons_of_mem _ ?_⟩, hx⟩
      exact mem_flatMap.mpr ⟨row, hrow, mem_cons_of_mem _ (mem_map.mpr ⟨rack, hrack, rfl⟩)⟩
  · rintro ⟨below, hentry, hmem⟩
    obtain ⟨cluster, hcluster, hentry⟩ := mem_flatMap.mp hentry
    rcases mem_cons.mp hentry with hentry | hentry
    · cases hentry
      obtain ⟨row, hrow, hmem⟩ := mem_flatMap.mp hmem
      have hmem := (mem_cons.mp hmem).resolve_left (hnot cluster hcluster row hrow).1
      obtain ⟨rack, hrack, hmem⟩ := hnodes cluster hcluster row hrow hmem
      exact ⟨cluster, hcluster, row, hrow, rack, hrack, hmem, .inl rfl⟩
    · obtain ⟨row, hrow, hentry⟩ := mem_flatMap.mp hentry
      rcases mem_cons.mp hentry with hentry | hentry
      · cases hentry
        obtain ⟨rack, hrack, hmem⟩ := hnodes cluster hcluster row hrow hmem
        exact ⟨cluster, hcluster, row, hrow, rack, hrack, hmem, .inr (.inl rfl)⟩
      · obtain ⟨rack, hrack, hentry⟩ := mem_map.mp hentry
        cases hentry
        exact ⟨cluster, hcluster, row, hrow, rack, hrack, hmem, .inr (.inr rfl)⟩

/-- **The entry that is found is the only one**, since the names are distinct. -/
theorem DistinctDaemons.below_iff_mem (hx : x ∈ computeNodes clusters) (hd : d ≠ absent)
    {below : List α} (hfound : getDependents d clusters = some below) :
    (Below clusters d x ↔ x ∈ below) ∧ x ≠ d := by
  rw [getDependents_eq, lookup_eq_some_iff] at hfound
  obtain ⟨before, after, heq, -⟩ := hfound
  have hother : d ∉ before.map Prod.fst ++ (after.map Prod.fst ++ computeNodes clusters) := by
    have hnodup := h.nodup
    rw [← map_fst_controlled, heq, map_append, map_cons, List.append_assoc, cons_append,
      (perm_middle.filter _).nodup_iff, filter_cons_of_pos (by simpa using hd), nodup_cons]
      at hnodup
    exact fun hmem => hnodup.1 (mem_filter.mpr ⟨hmem, by simpa using hd⟩)
  simp only [mem_append, not_or] at hother
  refine ⟨?_, fun hxd => hother.2.2 (hxd ▸ hx)⟩
  rw [h.below_iff hx, heq]
  constructor
  · rintro ⟨below', hentry, hmem⟩
    rcases mem_append.mp hentry with hbefore | hentry
    · exact absurd (mem_map_of_mem hbefore) hother.1
    · rcases mem_cons.mp hentry with hsame | hafter
      · cases hsame
        exact hmem
      · exact absurd (mem_map_of_mem hafter) hother.2.1
  · exact fun hmem => ⟨below, mem_append_right _ mem_cons_self, hmem⟩

end

end Tree

/-! ## 2. The pool -/

/-- The daemons of the pool. -/
def poolDaemons (nodes : List (Option Node)) : List ProcName :=
  nodes.filterMap (Option.map Node.daemon)

/-- The nodes with these daemons go down. -/
def takeDown (down : ProcName → Bool) (nodes : List (Option Node)) : List (Option Node) :=
  nodes.map (Option.map fun node => if down node.daemon then { node with state := .down } else node)

variable (down : ProcName → Bool)

theorem takeDown_cons (node : Node) (nodes : List (Option Node)) :
    takeDown down (some node :: nodes) =
      some (if down node.daemon then { node with state := .down } else node) ::
        takeDown down nodes := rfl

theorem takeDown_of_forall {down} : ∀ {nodes},
    (∀ name ∈ poolDaemons nodes, down name = false) → takeDown down nodes = nodes
  | [], _ => rfl
  | none :: nodes, h => congrArg (none :: ·) (takeDown_of_forall h)
  | some node :: nodes, h => by
    obtain ⟨hnode, hnodes⟩ := forall_mem_cons.mp h
    rw [takeDown_cons, takeDown_of_forall hnodes, if_neg (by simp [hnode])]

/-- With distinct daemons the first node with a name is the only one. -/
theorem updateFirst_down (name : ProcName) : ∀ {nodes},
    (poolDaemons nodes).Nodup →
    (updateFirst (fun node => decide (node.daemon = name)) (setNodeState .down .down) nodes).2 =
      takeDown (· == name) nodes
  | [], _ => rfl
  | none :: nodes, h => congrArg (none :: ·) (updateFirst_down name h)
  | some node :: nodes, h => by
    obtain ⟨hnew, hnodes⟩ := nodup_cons.mp h
    by_cases heq : node.daemon = name
    · have hrest : takeDown (· == name) nodes = nodes := by
        refine takeDown_of_forall fun other hother => ?_
        simpa [← heq] using fun h : other = node.daemon => hnew (h ▸ hother)
      rw [takeDown_cons, hrest]
      simp [updateFirst, heq, setNodeState]
    · rw [takeDown_cons, ← updateFirst_down name hnodes]
      simp [updateFirst, heq]

theorem poolDaemons_takeDown (nodes : List (Option Node)) :
    poolDaemons (takeDown down nodes) = poolDaemons nodes := by
  rw [poolDaemons, takeDown, filterMap_map]
  congr 1
  funext node
  cases node with
  | none => rfl
  | some node =>
    simp only [Function.comp_apply, Option.map_some]
    split <;> rfl

/-- **The names are taken down**, all of them and no others. -/
theorem updateEach_down : ∀ names {nodes} found,
    (poolDaemons nodes).Nodup →
    (updateEach (fun name node => decide (node.daemon = name)) (setNodeState .down .down) names
      (found, nodes)).2 = takeDown names.contains nodes
  | [], nodes, _, _ => (takeDown_of_forall fun _ _ => rfl).symm
  | name :: names, nodes, found, h => by
    rw [updateEach]
    dsimp only
    rw [updateFirst_down name h, updateEach_down names _ (by rwa [poolDaemons_takeDown]), takeDown,
      takeDown, takeDown, map_map]
    refine map_congr_left fun node _ => ?_
    cases node with
    | none => rfl
    | some node =>
      by_cases heq : node.daemon = name
      · by_cases hmem : name ∈ names <;> simp [heq, hmem]
      · simp [heq]

/-! ## 3. The message -/

section Message

variable {clusters : List (Cluster ProcName)} {absent d name : ProcName}
  (h : DistinctDaemons absent clusters)

include h

theorem DistinctDaemons.nodup_computeNodes : (computeNodes clusters).Nodup := by
  have hnodes := (nodup_append.mp (filter_append .. ▸ h.nodup)).2.1
  rwa [filter_eq_self.mpr fun name hname => by
    simpa using fun heq : name = absent => h.present (heq ▸ hname)] at hnodes

/-- Among the compute nodes, the list has the daemon and what is below it. -/
theorem DistinctDaemons.contains_downNodes (hd : d ≠ absent) (hname : name ∈ computeNodes clusters) :
    (downNodes d clusters).contains name = true ↔ name = d ∨ Below clusters d name := by
  rw [downNodes]
  cases hfound : getDependents d clusters with
  | none =>
    rw [getDependents_eq, lookup_eq_none_iff] at hfound
    have hnone : ¬ Below clusters d name := by
      rw [h.below_iff hname]
      rintro ⟨below, hentry, -⟩
      simpa using hfound _ hentry
    simp [hnone]
  | some below =>
    obtain ⟨hbelow, hne⟩ := h.below_iff_mem hname hd hfound
    rw [hbelow]
    cases below <;> simp [hne]

end Message

/-- **A `DOWN` message takes down exactly the subtree**: the nodes of the pool that are the daemon
itself or below it, and nothing else changes. -/
theorem nodeDown_takes_subtree (absent : ProcName) (st : State) (d : ProcName) (hd : d ≠ absent)
    (hdistinct : DistinctDaemons absent st.clusters)
    (hpool : (poolDaemons st.nodes).Perm (computeNodes st.clusters)) :
    react st (.nodeDown d) = some { st with nodes := st.nodes.map (Option.map fun node =>
        if node.daemon = d ∨ Below st.clusters d node.daemon then { node with state := .down }
        else node) } := by
  have hnodup : (poolDaemons st.nodes).Nodup := hpool.nodup_iff.mpr hdistinct.nodup_computeNodes
  rw [react, updateNodestateByproc]
  rw [updateEach_down _ _ hnodup, takeDown]
  congr 2
  refine map_congr_left fun node hnode => ?_
  cases node with
  | none => rfl
  | some node =>
    have hname := hpool.subset (mem_filterMap.mpr ⟨_, hnode, rfl⟩)
    simp only [Option.map_some, hdistinct.contains_downNodes hd hname]

/-- A row with two racks, of which the second has no controller, and a row without a controller. -/
def twoRows : State :=
  { start [some (newNode [] ⟨0, 4⟩), some (newNode [] ⟨0, 5⟩), some (newNode [] ⟨0, 6⟩),
      some (newNode [] ⟨0, 8⟩)] with
    clusters := [⟨⟨0, 1⟩, [⟨⟨0, 2⟩, [⟨⟨0, 3⟩, [⟨0, 4⟩, ⟨0, 5⟩]⟩, ⟨⟨0, 0⟩, [⟨0, 6⟩]⟩]⟩,
      ⟨⟨0, 0⟩, [⟨⟨0, 7⟩, [⟨0, 8⟩]⟩]⟩]⟩] }

/-- The states of the nodes after a `DOWN` message. -/
def statesAfter (d : ProcName) : Option (List (Option NodeState)) :=
  (react twoRows (.nodeDown d)).map fun st => st.nodes.map (Option.map Node.state)

/-- The controllers of a rack, of a row and of the cluster go down, and a node. -/
theorem nodeDown_takes_row :
    statesAfter ⟨0, 3⟩ = some [some .down, some .down, some .unknown, some .unknown] ∧
    statesAfter ⟨0, 2⟩ = some [some .down, some .down, some .down, some .unknown] ∧
    statesAfter ⟨0, 1⟩ = some [some .down, some .down, some .down, some .down] ∧
    statesAfter ⟨0, 6⟩ = some [some .unknown, some .unknown, some .down, some .unknown] := by
  have hdistinct : DistinctDaemons ⟨0, 0⟩ twoRows.clusters := ⟨by decide, by decide⟩
  have hpool : (poolDaemons twoRows.nodes).Perm (computeNodes twoRows.clusters) := by decide
  refine ⟨?_, ?_, ?_, ?_⟩ <;>
    rw [statesAfter, nodeDown_takes_subtree ⟨0, 0⟩ twoRows _ (by decide) hdistinct hpool] <;> decide

end Sensys.Orcm.Scd
