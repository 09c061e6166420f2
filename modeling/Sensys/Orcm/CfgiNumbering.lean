/-
# The numbers of the daemons

`define_system` threads one counter through four nested loops.  This file flattens them: the
`places` of a cluster are its controllers and nodes in the order of the walk, and naming a cluster
is naming its places one after the other (`nameEach_clusterPlaces`).  What is left is one loop over
a list, whose numbers are the next ones, modulo `2 ^ 32` (`given_nameEach`).

So the numbering is right, `Numbered`, exactly for the systems whose numbers fit `orte_vpid_t`
(`numbered_iff`).  With `2 ^ 32` daemons the counter is back at 0 and `num_procs` with it.
-/
import Sensys.Orcm.Cfgi
import Mathlib.Data.List.Range
import Mathlib.Data.List.Nodup
import Mathlib.Data.List.Perm.Subperm

namespace Sensys.Orcm

open List

/-! ## 1. The places of a system -/

/-- A place for a daemon: a controller may be absent, a node is always there. -/
inductive Place (α : Type) where
  | controller (a : α)
  | node (a : α)

/-- What is at a place. -/
def Place.val {α : Type} : Place α → α
  | .controller a => a
  | .node a => a

/-- There is a daemon at this place. -/
def Place.occupied : Place NodeState → Bool
  | .controller state => state != .undef
  | .node _ => true

section Places

variable {α : Type}

/-- The places of a rack, in the order of the walk. -/
def Rack.places (rack : Rack α) : List (Place α) :=
  .controller rack.controller :: rack.nodes.map .node

/-- The places of a row. -/
def Row.places (row : Row α) : List (Place α) :=
  .controller row.controller :: row.racks.flatMap Rack.places

/-- The places of a cluster. -/
def Cluster.places (cluster : Cluster α) : List (Place α) :=
  .controller cluster.controller :: cluster.rows.flatMap Row.places

end Places

/-- The name for a place. -/
def namePlace (vpid : ℕ) : Place NodeState → Place ProcName × ℕ
  | .controller state => (.controller (nameController vpid state).1, (nameController vpid state).2)
  | .node state => (.node (nameDaemon vpid state).1, (nameDaemon vpid state).2)

/-! ## 2. The nested loops are one loop -/

section Flat

variable {α β γ δ : Type}

theorem nameEach_append (name : ℕ → α → β × ℕ) : ∀ as bs vpid,
    nameEach name vpid (as ++ bs)
      = ((nameEach name vpid as).1 ++ (nameEach name (nameEach name vpid as).2 bs).1,
          (nameEach name (nameEach name vpid as).2 bs).2)
  | [], _, _ => rfl
  | a :: as, bs, vpid => by
    simp only [cons_append, nameEach, nameEach_append name as bs]

/-- A loop whose body is a loop over the places of each member. -/
theorem nameEach_flatMap {name place} {places : α → List γ} {named : β → List δ}
    (h : ∀ vpid a, nameEach place vpid (places a) = (named (name vpid a).1, (name vpid a).2)) :
    ∀ vpid as, nameEach place vpid (as.flatMap places)
      = ((nameEach name vpid as).1.flatMap named, (nameEach name vpid as).2)
  | _, [] => rfl
  | vpid, a :: as => by
    rw [flatMap_cons, nameEach_append, h, nameEach_flatMap h]
    simp only [nameEach, flatMap_cons]

end Flat

theorem nameEach_nodes : ∀ vpid nodes,
    nameEach namePlace vpid (nodes.map .node)
      = ((nameEach nameDaemon vpid nodes).1.map .node, (nameEach nameDaemon vpid nodes).2)
  | _, [] => rfl
  | vpid, node :: nodes => by
    simp only [map_cons, nameEach, namePlace, nameDaemon, nameEach_nodes (nextVpid vpid) nodes]

variable (vpid : ℕ)

theorem nameEach_rackPlaces (rack : Rack NodeState) : nameEach namePlace vpid rack.places
      = ((nameRack vpid rack).1.places, (nameRack vpid rack).2) := by
  simp only [Rack.places, nameRack, nameEach, namePlace, nameEach_nodes]

theorem nameEach_rowPlaces (row : Row NodeState) :
    nameEach namePlace vpid row.places = ((nameRow vpid row).1.places, (nameRow vpid row).2) := by
  simp only [Row.places, nameRow, nameEach, namePlace, nameEach_flatMap nameEach_rackPlaces]

/-- **Naming a cluster is naming its places.** -/
theorem nameEach_clusterPlaces (cluster : Cluster NodeState) :
    nameEach namePlace vpid cluster.places
      = ((nameCluster vpid cluster).1.places, (nameCluster vpid cluster).2) := by
  simp only [Cluster.places, nameCluster, nameEach, namePlace, nameEach_flatMap nameEach_rowPlaces]

/-! ## 3. The numbers one loop gives -/

/-- `n` values of the counter, from `vpid` on. -/
def counted (vpid n : ℕ) : List ℕ := (List.range' vpid n).map (· % 2 ^ 32)

theorem counted_append (vpid m n : ℕ) :
    counted vpid m ++ counted (vpid + m) n = counted vpid (m + n) := by
  simp only [counted, ← map_append, range'_append_1]

theorem counted_mod (vpid n : ℕ) : counted (vpid % 2 ^ 32) n = counted vpid n := by
  simp only [counted, range'_eq_map_range, map_map]
  exact map_congr_left fun i _ => Nat.mod_add_mod vpid _ i

theorem counted_eq {vpid n} (h : vpid + n ≤ 2 ^ 32) : counted vpid n = List.range' vpid n := by
  refine (map_congr_left fun v hv => ?_).trans (map_id _)
  have hlt := (mem_range'_1.mp hv).2
  exact Nat.mod_eq_of_lt (by omega)

@[simp] theorem length_counted (vpid n) : (counted vpid n).length = n := by
  simp [counted]

/-- The vpids of the occupied places. -/
def given (places : List (Place NodeState)) (names : List (Place ProcName)) : List ℕ :=
  ((places.zip names).filter fun place => place.1.occupied).map fun place => place.2.val.vpid

/-- The names at the places that are not occupied. -/
def absent (places : List (Place NodeState)) (names : List (Place ProcName)) : List ProcName :=
  ((places.zip names).filter fun place => !place.1.occupied).map fun place => place.2.val

theorem namePlace_of_occupied {place} (h : place.occupied = true) (vpid : ℕ) :
    (namePlace vpid place).1.val.vpid = vpid ∧ (namePlace vpid place).2 = nextVpid vpid := by
  cases place with
  | controller state =>
    have hstate : state ≠ .undef := by simpa [Place.occupied] using h
    simp [namePlace, nameController, hstate, Place.val, nameDaemon]
  | node state => exact ⟨rfl, rfl⟩

theorem namePlace_of_not_occupied {place} (h : place.occupied = false) (vpid : ℕ) :
    (namePlace vpid place).1.val = nameInvalid ∧ (namePlace vpid place).2 = vpid := by
  cases place with
  | controller state =>
    have hstate : state = .undef := by simpa [Place.occupied] using h
    simp [namePlace, nameController, hstate, Place.val]
  | node state => cases h

/-- **One loop gives the next numbers**, in order, to the occupied places. -/
theorem given_nameEach : ∀ places vpid, vpid < 2 ^ 32 →
    given places (nameEach namePlace vpid places).1 = counted vpid (places.countP Place.occupied) ∧
      (nameEach namePlace vpid places).2 = (vpid + places.countP Place.occupied) % 2 ^ 32
  | [], vpid, h => ⟨rfl, (Nat.mod_eq_of_lt h).symm⟩
  | place :: places, vpid, h => by
    cases hplace : place.occupied with
    | false =>
      obtain ⟨-, hnext⟩ := namePlace_of_not_occupied hplace vpid
      have hrest := given_nameEach places vpid h
      simpa only [given, nameEach, hnext, zip_cons_cons, filter_cons, hplace,
        countP_cons, Bool.false_eq_true, if_false, Nat.add_zero] using hrest
    | true =>
      obtain ⟨hvpid, hnext⟩ := namePlace_of_occupied hplace vpid
      obtain ⟨hgiven, hlast⟩ := given_nameEach places (nextVpid vpid)
        (Nat.mod_lt _ (by decide))
      simp only [given, nameEach, hnext, zip_cons_cons, filter_cons, hplace,
        countP_cons, if_true, map_cons, hvpid] at hgiven hlast ⊢
      rw [hgiven, hlast, nextVpid, counted_mod, Nat.mod_add_mod]
      refine ⟨?_, by rw [Nat.add_comm (places.countP _), Nat.add_assoc]⟩
      have hone : counted vpid 1 = [vpid] := counted_eq h
      rw [Nat.add_comm (places.countP _) 1, ← counted_append, hone, singleton_append]

theorem absent_nameEach : ∀ places vpid,
    ∀ name ∈ absent places (nameEach namePlace vpid places).1, name = nameInvalid
  | [], _, _, hname => by cases hname
  | place :: places, vpid, name, hname => by
    have hrest := absent_nameEach places (namePlace vpid place).2 name
    cases hplace : place.occupied with
    | false =>
      obtain ⟨hval, -⟩ := namePlace_of_not_occupied hplace vpid
      simp only [absent, nameEach, zip_cons_cons, filter_cons, hplace, Bool.not_false,
        if_true, map_cons, hval, mem_cons] at hname
      exact hname.elim id hrest
    | true =>
      simp only [absent, nameEach, zip_cons_cons, filter_cons, hplace, Bool.not_true,
        Bool.false_eq_true, if_false] at hname
      exact hrest hname

/-- The schedulers take the leading numbers. -/
theorem nameEach_schedulers {α : Type} : ∀ (schedulers : List α) (vpid : ℕ), vpid < 2 ^ 32 →
    (nameEach nameDaemon vpid schedulers).1.map ProcName.vpid = counted vpid schedulers.length ∧
      (nameEach nameDaemon vpid schedulers).2 = (vpid + schedulers.length) % 2 ^ 32
  | [], vpid, h => ⟨rfl, (Nat.mod_eq_of_lt h).symm⟩
  | scheduler :: schedulers, vpid, h => by
    obtain ⟨hnames, hlast⟩ := nameEach_schedulers schedulers (nextVpid vpid)
      (Nat.mod_lt _ (by decide))
    have hone : counted vpid 1 = [vpid] := counted_eq h
    simp only [nameEach, nameDaemon, map_cons, length_cons, hnames, hlast]
    rw [nextVpid, counted_mod, Nat.mod_add_mod, Nat.add_comm schedulers.length 1, ← counted_append,
      hone, singleton_append, Nat.add_assoc]
    exact ⟨rfl, rfl⟩

/-! ## 4. The whole system -/

/-- The places of all clusters. -/
def places {α : Type} (clusters : List (Cluster α)) : List (Place α) :=
  clusters.flatMap Cluster.places

/-- The vpids `define_system` gives: to the schedulers, the controllers that are there, and the
nodes. -/
def vpids (schedulers : ℕ) (clusters : List (Cluster NodeState)) : List ℕ :=
  (defineSystem schedulers clusters).schedulers.map ProcName.vpid
    ++ given (places clusters) (places (defineSystem schedulers clusters).clusters)

/-- The first number. -/
def firstVpid (schedulers : ℕ) : ℕ := if schedulers = 0 then 1 else 0

/-- The number of daemons of a system. -/
def daemonCount (schedulers : ℕ) (clusters : List (Cluster NodeState)) : ℕ :=
  schedulers + (places clusters).countP Place.occupied

/-- **The daemons are numbered without gaps or clashes.** -/
structure Numbered (schedulers : ℕ) (clusters : List (Cluster NodeState)) : Prop where
  distinct : (vpids schedulers clusters).Nodup
  all : ∀ vpid, vpid ∈ vpids schedulers clusters ↔
    firstVpid schedulers ≤ vpid ∧ vpid < (defineSystem schedulers clusters).numProcs
  invalid : ∀ name ∈ absent (places clusters) (places (defineSystem schedulers clusters).clusters),
    name = nameInvalid

theorem length_schedulers (n : ℕ) : ∀ vpid : ℕ,
    (nameEach nameDaemon vpid (List.replicate n ())).1.length = n := by
  induction n with
  | zero => exact fun _ => rfl
  | succ n ih => exact fun vpid => congrArg (· + 1) (ih (nextVpid vpid))

/-- The clusters are named from the number after the schedulers on. -/
theorem defineSystem_clusters (schedulers : ℕ) (clusters : List (Cluster NodeState)) :
    ∃ vpid < 2 ^ 32, vpid = (firstVpid schedulers + schedulers) % 2 ^ 32 ∧
      places (defineSystem schedulers clusters).clusters
        = (nameEach namePlace vpid (places clusters)).1 ∧
      (defineSystem schedulers clusters).numProcs
        = (nameEach namePlace vpid (places clusters)).2 := by
  refine ⟨_, Nat.mod_lt _ (by decide), rfl, ?_⟩
  simp only [places, nameEach_flatMap nameEach_clusterPlaces]
  have hstart : (if (nameEach nameDaemon 0 (List.replicate schedulers ())).1.length = 0 then 1
      else (nameEach nameDaemon 0 (List.replicate schedulers ())).2)
        = (firstVpid schedulers + schedulers) % 2 ^ 32 := by
    have hlast := (nameEach_schedulers (List.replicate schedulers ()) 0 (by decide)).2
    rw [length_schedulers, hlast, length_replicate, firstVpid]
    by_cases hzero : schedulers = 0
    · simp [hzero]
    · simp [hzero]
  simp only [defineSystem, hstart, and_self]

/-- **What is given out, for every system**: as many numbers as there are daemons, from the first
one on, and `num_procs` is the number after them, all of it modulo `2 ^ 32`. -/
theorem vpids_eq (schedulers clusters) : vpids schedulers clusters
        = counted (firstVpid schedulers) (daemonCount schedulers clusters) ∧
      (defineSystem schedulers clusters).numProcs
        = (firstVpid schedulers + daemonCount schedulers clusters) % 2 ^ 32 := by
  obtain ⟨vpid, hlt, hvpid, hclusters, hnum⟩ := defineSystem_clusters schedulers clusters
  obtain ⟨hgiven, hlast⟩ := given_nameEach (places clusters) vpid hlt
  have hscheds : (defineSystem schedulers clusters).schedulers.map ProcName.vpid
      = counted (firstVpid schedulers) schedulers := by
    have hnames := (nameEach_schedulers (List.replicate schedulers ()) 0 (by decide)).1
    rw [length_replicate] at hnames
    refine hnames.trans ?_
    by_cases hzero : schedulers = 0
    · rw [hzero]
      rfl
    · rw [firstVpid, if_neg hzero]
  constructor
  · rw [vpids, hscheds, hclusters, hgiven, hvpid, counted_mod, counted_append, daemonCount]
  · rw [hnum, hlast, hvpid, Nat.mod_add_mod, Nat.add_assoc, daemonCount]

variable {clusters : List (Cluster NodeState)}

theorem numbered_of_lt {schedulers}
    (h : firstVpid schedulers + daemonCount schedulers clusters < 2 ^ 32) :
    Numbered schedulers clusters := by
  obtain ⟨hvpids, hnum⟩ := vpids_eq schedulers clusters
  rw [counted_eq h.le] at hvpids
  rw [Nat.mod_eq_of_lt h] at hnum
  refine ⟨?_, fun vpid => ?_, ?_⟩
  · rw [hvpids]
    exact nodup_range'
  · rw [hvpids, hnum, mem_range'_1]
  · obtain ⟨vpid, -, -, hclusters, -⟩ := defineSystem_clusters schedulers clusters
    rw [hclusters]
    exact absent_nameEach _ vpid

/-- There are no more different numbers below `num_procs` than there are values of the counter. -/
theorem lt_of_numbered {schedulers} (h : Numbered schedulers clusters) :
    firstVpid schedulers + daemonCount schedulers clusters < 2 ^ 32 := by
  obtain ⟨hvpids, hnum⟩ := vpids_eq schedulers clusters
  have hsub : vpids schedulers clusters ⊆ List.range' (firstVpid schedulers)
      ((defineSystem schedulers clusters).numProcs - firstVpid schedulers) := by
    intro vpid hmem
    have hbounds := (h.all vpid).mp hmem
    exact mem_range'_1.mpr ⟨hbounds.1, by omega⟩
  have hlen := (subperm_of_subset h.distinct hsub).length_le
  rw [hvpids, length_counted, length_range'] at hlen
  have hfirst : firstVpid schedulers ≤ 1 := by
    rw [firstVpid]
    split <;> omega
  omega

/-- **The numbering is right exactly when the numbers fit**: the first number and the number of
daemons together stay below `2 ^ 32`. -/
theorem numbered_iff (schedulers : ℕ) (clusters : List (Cluster NodeState)) :
    Numbered schedulers clusters ↔
      firstVpid schedulers + daemonCount schedulers clusters < 2 ^ 32 :=
  ⟨lt_of_numbered, numbered_of_lt⟩

/-- One rack without controllers, with `n` nodes. -/
def oneRack (n : ℕ) : List (Cluster NodeState) :=
  [⟨.undef, [⟨.undef, [⟨.undef, List.replicate n .up⟩]⟩]⟩]

theorem daemonCount_oneRack (schedulers n : ℕ) :
    daemonCount schedulers (oneRack n) = schedulers + n := by
  simp [daemonCount, places, oneRack, Cluster.places, Row.places, Rack.places, Place.occupied,
    countP_replicate]

/-- **With one daemon too many the counter comes back to 0**: a scheduler and `2 ^ 32 - 1` nodes. -/
theorem full_rack_not_numbered : ¬ Numbered 1 (oneRack (2 ^ 32 - 1)) := by
  intro h
  have hlt := lt_of_numbered h
  rw [daemonCount_oneRack] at hlt
  omega

end Sensys.Orcm
