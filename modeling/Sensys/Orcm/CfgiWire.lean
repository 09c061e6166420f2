/-
# Configuration objects on the wire

The functions of `orcm/mca/cfgi/base/cfgi_dt_fns.c` that pack and unpack nodes, racks, rows,
clusters and schedulers, with all the fields that they pack.  A `char **` that ends with `NULL` is
the list of its strings, and the empty list if it is `NULL` itself.

Four of the five pairs are lossless.  In `orcm_unpack_scheduler` the loop that creates the objects
ends before anything is unpacked, so that only the last object is filled, with what was packed for
the first one.

* `objects_survive_iff`: a list of objects comes back if and only if it is not a list of
  schedulers, or has exactly one.
* `two_schedulers_do_not_survive`: two schedulers, of which one comes back, in the wrong place.
-/
import Mathlib.Data.UInt
import Sensys.Opal.DssFormat

namespace Sensys.Orcm.CfgiWire

open Opal Opal.Dss Failing List Buffer

/-! ## 1. Objects -/

/-- `orcm_config_t`. -/
structure Config where
  mcaParams : List (List UInt8)
  env : List (List UInt8)
  port : CharPtr
  aggregator : Bool
  deriving DecidableEq, Repr

/-- `orcm_node_t`, with the fields that are packed. -/
structure Node where
  name : CharPtr
  daemon : ProcessName
  config : Config
  state : Int8
  scdState : Int8
  deriving DecidableEq

/-- `orcm_rack_t`. -/
structure Rack where
  name : CharPtr
  controller : Node
  nodes : List Node
  deriving DecidableEq

/-- `orcm_row_t`. -/
structure Row where
  name : CharPtr
  controller : Node
  racks : List Rack
  deriving DecidableEq

/-- `orcm_cluster_t`. -/
structure Cluster where
  name : CharPtr
  controller : Node
  rows : List Row
  deriving DecidableEq

/-- `orcm_scheduler_t`. -/
structure Scheduler where
  controller : Node
  queues : List (List UInt8)
  deriving DecidableEq

/-- The constructor of a node. -/
def Node.new : Node := ⟨none, ⟨2 ^ 32 - 1, 2 ^ 32 - 1⟩, ⟨[], [], none, false⟩, 0, 0⟩

/-- The constructor of a scheduler. -/
def Scheduler.new : Scheduler := ⟨Node.new, []⟩

/-! ## 2. Packing and unpacking -/

/-- `pack_config`. -/
def packConfig (config : Config) : Dss Unit := do
  packArgv config.mcaParams
  packArgv config.env
  packOne string config.port
  packOne bool config.aggregator

/-- `unpack_config`. -/
def unpackConfig : Dss Config := do
  let mcaParams ← unpackArgv
  let env ← unpackArgv
  let port ← unpackOne string
  let aggregator ← unpackOne bool
  pure ⟨mcaParams, env, port, aggregator⟩

/-- One round of `orcm_pack_node`. -/
def packNode (node : Node) : Dss Unit := do
  packOne string node.name
  packOne name node.daemon
  packConfig node.config
  packOne int8 node.state
  packOne int8 node.scdState

/-- One round of `orcm_unpack_node`. -/
def unpackNode : Dss Node := do
  let name ← unpackOne string
  let daemon ← unpackOne Dss.name
  let config ← unpackConfig
  let state ← unpackOne int8
  let scdState ← unpackOne int8
  pure ⟨name, daemon, config, state, scdState⟩

/-- `ORCM_NODE`, with `orcm_pack_node` and `orcm_unpack_node`. -/
def node : TypeInfo Node := objects 152 packNode unpackNode

/-- A name, a controller and the members below: a rack, a row or a cluster. -/
def packGroup {α : Type} (info : TypeInfo α) (name : CharPtr) (controller : Node)
    (members : List α) : Dss Unit := do
  packOne string name
  packOne node controller
  packCounted (packOne info) members

/-- They are unpacked. -/
def unpackGroup {α β : Type} (info : TypeInfo α) (mk : CharPtr → Node → List α → β) : Dss β := do
  let name ← unpackOne string
  let controller ← unpackOne node
  let members ← unpackCounted (unpackOne info)
  pure (mk name controller members)

/-- `ORCM_RACK`, with `orcm_pack_rack` and `orcm_unpack_rack`. -/
def rack : TypeInfo Rack :=
  objects 153 (fun rack => packGroup node rack.name rack.controller rack.nodes)
    (unpackGroup node Rack.mk)

/-- `ORCM_ROW`, with `orcm_pack_row` and `orcm_unpack_row`. -/
def row : TypeInfo Row :=
  objects 154 (fun row => packGroup rack row.name row.controller row.racks)
    (unpackGroup rack Row.mk)

/-- `ORCM_CLUSTER`, with `orcm_pack_cluster` and `orcm_unpack_cluster`. -/
def cluster : TypeInfo Cluster :=
  objects 155 (fun cluster => packGroup row cluster.name cluster.controller cluster.rows)
    (unpackGroup row Cluster.mk)

/-- One round of `orcm_pack_scheduler`. -/
def packScheduler (scheduler : Scheduler) : Dss Unit := do
  packOne node scheduler.controller
  packArgv scheduler.queues

/-- What `orcm_unpack_scheduler` unpacks. -/
def unpackOneScheduler : Dss Scheduler := do
  let controller ← unpackOne node
  let queues ← unpackArgv
  pure ⟨controller, queues⟩

/-- `orcm_unpack_scheduler`: all objects are created, and the last one is filled. -/
def unpackScheduler (numVals : ℤ) : Dss (List Scheduler) :=
  if 0 < numVals then do
    let scheduler ← unpackOneScheduler
    pure (List.replicate (numVals.toNat - 1) Scheduler.new ++ [scheduler])
  else throw (.rc .errOutOfResource)

/-- `ORCM_SCHEDULER`. -/
def scheduler : TypeInfo Scheduler :=
  ⟨156, fun src => src.forM packScheduler, unpackScheduler⟩

/-! ## 3. Objects that fit -/

/-- Strings and lists whose lengths fit into an `int32_t`. -/
def ArgvFits (argv : List (List UInt8)) : Prop :=
  argv.length < 2 ^ 31 ∧ ∀ s ∈ argv, StrFits s

/-- The strings of a configuration fit. -/
structure Config.Fits (config : Config) : Prop where
  mcaParams : ArgvFits config.mcaParams
  env : ArgvFits config.env
  port : config.port.Ok

/-- The strings of a node fit. -/
structure Node.Fits (node : Node) : Prop where
  name : node.name.Ok
  config : node.config.Fits

/-- A name, a controller and members that fit. -/
structure GroupFits {α : Type} (Fits : α → Prop) (name : CharPtr) (controller : Node)
    (members : List α) : Prop where
  name : name.Ok
  controller : controller.Fits
  count : members.length < 2 ^ 31
  members : ∀ a ∈ members, Fits a

/-- Everything in a rack fits. -/
def Rack.Fits (rack : Rack) : Prop := GroupFits Node.Fits rack.name rack.controller rack.nodes

/-- Everything in a row fits. -/
def Row.Fits (row : Row) : Prop := GroupFits Rack.Fits row.name row.controller row.racks

/-- Everything in a cluster fits. -/
def Cluster.Fits (cluster : Cluster) : Prop :=
  GroupFits Row.Fits cluster.name cluster.controller cluster.rows

/-- Everything in a scheduler fits. -/
structure Scheduler.Fits (scheduler : Scheduler) : Prop where
  controller : scheduler.controller.Fits
  queues : ArgvFits scheduler.queues

/-! ## 4. Round trips -/

variable (type : BufferType)

theorem lossless_config {config} (h : config.Fits) :
    Lossless type (packConfig config) unpackConfig config := by
  refine (lossless_packArgv type h.mcaParams.1 h.mcaParams.2).bind ?_
  refine (lossless_packArgv type h.env.1 h.env.2).bind ?_
  refine (stringFormat.lossless_one type h.port).bind ?_
  exact (boolFormat.lossless_one type trivial).bind_pure rfl

theorem lossless_node {node} (h : node.Fits) : Lossless type (packNode node) unpackNode node := by
  refine (stringFormat.lossless_one type h.name).bind ?_
  refine (nameFormat.lossless_one type trivial).bind ?_
  refine (lossless_config type h.config).bind ?_
  refine (int8Format.lossless_one type trivial).bind ?_
  exact (int8Format.lossless_one type trivial).bind_pure rfl

/-- The format of nodes. -/
noncomputable def nodeFormat : Format node :=
  objectFormat 152 packNode unpackNode Node.Fits fun type _ h => lossless_node type h

theorem lossless_group {α β : Type} {info} (f : Format info) {name controller members}
    (h : GroupFits f.Ok name controller members) (type : BufferType)
    (mk : CharPtr → Node → List α → β) :
    Lossless type (packGroup info name controller members) (unpackGroup info mk)
      (mk name controller members) := by
  refine (stringFormat.lossless_one type h.name).bind ?_
  refine (nodeFormat.lossless_one type h.controller).bind ?_
  exact (lossless_packCounted h.count fun a ha => f.lossless_one type (h.members a ha)).bind_pure rfl

/-- The format of racks. -/
noncomputable def rackFormat : Format rack :=
  objectFormat 153 _ _ Rack.Fits fun type _ h => lossless_group nodeFormat h type Rack.mk

/-- The format of rows. -/
noncomputable def rowFormat : Format row :=
  objectFormat 154 _ _ Row.Fits fun type _ h => lossless_group rackFormat h type Row.mk

/-- The format of clusters. -/
noncomputable def clusterFormat : Format cluster :=
  objectFormat 155 _ _ Cluster.Fits fun type _ h => lossless_group rowFormat h type Cluster.mk

/-! ## 5. Schedulers -/

/-- A scheduler takes at least one byte. -/
theorem exists_writes_scheduler {scheduler} (h : scheduler.Fits) :
    ∃ bytes, bytes ≠ [] ∧ Writes type (packScheduler scheduler) bytes ∧
      Reads type unpackOneScheduler bytes scheduler := by
  have hlossless : Lossless type (packScheduler scheduler) unpackOneScheduler scheduler := by
    refine (nodeFormat.lossless_one type h.controller).bind ?_
    exact (lossless_packArgv type h.queues.1 h.queues.2).bind_pure rfl
  refine hlossless.nonempty ?_
  have hempty : (unpackOneScheduler (construct type)).1 =
      .error (.rc .errUnpackReadPastEndOfBuffer) := by
    cases type <;> decide +kernel
  rw [hempty]
  exact fun hne => by cases hne

theorem exists_writes_schedulers : ∀ schedulers : List Scheduler,
    (∀ s ∈ schedulers, s.Fits) → ∃ bytes, (bytes = [] ↔ schedulers = []) ∧
      Writes type (schedulers.forM packScheduler) bytes
  | [], _ => ⟨[], by simp, writes_pure⟩
  | scheduler :: schedulers, h => by
    obtain ⟨s, hs, hw, -⟩ := exists_writes_scheduler type (h scheduler mem_cons_self)
    obtain ⟨t, -, hw'⟩ := exists_writes_schedulers schedulers
      fun s hs => h s (mem_cons_of_mem scheduler hs)
    exact ⟨s ++ t, by simp [hs], hw.bind hw'⟩

/-- **Only a single scheduler comes back.**  For more of them the pointer stays behind the first
one, and without any the call fails. -/
theorem schedulers_survive_iff (type : BufferType) (schedulers : List Scheduler)
    (h : ∀ s ∈ schedulers, s.Fits) : (∃ b, scheduler.packFn schedulers (construct type) =
      (.error (.rc .errOutOfResource), b)) ∨
    ∃ b, scheduler.packFn schedulers (construct type) = (.ok (), b) ∧
      (scheduler.unpackFn schedulers.length b =
        (.ok schedulers, { b with unpackPtr := b.bytesUsed }) ↔ schedulers.length = 1) := by
  rcases schedulers with _ | ⟨first, rest⟩
  · refine .inr ⟨construct type, rfl, fun hok => ?_, fun hone => absurd hone (by decide)⟩
    cases hok
  · obtain ⟨s, -, hw, hr⟩ := exists_writes_scheduler type (h first mem_cons_self)
    obtain ⟨t, ht, hw'⟩ := exists_writes_schedulers type rest
      fun s hs => h s (mem_cons_of_mem first hs)
    have hwrites : Writes type (scheduler.packFn (first :: rest)) (s ++ t) := hw.bind hw'
    rcases hwrites _ (wf_construct type) rfl with ⟨n, hrun, hwf⟩ | ⟨b, hrun, -⟩
    · refine .inr ⟨_, hrun, ?_⟩
      have hread : scheduler.unpackFn (first :: rest).length
          ((construct type).extend (s ++ t) n) =
          (.ok (List.replicate rest.length Scheduler.new ++ [first]),
            ((construct type).extend (s ++ t) n).advance s.length) := by
        have hpos : 0 < ((first :: rest).length : ℤ) := by
          rw [length_cons]
          omega
        have hcall : Reads type (unpackScheduler (first :: rest).length) s
            (List.replicate rest.length Scheduler.new ++ [first]) := by
          rw [unpackScheduler, if_pos hpos]
          exact hr.bind_pure rfl
        exact hcall _ hwf rfl t rfl
      rw [hread]
      constructor
      · -- the pointer is behind the first scheduler, so nothing was packed after it
        intro hsame
        have hptr : (0 : ℤ) + s.length = (0 + (s ++ t).length : ℕ) :=
          congrArg (fun x => x.2.unpackPtr) hsame
        rw [length_append] at hptr
        rw [ht.mp (eq_nil_of_length_eq_zero (by omega)), length_singleton]
      · intro hone
        have hnil : rest = [] := eq_nil_of_length_eq_zero (by
          simpa using hone)
        have hempty := ht.mpr hnil
        subst hnil hempty
        simp [advance, extend, construct]
    · exact .inl ⟨b, hrun⟩

/-! ## 6. All objects -/

/-- The kinds of objects. -/
inductive Kind where
  | node | rack | row | cluster | scheduler
  deriving DecidableEq, Repr

/-- The objects of a kind. -/
abbrev Kind.Obj : Kind → Type
  | node => Node
  | rack => Rack
  | row => Row
  | cluster => Cluster
  | scheduler => Scheduler

/-- The registered functions. -/
def Kind.info : (k : Kind) → TypeInfo k.Obj
  | node => CfgiWire.node
  | rack => CfgiWire.rack
  | row => CfgiWire.row
  | cluster => CfgiWire.cluster
  | scheduler => CfgiWire.scheduler

/-- The lengths of strings and lists fit into an `int32_t`. -/
def Kind.Fits : (k : Kind) → k.Obj → Prop
  | node => Node.Fits
  | rack => Rack.Fits
  | row => Row.Fits
  | cluster => Cluster.Fits
  | scheduler => Scheduler.Fits

/-- Objects with a format survive. -/
theorem Format.round_trip {α : Type} {info} (f : Format info) (type : BufferType) {src : List α}
    (hlen : src.length < 2 ^ 31) (h : ∀ a ∈ src, f.Ok a) {P : Prop} (hP : P) :
    (∃ b, info.packFn src (construct type) = (.error (.rc .errOutOfResource), b)) ∨
    ∃ b, info.packFn src (construct type) = (.ok (), b) ∧
      (info.unpackFn src.length b = (.ok src, { b with unpackPtr := b.bytesUsed }) ↔ P) := by
  have hlossless : Lossless type (info.packFn src) (info.unpackFn src.length) src :=
    ⟨_, f.writes type src hlen h, f.reads type src hlen h⟩
  rcases hlossless.round_trip with herror | ⟨b, hrun, hread⟩
  · exact .inl herror
  · exact .inr ⟨b, hrun, iff_of_true hread hP⟩

/-- **Configuration objects on the wire.**  Packing a list of objects succeeds, unless there is no
memory, and unpacking as many from the buffer gives the objects, with the pointer at the end, if and
only if they are not schedulers or there is exactly one. -/
theorem objects_survive_iff (type : BufferType) (k : Kind) (objs : List k.Obj)
    (hlen : objs.length < 2 ^ 31) (h : ∀ o ∈ objs, k.Fits o) :
    (∃ b, k.info.packFn objs (Buffer.construct type) = (.error (.rc .errOutOfResource), b)) ∨
    ∃ b, k.info.packFn objs (Buffer.construct type) = (.ok (), b) ∧
      (k.info.unpackFn objs.length b = (.ok objs, { b with unpackPtr := b.bytesUsed }) ↔
        (k = .scheduler → objs.length = 1)) := by
  cases k with
  | node => exact Format.round_trip nodeFormat type hlen h (fun hk => by cases hk)
  | rack => exact Format.round_trip rackFormat type hlen h (fun hk => by cases hk)
  | row => exact Format.round_trip rowFormat type hlen h (fun hk => by cases hk)
  | cluster => exact Format.round_trip clusterFormat type hlen h (fun hk => by cases hk)
  | scheduler =>
    exact (schedulers_survive_iff type objs h).imp_right fun ⟨b, hrun, hiff⟩ =>
      ⟨b, hrun, hiff.trans ⟨fun hone _ => hone, fun hone => hone rfl⟩⟩

theorem strFits_singleton {c : UInt8} (hc : c ≠ 0) : StrFits [c] :=
  ⟨fun h => hc (List.mem_singleton.mp h).symm, by simp⟩

/-- A node with a name. -/
def exampleNode (name : UInt8) : Node := { Node.new with name := charPtr [name] }

theorem fits_exampleNode {name} (hname : name ≠ 0) : (exampleNode name).Fits := by
  have hempty : ArgvFits [] := ⟨by simp, fun s hs => absurd hs not_mem_nil⟩
  exact ⟨.inr ⟨[name], rfl, strFits_singleton hname⟩, hempty, hempty, .inl rfl⟩

/-- A rack with two nodes. -/
def exampleRack (name : UInt8) : Rack :=
  ⟨charPtr [name], exampleNode 99, [exampleNode 110, exampleNode 111]⟩

theorem fits_exampleRack {name} (hname : name ≠ 0) : (exampleRack name).Fits where
  name := .inr ⟨[name], rfl, strFits_singleton hname⟩
  controller := fits_exampleNode (by decide)
  count := by simp [exampleRack]
  members := by
    simp only [exampleRack, mem_cons, not_mem_nil, or_false]
    rintro node (rfl | rfl) <;> exact fits_exampleNode (by decide)

/-- A scheduler with a name and a queue. -/
def exampleScheduler (name queue : UInt8) : Scheduler := ⟨exampleNode name, [[queue]]⟩

theorem fits_exampleScheduler {name queue} (hname : name ≠ 0) (hqueue : queue ≠ 0) :
    (exampleScheduler name queue).Fits :=
  ⟨fits_exampleNode hname, by simp [exampleScheduler],
    fun s hs => List.mem_singleton.mp hs ▸ strFits_singleton hqueue⟩

/-- Two racks are packed, and come back; so does one scheduler. -/
theorem objects_survive_iff_racks :
    (∃ b, rack.packFn [exampleRack 114, exampleRack 115] (Buffer.construct .fullyDesc) = (.ok (), b) ∧
      rack.unpackFn 2 b =
        (.ok [exampleRack 114, exampleRack 115], { b with unpackPtr := b.bytesUsed })) ∧
    ∃ b, scheduler.packFn [exampleScheduler 115 113] (Buffer.construct .fullyDesc) = (.ok (), b) ∧
      scheduler.unpackFn 1 b =
        (.ok [exampleScheduler 115 113], { b with unpackPtr := b.bytesUsed }) := by
  constructor
  · obtain ⟨b, hrun, hiff⟩ := (objects_survive_iff .fullyDesc .rack [exampleRack 114, exampleRack 115]
      (by simp) (by simp [Kind.Fits, fits_exampleRack])).resolve_left
      (not_outOfResource (by decide +kernel))
    exact ⟨b, hrun, hiff.mpr fun hk => by cases hk⟩
  · obtain ⟨b, hrun, hiff⟩ := (objects_survive_iff .fullyDesc .scheduler [exampleScheduler 115 113]
      (by simp) (by simp [Kind.Fits, fits_exampleScheduler])).resolve_left
      (not_outOfResource (by decide +kernel))
    exact ⟨b, hrun, hiff.mpr fun _ => rfl⟩

/-- **Two schedulers do not come back.**  The calls succeed, the first one is in the place of the
second, and bytes are left. -/
theorem two_schedulers_do_not_survive :
    let packed := scheduler.packFn [exampleScheduler 115 113, exampleScheduler 116 114]
      (Buffer.construct .fullyDesc)
    packed.1 = .ok () ∧
      (scheduler.unpackFn 2 packed.2).1 = .ok [Scheduler.new, exampleScheduler 115 113] ∧
      (scheduler.unpackFn 2 packed.2).2.unpackPtr < packed.2.bytesUsed := by
  decide +kernel

end Sensys.Orcm.CfgiWire
