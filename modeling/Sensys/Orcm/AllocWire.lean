/-
# Allocation requests on the wire

`orcm_pack_alloc` and `orcm_unpack_alloc` of `orcm/mca/scd/base/scd_dt_fns.c`, with all the fields
of an `orcm_alloc_t`.  The fields come back whatever they are; what happens to the constraints is
what happens to attributes (`Orte/Attribute.lean`).

* `allocs_survive_iff`: allocations arrive as they were if and only if all their constraints do:
  they are marked as local and their types can be sent.
* `pointer_constraint_does_not_survive`: a constraint with a pointer is packed and then refused.
-/
import Sensys.Orte.Attribute

namespace Sensys.Orcm

open Opal Opal.Dss Orte

/-! ## 1. Allocations -/

/-- `orcm_alloc_t`. -/
structure AllocRequest (F : Type) where
  id : Int64
  priority : Int32
  account : CharPtr
  name : CharPtr
  gid : Int32
  maxNodes : Int32
  maxPes : Int32
  minNodes : Int32
  minPes : Int32
  begin : Int64
  walltime : Int64
  exclusive : Bool
  callerUid : UInt32
  callerGid : UInt32
  interactive : Bool
  originator : ProcessName
  hnp : ProcessName
  hnpname : CharPtr
  hnpuri : CharPtr
  parentName : CharPtr
  parentUri : CharPtr
  nodefile : CharPtr
  nodes : CharPtr
  queues : CharPtr
  batchfile : CharPtr
  notes : CharPtr
  constraints : List (Attribute F)
  deriving DecidableEq

section Wire

variable {F : Type}

/-- One round of `orcm_pack_alloc`. -/
def packAlloc (text : FloatText F) (alloc : AllocRequest F) : Dss Unit := do
  packOne int64 alloc.id
  packOne Dss.int32 alloc.priority
  packOne string alloc.account
  packOne string alloc.name
  packOne Dss.int32 alloc.gid
  packOne Dss.int32 alloc.maxNodes
  packOne Dss.int32 alloc.maxPes
  packOne Dss.int32 alloc.minNodes
  packOne Dss.int32 alloc.minPes
  packOne time alloc.begin
  packOne time alloc.walltime
  packOne bool alloc.exclusive
  packOne uint32 alloc.callerUid
  packOne uint32 alloc.callerGid
  packOne bool alloc.interactive
  packOne name alloc.originator
  packOne name alloc.hnp
  packOne string alloc.hnpname
  packOne string alloc.hnpuri
  packOne string alloc.parentName
  packOne string alloc.parentUri
  packOne string alloc.nodefile
  packOne string alloc.nodes
  packOne string alloc.queues
  packOne string alloc.batchfile
  packOne string alloc.notes
  packCounted (packOne (attr text)) alloc.constraints

/-- One round of `orcm_unpack_alloc`. -/
def unpackAlloc (text : FloatText F) : Dss (AllocRequest F) := do
  let id ← unpackOne int64
  let priority ← unpackOne Dss.int32
  let account ← unpackOne string
  let projectName ← unpackOne string
  let gid ← unpackOne Dss.int32
  let maxNodes ← unpackOne Dss.int32
  let maxPes ← unpackOne Dss.int32
  let minNodes ← unpackOne Dss.int32
  let minPes ← unpackOne Dss.int32
  let begin ← unpackOne time
  let walltime ← unpackOne time
  let exclusive ← unpackOne bool
  let callerUid ← unpackOne uint32
  let callerGid ← unpackOne uint32
  let interactive ← unpackOne bool
  let originator ← unpackOne name
  let hnp ← unpackOne name
  let hnpname ← unpackOne string
  let hnpuri ← unpackOne string
  let parentName ← unpackOne string
  let parentUri ← unpackOne string
  let nodefile ← unpackOne string
  let nodes ← unpackOne string
  let queues ← unpackOne string
  let batchfile ← unpackOne string
  let notes ← unpackOne string
  let constraints ← unpackCounted (unpackOne (attr text))
  pure ⟨id, priority, account, projectName, gid, maxNodes, maxPes, minNodes, minPes, begin,
    walltime, exclusive, callerUid, callerGid, interactive, originator, hnp, hnpname, hnpuri,
    parentName, parentUri, nodefile, nodes, queues, batchfile, notes, constraints⟩

/-- `ORCM_ALLOC`. -/
def alloc (text : FloatText F) : TypeInfo (AllocRequest F) :=
  objects 151 (packAlloc text) (unpackAlloc text)

/-! ## 2. What arrives -/

/-- The lengths in an allocation fit into an `int32_t`. -/
structure AllocRequest.Fits (alloc : AllocRequest F) : Prop where
  strings : ∀ s ∈ [alloc.account, alloc.name, alloc.hnpname, alloc.hnpuri, alloc.parentName,
    alloc.parentUri, alloc.nodefile, alloc.nodes, alloc.queues, alloc.batchfile, alloc.notes],
    s.Ok
  count : alloc.constraints.length < 2 ^ 31
  constraints : ∀ attr ∈ alloc.constraints, attr.data.Fits

/-- The allocation that arrives. -/
def AllocRequest.received (text : FloatText F) (alloc : AllocRequest F) :
    Option (AllocRequest F) :=
  (alloc.constraints.mapM (Attribute.received text)).map fun constraints =>
    { alloc with constraints := constraints }

/-- **What the two functions deliver.** -/
theorem delivers_alloc (type : BufferType) (text : FloatText F) {alloc} (h : alloc.Fits) :
    Delivers type (packAlloc text alloc) (unpackAlloc text) (alloc.received text) := by
  refine (int64Format.lossless_one type trivial).bind_delivers ?_
  refine (int32Format.lossless_one type trivial).bind_delivers ?_
  iterate 2 refine (stringFormat.lossless_one type (h.strings _ (by simp))).bind_delivers ?_
  iterate 5 refine (int32Format.lossless_one type trivial).bind_delivers ?_
  iterate 2 refine (timeFormat.lossless_one type trivial).bind_delivers ?_
  refine (boolFormat.lossless_one type trivial).bind_delivers ?_
  iterate 2 refine (uint32Format.lossless_one type trivial).bind_delivers ?_
  refine (boolFormat.lossless_one type trivial).bind_delivers ?_
  iterate 2 refine (nameFormat.lossless_one type trivial).bind_delivers ?_
  iterate 9 refine (stringFormat.lossless_one type (h.strings _ (by simp))).bind_delivers ?_
  exact (delivers_packCounted h.count fun attr hattr =>
    delivers_one (delivers_attribute type text (h.constraints attr hattr))).bind_pure _

theorem AllocRequest.received_eq_self_iff (text : FloatText F) (alloc : AllocRequest F) :
    alloc.received text = some alloc ↔
      ∀ attr ∈ alloc.constraints, attr.isLocal = true ∧ attr.data.Sendable text := by
  have hconstraints : alloc.received text = some alloc ↔
      alloc.constraints.mapM (Attribute.received text) = some alloc.constraints := by
    rw [AllocRequest.received, Option.map_eq_some_iff]
    constructor
    · rintro ⟨constraints, hsome, hsame⟩
      rw [hsome, ← hsame]
    · exact fun hsome => ⟨_, hsome, rfl⟩
  rw [hconstraints, mapM_eq_self_iff]
  exact forall₂_congr fun attr _ => Orte.received_eq_self_iff text attr

/-- **Allocation requests on the wire.**  Unless there is no memory, allocations are packed,
unpacked with the same count and arrive as they were, with the pointer at the end, if and only if
all their constraints are marked as local and have types that can be sent. -/
theorem allocs_survive_iff (type : BufferType) (text : FloatText F)
    (allocs : List (AllocRequest F)) (h : ∀ a ∈ allocs, a.Fits) :
    (∃ b, (alloc text).packFn allocs (Buffer.construct type) =
      (.error (.rc .errOutOfResource), b)) ∨
    ((∃ b, (alloc text).packFn allocs (Buffer.construct type) = (.ok (), b) ∧
      (alloc text).unpackFn allocs.length b = (.ok allocs, { b with unpackPtr := b.bytesUsed })) ↔
      ∀ a ∈ allocs, ∀ attr ∈ a.constraints, attr.isLocal = true ∧ attr.data.Sendable text) := by
  have hdelivers : Delivers type ((alloc text).packFn allocs)
      ((alloc text).unpackFn allocs.length) (allocs.mapM (AllocRequest.received text)) :=
    Delivers.times allocs fun a ha => delivers_alloc type text (h a ha)
  refine (hdelivers.round_trip allocs).imp_right fun hiff => hiff.trans ?_
  rw [mapM_eq_self_iff]
  exact forall₂_congr fun a _ => a.received_eq_self_iff text

end Wire

theorem strFits_zero : StrFits [48] := ⟨by decide, by decide⟩

/-- A C library that prints one number. -/
def zeroText : FloatText Unit := ⟨fun _ => [48], fun _ => (), fun _ => strFits_zero⟩

/-- An allocation without strings. -/
def exampleAlloc (constraints : List (Attribute Unit)) : AllocRequest Unit :=
  ⟨7, 1, none, none, 0, 2, 0, 1, 0, 0, 0, true, 1000, 1000, false, ⟨0, 1⟩, ⟨0, 2⟩, none, none, none,
    none, none, none, none, none, none, constraints⟩

/-- A local constraint with a number arrives. -/
theorem allocs_survive_iff_int32 : ∃ b,
    (alloc zeroText).packFn [exampleAlloc [⟨3, true, .int32 500⟩]] (Buffer.construct .fullyDesc) =
      (.ok (), b) ∧ (alloc zeroText).unpackFn 1 b = (.ok [exampleAlloc [⟨3, true, .int32 500⟩]],
      { b with unpackPtr := b.bytesUsed }) := by
  refine ((allocs_survive_iff .fullyDesc zeroText [exampleAlloc [⟨3, true, .int32 500⟩]]
    fun a ha => ?_).resolve_left (not_outOfResource (by decide +kernel))).mpr ?_
  · rw [List.mem_singleton.mp ha]
    refine ⟨fun s hs => .inl (by simpa [exampleAlloc] using hs), by simp [exampleAlloc], ?_⟩
    intro attr hattr
    rw [List.mem_singleton.mp hattr]
    trivial
  · intro a ha attr hattr
    rw [List.mem_singleton.mp ha] at hattr
    rw [List.mem_singleton.mp hattr]
    exact ⟨rfl, trivial⟩

/-- **A constraint with a pointer** is packed, and then the function that unpacks refuses its
type. -/
theorem pointer_constraint_does_not_survive :
    let packed := (alloc zeroText).packFn [exampleAlloc [⟨3, true, .ptr 4096⟩]]
      (Buffer.construct .fullyDesc)
    packed.1 = .ok () ∧ ((alloc zeroText).unpackFn 1 packed.2).1 = .error (.rc .error) := by
  decide +kernel

end Sensys.Orcm
