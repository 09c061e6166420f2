/-
# Attributes

`orte_attribute_t` on the wire: `orte_dt_pack_attr` and `orte_dt_unpack_attr` of
`orte/runtime/data_type_support`.  The data of an attribute is a union with its type beside it, so
it is an inductive type here, and `Data.other` is an attribute of a type that neither function
knows.

`Attribute.received` is what arrives: nothing for a pointer, whose type is packed but not known to
the function that unpacks, and for a type that is not known at all; otherwise the attribute, marked
as local by its constructor whatever it was before, and with a `float` as it was printed.

* `delivers_attribute`: the model of the two functions delivers just that.
* `received_eq_self_iff`: which attributes arrive as they were.
-/
import Sensys.Opal.DssFloat

namespace Sensys.Orte

open Opal Opal.Dss Failing

/-! ## 1. Attributes -/

/-- The types of the `switch` statements. -/
def attributeTypes : List UInt8 :=
  [1, 2, 3, 4, 5, 6, 7, 8, 9, 10, 11, 12, 13, 14, 15, 16, 18, 20, 28, 51, 52]

/-- `type` and `data` of an attribute. -/
inductive Data (F : Type) where
  | flag (v : Bool)
  | byte (v : UInt8)
  | string (v : CharPtr)
  | size (v : UInt64)
  | pid (v : Int32)
  | integer (v : Int32)
  | int8 (v : Int8)
  | int16 (v : Int16)
  | int32 (v : Int32)
  | int64 (v : Int64)
  | uint (v : UInt32)
  | uint8 (v : UInt8)
  | uint16 (v : UInt16)
  | uint32 (v : UInt32)
  | uint64 (v : UInt64)
  | bo (v : ByteObject)
  | fval (v : F)
  | tv (v : Timeval)
  | ptr (v : UInt64)
  | vpid (v : UInt32)
  | jobid (v : UInt32)
  | other (type : UInt8) (unknown : attributeTypes.contains type = false)
  deriving DecidableEq

/-- `orte_attribute_t`. -/
structure Attribute (F : Type) where
  key : UInt16
  isLocal : Bool
  data : Data F
  deriving DecidableEq

section Wire

variable {F : Type}

/-- `type`. -/
def Data.type : Data F → UInt8
  | flag _ => 2
  | byte _ => 1
  | string _ => 3
  | size _ => 4
  | pid _ => 5
  | integer _ => 6
  | int8 _ => 7
  | int16 _ => 8
  | int32 _ => 9
  | int64 _ => 10
  | uint _ => 11
  | uint8 _ => 12
  | uint16 _ => 13
  | uint32 _ => 14
  | uint64 _ => 15
  | bo _ => 20
  | fval _ => 16
  | tv _ => 18
  | ptr _ => 28
  | vpid _ => 52
  | jobid _ => 51
  | other type _ => type

/-! ## 2. Packing and unpacking -/

/-- The `switch` of `orte_dt_pack_attr`. -/
def packData (text : FloatText F) : Data F → Dss Unit
  | .flag v => packOne Dss.bool v
  | .byte v => packOne Dss.byte v
  | .string v => packOne Dss.string v
  | .size v => packOne Dss.size v
  | .pid v => packOne Dss.pid v
  | .integer v => packOne Dss.int v
  | .int8 v => packOne Dss.int8 v
  | .int16 v => packOne Dss.int16 v
  | .int32 v => packOne Dss.int32 v
  | .int64 v => packOne Dss.int64 v
  | .uint v => packOne Dss.uint v
  | .uint8 v => packOne Dss.uint8 v
  | .uint16 v => packOne Dss.uint16 v
  | .uint32 v => packOne Dss.uint32 v
  | .uint64 v => packOne Dss.uint64 v
  | .bo v => packByteObject v
  | .fval v => packOne (float text) v
  | .tv v => packOne Dss.timeval v
  | .ptr _ => pure ()
  | .vpid v => packOne Dss.vpid v
  | .jobid v => packOne Dss.jobid v
  | .other _ _ => throw (.rc .error)

/-- The `switch` of `orte_dt_unpack_attr`, which has no case for `OPAL_PTR`. -/
def unpackData (text : FloatText F) (type : UInt8) : Dss (Data F) :=
  if type = 2 then .flag <$> unpackOne Dss.bool
  else if type = 1 then .byte <$> unpackOne Dss.byte
  else if type = 3 then .string <$> unpackOne Dss.string
  else if type = 4 then .size <$> unpackOne Dss.size
  else if type = 5 then .pid <$> unpackOne Dss.pid
  else if type = 6 then .integer <$> unpackOne Dss.int
  else if type = 7 then .int8 <$> unpackOne Dss.int8
  else if type = 8 then .int16 <$> unpackOne Dss.int16
  else if type = 9 then .int32 <$> unpackOne Dss.int32
  else if type = 10 then .int64 <$> unpackOne Dss.int64
  else if type = 11 then .uint <$> unpackOne Dss.uint
  else if type = 12 then .uint8 <$> unpackOne Dss.uint8
  else if type = 13 then .uint16 <$> unpackOne Dss.uint16
  else if type = 14 then .uint32 <$> unpackOne Dss.uint32
  else if type = 15 then .uint64 <$> unpackOne Dss.uint64
  else if type = 20 then .bo <$> unpackByteObject
  else if type = 16 then .fval <$> unpackOne (float text)
  else if type = 18 then .tv <$> unpackOne Dss.timeval
  else if type = 52 then .vpid <$> unpackOne Dss.vpid
  else if type = 51 then .jobid <$> unpackOne Dss.jobid
  else throw (.rc .error)

/-- One round of `orte_dt_pack_attr`. -/
def packAttr (text : FloatText F) (attr : Attribute F) : Dss Unit := do
  packOne Dss.uint16 attr.key
  packOne dataType attr.data.type
  packData text attr.data

/-- One round of `orte_dt_unpack_attr`.  The constructor of an attribute marks it as local. -/
def unpackAttr (text : FloatText F) : Dss (Attribute F) := do
  let key ← unpackOne Dss.uint16
  let type ← unpackOne dataType
  let data ← unpackData text type
  pure ⟨key, true, data⟩

/-- `ORTE_ATTRIBUTE`. -/
def attr (text : FloatText F) : TypeInfo (Attribute F) :=
  objects 117 (packAttr text) (unpackAttr text)

/-! ## 3. What arrives -/

/-- The data that arrives. -/
def Data.received (text : FloatText F) : Data F → Option (Data F)
  | .fval v => some (.fval (text.read (text.print v)))
  | .ptr _ => none
  | .other _ _ => none
  | data => some data

/-- The attribute that arrives. -/
def Attribute.received (text : FloatText F) (attr : Attribute F) : Option (Attribute F) :=
  (attr.data.received text).map fun data => ⟨attr.key, true, data⟩

/-- The lengths in an attribute fit into an `int32_t`. -/
def Data.Fits : Data F → Prop
  | .string v => v.Ok
  | .bo v => v.Ok
  | _ => True

/-- The data arrives as it was. -/
def Data.Sendable (text : FloatText F) : Data F → Prop
  | .fval v => text.read (text.print v) = v
  | .ptr _ => False
  | .other _ _ => False
  | _ => True

theorem Data.received_eq_self_iff (text : FloatText F) (data : Data F) :
    data.received text = some data ↔ data.Sendable text := by
  cases data <;> simp [Data.received, Data.Sendable]

/-- **Which attributes arrive as they were**: those that are local already, of a type that can be
sent. -/
theorem received_eq_self_iff (text : FloatText F) (attr : Attribute F) :
    attr.received text = some attr ↔ attr.isLocal = true ∧ attr.data.Sendable text := by
  obtain ⟨key, isLocal, data⟩ := attr
  rw [Attribute.received, ← Data.received_eq_self_iff]
  constructor
  · intro h
    obtain ⟨data', hdata, hsame⟩ := Option.map_eq_some_iff.mp h
    cases hsame
    exact ⟨rfl, hdata⟩
  · rintro ⟨rfl, hdata⟩
    rw [hdata]
    rfl

theorem delivers_data (type : BufferType) (text : FloatText F) {data} (h : data.Fits) :
    Delivers type (packData text data) (unpackData text data.type) (data.received text) := by
  cases data with
  | flag v => exact (boolFormat.lossless_one type trivial).map Data.flag
  | byte v => exact (byteFormat.lossless_one type trivial).map Data.byte
  | string v => exact (stringFormat.lossless_one type h).map Data.string
  | size v => exact (sizeFormat.lossless_one type trivial).map Data.size
  | pid v => exact (pidFormat.lossless_one type trivial).map Data.pid
  | integer v => exact (intFormat.lossless_one type trivial).map Data.integer
  | int8 v => exact (int8Format.lossless_one type trivial).map Data.int8
  | int16 v => exact (int16Format.lossless_one type trivial).map Data.int16
  | int32 v => exact (int32Format.lossless_one type trivial).map Data.int32
  | int64 v => exact (int64Format.lossless_one type trivial).map Data.int64
  | uint v => exact (uintFormat.lossless_one type trivial).map Data.uint
  | uint8 v => exact (uint8Format.lossless_one type trivial).map Data.uint8
  | uint16 v => exact (uint16Format.lossless_one type trivial).map Data.uint16
  | uint32 v => exact (uint32Format.lossless_one type trivial).map Data.uint32
  | uint64 v => exact (uint64Format.lossless_one type trivial).map Data.uint64
  | bo v =>
    exact Lossless.map ⟨_, writes_packByteObject h, reads_unpackByteObject h⟩ Data.bo
  | fval v => exact (lossless_float type text v).map Data.fval
  | tv v => exact (timevalFormat.lossless_one type trivial).map Data.tv
  | ptr v =>
    -- nothing is packed, and the type that was packed is refused
    exact .inr ⟨[], writes_pure, fun b _ _ _ _ => ⟨_, b, rfl⟩⟩
  | vpid v => exact (vpidFormat.lossless_one type trivial).map Data.vpid
  | jobid v => exact (jobidFormat.lossless_one type trivial).map Data.jobid
  | other t unknown => exact .inl fun b _ _ => ⟨_, b, rfl⟩

/-- **What the two functions deliver.** -/
theorem delivers_attribute (type : BufferType) (text : FloatText F) {attr} (h : attr.data.Fits) :
    Delivers type (packAttr text attr) (unpackAttr text) (attr.received text) := by
  refine (uint16Format.lossless_one type trivial).bind_delivers ?_
  refine (dataTypeFormat.lossless_one type trivial).bind_delivers ?_
  exact (delivers_data type text h).bind_pure _

end Wire

end Sensys.Orte
