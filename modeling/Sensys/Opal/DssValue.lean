/-
# Values with a key and a type on the wire

`opal_dss_pack_value` and `opal_dss_unpack_value`: arrays of `opal_value_t`.  An item is its key, its
type and then what a `switch` over the type packs: one value, an array with its length in front, a
byte object.  The sixteen types that stand in the `switch` as a value and as an array are a table
(`elementTypes`); the floating types are left out.

The two `switch` statements differ in two places.  `OPAL_PTR` is packed, as nothing, and has no case
when it is unpacked.  An array is unpacked into the memory of the item, and the item has just been
made: its `data` is `NULL`, and nobody allocates it.

* `delivers_value`: what arrives, for every item.
* `values_survive_iff`: items that were packed come back if and only if none of them is a pointer or
  an array with something in it.
-/
import Sensys.Opal.DssFormat

namespace Sensys.Opal.Dss

open Failing List

/-! ## 1. Items -/

/-- The types of the values, each with the type of an array of them. -/
def elementTypes : List (DataType × UInt8) :=
  [(.string, 33), (.bool, 34), (.size, 35), (.byte, 36), (.int, 37), (.int8, 38), (.int16, 39),
    (.int32, 40), (.int64, 41), (.uint, 42), (.uint8, 43), (.uint16, 44), (.uint32, 45),
    (.uint64, 46), (.pid, 48), (.timeval, 49)]

/-- A type of the table. -/
abbrev Element := { e : DataType × UInt8 // e ∈ elementTypes }

/-- The type of one value. -/
abbrev Element.one (e : Element) : DataType := e.1.1

/-- All types with a case in `opal_dss_pack_value`. -/
def valueTypes : List UInt8 :=
  elementTypes.flatMap (fun e => [e.1.info.type, e.2]) ++ [20, 50, 28, 16, 17, 31, 32]

/-- `type` and `data` of an item. -/
inductive ValueData where
  | one (e : Element) (v : e.one.Val)
  | array (e : Element) (data : List e.one.Val)
  | bo (v : ByteObject)
  | name (v : ProcessName)
  | ptr (v : UInt64)
  | other (type : UInt8) (unknown : valueTypes.contains type = false)

/-- `type`. -/
def ValueData.type : ValueData → UInt8
  | one e _ => e.one.info.type
  | array e _ => e.1.2
  | bo _ => 20
  | name _ => 50
  | ptr _ => 28
  | other type _ => type

/-- `opal_value_t`. -/
structure Value where
  key : CharPtr
  data : ValueData

/-! ## 2. Packing and unpacking -/

/-- The `switch` of `opal_dss_pack_value`. -/
def packValueData : ValueData → Dss Unit
  | .one e v => packOne e.one.info v
  | .array e data => do
    packOne int32 (Int32.ofInt data.length)
    packBuffer e.one.info data
  | .bo v => packByteObject v
  | .name v => packOne name v
  | .ptr _ => pure ()
  | .other _ _ => throw (.rc .error)

/-- The elements of an array, unpacked to where `data` points: nowhere, since the constructor. -/
def unpackElements (e : Element) (size : ℤ) : Dss ValueData := do
  let data ← unpackBuffer e.one.info size
  if data.isEmpty then pure (.array e data) else throw .undefined

/-- The `switch` of `opal_dss_unpack_value`, which has no case for `OPAL_PTR`. -/
def unpackValueData (type : UInt8) : Dss ValueData :=
  match elementTypes.attach.find? fun e : Element => e.one.info.type == type with
  | some e => ValueData.one e <$> unpackOne e.1.1.info
  | none =>
    match elementTypes.attach.find? fun e : Element => e.1.2 == type with
    | some e => do
      let size ← unpackOne int32
      unpackElements e size.toInt
    | none =>
      if type = 20 then .bo <$> unpackByteObject
      else if type = 50 then .name <$> unpackOne name
      else throw (.rc .error)

/-- One round of `opal_dss_pack_value`.  Key and type are packed without the number of their
type. -/
def packValue (value : Value) : Dss Unit := do
  string.packFn [value.key]
  dataType.packFn [value.data.type]
  packValueData value.data

/-- One round of `opal_dss_unpack_value`. -/
def unpackValue : Dss Value := do
  let key ← one (string.unpackFn 1)
  let type ← one (dataType.unpackFn 1)
  let data ← unpackValueData type
  pure ⟨key, data⟩

/-- `OPAL_VALUE`. -/
def valueInfo : TypeInfo Value := objects 26 packValue unpackValue

/-! ## 3. What arrives -/

/-- The lengths in an item fit into an `int32_t`. -/
def ValueData.Fits : ValueData → Prop
  | one e v => e.one.Fits v
  | array e data => data.length < 2 ^ 31 ∧ ∀ v ∈ data, e.one.Fits v
  | bo v => v.Ok
  | _ => True

/-- The lengths in an item, and that of its key. -/
structure Value.Fits (value : Value) : Prop where
  key : value.key.Ok
  data : value.data.Fits

/-- The data arrives. -/
def ValueData.sendable : ValueData → Bool
  | array _ data => data.isEmpty
  | ptr _ => false
  | other _ _ => false
  | _ => true

/-- The item that arrives. -/
def Value.received (value : Value) : Option Value :=
  (Option.guard ValueData.sendable value.data).map fun data => ⟨value.key, data⟩

theorem Value.received_eq_self_iff (value : Value) :
    value.received = some value ↔ value.data.sendable = true := by
  obtain ⟨key, data⟩ := value
  simp [received]

/-- The two numbers of a type are found in the table. -/
theorem unpackValueData_element (e : Element) :
    unpackValueData e.one.info.type = .one e <$> unpackOne e.one.info ∧
    unpackValueData e.1.2 =
      (do let size ← unpackOne int32; unpackElements e size.toInt) := by
  obtain ⟨⟨t, n⟩, he⟩ := e
  simp only [elementTypes, mem_cons, not_mem_nil, or_false, Prod.mk.injEq] at he
  rcases he with h | h | h | h | h | h | h | h | h | h | h | h | h | h | h | h <;>
    obtain ⟨rfl, rfl⟩ := h <;> exact ⟨rfl, rfl⟩

variable (type : BufferType)

/-- One value packed without the number of its type. -/
theorem Format.lossless_packFn {α : Type} {info} (f : Format info) {a : α} (h : f.Ok a) :
    Lossless type (info.packFn [a]) (one (info.unpackFn 1)) a := by
  have hok : ∀ b ∈ [a], f.Ok b := fun b hb => List.mem_singleton.mp hb ▸ h
  exact ⟨_, f.writes type [a] (by simp) hok, (f.reads type [a] (by simp) hok).one⟩

/-- An array arrives if it is empty. -/
theorem delivers_elements (e : Element) {data} (h : (ValueData.array e data).Fits) :
    Delivers type (packBuffer e.one.info data) (unpackElements e data.length)
      (Option.guard ValueData.sendable (.array e data)) := by
  have hlossless := e.one.format.lossless_packBuffer type h.1
    fun v hv => DataType.ok_of_fits (h.2 v hv)
  cases data with
  | nil => exact hlossless.bind_pure rfl
  | cons v data =>
    -- the bytes are read, and then there is no place for what they say
    obtain ⟨bytes, hw, hr⟩ := hlossless
    have hrefuses : Refuses type (unpackElements e (v :: data).length) (bytes ++ []) :=
      hr.bind_refuses fun b _ _ _ _ => ⟨_, b, rfl⟩
    rw [List.append_nil] at hrefuses
    exact .inr ⟨bytes, hw, hrefuses⟩

theorem delivers_valueData {data} (h : data.Fits) :
    Delivers type (packValueData data) (unpackValueData data.type)
      (Option.guard ValueData.sendable data) := by
  cases data with
  | one e v =>
    rw [ValueData.type, (unpackValueData_element e).1]
    exact (e.one.format.lossless_one type (DataType.ok_of_fits h)).map (ValueData.one e)
  | array e data =>
    rw [ValueData.type, (unpackValueData_element e).2]
    refine (int32Format.lossless_one type trivial).bind_delivers ?_
    rw [Int32.toInt_ofInt_of_le (.trans (by decide) (Int.natCast_nonneg _)) (by exact_mod_cast h.1)]
    exact delivers_elements type e h
  | bo v => exact Lossless.map ⟨_, writes_packByteObject h, reads_unpackByteObject h⟩ ValueData.bo
  | name v => exact (nameFormat.lossless_one type trivial).map ValueData.name
  | ptr v => exact .inr ⟨[], writes_pure, fun b _ _ _ _ => ⟨_, b, rfl⟩⟩
  | other t unknown => exact .inl fun b _ _ => ⟨_, b, rfl⟩

/-- **What the two functions deliver.** -/
theorem delivers_value {value} (h : value.Fits) :
    Delivers type (packValue value) unpackValue value.received := by
  refine (stringFormat.lossless_packFn type h.key).bind_delivers ?_
  refine (dataTypeFormat.lossless_packFn type trivial).bind_delivers ?_
  exact (delivers_valueData type h.data).bind_pure _

/-- **Items on the wire.**  Items that were packed are unpacked with the same count, with the pointer
at the end and as they were, if and only if none of them is a pointer and all arrays are empty. -/
theorem values_survive_iff {values : List Value} (h : ∀ v ∈ values, v.Fits) {b : Buffer}
    (hpack : valueInfo.packFn values (Buffer.construct type) = (.ok (), b)) :
    valueInfo.unpackFn values.length b = (.ok values, { b with unpackPtr := b.bytesUsed }) ↔
      ∀ v ∈ values, v.data.sendable = true := by
  have hdelivers : Delivers type (valueInfo.packFn values) (valueInfo.unpackFn values.length)
      (values.mapM Value.received) :=
    Delivers.times values fun v hv => delivers_value type (h v hv)
  rcases hdelivers.round_trip values with ⟨b', herror⟩ | hround
  · rw [hpack] at herror
    cases herror
  rw [mapM_eq_self_iff] at hround
  rw [← forall₂_congr fun v _ => v.received_eq_self_iff, ← hround]
  constructor
  · intro hread
    exact ⟨b, hpack, hread⟩
  · rintro ⟨b', hrun, hread⟩
    rw [hpack] at hrun
    cases hrun
    exact hread

/-- A number with a key, and an array of numbers without one. -/
def exampleValues (data : List Int32) : List Value :=
  let numbers : Element := ⟨(.int32, 40), by decide⟩
  [⟨charPtr [107], .one numbers (7 : Int32)⟩, ⟨none, .array numbers data⟩]

/-- An empty array comes back. -/
theorem values_survive_iff_number : ∃ b,
    valueInfo.packFn (exampleValues []) (Buffer.construct .fullyDesc) = (.ok (), b) ∧
      valueInfo.unpackFn (exampleValues []).length b =
        (.ok (exampleValues []), { b with unpackPtr := b.bytesUsed }) := by
  have hpacked : ∀ x : Except Stop Unit × Buffer, x.1 = .ok () → x = (.ok (), x.2) := by
    rintro ⟨r, b⟩ rfl
    rfl
  have hpack := hpacked (valueInfo.packFn (exampleValues []) (Buffer.construct .fullyDesc))
    (by decide +kernel)
  have hfits : ∀ v ∈ exampleValues [], v.Fits := by
    intro v hv
    rcases List.mem_pair.mp hv with rfl | rfl
    · exact ⟨.inr ⟨[107], rfl, by decide, by decide⟩, trivial⟩
    · exact ⟨.inl rfl, by decide, by simp⟩
  refine ⟨_, hpack, (values_survive_iff .fullyDesc hfits hpack).mpr fun v hv => ?_⟩
  rcases List.mem_pair.mp hv with rfl | rfl <;> rfl

/-- **An array with a number in it** is packed, and then the number is written to where `NULL`
points. -/
theorem array_does_not_survive :
    let packed := valueInfo.packFn (exampleValues [9]) (Buffer.construct .fullyDesc)
    packed.1 = .ok () ∧ (((fun _ => ()) <$> valueInfo.unpackFn 2) packed.2).1 = .error .undefined := by
  decide +kernel

end Sensys.Opal.Dss
