/-
# Lists of sensor values on the wire

`orcm_sensor_pack_orcm_value_list` and `orcm_sensor_unpack_orcm_value_list` in
`orcm/mca/sensor/base/sensor_base_fns.c`.  An item is a label, the number of a type, a value of this
type and units; the list has its length in front, as a `uint16_t`.

The loop that unpacks counts with an `int16_t`.  For a length of `2 ^ 15` or more the counter is
always below it: it goes from `32767` to `-32768`, and the loop can only end with an error.  Such a
loop takes `fuel` here, and it `Ends` with a list if it does with enough of it.

* `lists_survive_iff`: a list comes back if and only if it has less than `2 ^ 15` items.
* `long_list_is_lost`: a list with `2 ^ 15` items.
-/
import Sensys.Opal.DssFormat

namespace Sensys.Orcm.SensorValue

open Opal Opal.Dss Failing List Buffer

/-! ## 1. Items and lists -/

/-- `orcm_value_t`. -/
structure OrcmValue where
  key : CharPtr
  type : DataType
  data : type.Val
  units : CharPtr

/-- The types whose values are kept as pointers in an array that is packed. -/
def IsObject (type : DataType) : Prop := type = .byteObject ∨ type = .buffer

instance : DecidablePred IsObject := fun _ => inferInstanceAs (Decidable (_ ∨ _))

/-- `opal_dss.pack(bucket, &item->value.data, 1, item->value.type)`.  What stands in `data` is not
a pointer to an object. -/
def packData (type : DataType) (data : type.Val) : Dss Unit :=
  if IsObject type then throw .undefined else packCall type.info data

/-- The types by their numbers. -/
def typeOf (number : UInt8) : Option DataType :=
  [DataType.byte, .bool, .string, .size, .pid, .int, .int8, .int16, .int32, .int64, .uint, .uint8,
    .uint16, .uint32, .uint64, .timeval, .time, .byteObject, .buffer].find? (·.info.type == number)

/-- `opal_dss.unpack(bucket, &item->value.data, &n, item->value.type)`. -/
def unpackData (number : UInt8) : Dss ((type : DataType) × type.Val) :=
  match typeOf number with
  | some type =>
    if IsObject type then throw .undefined else Sigma.mk type <$> unpackCall type.info
  | none => do
    let _ ← unpackCount
    expect number .errPackMismatch
    throw (.rc .errUnpackFailure)

/-- `orcm_sensor_pack_orcm_value`. -/
def packOrcmValue (item : OrcmValue) : Dss Unit := do
  let units := item.units.getD [0]
  packCall string item.key
  packCall uint8 item.type.info.type
  packData item.type item.data
  packCall string (some units)

/-- `orcm_sensor_unpack_orcm_value`. -/
def unpackOrcmValue : Dss OrcmValue := do
  let key ← unpackCall string
  let type ← unpackCall uint8
  let value ← unpackData type
  let units ← unpackCall string
  pure ⟨key, value.1, value.2, units⟩

/-- `orcm_sensor_pack_orcm_value_list`. -/
def packOrcmValueList (list : List OrcmValue) : Dss Unit := do
  packCall uint16 (UInt16.ofNat list.length)
  list.forM packOrcmValue

/-- The loop of `orcm_sensor_unpack_orcm_value_list`. -/
def unpackItems (size : UInt16) : ℕ → Int16 → Dss (List OrcmValue)
  | 0, _ => throw .undefined
  | fuel + 1, i =>
    if i.toInt < size.toNat then do
      let item ← unpackOrcmValue
      let items ← unpackItems size fuel (i + 1)
      pure (item :: items)
    else pure []

/-- `orcm_sensor_unpack_orcm_value_list`. -/
def unpackOrcmValueList (fuel : ℕ) : Dss (List OrcmValue) := do
  let size ← unpackCall uint16
  if size ≠ 0 then unpackItems size fuel 0 else pure []

/-- **The list is unpacked**: with enough fuel, and for good. -/
def Ends (b : Buffer) (list : List OrcmValue) (b' : Buffer) : Prop :=
  ∃ enough, ∀ fuel ≥ enough, unpackOrcmValueList fuel b = (.ok list, b')

/-! ## 2. One item -/

/-- The item as it comes back: `NULL` units have become empty. -/
def OrcmValue.received (item : OrcmValue) : OrcmValue :=
  { item with units := some (item.units.getD [0]) }

/-- A string, a number, a `bool` or a `timeval`; strings have a length that fits. -/
structure OrcmValue.Fits (item : OrcmValue) : Prop where
  key : item.key.Ok
  type : ¬ IsObject item.type
  data : item.type.Fits item.data
  units : item.units.Ok

/-- The bytes of an item. -/
def OrcmValue.enc (type : BufferType) (item : OrcmValue) : List UInt8 :=
  stringFormat.encCall type item.key ++ (uint8Format.encCall type item.type.info.type ++
    (item.type.format.encCall type item.data ++
      stringFormat.encCall type (some (item.units.getD [0]))))

theorem typeOf_type : ∀ type : DataType, typeOf type.info.type = some type := by
  intro type
  cases type <;> rfl

section Item

variable {item : OrcmValue} (h : item.Fits) {type : BufferType}

include h

theorem OrcmValue.Fits.units_ok : CharPtr.Ok (some (item.units.getD [0])) := by
  obtain hnone | ⟨s, hs, hfits⟩ := h.units
  · exact .inr ⟨[], by rw [hnone]; rfl, by simp, by simp⟩
  · exact .inr ⟨s, by rw [hs]; rfl, hfits⟩

theorem OrcmValue.Fits.writes : Writes type (packOrcmValue item) (item.enc type) := by
  have hdata := item.type.format.writes_packCall type (DataType.ok_of_fits h.data)
  rw [← show packData item.type item.data = _ from if_neg h.type] at hdata
  exact (stringFormat.writes_packCall type h.key).bind <|
    (uint8Format.writes_packCall type trivial).bind <|
    hdata.bind (stringFormat.writes_packCall type h.units_ok)

theorem OrcmValue.Fits.reads : Reads type unpackOrcmValue (item.enc type) item.received := by
  have hdata : Reads type (unpackData item.type.info.type)
      (item.type.format.encCall type item.data) ⟨item.type, item.data⟩ := by
    unfold unpackData
    simp only [typeOf_type, if_neg h.type]
    exact (item.type.format.reads_unpackCall type (DataType.ok_of_fits h.data)).map _
  refine (stringFormat.reads_unpackCall type h.key).bind ?_
  refine (uint8Format.reads_unpackCall type trivial).bind (hdata.bind ?_)
  exact (stringFormat.reads_unpackCall type h.units_ok).bind_pure rfl

end Item

theorem length_encCall_data_le {t} (ht : ¬ IsObject t) {data} (h : t.Fits data)
    (type : BufferType) : (t.format.encCall type data).length ≤ 2 ^ 31 + 10 := by
  have hsmall : (t.format.enc type [data]).length ≤ 16 →
      (t.format.encCall type data).length ≤ 2 ^ 31 + 10 := by
    intro hle
    have hcall := t.format.length_encCall_le hle
    omega
  cases t with
  | string => exact CharPtr.Ok.length_encCall_le h type
  | byteObject => exact absurd (.inl rfl) ht
  | buffer => exact absurd (.inr rfl) ht
  | byte | int8 | uint8 => exact hsmall (Nat.le_add_left 1 15)
  | int16 | uint16 => exact hsmall (Nat.le_add_left 2 14)
  | int32 | uint32 => exact hsmall (Nat.le_add_left 4 12)
  | int64 | uint64 | time => exact hsmall (Nat.le_add_left 8 8)
  | timeval => exact hsmall (Nat.le_refl 16)
  | bool | size | pid | int | uint => cases type <;> exact hsmall (Nat.le_of_ble_eq_true rfl)

theorem OrcmValue.Fits.length_enc_le {item : OrcmValue} (h : item.Fits) (type : BufferType) :
    (item.enc type).length ≤ 2 ^ 34 := by
  have hkey := h.key.length_encCall_le type
  have htype : (uint8Format.encCall type item.type.info.type).length ≤ 1 + 6 :=
    Format.length_encCall_le uint8Format (Nat.le_refl 1)
  have hdata := length_encCall_data_le h.type h.data type
  have hunits := h.units_ok.length_encCall_le type
  unfold OrcmValue.enc
  simp only [length_append]
  omega

/-! ## 3. Lists -/

/-- The bytes of a list. -/
def encList (type : BufferType) (list : List OrcmValue) : List UInt8 :=
  uint16Format.encCall type (UInt16.ofNat list.length) ++ list.flatMap (OrcmValue.enc type)

variable {type : BufferType} {list : List OrcmValue}

theorem writes_packOrcmValueList
    (h : ∀ item ∈ list, item.Fits) : Writes type (packOrcmValueList list) (encList type list) :=
  (uint16Format.writes_packCall type trivial).bind
    (writes_forM list fun item hitem => (h item hitem).writes)

/-- Below `2 ^ 15` the counter counts. -/
theorem toInt_add_one {i : Int16} (h : i.toInt < 2 ^ 15 - 1) : (i + 1).toInt = i.toInt + 1 := by
  have hlower := i.le_toInt
  rw [Int16.toInt_add]
  simp only [Int16.toInt_one]
  rw [Int.bmod_eq_of_le] <;> omega

theorem reads_unpackItems {size : UInt16} (hsize : size.toNat < 2 ^ 15) :
    ∀ (list : List OrcmValue) (fuel : ℕ) (i : Int16), (∀ item ∈ list, item.Fits) →
      i.toInt + list.length = size.toNat → list.length < fuel →
      Reads type (unpackItems size fuel i) (list.flatMap (OrcmValue.enc type))
        (list.map OrcmValue.received)
  | _, 0, _, _, _, hfuel => absurd hfuel (Nat.not_lt_zero _)
  | [], fuel + 1, i, _, hi, _ => by
    rw [length_nil] at hi
    unfold unpackItems
    rw [if_neg (by omega)]
    exact reads_pure []
  | item :: list, fuel + 1, i, h, hi, hfuel => by
    rw [length_cons] at hi hfuel
    unfold unpackItems
    rw [if_pos (by omega)]
    have hnext : (i + 1).toInt + list.length = size.toNat := by
      rw [toInt_add_one (by omega)]
      omega
    have hrest : Reads type (unpackItems size fuel (i + 1)) _ _ :=
      reads_unpackItems hsize list fuel (i + 1)
        (fun item' hitem => h item' (mem_cons_of_mem item hitem)) hnext (by omega)
    exact (h item mem_cons_self).reads.bind (hrest.bind_pure rfl)

theorem reads_unpackOrcmValueList (h : ∀ item ∈ list, item.Fits) (hlen : list.length < 2 ^ 15)
    {fuel} (hfuel : list.length < fuel) :
    Reads type (unpackOrcmValueList fuel) (encList type list) (list.map OrcmValue.received) := by
  have hsize : (UInt16.ofNat list.length).toNat = list.length :=
    UInt16.toNat_ofNat_of_lt' (by rw [UInt16.size]; omega)
  refine (uint16Format.reads_unpackCall type trivial).bind ?_
  by_cases hempty : UInt16.ofNat list.length = 0
  · have hzero : list.length = 0 := by rw [← hsize, hempty]; rfl
    obtain rfl := length_eq_zero_iff.mp hzero
    exact reads_pure []
  · rw [if_pos hempty]
    exact reads_unpackItems (by omega) list fuel 0 h (by simp [hsize]) hfuel

/-- **From `2 ^ 15` on the loop does not end well**: the counter is below the length in every
round. -/
theorem unpackItems_ne_ok {size} (hsize : 2 ^ 15 ≤ size.toNat) : ∀ fuel i b b' list,
      unpackItems size fuel i b ≠ (.ok list, b')
  | 0, _, _, _, _ => fun h => by cases h
  | fuel + 1, i, b, b', list => by
    intro h
    have hi := i.toInt_lt
    unfold unpackItems at h
    rw [if_pos (by omega)] at h
    obtain ⟨item, b₁, -, hrest⟩ := of_bind_ok h
    obtain ⟨items, b₂, hitems, -⟩ := of_bind_ok hrest
    exact unpackItems_ne_ok hsize fuel (i + 1) b₁ b₂ items hitems

theorem not_ends (hlen : 2 ^ 15 ≤ list.length) (hmax : list.length ≤ 65535) {b} (hwf : b.Wf)
    (htype : b.type = type) (hunread : b.unread = encList type list) (list' : List OrcmValue)
    (b' : Buffer) : ¬ Ends b list' b' := by
  rintro ⟨enough, hends⟩
  have hsize : (UInt16.ofNat list.length).toNat = list.length :=
    UInt16.toNat_ofNat_of_lt' (by rw [UInt16.size]; omega)
  have hne : UInt16.ofNat list.length ≠ 0 := by
    intro hzero
    rw [hzero] at hsize
    simp at hsize
    omega
  have hrun := hends enough (Nat.le_refl _)
  have hread := uint16Format.reads_unpackCall type (a := UInt16.ofNat list.length) trivial
    b hwf htype _ hunread
  unfold unpackOrcmValueList at hrun
  rw [bind_ok hread, if_pos hne] at hrun
  exact unpackItems_ne_ok (by omega) _ _ _ _ _ hrun

/-- There is memory for every list. -/
theorem length_encList_lt (h : ∀ item ∈ list, item.Fits) (hmax : list.length ≤ 65535) :
    (encList type list).length < memoryLimit := by
  have hsize : (uint16Format.encCall type (UInt16.ofNat list.length)).length ≤ 2 + 6 :=
    Format.length_encCall_le uint16Format (Nat.le_refl 2)
  have hitems := length_flatMap_le fun item hitem => (h item hitem).length_enc_le type
  rw [encList, length_append, memoryLimit]
  omega

/-- **Lists of sensor values on the wire**: packing succeeds, and what was packed comes back, with
the pointer at the end, if and only if there are less than `2 ^ 15` items. -/
theorem lists_survive_iff (type : BufferType) (list : List OrcmValue)
    (hfits : ∀ item ∈ list, item.Fits) (hmax : list.length ≤ 65535) :
    ∃ b, packOrcmValueList list (Buffer.construct type) = (.ok (), b) ∧
      (Ends b (list.map OrcmValue.received) { b with unpackPtr := b.bytesUsed } ↔
        list.length < 2 ^ 15) := by
  have hwrites : Writes type _ _ := writes_packOrcmValueList hfits
  have hroom : (encList type list).length < memoryLimit := length_encList_lt hfits hmax
  rcases hwrites _ (wf_construct type) rfl with ⟨n, hrun, hwf⟩ | ⟨b, -, hlimit⟩
  · refine ⟨_, hrun, fun hends => ?_, fun hlen => ?_⟩
    · by_contra hlong
      exact not_ends (Nat.not_lt.mp hlong) hmax hwf rfl rfl _ _ hends
    · refine ⟨list.length + 1, fun fuel hfuel => ?_⟩
      rw [reads_unpackOrcmValueList hfits hlen hfuel _ hwf rfl [] (List.append_nil _).symm]
      simp [advance, extend, construct]
  · simp only [construct] at hlimit
    omega

/-- A temperature. -/
def exampleValue : OrcmValue := ⟨charPtr [116], .int32, 40, none⟩

theorem fits_exampleValue : exampleValue.Fits where
  key := .inr ⟨[116], rfl, by decide, by decide⟩
  type := by decide
  data := trivial
  units := .inl rfl

/-- A list with two items comes back. -/
theorem lists_survive_iff_two :
    ∃ b, packOrcmValueList [exampleValue, exampleValue] (Buffer.construct .fullyDesc) =
        (.ok (), b) ∧ Ends b [exampleValue.received, exampleValue.received]
        { b with unpackPtr := b.bytesUsed } := by
  have hfits : ∀ item ∈ [exampleValue, exampleValue], item.Fits := by
    simp [fits_exampleValue]
  obtain ⟨b, hrun, hiff⟩ := lists_survive_iff .fullyDesc _ hfits (by decide)
  exact ⟨b, hrun, hiff.mpr (by decide)⟩

/-- **A long list is lost**: `2 ^ 15` items are packed, and unpacking them does not give them. -/
theorem long_list_is_lost :
    ∃ (list : List OrcmValue) (b : Buffer), list.length = 2 ^ 15 ∧ (∀ item ∈ list, item.Fits) ∧
      packOrcmValueList list (Buffer.construct .fullyDesc) = (.ok (), b) ∧
      ∀ list' b', ¬ Ends b list' b' := by
  obtain ⟨list, hlen, hfits⟩ : ∃ list : List OrcmValue, list.length = 2 ^ 15 ∧
      ∀ item ∈ list, item.Fits :=
    ⟨List.replicate _ exampleValue, length_replicate,
      fun item hitem => eq_of_mem_replicate hitem ▸ fits_exampleValue⟩
  have hwrites : Writes .fullyDesc _ _ := writes_packOrcmValueList hfits
  rcases hwrites _ (wf_construct _) rfl with ⟨n, hrun, hwf⟩ | ⟨b, -, hlimit⟩
  · exact ⟨_, _, hlen, hfits, hrun, not_ends (Nat.le_of_eq hlen.symm) (by omega) hwf rfl rfl⟩
  · have hroom : (encList .fullyDesc list).length < memoryLimit :=
      length_encList_lt hfits (by omega)
    simp only [construct] at hlimit
    omega

end Sensys.Orcm.SensorValue
