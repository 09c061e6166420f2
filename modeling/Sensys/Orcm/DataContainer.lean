/-
# Data containers on the wire

`orcm/common/dataContainer.hpp` and `orcm/common/dataContainerHelper.cpp`.  A container is a
`std::map` from keys to values with units; a value carries its type.  `serialize` packs key, units
and value of each entry, `deserialize` unpacks entries until the buffer is empty, and the maps of
containers are packed as labels and nested buffers.

How the type of a value gets over the wire depends on the build.  Without `OPAL_ENABLE_DEBUG` it is
packed in front of the value.  With it nothing is packed, and `opal_dss.peek` looks for the type in
the description of the buffer, which is there only if the buffer is fully described.

`Build` has what is outside of these two files: the kind of the build, the kind of a new buffer, and
how floating point numbers are printed and read.  An exception is an error.  A `std::string` starts
with a pointer to its characters, and the lowest byte of an `int` comes first, as the code expects.

* `containers_come_back_iff`: containers and maps of them come back, except for entries in buffers
  that are not described, in a debug build.
* `debug_loses_container`: such an entry.
-/
import Sensys.Lib.SortedMap
import Sensys.Opal.DssFloat

namespace Sensys.Orcm.DataContainer

open Opal Opal.Dss Failing List Buffer

/-! ## 1. Containers -/

/-- A value with its type. -/
inductive Value (F D : Type) where
  | bool (v : Bool)
  | int8 (v : Int8)
  | int16 (v : Int16)
  | int32 (v : Int32)
  | int64 (v : Int64)
  | uint8 (v : UInt8)
  | uint16 (v : UInt16)
  | uint32 (v : UInt32)
  | uint64 (v : UInt64)
  | float (v : F)
  | double (v : D)
  | timeval (v : Timeval)
  | string (v : List UInt8)
  deriving DecidableEq

/-- `dataHolder`. -/
structure Holder (F D : Type) where
  value : Value F D
  units : List UInt8
  deriving DecidableEq

/-- `dataContainer`. -/
abbrev Container (F D : Type) := SortedMap (List UInt8) (Holder F D)

/-- `dataContainerMap`. -/
abbrev ContainerMap (F D : Type) := SortedMap (List UInt8) (Container F D)

/-- How the program is built. -/
structure Build (F D : Type) where
  debug : Bool
  defaultType : BufferType
  floatText : FloatText F
  doubleText : FloatText D

section Wire

variable {F D : Type}

/-- `dataContainer::put`, which leaves an entry that is there. -/
def put (cnt : Container F D) (key : List UInt8) (value : Value F D) (units : List UInt8) :
    Container F D :=
  cnt.insertWith (fun old _ => old) key ⟨value, units⟩

/-- `dataTypeMap`. -/
def Value.type : Value F D → UInt8
  | bool _ => 2
  | int8 _ => 7
  | int16 _ => 8
  | int32 _ => 9
  | int64 _ => 10
  | uint8 _ => 12
  | uint16 _ => 13
  | uint32 _ => 14
  | uint64 _ => 15
  | float _ => 16
  | double _ => 17
  | timeval _ => 18
  | string _ => 3

/-! ## 2. Packing and unpacking -/

/-- `packStringLabel`. -/
def packStringLabel (label : List UInt8) : Dss Unit := packCall Dss.string (charPtr label)

/-- `unpackStringLabel`. -/
def unpackStringLabel : Dss (List UInt8) := unpackCall Dss.string >>= strdup

/-- The value itself. -/
def packValue (build : Build F D) : Value F D → Dss Unit
  | .bool v => packCall Dss.bool v
  | .int8 v => packCall Dss.int8 v
  | .int16 v => packCall Dss.int16 v
  | .int32 v => packCall Dss.int32 v
  | .int64 v => packCall Dss.int64 v
  | .uint8 v => packCall Dss.uint8 v
  | .uint16 v => packCall Dss.uint16 v
  | .uint32 v => packCall Dss.uint32 v
  | .uint64 v => packCall Dss.uint64 v
  | .float v => packCall (Dss.float build.floatText) v
  | .double v => packCall (Dss.double build.doubleText) v
  | .timeval v => packCall Dss.timeval v
  | .string v => packStringLabel v

/-- `packDataFromContainer`. -/
def packDataFromContainer (build : Build F D) (value : Value F D) : Dss Unit :=
  if build.debug then packValue build value
  else do
    packCall Dss.uint8 value.type
    packValue build value

/-- `getOpalType`. -/
def getOpalType (build : Build F D) : Dss UInt8 :=
  if build.debug then peek else unpackCall Dss.uint8

/-- The `switch` of `pushBufferItemToContainer`. -/
def extractFromBuffer (build : Build F D) (type : UInt8) : Dss (Value F D) :=
  if type = 2 then .bool <$> unpackCall Dss.bool
  else if type = 7 then .int8 <$> unpackCall Dss.int8
  else if type = 8 then .int16 <$> unpackCall Dss.int16
  else if type = 9 then .int32 <$> unpackCall Dss.int32
  else if type = 10 then .int64 <$> unpackCall Dss.int64
  else if type = 12 then .uint8 <$> unpackCall Dss.uint8
  else if type = 13 then .uint16 <$> unpackCall Dss.uint16
  else if type = 14 then .uint32 <$> unpackCall Dss.uint32
  else if type = 15 then .uint64 <$> unpackCall Dss.uint64
  else if type = 16 then .float <$> unpackCall (Dss.float build.floatText)
  else if type = 17 then .double <$> unpackCall (Dss.double build.doubleText)
  else if type = 18 then .timeval <$> unpackCall Dss.timeval
  else if type = 3 then .string <$> unpackStringLabel
  else throw (.rc .errUnknownDataType)

/-- One round of `appendContainerToOpalBuffer`. -/
def packItem (build : Build F D) (item : List UInt8 × Holder F D) : Dss Unit := do
  packStringLabel item.1
  packStringLabel item.2.units
  packDataFromContainer build item.2.value

/-- `pushBufferItemToContainer`. -/
def pushBufferItemToContainer (build : Build F D) (cnt : Container F D) :
    Dss (Container F D) := do
  let key ← unpackStringLabel
  let units ← unpackStringLabel
  let type ← getOpalType build
  let value ← extractFromBuffer build type
  pure (put cnt key value units)

/-- `isBufferEmpty`. -/
def isBufferEmpty (buffer : Buffer) : Bool := decide (buffer.bytesUsed ≤ buffer.unpackPtr)

/-- A loop until the buffer is empty, with a bound for the number of its rounds. -/
def untilEmpty {α : Type} (step : α → Dss α) : ℕ → α → Dss α
  | 0, _ => throw .undefined
  | rounds + 1, a => fun buffer =>
    if isBufferEmpty buffer then (.ok a, buffer) else (step a >>= untilEmpty step rounds) buffer

/-- Such a loop.  Every round unpacks at least one byte. -/
def whileNotEmpty {α : Type} (step : α → Dss α) (a : α) : Dss α := fun buffer =>
  untilEmpty step (buffer.bytesUsed + 1) a buffer

/-- `serialize`. -/
def serialize (build : Build F D) (cnt : Container F D) : Dss Unit :=
  cnt.entries.forM (packItem build)

/-- `deserialize`. -/
def deserialize (build : Build F D) (cnt : Container F D) : Dss (Container F D) :=
  whileNotEmpty (pushBufferItemToContainer build) cnt

/-- A computation on a buffer of its own. -/
def onBuffer {α : Type} (own : Buffer) (x : Dss α) : Dss (α × Buffer) := fun buffer =>
  match x own with
  | (.ok a, own) => (.ok (a, own), buffer)
  | (.error e, _) => (.error e, buffer)

/-- One round of `appendContainerMapToOpalBuffer`. -/
def packContainer (build : Build F D) (item : List UInt8 × Container F D) : Dss Unit := do
  packStringLabel item.1
  let ((), own) ← onBuffer (Buffer.construct build.defaultType) (serialize build item.2)
  packCall Dss.buffer own.base

/-- One round of `pushBufferToContainerMap`. -/
def pushBufferToContainerMap (build : Build F D) (cntMap : ContainerMap F D) :
    Dss (ContainerMap F D) := do
  let label ← unpackStringLabel
  let bytes ← unpackCall Dss.buffer
  let (cnt, _) ← onBuffer (Buffer.load build.defaultType bytes) (deserialize build .empty)
  pure (cntMap.insertWith (fun _ new => new) label cnt)

/-- `serializeMap`. -/
def serializeMap (build : Build F D) (cntMap : ContainerMap F D) : Dss Unit :=
  cntMap.entries.forM (packContainer build)

/-- `deserializeMap`. -/
def deserializeMap (build : Build F D) (cntMap : ContainerMap F D) : Dss (ContainerMap F D) :=
  whileNotEmpty (pushBufferToContainerMap build) cntMap

/-! ## 3. Loops until the buffer is empty -/

variable {b : Buffer} {type : BufferType} {value : Value F D} {cnt : Container F D}
  {entry : List UInt8 × Container F D}

theorem isBufferEmpty_eq (h : b.Wf) : isBufferEmpty b = b.unread.isEmpty := by
  have hlen := h.length_unread
  rw [isBufferEmpty, Bool.eq_iff_iff, decide_eq_true_iff, List.isEmpty_iff,
    ← length_eq_zero_iff]
  omega

theorem untilEmpty_succ {α : Type} {step} (hwf : b.Wf) (rounds : ℕ) (a : α) :
    untilEmpty step (rounds + 1) a b = if b.unread = [] then (.ok a, b)
      else (step a >>= untilEmpty step rounds) b := by
  simp only [untilEmpty, isBufferEmpty_eq hwf, List.isEmpty_iff]

/-- What one round does with the bytes of an item: it makes `next` of it, or it fails. -/
structure Round {α ι : Type} (type : BufferType) (step : α → Dss α) (next : α → ι → α)
    (enc : ι → List UInt8) (Good : ι → Prop) (i : ι) : Prop where
  nonempty : enc i ≠ []
  good : Good i → ∀ a, Reads type (step a) (enc i) (next a i)
  bad : ¬ Good i → ∀ a, Refuses type (step a) (enc i)

section Loop

variable {α ι : Type} {type : BufferType} {step : α → Dss α} {next : α → ι → α}
  {enc : ι → List UInt8} {Good : ι → Prop}

/-- The loop on the items one by one: a good one is taken and a bad one ends it. -/
theorem untilEmpty_iff {c} : ∀ (items : List ι) (rounds : ℕ) (a : α) (b : Buffer),
    (∀ i ∈ items, Round type step next enc Good i) → b.Wf → b.type = type →
    b.unread = items.flatMap enc → items.length < rounds →
    ((∃ b', untilEmpty step rounds a b = (.ok c, b')) ↔
      (∀ i ∈ items, Good i) ∧ c = items.foldl next a)
  | _, 0, _, _, _, _, _, _, hrounds => absurd hrounds (Nat.not_lt_zero _)
  | [], rounds + 1, a, b, _, hwf, _, hunread, _ => by
    rw [untilEmpty_succ hwf, if_pos (by exact hunread)]
    constructor
    · rintro ⟨_, hsame⟩
      cases hsame
      exact ⟨fun _ hi => absurd hi not_mem_nil, rfl⟩
    · rintro ⟨-, rfl⟩
      exact ⟨b, rfl⟩
  | i :: items, rounds + 1, a, b, h, hwf, htype, hunread, hrounds => by
    obtain ⟨hround, hrest⟩ := forall_mem_cons.mp h
    rw [untilEmpty_succ hwf, if_neg (by simp [hunread, hround.nonempty]), forall_mem_cons]
    by_cases hgood : Good i
    · obtain ⟨hwf', hunread'⟩ := hwf.past hunread
      rw [bind_ok (hround.good hgood a b hwf htype _ hunread), untilEmpty_iff items rounds _ _ hrest
        hwf' htype hunread' (Nat.lt_of_succ_lt_succ hrounds), foldl_cons, and_iff_right hgood]
    · obtain ⟨e, b', hrun⟩ := hround.bad hgood a b hwf htype _ hunread
      refine iff_of_false ?_ fun hall => hgood hall.1.1
      rintro ⟨_, hsame⟩
      rw [bind_error hrun] at hsame
      cases hsame

theorem length_le_length_flatMap : ∀ items : List ι, (∀ i ∈ items, enc i ≠ []) →
    items.length ≤ (items.flatMap enc).length
  | [], _ => Nat.zero_le _
  | i :: items, h => by
    have hpos := List.length_pos_iff.mpr (h i mem_cons_self)
    have ih := length_le_length_flatMap items fun j hj => h j (mem_cons_of_mem i hj)
    rw [flatMap_cons, length_append, length_cons]
    omega

/-- **A loop over the bytes of items** ends with all of them if and only if they are all good. -/
theorem whileNotEmpty_iff {items : List ι} {a c b}
    (h : ∀ i ∈ items, Round type step next enc Good i) (hwf : b.Wf) (htype : b.type = type)
    (hunread : b.unread = items.flatMap enc) : (∃ b', whileNotEmpty step a b = (.ok c, b')) ↔
      (∀ i ∈ items, Good i) ∧ c = items.foldl next a := by
  have hrounds : items.length < b.bytesUsed + 1 := by
    have hitems := length_le_length_flatMap items fun i hi => (h i hi).nonempty
    have hlen := hwf.length_unread
    have hlower := hwf.lower
    rw [hunread] at hlen
    omega
  exact untilEmpty_iff items _ a b h hwf htype hunread hrounds

end Loop

/-! ## 4. Items -/

/-- The values of the types other than floating point numbers, with strings that fit. -/
def Value.Fits : Value F D → Prop
  | .float _ => False
  | .double _ => False
  | .string v => StrFits v
  | _ => True

/-- The bytes of a label. -/
def encLabel (type : BufferType) (label : List UInt8) : List UInt8 :=
  stringFormat.encCall type (charPtr label)

/-- The bytes of a value. -/
def Value.enc (type : BufferType) : Value F D → List UInt8
  | .bool v => boolFormat.encCall type v
  | .int8 v => int8Format.encCall type v
  | .int16 v => int16Format.encCall type v
  | .int32 v => int32Format.encCall type v
  | .int64 v => int64Format.encCall type v
  | .uint8 v => uint8Format.encCall type v
  | .uint16 v => uint16Format.encCall type v
  | .uint32 v => uint32Format.encCall type v
  | .uint64 v => uint64Format.encCall type v
  | .float _ => []
  | .double _ => []
  | .timeval v => timevalFormat.encCall type v
  | .string v => encLabel type v

theorem writes_packStringLabel {label} (h : StrFits label) :
    Writes type (packStringLabel label) (encLabel type label) :=
  stringFormat.writes_packCall type (.inr ⟨label, rfl, h⟩)

theorem reads_unpackStringLabel {label} (h : StrFits label) :
    Reads type unpackStringLabel (encLabel type label) label :=
  (stringFormat.reads_unpackCall type (.inr ⟨label, rfl, h⟩)).bind_pure (strdup_charPtr h.1)

variable (build : Build F D)

theorem Value.Fits.writes (h : value.Fits) (type : BufferType) :
    Writes type (packValue build value) (value.enc type) := by
  cases value <;> first
    | exact h.elim
    | exact Format.writes_packCall _ type trivial
    | exact writes_packStringLabel h

theorem Value.Fits.reads (h : value.Fits) (type : BufferType) :
    Reads type (extractFromBuffer build value.type) (value.enc type) value := by
  cases value <;> first
    | exact h.elim
    | exact (Format.reads_unpackCall _ type trivial).map _
    | exact (reads_unpackStringLabel h).map Value.string

/-- The bytes of a value start with its type. -/
theorem Value.Fits.enc_eq (h : value.Fits) (type : BufferType) :
    ∃ body, value.enc type = header type value.type 1 ++ body := by
  cases value <;> first | exact ⟨_, rfl⟩ | exact h.elim

/-- The type of what comes next, in a described buffer. -/
theorem peek_eq (hwf : b.Wf) (htype : b.type = .fullyDesc) {t n} (hlower : -2 ^ 31 ≤ n)
    (hupper : n < 2 ^ 31) {rest} (hunread : b.unread = header .fullyDesc t n ++ rest) :
    peek b = (.ok t, b) := by
  have hlen := hwf.length_unread
  have hpos : 0 < b.unread.length := by
    rw [hunread]
    exact Nat.succ_pos _
  have hlook : Reads .fullyDesc (do
      let localType ← getDataType
      if int32Type ≠ localType then throw (.rc .errUnpackFailure)
      else do
        let _ ← unpackLength
        getDataType) (header .fullyDesc t n) t := by
    refine (reads_getDataType int32Type).bind ?_
    exact (reads_unpackLength hlower hupper).bind (reads_getDataType t)
  rw [peek, if_neg (by omega), if_neg fun hne => hne htype]
  exact congrArg (fun x => (x.1, b)) (hlook b hwf htype rest hunread)

/-- The bytes of a value with its type. -/
def encTyped (build : Build F D) (type : BufferType) (value : Value F D) : List UInt8 :=
  if build.debug then value.enc type
  else uint8Format.encCall type value.type ++ value.enc type

/-- A debug build finds the type of a value in described buffers only. -/
def Described (build : Build F D) (type : BufferType) : Prop :=
  build.debug = true → type = .fullyDesc

theorem Value.Fits.writes_typed (h : value.Fits) (type : BufferType) :
    Writes type (packDataFromContainer build value) (encTyped build type value) := by
  rw [packDataFromContainer, encTyped]
  split
  · exact h.writes build type
  · exact (uint8Format.writes_packCall type trivial).bind (h.writes build type)

/-- The type is found, and then the value is read. -/
theorem Value.Fits.reads_typed (h : value.Fits) {build} (hdesc : Described build type) {β : Type}
    {f} {c : β} (hf : Reads type (f value.type) (value.enc type) c) :
    Reads type (getOpalType build >>= f) (encTyped build type value) c := by
  rw [getOpalType, encTyped]
  split
  · rename_i hdebug
    obtain rfl := hdesc hdebug
    obtain ⟨body, henc⟩ := h.enc_eq .fullyDesc
    intro b hwf htype rest hunread
    have hpeek : peek b = (.ok value.type, b) :=
      peek_eq (n := 1) hwf htype (by decide) (by decide)
        (by rw [hunread, henc, List.append_assoc])
    rw [bind_ok hpeek]
    exact hf b hwf htype rest hunread
  · exact (uint8Format.reads_unpackCall type trivial).bind hf

/-- In a debug build the type is not found in other buffers. -/
theorem refuses_getOpalType {build : Build F D}
    (hdesc : ¬ Described build type) : Refuses type (getOpalType build) [] := by
  obtain ⟨hdebug, hother⟩ := Classical.not_imp.mp hdesc
  intro b hwf htype rest hunread
  rw [getOpalType, if_pos hdebug, peek]
  split
  · exact ⟨_, b, rfl⟩
  · rw [if_pos (by rwa [htype])]
    exact ⟨_, b, rfl⟩

/-- The strings and the value of an entry fit. -/
structure ItemFits (item : List UInt8 × Holder F D) : Prop where
  key : StrFits item.1
  units : StrFits item.2.units
  value : item.2.value.Fits

/-- The bytes of an entry. -/
def encItem (build : Build F D) (type : BufferType) (item : List UInt8 × Holder F D) :
    List UInt8 :=
  encLabel type item.1 ++ (encLabel type item.2.units ++ encTyped build type item.2.value)

variable {item : List UInt8 × Holder F D}

theorem ItemFits.writes (h : ItemFits item) (type : BufferType) :
    Writes type (packItem build item) (encItem build type item) :=
  (writes_packStringLabel h.key).bind
    ((writes_packStringLabel h.units).bind (h.value.writes_typed build type))

theorem ItemFits.round (h : ItemFits item) (type : BufferType) :
    Round type (pushBufferItemToContainer build)
      (fun cnt item => put cnt item.1 item.2.value item.2.units) (encItem build type)
      (fun _ => Described build type) item where
  nonempty := by
    cases type <;> exact fun hnil => by cases hnil
  good hdesc cnt := by
    refine (reads_unpackStringLabel h.key).bind ((reads_unpackStringLabel h.units).bind ?_)
    exact h.value.reads_typed hdesc ((h.value.reads build type).bind_pure rfl)
  bad hdesc cnt := by
    refine (reads_unpackStringLabel h.key).bind_refuses
      ((reads_unpackStringLabel h.units).bind_refuses ?_)
    exact (refuses_getOpalType hdesc).bind _ _

/-! ## 5. Containers -/

/-- The bytes of a container. -/
def encContainer (build : Build F D) (type : BufferType) (cnt : Container F D) : List UInt8 :=
  cnt.entries.flatMap (encItem build type)

/-- All entries fit. -/
def ContainerFits (cnt : Container F D) : Prop := ∀ item ∈ cnt.entries, ItemFits item

/-- The types of all entries are found. -/
def Found (build : Build F D) (type : BufferType) (cnt : Container F D) : Prop :=
  Described build type ∨ cnt.entries = []

theorem ContainerFits.writes (h : ContainerFits cnt) (type : BufferType) :
    Writes type (serialize build cnt) (encContainer build type cnt) :=
  writes_forM cnt.entries fun item hitem => (h item hitem).writes build type

/-- The bytes of a container, and what is made of them. -/
theorem ContainerFits.deserialize_iff (h : ContainerFits cnt) (hwf : b.Wf)
    (hunread : b.unread = encContainer build b.type cnt) (c : Container F D) :
    (∃ b', deserialize build .empty b = (.ok c, b')) ↔ Found build b.type cnt ∧ c = cnt := by
  have hrebuild : cnt.entries.foldl
      (fun cnt item => put cnt item.1 item.2.value item.2.units) .empty = cnt :=
    SortedMap.foldl_insertWith_entries (fun old _ => old) cnt
  have hfound : (∀ item ∈ cnt.entries, Described build b.type) ↔ Found build b.type cnt := by
    rw [Found, eq_nil_iff_forall_not_mem]
    constructor
    · intro hall
      by_cases hdesc : Described build b.type
      · exact .inl hdesc
      · exact .inr fun item hitem => hdesc (hall item hitem)
    · rintro (hdesc | hnone) item hitem
      · exact hdesc
      · exact absurd hitem (hnone item)
  rw [deserialize, whileNotEmpty_iff (fun item hitem => (h item hitem).round build b.type) hwf rfl
    hunread, hrebuild, hfound]

/-- **A container comes back** if the types of its entries are found. -/
theorem container_comes_back_iff (type : BufferType) (h : ContainerFits cnt) :
    (∃ b, serialize build cnt (construct type) = (.error (.rc .errOutOfResource), b)) ∨
    ∃ b, serialize build cnt (construct type) = (.ok (), b) ∧
      ((∃ b', deserialize build .empty b = (.ok cnt, b')) ↔ Found build type cnt) := by
  rcases h.writes build type _ (wf_construct type) rfl with ⟨n, hrun, hwf⟩ | ⟨b, hrun, -⟩
  · refine .inr ⟨_, hrun, ?_⟩
    rw [h.deserialize_iff build hwf rfl, eq_self_iff_true, and_true]
    rfl
  · exact .inl ⟨b, hrun⟩

/-! ## 6. Maps of containers -/

theorem onBuffer_ok {α : Type} {own own' x} {a : α} (h : x own = (.ok a, own')) :
    onBuffer own x = pure (a, own') := by
  funext buffer
  rw [onBuffer, h]
  rfl

theorem onBuffer_error {α : Type} {own own'} {x : Dss α} {e} (h : x own = (.error e, own')) :
    onBuffer own x = throw e := by
  funext buffer
  rw [onBuffer, h]
  rfl

/-- The number of bytes of a string, whatever the size of the other values. -/
def Value.size : Value F D → ℕ
  | .string v => v.length
  | _ => 0

/-- At most so many bytes are packed for an entry. -/
def itemSize (item : List UInt8 × Holder F D) : ℕ :=
  item.1.length + item.2.units.length + item.2.value.size + 51

/-- A label and a container that fit: the bytes of the container are not too many. -/
structure EntryFits (entry : List UInt8 × Container F D) : Prop where
  label : StrFits entry.1
  items : ContainerFits entry.2
  size : (entry.2.entries.map itemSize).sum < 2 ^ 31

theorem length_encLabel (type label) :
    (encLabel type label).length ≤ label.length + 11 := by
  have hheader := length_header type Dss.string.type 1
  have hbody : (stringFormat.enc type [charPtr label]).length = label.length + 5 := by
    simp [stringFormat, eachFormat, charPtr, CharPtr.enc, word, length_bigEndian]
    omega
  rw [encLabel, Format.encCall, length_append]
  omega

theorem Value.length_enc (type : BufferType) (value : Value F D) :
    (value.enc type).length ≤ value.size + 22 := by
  cases value <;> first
    | exact Nat.zero_le _
    | exact Nat.le_trans (length_encLabel type _) (Nat.add_le_add_left (by decide) _)
    | exact Format.length_encCall_le (n := 16) _ (Nat.le_of_ble_eq_true rfl)

theorem length_encItem (type : BufferType) (item : List UInt8 × Holder F D) :
    (encItem build type item).length ≤ itemSize item := by
  have hkey := length_encLabel type item.1
  have hunits := length_encLabel type item.2.units
  have hvalue := item.2.value.length_enc type
  have htyped : (encTyped build type item.2.value).length ≤ item.2.value.size + 29 := by
    have htag : (uint8Format.encCall type item.2.value.type).length ≤ 7 :=
      Format.length_encCall_le (n := 1) uint8Format (Nat.le_refl 1)
    rw [encTyped]
    split
    · omega
    · rw [length_append]
      omega
  rw [encItem, length_append, length_append, itemSize]
  omega

theorem length_flatMap_encItem (type : BufferType) : ∀ items : List (List UInt8 × Holder F D),
      (items.flatMap (encItem build type)).length ≤ (items.map itemSize).sum
  | [] => Nat.le_refl 0
  | item :: items => by
    rw [flatMap_cons, length_append, map_cons, sum_cons]
    exact Nat.add_le_add (length_encItem build type item) (length_flatMap_encItem type items)

theorem EntryFits.length_encContainer (h : EntryFits entry) (type : BufferType) :
    (encContainer build type entry.2).length < 2 ^ 31 :=
  Nat.lt_of_le_of_lt (length_flatMap_encItem build type entry.2.entries) h.size

/-- The bytes of a label and a container. -/
def encEntry (build : Build F D) (type : BufferType) (entry : List UInt8 × Container F D) :
    List UInt8 :=
  encLabel type entry.1 ++
    bufferFormat.encCall type (encContainer build build.defaultType entry.2)

theorem EntryFits.writes (h : EntryFits entry) (type : BufferType) :
    Writes type (packContainer build entry) (encEntry build type entry) := by
  have hlen := h.length_encContainer build build.defaultType
  refine (writes_packStringLabel h.label).bind ?_
  rcases h.items.writes build build.defaultType _ (wf_construct _) rfl with
    ⟨n, hrun, -⟩ | ⟨b, -, hlimit⟩
  · rw [onBuffer_ok hrun, pure_bind]
    exact bufferFormat.writes_packCall type hlen
  · simp only [memoryLimit, construct] at hlimit
    omega

theorem EntryFits.round (h : EntryFits entry) (type : BufferType) :
    Round type (pushBufferToContainerMap build)
      (fun cntMap entry => cntMap.insertWith (fun _ new => new) entry.1 entry.2)
      (encEntry build type) (fun entry => Found build build.defaultType entry.2) entry := by
  have hlen := h.length_encContainer build build.defaultType
  have hwf : (load build.defaultType
      (encContainer build build.defaultType entry.2)).Wf :=
    wf_load _ (by rw [ptrdiffMax]; omega)
  have hiff := h.items.deserialize_iff build hwf rfl
  refine ⟨?_, fun hfound cntMap => ?_, fun hfound cntMap => ?_⟩
  · cases type <;> exact fun hnil => by cases hnil
  · obtain ⟨own, hown⟩ := (hiff entry.2).mpr ⟨hfound, rfl⟩
    refine (reads_unpackStringLabel h.label).bind ?_
    refine (bufferFormat.reads_unpackCall type hlen).bind_pure ?_
    rw [onBuffer_ok hown]
    rfl
  · rcases hres : deserialize build .empty (load build.defaultType
      (encContainer build build.defaultType entry.2)) with ⟨e | c, own⟩
    · refine (reads_unpackStringLabel h.label).bind_refuses ?_
      have hrefuses : Refuses type (throw e : Dss (Container F D × Buffer)) [] :=
        fun b _ _ _ _ => ⟨e, b, rfl⟩
      rw [← List.append_nil (bufferFormat.encCall type _)]
      refine (bufferFormat.reads_unpackCall type hlen).bind_refuses ?_
      rw [onBuffer_error hres]
      exact hrefuses.bind _ []
    · exact absurd ((hiff c).mp ⟨own, hres⟩).1 hfound

/-- **A map of containers comes back** if the types of all entries are found in new buffers. -/
theorem map_comes_back_iff (type : BufferType) {cntMap : ContainerMap F D}
    (h : ∀ entry ∈ cntMap.entries, EntryFits entry) :
    (∃ b, serializeMap build cntMap (construct type) = (.error (.rc .errOutOfResource), b)) ∨
    ∃ b, serializeMap build cntMap (construct type) = (.ok (), b) ∧
      ((∃ b', deserializeMap build .empty b = (.ok cntMap, b')) ↔
        ∀ entry ∈ cntMap.entries, Found build build.defaultType entry.2) := by
  have hwrites : Writes type (serializeMap build cntMap)
      (cntMap.entries.flatMap (encEntry build type)) :=
    writes_forM cntMap.entries fun entry hentry => (h entry hentry).writes build type
  have hrebuild : cntMap.entries.foldl
      (fun cntMap entry => cntMap.insertWith (fun _ new => new) entry.1 entry.2) .empty = cntMap :=
    SortedMap.foldl_insertWith_entries (fun _ new => new) cntMap
  rcases hwrites _ (wf_construct type) rfl with ⟨n, hrun, hwf⟩ | ⟨b, hrun, -⟩
  · refine .inr ⟨_, hrun, ?_⟩
    rw [deserializeMap, whileNotEmpty_iff
      (fun entry hentry => (h entry hentry).round build type) hwf rfl rfl, hrebuild,
      eq_self_iff_true, and_true]
  · exact .inl ⟨b, hrun⟩

/-- **Data containers on the wire.**  What is serialized into a new buffer comes back, a container
if the buffer is described or the build is not a debug build or there are no entries, and a map of
containers if this holds of the buffers that are nested in it. -/
theorem containers_come_back_iff (build : Build F D) (type : BufferType) :
    (∀ cnt : Container F D, ContainerFits cnt →
      (∃ b, serialize build cnt (Buffer.construct type) = (.error (.rc .errOutOfResource), b)) ∨
      ∃ b, serialize build cnt (Buffer.construct type) = (.ok (), b) ∧
        ((∃ b', deserialize build .empty b = (.ok cnt, b')) ↔
          (build.debug = true → type = .fullyDesc) ∨ cnt.entries = [])) ∧
    (∀ cntMap : ContainerMap F D, (∀ entry ∈ cntMap.entries, EntryFits entry) →
      (∃ b, serializeMap build cntMap (Buffer.construct type) =
        (.error (.rc .errOutOfResource), b)) ∨
      ∃ b, serializeMap build cntMap (Buffer.construct type) = (.ok (), b) ∧
        ((∃ b', deserializeMap build .empty b = (.ok cntMap, b')) ↔ ∀ entry ∈ cntMap.entries,
            (build.debug = true → build.defaultType = .fullyDesc) ∨ entry.2.entries = [])) :=
  ⟨fun _ h => container_comes_back_iff build type h, fun _ h => map_comes_back_iff build type h⟩

end Wire

/-- A debug build or another one, with new buffers of one kind and floating point numbers that are
all zero. -/
def exampleBuild (debug : Bool) (defaultType : BufferType) : Build Unit Unit :=
  ⟨debug, defaultType, ⟨fun _ => [48], fun _ => (), fun _ => ⟨by decide, by decide⟩⟩,
    ⟨fun _ => [48], fun _ => (), fun _ => ⟨by decide, by decide⟩⟩⟩

/-- One entry, a number without units. -/
def exampleContainer : Container Unit Unit := put .empty [107] (.int32 7) []

/-- In a debug build it comes back from a described buffer. -/
theorem containers_come_back_iff_described : ∃ b b',
    serialize (exampleBuild true .fullyDesc) exampleContainer (Buffer.construct .fullyDesc) =
      (.ok (), b) ∧
    deserialize (exampleBuild true .fullyDesc) .empty b = (.ok exampleContainer, b') := by
  have hfits : ContainerFits exampleContainer := fun item hitem => by
    rw [List.mem_singleton.mp hitem]
    exact ⟨⟨by decide, by decide⟩, ⟨by decide, by decide⟩, trivial⟩
  obtain ⟨b, hrun, hiff⟩ := ((containers_come_back_iff (exampleBuild true .fullyDesc) .fullyDesc).1
    exampleContainer hfits).resolve_left
    (not_outOfResource (by decide +kernel))
  obtain ⟨b', hback⟩ := hiff.mpr (.inl fun _ => rfl)
  exact ⟨b, b', hrun, hback⟩

/-- **A debug build loses a container** that was serialized into a buffer that is not described. -/
theorem debug_loses_container :
    let packed := serialize (exampleBuild true .fullyDesc) exampleContainer
      (Buffer.construct .nonDesc)
    packed.1 = .ok () ∧ (deserialize (exampleBuild true .fullyDesc) .empty packed.2).1 =
      .error (.rc .errUnknownDataType) := by
  decide +kernel

end Sensys.Orcm.DataContainer
