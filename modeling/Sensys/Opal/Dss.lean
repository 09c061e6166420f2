/-
# The data storage service

The model of `opal/dss`: buffers, and the functions that pack arrays of values into them and unpack
them again (`dss_pack.c`, `dss_unpack.c`, `dss_peek.c` and `dss_internal_functions.c`), for the
types other than floating point numbers and statistics.

A function that packs or unpacks is a computation on the buffer: a call that returns an error code
may have moved the pointers all the same.  A registered type is a `TypeInfo`, its number with its
two functions, so the table `opal_dss_types` is the list of definitions in section 6.  An array and
`num_vals` are one list; a `char *` is `NULL` or the memory it points to.

`Stop.undefined` stands for what C leaves undefined: an access outside of the memory of a buffer or
of a source array, or the overflow of a signed number.  `malloc` and `realloc` give memory of every
size that an object can have, and none beyond (`PTRDIFF_MAX`).  A `bool` has one byte, an `int` and
a `pid_t` four, a `size_t`, a `time_t` and the fields of a `timeval` eight.
-/
import Sensys.Constants
import Sensys.Lib.Bytes
import Sensys.Lib.Failing

namespace Sensys.Opal.Dss

/-! ## 1. Buffers -/

/-- `opal_dss_buffer_type_t`. -/
inductive BufferType where
  | nonDesc | fullyDesc
  deriving DecidableEq, Repr

/-- `opal_buffer_t`: the bytes in use behind `base_ptr`, and `unpack_ptr` as an offset from it.
`pack_ptr` is always `bytes_used` behind `base_ptr`. -/
structure Buffer where
  type : BufferType
  base : List UInt8
  bytesAllocated : ℕ
  bytesUsed : ℕ
  unpackPtr : ℤ
  deriving DecidableEq, Repr

/-- The constructor. -/
def Buffer.construct (type : BufferType) : Buffer := ⟨type, [], 0, 0, 0⟩

/-- `opal_dss_load`. -/
def Buffer.load (type : BufferType) (payload : List UInt8) : Buffer :=
  ⟨type, payload, payload.length, payload.length, 0⟩

/-- Why a call ends early. -/
inductive Stop where
  | rc (rc : Rc)
  | undefined
  deriving DecidableEq, Repr

end Dss

/-- A computation on a buffer. -/
abbrev Dss := Failing Dss.Stop Dss.Buffer

namespace Dss

/-- A computation that looks at `buffer->type`. -/
def withType {α : Type} (f : BufferType → Dss α) : Dss α := fun buffer => f buffer.type buffer

/-- The conversion to `size_t`. -/
def sizeT (n : ℤ) : ℕ := (n % 2 ^ 64).toNat

/-- `OPAL_DSS_DEFAULT_INITIAL_SIZE`. -/
def initialSize : ℕ := 128

/-- `OPAL_DSS_DEFAULT_THRESHOLD_SIZE`. -/
def thresholdSize : ℕ := 1024

/-- `PTRDIFF_MAX`. -/
def ptrdiffMax : ℕ := 2 ^ 63 - 1

/-- The doubling loop of `opal_dss_buffer_extend`.  It ends after at most `required` rounds. -/
def grow (required : ℕ) : ℕ → ℕ → ℕ
  | 0, toAlloc => toAlloc
  | fuel + 1, toAlloc => if toAlloc < required then grow required fuel (2 * toAlloc) else toAlloc

/-- The size that `opal_dss_buffer_extend` allocates. -/
def toAlloc (bytesAllocated required : ℕ) : ℕ :=
  if thresholdSize ≤ required then
    sizeT (required + thresholdSize - 1) / thresholdSize * thresholdSize
  else grow required required (if bytesAllocated = 0 then initialSize else bytesAllocated)

/-- `opal_dss_buffer_extend`.  A buffer without memory starts anew; one whose memory cannot be
extended has lost it. -/
def bufferExtend (bytesToAdd : ℕ) : Dss Unit := fun buffer =>
  if bytesToAdd ≤ sizeT (buffer.bytesAllocated - buffer.bytesUsed) then (.ok (), buffer)
  else
    let size := toAlloc buffer.bytesAllocated (sizeT (buffer.bytesUsed + bytesToAdd))
    let buffer :=
      if buffer.base.isEmpty then { buffer with bytesUsed := 0, unpackPtr := 0 } else buffer
    if size ≤ ptrdiffMax then
      (.ok (), { buffer with base := buffer.base.take size, bytesAllocated := size })
    else (.error (.rc .errOutOfResource), { buffer with base := [] })

/-- The bytes copied behind `pack_ptr`, and the pointer moved. -/
def append (bytes : List UInt8) : Dss Unit := fun buffer =>
  if buffer.bytesUsed + bytes.length ≤ buffer.bytesAllocated then
    (.ok (), { buffer with
      base := buffer.base ++ bytes
      bytesUsed := buffer.bytesUsed + bytes.length })
  else (.error .undefined, buffer)

/-- `opal_dss_too_small`. -/
def tooSmall (bytesReqd : ℕ) (buffer : Buffer) : Bool :=
  decide (buffer.bytesUsed < buffer.unpackPtr) ||
    decide (sizeT (buffer.bytesUsed - buffer.unpackPtr) < bytesReqd)

/-- The test at the start of a function that unpacks. -/
def unlessTooSmall {α : Type} (bytesReqd : ℕ) (x : Dss α) : Dss α := fun buffer =>
  if tooSmall bytesReqd buffer then (.error (.rc .errUnpackReadPastEndOfBuffer), buffer)
  else x buffer

/-- So many bytes copied from `unpack_ptr`, and the pointer moved. -/
def fetch (n : ℤ) : Dss (List UInt8) := fun buffer =>
  if 0 ≤ buffer.unpackPtr ∧ buffer.unpackPtr + sizeT n ≤ buffer.base.length then
    (.ok ((buffer.base.drop buffer.unpackPtr.toNat).take (sizeT n)),
      { buffer with unpackPtr := buffer.unpackPtr + n })
  else (.error .undefined, buffer)

/-- The first value of an array that was unpacked. -/
def one {α : Type} (x : Dss (List α)) : Dss α := do
  match ← x with
  | a :: _ => pure a
  | [] => throw .undefined

/-! ## 2. Bytes and numbers -/

/-- `opal_dss_pack_byte`. -/
def packByte (src : List UInt8) (numVals : ℤ) : Dss Unit := do
  bufferExtend (sizeT numVals)
  if sizeT numVals ≤ src.length then append (src.take (sizeT numVals)) else throw .undefined

/-- `opal_dss_unpack_byte`. -/
def unpackByte (numVals : ℤ) : Dss (List UInt8) :=
  unlessTooSmall (sizeT numVals) (fetch numVals)

/-- The functions that pack numbers of two, four and eight bytes. -/
def packWords (size : ℕ) (src : List ℕ) : Dss Unit := do
  bufferExtend (sizeT (src.length * size))
  append (src.flatMap (bigEndian size))

/-- The functions that unpack them. -/
def unpackWords (size : ℕ) (numVals : ℤ) : Dss (List ℕ) :=
  unlessTooSmall (sizeT (numVals * size))
    (Failing.times numVals.toNat (ofBigEndian <$> fetch size))

/-- `opal_dss_pack_int16`. -/
def packInt16 (src : List UInt16) : Dss Unit := packWords 2 (src.map UInt16.toNat)

/-- `opal_dss_unpack_int16`. -/
def unpackInt16 (numVals : ℤ) : Dss (List UInt16) := List.map UInt16.ofNat <$> unpackWords 2 numVals

/-- `opal_dss_pack_int32`. -/
def packInt32 (src : List UInt32) : Dss Unit := packWords 4 (src.map UInt32.toNat)

/-- `opal_dss_unpack_int32`. -/
def unpackInt32 (numVals : ℤ) : Dss (List UInt32) := List.map UInt32.ofNat <$> unpackWords 4 numVals

/-- `opal_dss_pack_int64`. -/
def packInt64 (src : List UInt64) : Dss Unit := packWords 8 (src.map UInt64.toNat)

/-- `opal_dss_unpack_int64`. -/
def unpackInt64 (numVals : ℤ) : Dss (List UInt64) := List.map UInt64.ofNat <$> unpackWords 8 numVals

/-- One `int32_t`, packed by `opal_dss_pack_int32`. -/
def packLength (n : ℤ) : Dss Unit := packInt32 [(Int32.ofInt n).toUInt32]

/-- One `int32_t`, unpacked by `opal_dss_unpack_int32`. -/
def unpackLength : Dss ℤ := (fun n => n.toInt32.toInt) <$> one (unpackInt32 1)

/-! ## 3. Types -/

/-- `opal_dss_type_info_t`. -/
structure TypeInfo (α : Type) where
  type : UInt8
  packFn : List α → Dss Unit
  unpackFn : ℤ → Dss (List α)

/-- The functions of a type, registered for another one of the same size. -/
def TypeInfo.reinterpret {α β : Type} (info : TypeInfo α) (type : UInt8) (raw : β → α)
    (ofRaw : α → β) : TypeInfo β where
  type := type
  packFn src := info.packFn (src.map raw)
  unpackFn numVals := List.map ofRaw <$> info.unpackFn numVals

/-- `opal_dss_store_data_type`. -/
def storeDataType (type : UInt8) : Dss Unit := packByte [type] 1

/-- `opal_dss_get_data_type`. -/
def getDataType : Dss UInt8 := one (unpackByte 1)

/-- `opal_dss_peek_type`. -/
def peekType : Dss UInt8 := fun buffer =>
  if buffer.type ≠ .fullyDesc then (.error (.rc .errUnknownDataType), buffer)
  else if buffer.bytesUsed ≤ buffer.unpackPtr then
    (.error (.rc .errUnpackReadPastEndOfBuffer), buffer)
  else ((getDataType buffer).1, buffer)

/-- The number of a type, stored if the buffer is described. -/
def describe (type : UInt8) : Dss Unit := withType fun bufferType =>
  if bufferType = .fullyDesc then storeDataType type else pure ()

/-- The number of a type, read and compared if the buffer is described. -/
def expect (type : UInt8) (mismatch : Rc) : Dss Unit := withType fun bufferType =>
  if bufferType = .fullyDesc then do
    let localType ← getDataType
    if type ≠ localType then throw (.rc mismatch) else pure ()
  else pure ()

/-- `opal_dss_pack_buffer`. -/
def packBuffer {α : Type} (info : TypeInfo α) (src : List α) : Dss Unit := do
  describe info.type
  info.packFn src

/-- `opal_dss_unpack_buffer`. -/
def unpackBuffer {α : Type} (info : TypeInfo α) (numVals : ℤ) : Dss (List α) := do
  expect info.type .errPackMismatch
  info.unpackFn numVals

/-- A call of `opal_dss_pack_buffer` with one value. -/
def packOne {α : Type} (info : TypeInfo α) (a : α) : Dss Unit := packBuffer info [a]

/-- A call of `opal_dss_unpack_buffer` for one value. -/
def unpackOne {α : Type} (info : TypeInfo α) : Dss α := one (unpackBuffer info 1)

/-- `OPAL_INT32`. -/
def int32Type : UInt8 := 9

/-- `opal_dss_pack`. -/
def pack {α : Type} (info : TypeInfo α) (src : List α) : Dss Unit := do
  describe int32Type
  packLength src.length
  packBuffer info src

/-- The number of values at `unpack_ptr`. -/
def unpackCount : Dss ℤ := do
  expect int32Type .errUnpackFailure
  unpackLength

/-- `opal_dss_unpack`, for arrays with room for `numVals` values: the number of values that it
reports, and the values. -/
def unpack {α : Type} (info : TypeInfo α) (numVals : ℤ) : Dss (ℤ × List α) :=
  if numVals = 0 then throw (.rc .errUnpackInadequateSpace)
  else do
    let localNum ← unpackCount
    if numVals < localNum then
      let _ ← unpackBuffer info numVals
      throw (.rc .errUnpackInadequateSpace)
    else
      let dst ← unpackBuffer info localNum
      pure (localNum, dst)

/-- `opal_dss_peek`: the type of the values that come next. -/
def peek : Dss UInt8 := fun buffer =>
  if buffer.bytesUsed ≤ buffer.unpackPtr then
    (.error (.rc .errUnpackReadPastEndOfBuffer), buffer)
  else if buffer.type ≠ .fullyDesc then (.error (.rc .errUnknownDataType), buffer)
  else
    let look : Dss UInt8 := do
      let localType ← getDataType
      if int32Type ≠ localType then throw (.rc .errUnpackFailure)
      else do
        let _ ← unpackLength
        getDataType
    ((look buffer).1, buffer)

/-! ## 4. Numbers of a fixed size -/

/-- `OPAL_BYTE`. -/
def byte : TypeInfo UInt8 := ⟨1, fun src => packByte src src.length, unpackByte⟩

/-- `OPAL_UINT8`. -/
def uint8 : TypeInfo UInt8 := { byte with type := 12 }

/-- `OPAL_UINT16`. -/
def uint16 : TypeInfo UInt16 := ⟨13, packInt16, unpackInt16⟩

/-- `OPAL_UINT32`. -/
def uint32 : TypeInfo UInt32 := ⟨14, packInt32, unpackInt32⟩

/-- `OPAL_UINT64`. -/
def uint64 : TypeInfo UInt64 := ⟨15, packInt64, unpackInt64⟩

/-- `OPAL_INT8`. -/
def int8 : TypeInfo Int8 := byte.reinterpret 7 Int8.toUInt8 UInt8.toInt8

/-- `OPAL_INT16`. -/
def int16 : TypeInfo Int16 := uint16.reinterpret 8 Int16.toUInt16 UInt16.toInt16

/-- `OPAL_INT32`. -/
def int32 : TypeInfo Int32 := uint32.reinterpret int32Type Int32.toUInt32 UInt32.toInt32

/-- `OPAL_INT64`. -/
def int64 : TypeInfo Int64 := uint64.reinterpret 10 Int64.toUInt64 UInt64.toInt64

/-! ## 5. Numbers of a size that depends on the system -/

/-- The functions that pack them add the number of the real type. -/
def packReal {α : Type} (real : TypeInfo α) (src : List α) : Dss Unit := do
  withType fun bufferType =>
    if bufferType = .fullyDesc then pure () else storeDataType real.type
  packBuffer real src

/-- `UNPACK_SIZE_MISMATCH_FOUND`. -/
def unpackConverted {α β : Type} (remote : TypeInfo α) (value : α → ℤ) (convert : ℤ → β)
    (numVals : ℤ) : Dss (List β) :=
  List.map (fun a => convert (value a)) <$> unpackBuffer remote numVals

/-- `UNPACK_SIZE_MISMATCH`. -/
def unpackSizeMismatch {β : Type} (convert : ℤ → β) (remoteType : UInt8) (numVals : ℤ) :
    Dss (List β) :=
  if remoteType = uint8.type then unpackConverted uint8 (fun a => a.toNat) convert numVals
  else if remoteType = int8.type then unpackConverted int8 Int8.toInt convert numVals
  else if remoteType = uint16.type then unpackConverted uint16 (fun a => a.toNat) convert numVals
  else if remoteType = int16.type then unpackConverted int16 Int16.toInt convert numVals
  else if remoteType = uint32.type then unpackConverted uint32 (fun a => a.toNat) convert numVals
  else if remoteType = int32.type then unpackConverted int32 Int32.toInt convert numVals
  else if remoteType = uint64.type then unpackConverted uint64 (fun a => a.toNat) convert numVals
  else if remoteType = int64.type then unpackConverted int64 Int64.toInt convert numVals
  else throw (.rc .errNotFound)

/-- The number of the type that was packed: still to be unpacked if the buffer is described. -/
def remoteType : Dss UInt8 :=
  withType fun bufferType => if bufferType = .fullyDesc then peekType else getDataType

/-- The functions that unpack them convert from the type that was packed. -/
def unpackReal {α : Type} (real : TypeInfo α) (convert : ℤ → α) (numVals : ℤ) : Dss (List α) := do
  let remote ← remoteType
  if remote = real.type then unpackBuffer real numVals
  else unpackSizeMismatch convert remote numVals

/-- `OPAL_INT`, with `opal_dss_pack_int` and `opal_dss_unpack_int`. -/
def int : TypeInfo Int32 := ⟨6, packReal int32, unpackReal int32 Int32.ofInt⟩

/-- `OPAL_UINT`, registered with the functions of `OPAL_INT`. -/
def uint : TypeInfo UInt32 := int.reinterpret 11 UInt32.toInt32 Int32.toUInt32

/-- `OPAL_SIZE`, with `opal_dss_pack_sizet` and `opal_dss_unpack_sizet`. -/
def size : TypeInfo UInt64 :=
  ⟨4, packReal uint64, unpackReal uint64 fun n => UInt64.ofNat (sizeT n)⟩

/-- `OPAL_PID`, with `opal_dss_pack_pid` and `opal_dss_unpack_pid`. -/
def pid : TypeInfo Int32 :=
  TypeInfo.reinterpret ⟨5, packReal uint32, unpackReal uint32 fun n => (Int32.ofInt n).toUInt32⟩ 5
    Int32.toUInt32 UInt32.toInt32

/-- `OPAL_BOOL`, with `opal_dss_pack_bool` and `opal_dss_unpack_bool`. -/
def bool : TypeInfo Bool :=
  TypeInfo.reinterpret ⟨2, packReal uint8, unpackReal uint8 fun n => if n = 0 then 0 else 1⟩ 2
    Bool.toUInt8 fun byte => byte != 0

/-! ## 6. Strings, times, byte objects, buffers and names -/

/-- A `char *`. -/
abbrev CharPtr := Option (List UInt8)

/-- The `char *` that points to a string. -/
def charPtr (s : List UInt8) : CharPtr := some (s ++ [0])

/-- `strdup`: the bytes up to the first zero. -/
def strdup : CharPtr → Dss (List UInt8)
  | none => throw .undefined
  | some bytes =>
    match bytes.findIdx? (· == 0) with
    | none => throw .undefined
    | some strlen => pure (bytes.take strlen)

/-- One round of `opal_dss_pack_string`. -/
def packCharPtr : CharPtr → Dss Unit
  | none => packLength 0
  | some bytes =>
    match bytes.findIdx? (· == 0) with
    | none => throw .undefined
    | some strlen =>
      let len := Sensys.int32 strlen + 1
      if 2 ^ 31 ≤ len then throw .undefined
      else do
        packLength len
        packByte bytes len

/-- One round of `opal_dss_unpack_string`. -/
def unpackCharPtr : Dss CharPtr := do
  let len ← unpackLength
  if len = 0 then pure none
  else if ptrdiffMax < sizeT len then throw (.rc .errOutOfResource)
  else some <$> unpackByte len

/-- `OPAL_STRING`. -/
def string : TypeInfo CharPtr :=
  ⟨3, fun src => src.forM packCharPtr, fun numVals => Failing.times numVals.toNat unpackCharPtr⟩

/-- `struct timeval`. -/
structure Timeval where
  tvSec : Int64
  tvUsec : Int64
  deriving DecidableEq, Repr

/-- One round of `opal_dss_unpack_timeval`. -/
def unpackTimeval : Dss Timeval := do
  match ← unpackInt64 2 with
  | [sec, usec] => pure ⟨sec.toInt64, usec.toInt64⟩
  | _ => throw .undefined

/-- `OPAL_TIMEVAL`. -/
def timeval : TypeInfo Timeval where
  type := 18
  packFn src := src.forM fun tv => packInt64 [tv.tvSec.toUInt64, tv.tvUsec.toUInt64]
  unpackFn numVals :=
    unlessTooSmall (sizeT (numVals * 16)) (Failing.times numVals.toNat unpackTimeval)

/-- `OPAL_TIME`. -/
def time : TypeInfo Int64 where
  type := 19
  packFn src := src.forM fun t => packInt64 [t.toUInt64]
  unpackFn numVals :=
    unlessTooSmall (sizeT (numVals * 8))
      (Failing.times numVals.toNat (UInt64.toInt64 <$> one (unpackInt64 1)))

/-- `OPAL_DATA_TYPE`. -/
def dataType : TypeInfo UInt8 := ⟨21, packBuffer uint8, unpackBuffer uint8⟩

/-- `opal_byte_object_t`. -/
structure ByteObject where
  size : ℤ
  bytes : List UInt8
  deriving DecidableEq, Repr

/-- One round of `opal_dss_pack_byte_object`. -/
def packByteObject (object : ByteObject) : Dss Unit := do
  packLength object.size
  if 0 < object.size then packByte object.bytes object.size

/-- One round of `opal_dss_unpack_byte_object`.  A positive `int32_t` is a size `malloc` can give. -/
def unpackByteObject : Dss ByteObject := do
  let size ← unpackLength
  if 0 < size then
    let bytes ← unpackByte size
    pure ⟨size, bytes⟩
  else pure ⟨size, []⟩

/-- `OPAL_BYTE_OBJECT`. -/
def byteObject : TypeInfo ByteObject :=
  ⟨20, fun src => src.forM packByteObject,
    fun numVals => Failing.times numVals.toNat unpackByteObject⟩

/-- One round of `opal_dss_pack_buffer_contents`: the bytes in use of another buffer. -/
def packContents (bytes : List UInt8) : Dss Unit := do
  size.packFn [UInt64.ofNat bytes.length]
  if 0 < bytes.length then packByte bytes (Sensys.int32 bytes.length)

/-- One round of `opal_dss_unpack_buffer_contents`.  The result of `malloc` is not checked. -/
def unpackContents : Dss (List UInt8) := do
  let nbytes ← one (size.unpackFn 1)
  if 0 < nbytes then
    let bytes ← unpackByte (Sensys.int32 nbytes.toNat)
    if ptrdiffMax < nbytes.toNat ∧ bytes ≠ [] then throw .undefined else pure bytes
  else pure []

/-- `OPAL_BUFFER`. -/
def buffer : TypeInfo (List UInt8) :=
  ⟨27, fun src => src.forM packContents, fun numVals => Failing.times numVals.toNat unpackContents⟩

/-- `opal_process_name_t`. -/
structure ProcessName where
  jobid : UInt32
  vpid : UInt32
  deriving DecidableEq, Repr

/-- `OPAL_JOBID`. -/
def jobid : TypeInfo UInt32 := ⟨51, packBuffer uint32, unpackBuffer uint32⟩

/-- `OPAL_VPID`. -/
def vpid : TypeInfo UInt32 := ⟨52, packBuffer uint32, unpackBuffer uint32⟩

/-- `opal_dss_pack_name`. -/
def packName (src : List ProcessName) : Dss Unit := do
  jobid.packFn (src.map ProcessName.jobid)
  vpid.packFn (src.map ProcessName.vpid)

/-- `opal_dss_unpack_name`. -/
def unpackName (numVals : ℤ) : Dss (List ProcessName) :=
  if ptrdiffMax < sizeT (numVals * 4) then throw (.rc .errOutOfResource)
  else do
    let jobids ← jobid.unpackFn numVals
    let vpids ← vpid.unpackFn numVals
    pure (List.zipWith ProcessName.mk jobids vpids)

/-- `OPAL_NAME`. -/
def name : TypeInfo ProcessName := ⟨50, packName, unpackName⟩

/-! ## 7. Objects and lists

The types that are registered from outside have arrays of pointers to objects.  A list is packed
with its length in front, with one call for each member. -/

/-- A call of `opal_dss.pack` with one value. -/
def packCall {α : Type} (info : TypeInfo α) (a : α) : Dss Unit := pack info [a]

/-- A call of `opal_dss.unpack` for one value. -/
def unpackCall {α : Type} (info : TypeInfo α) : Dss α := one (Prod.snd <$> unpack info 1)

/-- A type whose objects are packed one by one. -/
def objects {α : Type} (type : UInt8) (w : α → Dss Unit) (r : Dss α) : TypeInfo α :=
  ⟨type, fun src => src.forM w, fun numVals => Failing.times numVals.toNat r⟩

/-- A list is packed, each member by `w`. -/
def packCounted {α : Type} (w : α → Dss Unit) (members : List α) : Dss Unit := do
  packOne int32 (Int32.ofInt members.length)
  members.forM w

/-- A list is unpacked, each member by `x`. -/
def unpackCounted {α : Type} (x : Dss α) : Dss (List α) := do
  let n ← unpackOne int32
  Failing.times n.toInt.toNat x

/-- An `argv` is packed. -/
def packArgv : List (List UInt8) → Dss Unit := packCounted fun s => packOne string (charPtr s)

/-- An `argv` is unpacked, and its strings are appended by `opal_argv_append_nosize`. -/
def unpackArgv : Dss (List (List UInt8)) := unpackCounted (unpackOne string >>= strdup)

end Dss

end Sensys.Opal
