/-
# The bytes of the types, and sequences of calls

A `Format` is the description of a registered type: the values that it can carry, the bytes that it
writes for an array of them, and the proofs that its two functions write and read those bytes
(`Opal/DssWire.lean`).  A function of `dss_pack.c` that is wrapped in another one has its format
from that of the function inside: a type of the same size, a type whose real size is written in
front, an array that is a loop over its values.

Most types carry every value.  The exceptions come from lengths that are kept in an `int32_t`:
a string of `2 ^ 31 - 1` bytes or more and a buffer with `2 ^ 31` bytes or more do not come back.

* `Format.lossless_packBuffer`: what `opal_dss_pack_buffer` writes, `opal_dss_unpack_buffer` reads.
* `calls_come_back`: a sequence of calls of `opal_dss_pack`, with any types and counts, is read by
  `opal_dss_unpack`, and the pointers meet.
* `long_string_is_lost`: a string whose length wraps to zero comes back as `NULL`.
-/
import Sensys.Opal.DssWire

namespace Sensys.Opal.Dss

open Failing List

/-! ## 1. Formats -/

/-- **The format of a type.** -/
structure Format {α : Type} (info : TypeInfo α) where
  Ok : α → Prop
  enc : BufferType → List α → List UInt8
  writes : ∀ type src, src.length < 2 ^ 31 → (∀ a ∈ src, Ok a) →
    Writes type (info.packFn src) (enc type src)
  reads : ∀ type src, src.length < 2 ^ 31 → (∀ a ∈ src, Ok a) →
    Reads type (info.unpackFn src.length) (enc type src) src

section Build

variable {α β : Type} {info : TypeInfo α}

/-- The functions of a type under another number. -/
def Format.withNumber (f : Format info) (t : UInt8) : Format { info with type := t } :=
  { f with }

/-- A type of the same size. -/
def Format.reinterpret (f : Format info) (t : UInt8) (raw : β → α) (ofRaw : α → β)
    (inverse : ∀ b, ofRaw (raw b) = b) : Format (info.reinterpret t raw ofRaw) where
  Ok b := f.Ok (raw b)
  enc type src := f.enc type (src.map raw)
  writes type src hlen hok :=
    f.writes type (src.map raw) (by rwa [length_map]) (by simpa using hok)
  reads type src hlen hok := by
    have hreads := f.reads type (src.map raw) (by rwa [length_map]) (by simpa using hok)
    have hmap := hreads.map (List.map ofRaw)
    rw [map_map, (funext inverse : ofRaw ∘ raw = id), map_id, length_map] at hmap
    exact hmap

/-- The array of a type, packed as a call of its own. -/
def Format.nested (f : Format info) (t : UInt8) :
    Format ⟨t, packBuffer info, unpackBuffer info⟩ where
  Ok := f.Ok
  enc type src := tag type info.type ++ f.enc type src
  writes type src hlen hok := writes_packBuffer (f.writes type src hlen hok)
  reads type src hlen hok := reads_unpackBuffer (f.reads type src hlen hok)

/-- The next byte of a described buffer, which is looked at only. -/
theorem peekType_eq {b} (h : b.Wf) (htype : b.type = .fullyDesc) {t rest}
    (hunread : b.unread = t :: rest) : peekType b = (.ok t, b) := by
  have hlen := h.length_unread
  rw [hunread, length_cons] at hlen
  rw [peekType, if_neg (fun hne => hne htype), if_neg (by omega),
    reads_getDataType t b h htype rest hunread]

/-- A type whose real type is written in front: the tag of the array, or a byte of its own. -/
def Format.real (f : Format info) (t : UInt8) (convert : ℤ → α) :
    Format ⟨t, packReal info, unpackReal info convert⟩ where
  Ok := f.Ok
  enc type src := [info.type] ++ f.enc type src
  writes type src hlen hok := by
    have hbuffer := writes_packBuffer (f.writes type src hlen hok)
    cases type with
    | nonDesc => exact (writes_withType (writes_storeDataType info.type)).bind hbuffer
    | fullyDesc => exact Writes.bind (s := []) (writes_withType writes_pure) hbuffer
  reads type src hlen hok := by
    have hbuffer := reads_unpackBuffer (f.reads type src hlen hok)
    cases type with
    | nonDesc =>
      refine (reads_withType (reads_getDataType info.type)).bind ?_
      rwa [if_pos rfl]
    | fullyDesc =>
      intro b h htype rest hunread
      have hremote : remoteType b = (.ok info.type, b) := by
        rw [remoteType, withType, htype, if_pos rfl]
        exact peekType_eq h htype hunread
      refine (bind_ok hremote).trans ?_
      rw [if_pos rfl]
      exact hbuffer b h htype rest hunread

variable {type : BufferType}

theorem writes_words {size} (hsize : size ≤ 8) (toNat : α → ℕ) {src : List α}
    (hlen : src.length < 2 ^ 31) : Writes type (packWords size (src.map toNat))
      (src.flatMap fun a => bigEndian size (toNat a)) := by
  have hle : src.length * size ≤ src.length * 8 := Nat.mul_le_mul_left _ hsize
  have hwrites : Writes type (packWords size (src.map toNat)) _ :=
    writes_packWords (by rw [length_map, memoryLimit]; omega)
  rwa [flatMap_map] at hwrites

theorem reads_words {size} (hsize : size ≤ 8) {toNat : α → ℕ} {ofNat}
    (hlt : ∀ a, toNat a < 256 ^ size) (inverse : ∀ a, ofNat (toNat a) = a) {src}
    (hlen : src.length < 2 ^ 31) : Reads type (List.map ofNat <$> unpackWords size src.length)
      (src.flatMap fun a => bigEndian size (toNat a)) src := by
  have hle : src.length * size ≤ src.length * 8 := Nat.mul_le_mul_left _ hsize
  have hreads : Reads type (unpackWords size src.length) _ (src.map toNat) :=
    reads_unpackWords (by rw [length_map]) (List.forall_mem_map.mpr fun a _ => hlt a)
      (by rw [memoryLimit]; omega) (by rw [length_map, memoryLimit]; omega)
  have hmap := hreads.map (List.map ofNat)
  rwa [map_map, (funext inverse : ofNat ∘ toNat = id), map_id, flatMap_map] at hmap

/-- Numbers of two, four and eight bytes. -/
def wordsFormat (t : UInt8) (size : ℕ) (toNat : α → ℕ) (ofNat : ℕ → α) (hsize : size ≤ 8)
    (hlt : ∀ a, toNat a < 256 ^ size) (inverse : ∀ a, ofNat (toNat a) = a) :
    Format ⟨t, fun src => packWords size (src.map toNat),
      fun numVals => List.map ofNat <$> unpackWords size numVals⟩ where
  Ok _ := True
  enc _ src := src.flatMap fun a => bigEndian size (toNat a)
  writes _ _ hlen _ := writes_words hsize toNat hlen
  reads _ _ hlen _ := reads_words hsize hlt inverse hlen

theorem writes_forM {w enc} :
    ∀ as : List α, (∀ a ∈ as, Writes type (w a) (enc a)) → Writes type (as.forM w) (as.flatMap enc)
  | [], _ => writes_pure
  | a :: as, h => (h a mem_cons_self).bind
      (writes_forM as fun b hb => h b (mem_cons_of_mem a hb))

/-- An array that is a loop over its values. -/
def eachFormat (t : UInt8) (w : α → Dss Unit) (r : Dss α) (Ok : α → Prop)
    (enc : BufferType → α → List UInt8) (hw : ∀ type a, Ok a → Writes type (w a) (enc type a))
    (hr : ∀ type a, Ok a → Reads type r (enc type a) a) :
    Format ⟨t, fun src => src.forM w, fun numVals => times numVals.toNat r⟩ where
  Ok := Ok
  enc type src := src.flatMap (enc type)
  writes type src _ hok := writes_forM src fun a ha => hw type a (hok a ha)
  reads type _ _ hok := reads_times fun a ha => hr type a (hok a ha)

/-- Such an array of values of one size, which is checked in front of the loop. -/
def sizedFormat (t : UInt8) (w : α → Dss Unit) (r : Dss α) (size : ℕ)
    (enc : α → List UInt8) (hsize : size ≤ 16) (hlen : ∀ a, (enc a).length = size)
    (hw : ∀ type a, Writes type (w a) (enc a)) (hr : ∀ type a, Reads type r (enc a) a) :
    Format ⟨t, fun src => src.forM w, fun numVals =>
      unlessTooSmall (sizeT (numVals * size)) (times numVals.toNat r)⟩ where
  Ok _ := True
  enc _ src := src.flatMap enc
  writes type src _ _ := writes_forM src fun a _ => hw type a
  reads type src hcount _ := by
    have hle : src.length * size ≤ src.length * 16 := Nat.mul_le_mul_left _ hsize
    have htimes : Reads type (times src.length r) _ src := reads_times fun a _ => hr type a
    refine htimes.unlessTooSmall ?_
    rw [← Int.natCast_mul, sizeT_natCast (by omega)]
    simp [length_flatMap, hlen]

end Build

/-! ## 2. The registered types -/

theorem lt_memoryLimit {n} (h : n < 2 ^ 31) : n < memoryLimit := by
  rw [memoryLimit]
  omega

/-- `OPAL_BYTE`. -/
def byteFormat : Format byte where
  Ok _ := True
  enc _ src := src
  writes _ _ hlen _ := writes_packByte rfl (lt_memoryLimit hlen)
  reads _ _ hlen _ := reads_unpackByte rfl (lt_memoryLimit hlen)

/-- `OPAL_UINT8`. -/
def uint8Format : Format uint8 := byteFormat.withNumber 12

/-- `OPAL_UINT16`. -/
def uint16Format : Format uint16 :=
  wordsFormat 13 2 UInt16.toNat UInt16.ofNat (by decide) UInt16.toNat_lt fun _ => UInt16.ofNat_toNat

/-- `OPAL_UINT32`. -/
def uint32Format : Format uint32 :=
  wordsFormat 14 4 UInt32.toNat UInt32.ofNat (by decide) UInt32.toNat_lt fun _ => UInt32.ofNat_toNat

/-- `OPAL_UINT64`. -/
def uint64Format : Format uint64 :=
  wordsFormat 15 8 UInt64.toNat UInt64.ofNat (by decide) UInt64.toNat_lt fun _ => UInt64.ofNat_toNat

/-- `OPAL_INT8`. -/
def int8Format : Format int8 := byteFormat.reinterpret 7 _ _ fun _ => rfl

/-- `OPAL_INT16`. -/
def int16Format : Format int16 := uint16Format.reinterpret 8 _ _ fun _ => rfl

/-- `OPAL_INT32`. -/
def int32Format : Format int32 := uint32Format.reinterpret int32Type _ _ fun _ => rfl

/-- `OPAL_INT64`. -/
def int64Format : Format int64 := uint64Format.reinterpret 10 _ _ fun _ => rfl

/-- `OPAL_INT`. -/
def intFormat : Format int := int32Format.real 6 _

/-- `OPAL_UINT`. -/
def uintFormat : Format uint := intFormat.reinterpret 11 _ _ fun _ => rfl

/-- `OPAL_SIZE`. -/
def sizeFormat : Format size := uint64Format.real 4 _

/-- `OPAL_PID`. -/
def pidFormat : Format pid := (uint32Format.real 5 _).reinterpret 5 _ _ fun _ => rfl

/-- `OPAL_BOOL`. -/
def boolFormat : Format bool := (uint8Format.real 2 _).reinterpret 2 _ _ (by decide)

/-- `OPAL_DATA_TYPE`. -/
def dataTypeFormat : Format dataType := uint8Format.nested 21

/-- `OPAL_JOBID`. -/
def jobidFormat : Format jobid := uint32Format.nested 51

/-- `OPAL_VPID`. -/
def vpidFormat : Format vpid := uint32Format.nested 52

/-! ## 3. Types with lengths -/

/-- `NULL`, or a string of a length that fits. -/
def CharPtr.Ok (p : CharPtr) : Prop :=
  p = none ∨ ∃ s, p = charPtr s ∧ 0 ∉ s ∧ s.length < 2 ^ 31 - 1

/-- The bytes of a string: its length with the terminating zero, and all of that. -/
def CharPtr.enc : CharPtr → List UInt8
  | none => word 0
  | some bytes => word bytes.length ++ bytes

variable {s : List UInt8} {type : BufferType}

/-- `strlen`. -/
theorem findIdx?_terminated (h : 0 ∉ s) : (s ++ [0]).findIdx? (· == 0) = some s.length := by
  have hnone : s.findIdx? (· == 0) = none := by
    rw [findIdx?_eq_none_iff]
    intro x hx
    exact beq_false_of_ne fun h0 => h (h0 ▸ hx)
  rw [findIdx?_append, hnone]
  simp

theorem writes_packCharPtr {p} (h : p.Ok) : Writes type (packCharPtr p) p.enc := by
  obtain rfl | ⟨s, rfl, hzero, hlen⟩ := h
  · exact writes_packLength 0
  · have hint : Sensys.int32 s.length + 1 = (s ++ [0]).length := by
      rw [int32_eq (by omega) (by omega), length_append]
      rfl
    have hpack : packCharPtr (charPtr s) = (do
        packLength (s ++ [0]).length
        packByte (s ++ [0]) (s ++ [0]).length) := by
      simp only [packCharPtr, charPtr, findIdx?_terminated hzero, hint]
      rw [if_neg (by rw [length_append, length_singleton]; omega)]
    rw [hpack]
    refine (writes_packLength _).bind (writes_packByte rfl ?_)
    rw [length_append, length_singleton, memoryLimit]
    omega

theorem reads_unpackCharPtr {p} (h : p.Ok) : Reads type unpackCharPtr p.enc p := by
  obtain rfl | ⟨s, rfl, -, hlen⟩ := h
  · exact Reads.bind (t := []) (reads_unpackLength (by decide) (by decide)) (reads_pure none)
  · have hlength : (s ++ [0]).length = s.length + 1 := length_append
    refine (reads_unpackLength (by omega) (by omega)).bind ?_
    rw [if_neg (by omega), sizeT_natCast (by omega), ptrdiffMax, if_neg (by omega)]
    exact (reads_unpackByte rfl (by rw [memoryLimit]; omega)).map some

/-- `OPAL_STRING`. -/
def stringFormat : Format string :=
  eachFormat 3 packCharPtr unpackCharPtr CharPtr.Ok (fun _ => CharPtr.enc)
    (fun _ _ => writes_packCharPtr) fun _ _ => reads_unpackCharPtr

theorem writes_packInt64 {src} (h : src.length < 2 ^ 31) :
    Writes type (packInt64 src) (src.flatMap fun n => bigEndian 8 n.toNat) :=
  uint64Format.writes type src h fun _ _ => trivial

theorem reads_unpackInt64 {src} (h : src.length < 2 ^ 31) :
    Reads type (unpackInt64 src.length) (src.flatMap fun n => bigEndian 8 n.toNat) src :=
  uint64Format.reads type src h fun _ _ => trivial

/-- The two numbers of a `timeval`. -/
def Timeval.words (tv : Timeval) : List UInt64 := [tv.tvSec.toUInt64, tv.tvUsec.toUInt64]

theorem reads_unpackTimeval (tv : Timeval) :
    Reads type unpackTimeval (tv.words.flatMap fun n => bigEndian 8 n.toNat) tv := by
  have hlength : tv.words.length = 2 := rfl
  have hwords := @reads_unpackInt64 type tv.words (by rw [hlength]; decide)
  exact hwords.bind_pure rfl

/-- `OPAL_TIMEVAL`. -/
def timevalFormat : Format timeval :=
  sizedFormat 18 _ _ 16 (fun tv => tv.words.flatMap fun n => bigEndian 8 n.toNat)
    (by decide) (by simp [Timeval.words, length_bigEndian])
    (fun _ _ => writes_packInt64 (by simp)) fun _ => reads_unpackTimeval

theorem reads_time (t : Int64) : Reads type (UInt64.toInt64 <$> one (unpackInt64 1))
      ([t.toUInt64].flatMap fun n => bigEndian 8 n.toNat) t := by
  have hword := @reads_unpackInt64 type [t.toUInt64] (by simp)
  have hmap := hword.one.map UInt64.toInt64
  rwa [Int64.toInt64_toUInt64] at hmap

/-- `OPAL_TIME`. -/
def timeFormat : Format time :=
  sizedFormat 19 _ _ 8 (fun t => [t.toUInt64].flatMap fun n => bigEndian 8 n.toNat)
    (by decide) (by simp [length_bigEndian])
    (fun _ _ => writes_packInt64 (by simp)) fun _ => reads_time

/-- Bytes with their number: as many as it says, and none if it is not positive. -/
def ByteObject.Ok (o : ByteObject) : Prop :=
  -2 ^ 31 ≤ o.size ∧ o.size < 2 ^ 31 ∧ o.bytes.length = o.size.toNat

theorem writes_packByteObject {o} (h : o.Ok) :
    Writes type (packByteObject o) (word o.size ++ o.bytes) := by
  obtain ⟨hlower, hupper, hlen⟩ := h
  refine (writes_packLength o.size).bind ?_
  split
  · exact writes_packByte (by omega) (by rw [memoryLimit]; omega)
  · rw [eq_nil_of_length_eq_zero (by omega : o.bytes.length = 0)]
    exact writes_pure

theorem reads_unpackByteObject {o} (h : o.Ok) :
    Reads type unpackByteObject (word o.size ++ o.bytes) o := by
  obtain ⟨hlower, hupper, hlen⟩ := h
  refine (reads_unpackLength hlower hupper).bind ?_
  split
  · have hbytes : Reads type (unpackByte o.size) o.bytes o.bytes :=
      reads_unpackByte (by omega) (by rw [memoryLimit]; omega)
    exact hbytes.map (ByteObject.mk o.size)
  · have hempty := eq_nil_of_length_eq_zero (by omega : o.bytes.length = 0)
    obtain ⟨size, bytes⟩ := o
    subst hempty
    exact reads_pure _

/-- `OPAL_BYTE_OBJECT`. -/
def byteObjectFormat : Format byteObject :=
  eachFormat 20 packByteObject unpackByteObject ByteObject.Ok (fun _ o => word o.size ++ o.bytes)
    (fun _ _ => writes_packByteObject) fun _ _ => reads_unpackByteObject

/-- The bytes of a buffer in another one. -/
def encContents (type : BufferType) (bytes : List UInt8) : List UInt8 :=
  sizeFormat.enc type [UInt64.ofNat bytes.length] ++ bytes

theorem writes_packContents {bytes} (h : bytes.length < 2 ^ 31) :
    Writes type (packContents bytes) (encContents type bytes) := by
  refine (sizeFormat.writes type [_] (by simp) fun _ _ => trivial).bind ?_
  split
  · exact writes_packByte (int32_eq (by omega) (by omega)) (by rw [memoryLimit]; omega)
  · rw [eq_nil_of_length_eq_zero (by omega : bytes.length = 0)]
    exact writes_pure

theorem reads_unpackContents {bytes} (h : bytes.length < 2 ^ 31) :
    Reads type unpackContents (encContents type bytes) bytes := by
  have hsize : Reads type (size.unpackFn 1) (sizeFormat.enc type [UInt64.ofNat bytes.length])
      [UInt64.ofNat bytes.length] := sizeFormat.reads type [_] (by simp) fun _ _ => trivial
  have hnat : (UInt64.ofNat bytes.length).toNat = bytes.length :=
    UInt64.toNat_ofNat_of_lt' (by rw [UInt64.size]; omega)
  refine hsize.one.bind ?_
  by_cases hpos : 0 < UInt64.ofNat bytes.length
  · rw [if_pos hpos, hnat]
    have hbytes : Reads type (unpackByte (Sensys.int32 bytes.length)) bytes bytes :=
      reads_unpackByte (int32_eq (by omega) (by omega)) (by rw [memoryLimit]; omega)
    refine hbytes.bind_pure (if_neg ?_)
    rw [ptrdiffMax]
    omega
  · have hzero : bytes.length = 0 := by
      rw [UInt64.lt_iff_toNat_lt, hnat] at hpos
      exact Nat.eq_zero_of_not_pos hpos
    rw [if_neg hpos, eq_nil_of_length_eq_zero hzero]
    exact reads_pure []

/-- `OPAL_BUFFER`. -/
def bufferFormat : Format buffer :=
  eachFormat 27 packContents unpackContents (fun bytes => bytes.length < 2 ^ 31) encContents
    (fun _ _ => writes_packContents) fun _ _ => reads_unpackContents

theorem reads_name {src} (hlen : src.length < 2 ^ 31) :
    Reads type (name.unpackFn src.length) (jobidFormat.enc type (src.map ProcessName.jobid) ++
        vpidFormat.enc type (src.map ProcessName.vpid)) src := by
  have hjobids := jobidFormat.reads type (src.map ProcessName.jobid) (by rwa [length_map])
    fun _ _ => trivial
  have hvpids := vpidFormat.reads type (src.map ProcessName.vpid) (by rwa [length_map])
    fun _ _ => trivial
  rw [length_map] at hjobids hvpids
  have hroom : ¬ ptrdiffMax < sizeT (src.length * 4) := by
    rw [ptrdiffMax, sizeT]
    omega
  have hunpack : name.unpackFn src.length = (do
      let jobids ← jobid.unpackFn src.length
      let vpids ← vpid.unpackFn src.length
      pure (List.zipWith ProcessName.mk jobids vpids)) := if_neg hroom
  rw [hunpack]
  refine hjobids.bind (hvpids.bind_pure ?_)
  rw [zipWith_map, zipWith_self]
  exact congrArg pure (map_id src)

/-- `OPAL_NAME`. -/
def nameFormat : Format name where
  Ok _ := True
  enc type src :=
    jobidFormat.enc type (src.map ProcessName.jobid) ++ vpidFormat.enc type (src.map ProcessName.vpid)
  writes type src hlen _ :=
    (jobidFormat.writes type (src.map ProcessName.jobid) (by rwa [length_map])
      fun _ _ => trivial).bind
    (vpidFormat.writes type (src.map ProcessName.vpid) (by rwa [length_map])
      fun _ _ => trivial)
  reads _ _ hlen _ := reads_name hlen

/-! ## 4. Calls -/

section Lossless

variable {α : Type} {info : TypeInfo α} (f : Format info)

/-- **What `opal_dss_pack_buffer` writes, `opal_dss_unpack_buffer` reads.** -/
theorem Format.lossless_packBuffer (type : BufferType) {src} (hlen : src.length < 2 ^ 31)
    (hok : ∀ a ∈ src, f.Ok a) :
    Lossless type (packBuffer info src) (unpackBuffer info src.length) src :=
  ⟨_, writes_packBuffer (f.writes type src hlen hok),
    reads_unpackBuffer (f.reads type src hlen hok)⟩

/-- The bytes of a call with one value. -/
def Format.encCall (f : Format info) (type : BufferType) (a : α) : List UInt8 :=
  header type info.type 1 ++ f.enc type [a]

variable {a : α} {type : BufferType} {w : α → Dss Unit}

theorem Format.writes_packCall (type : BufferType) (h : f.Ok a) :
    Writes type (packCall info a) (f.encCall type a) :=
  writes_pack (f.writes type [a] (by simp) fun b hb => List.mem_singleton.mp hb ▸ h)

theorem Format.reads_unpack_one (type : BufferType) (h : f.Ok a) :
    Reads type (unpack info 1) (f.encCall type a) (1, [a]) :=
  reads_unpack (by decide) (by decide) (by decide) (Int.le_refl _)
    (f.reads type [a] (by simp) fun b hb => List.mem_singleton.mp hb ▸ h)

theorem Format.reads_unpackCall (type : BufferType) (h : f.Ok a) :
    Reads type (unpackCall info) (f.encCall type a) a :=
  ((f.reads_unpack_one type h).map Prod.snd).one

theorem length_header (type t n) : (header type t n).length ≤ 6 := by
  cases type <;> simp [header, tag, word, length_bigEndian]

theorem header_ne_nil (type t n) : header type t n ≠ [] := by
  intro h
  have hlen := congrArg List.length h
  simp [header, word, length_bigEndian] at hlen

theorem Format.length_encCall_le {n} (h : (f.enc type [a]).length ≤ n) :
    (f.encCall type a).length ≤ n + 6 := by
  have hheader := length_header type info.type 1
  rw [Format.encCall, length_append]
  omega

theorem CharPtr.Ok.length_encCall_le {p} (h : p.Ok) (type : BufferType) :
    (stringFormat.encCall type p).length ≤ 2 ^ 31 + 10 := by
  refine Format.length_encCall_le (n := 2 ^ 31 + 4) stringFormat ?_
  obtain rfl | ⟨s, rfl, -, hlen⟩ := h
  · simp [stringFormat, eachFormat, CharPtr.enc, word, length_bigEndian]
  · simp [stringFormat, eachFormat, charPtr, CharPtr.enc, word, length_bigEndian]
    omega

/-- One value. -/
theorem Format.lossless_one (type : BufferType) (h : f.Ok a) :
    Lossless type (packOne info a) (unpackOne info) a := by
  have hlossless := f.lossless_packBuffer type (by simp : [a].length < 2 ^ 31)
    fun b hb => List.mem_singleton.mp hb ▸ h
  exact hlossless.bind_pure rfl

theorem toNat_toInt_ofInt {n : ℕ} (h : n < 2 ^ 31) : (Int32.ofInt n).toInt.toNat = n := by
  rw [Int32.toInt_ofInt_of_le (by omega) (by omega), Int.toNat_natCast]

/-- A list with its length in front. -/
theorem lossless_packCounted {x : Dss α} {members : List α} (hlen : members.length < 2 ^ 31)
    (h : ∀ a ∈ members, Lossless type (w a) x a) :
    Lossless type (packCounted w members) (unpackCounted x) members := by
  refine (int32Format.lossless_one type trivial).bind ?_
  rw [toNat_toInt_ofInt hlen]
  exact Lossless.times members h

/-- A list of which something else may arrive. -/
theorem delivers_packCounted {x : Dss α} {o : α → Option α} {members}
    (hlen : members.length < 2 ^ 31) (h : ∀ a ∈ members, Delivers type (w a) x (o a)) :
    Delivers type (packCounted w members) (unpackCounted x) (members.mapM o) := by
  refine (int32Format.lossless_one type trivial).bind_delivers ?_
  rw [toNat_toInt_ofInt hlen]
  exact Delivers.times members h

/-- A C string of a length that fits. -/
def StrFits (s : List UInt8) : Prop := 0 ∉ s ∧ s.length < 2 ^ 31 - 1

instance (s : List UInt8) : Decidable (StrFits s) :=
  inferInstanceAs (Decidable (0 ∉ s ∧ s.length < 2 ^ 31 - 1))

theorem strdup_charPtr {s} (h : 0 ∉ s) : strdup (charPtr s) = pure s := by
  simp only [strdup, charPtr, findIdx?_terminated h, take_left]

theorem lossless_packArgv (type : BufferType) {argv} (hlen : argv.length < 2 ^ 31)
    (h : ∀ s ∈ argv, StrFits s) : Lossless type (packArgv argv) unpackArgv argv :=
  lossless_packCounted hlen fun s hs =>
    (stringFormat.lossless_one type (.inr ⟨s, rfl, h s hs⟩)).bind_pure (strdup_charPtr (h s hs).1)

/-- The format of objects that are packed one by one. -/
noncomputable def objectFormat (t : UInt8) (w : α → Dss Unit) (r : Dss α) (Ok : α → Prop)
    (h : ∀ type a, Ok a → Lossless type (w a) r a) : Format (objects t w r) :=
  open scoped Classical in
  eachFormat t w r Ok (fun type a => if hok : Ok a then (h type a hok).choose else [])
    (fun type a hok => by rw [dif_pos hok]; exact (h type a hok).choose_spec.1)
    fun type a hok => by rw [dif_pos hok]; exact (h type a hok).choose_spec.2

/-- One object, of which something else may arrive. -/
theorem delivers_one {t r o} (h : Delivers type (w a) r o) :
    Delivers type (packOne (objects t w r) a) (unpackOne (objects t w r)) o := by
  have hdescribe : Lossless type (describe t) (expect t .errPackMismatch) () :=
    ⟨_, writes_describe t, reads_expect t .errPackMismatch⟩
  cases o with
  | some c =>
    have hloop : Lossless type ([a].forM w) (times 1 r) [c] :=
      Lossless.bind h ((lossless_pure []).bind_pure rfl)
    exact (hdescribe.bind hloop).bind_pure rfl
  | none =>
    have hloop : Fails type ([a].forM w) (times 1 r) :=
      Fails.bind (o := some ([] : List α)) h (lossless_pure [])
    exact (hdescribe.bind_fails hloop).stop _

end Lossless

/-! ## 5. Sequences of calls -/

/-- The types of a call. -/
inductive DataType where
  | byte | bool | string | size | pid | int | int8 | int16 | int32 | int64
  | uint | uint8 | uint16 | uint32 | uint64 | timeval | time | byteObject | buffer
  deriving DecidableEq, Repr

namespace DataType

/-- The values of a type. -/
abbrev Val : DataType → Type
  | byte | uint8 => UInt8
  | bool => Bool
  | string => CharPtr
  | size | uint64 => UInt64
  | pid | int | int32 => Int32
  | int8 => Int8
  | int16 => Int16
  | int64 | time => Int64
  | uint | uint32 => UInt32
  | uint16 => UInt16
  | timeval => Timeval
  | byteObject => ByteObject
  | buffer => List UInt8

/-- The entry of a type in `opal_dss_types`. -/
def info : (t : DataType) → TypeInfo t.Val
  | byte => Dss.byte
  | bool => Dss.bool
  | string => Dss.string
  | size => Dss.size
  | pid => Dss.pid
  | int => Dss.int
  | int8 => Dss.int8
  | int16 => Dss.int16
  | int32 => Dss.int32
  | int64 => Dss.int64
  | uint => Dss.uint
  | uint8 => Dss.uint8
  | uint16 => Dss.uint16
  | uint32 => Dss.uint32
  | uint64 => Dss.uint64
  | timeval => Dss.timeval
  | time => Dss.time
  | byteObject => Dss.byteObject
  | buffer => Dss.buffer

/-- The format of a type. -/
def format : (t : DataType) → Format t.info
  | byte => byteFormat
  | bool => boolFormat
  | string => stringFormat
  | size => sizeFormat
  | pid => pidFormat
  | int => intFormat
  | int8 => int8Format
  | int16 => int16Format
  | int32 => int32Format
  | int64 => int64Format
  | uint => uintFormat
  | uint8 => uint8Format
  | uint16 => uint16Format
  | uint32 => uint32Format
  | uint64 => uint64Format
  | timeval => timevalFormat
  | time => timeFormat
  | byteObject => byteObjectFormat
  | buffer => bufferFormat

/-- The values whose lengths fit into an `int32_t`. -/
def Fits : (t : DataType) → t.Val → Prop
  | string, p => p.Ok
  | byteObject, o => o.Ok
  | buffer, bytes => bytes.length < 2 ^ 31
  | _, _ => True

theorem ok_of_fits : ∀ {t : DataType} {v : t.Val}, t.Fits v → t.format.Ok v := by
  intro t v h
  cases t <;> exact h

end DataType

/-- A call of `opal_dss.pack`. -/
structure Call where
  type : DataType
  vals : List type.Val

/-- The call runs. -/
def Call.pack (c : Call) : Dss Unit := Dss.pack c.type.info c.vals

/-- At least one value, no more than an `int32_t` can count, and all of them fit. -/
structure Call.Fits (c : Call) : Prop where
  nonempty : c.vals ≠ []
  count : c.vals.length < 2 ^ 31
  vals : ∀ v ∈ c.vals, c.type.Fits v

/-- The bytes of a call. -/
def Call.enc (type : BufferType) (c : Call) : List UInt8 :=
  header type c.type.info.type c.vals.length ++ c.type.format.enc type c.vals

/-- Calls one after the other. -/
def packCalls (calls : List Call) : Dss Unit := calls.forM Call.pack

/-- Calls of `opal_dss.unpack` one after the other, each with its type and the number of values
that it asks for: the numbers that they report, and the values. -/
def unpackCalls : List (DataType × ℕ) → Dss (List (ℤ × Call))
  | [] => pure []
  | (t, n) :: requests => do
    let (localNum, vals) ← unpack t.info n
    let answers ← unpackCalls requests
    pure ((localNum, ⟨t, vals⟩) :: answers)

/-- The request for what was packed. -/
def Call.request (c : Call) : DataType × ℕ := (c.type, c.vals.length)

/-- The answer with what was packed. -/
def Call.answer (c : Call) : ℤ × Call := (c.vals.length, c)

theorem Call.Fits.writes {c : Call} (h : c.Fits) (type : BufferType) :
    Writes type c.pack (c.enc type) :=
  writes_pack (c.type.format.writes type c.vals h.count fun v hv => DataType.ok_of_fits (h.vals v hv))

theorem Call.Fits.reads {c : Call} (h : c.Fits) (type : BufferType) :
    Reads type (unpack c.type.info c.vals.length) (c.enc type) (c.vals.length, c.vals) := by
  have hpos := List.length_pos_iff.mpr h.nonempty
  have hcount := h.count
  exact reads_unpack (by omega) (by omega) (by omega) (Int.le_refl _)
    (c.type.format.reads type c.vals h.count fun v hv => DataType.ok_of_fits (h.vals v hv))

theorem reads_unpackCalls : ∀ calls : List Call, (∀ c ∈ calls, c.Fits) →
    Reads type (unpackCalls (calls.map Call.request)) (calls.flatMap (Call.enc type))
      (calls.map Call.answer)
  | [], _ => reads_pure []
  | c :: calls, h => by
    have hone := (h c mem_cons_self).reads type
    exact hone.bind ((reads_unpackCalls calls fun d hd =>
      h d (mem_cons_of_mem c hd)).bind_pure rfl)

/-- **The round trip of a sequence of calls.**  Either everything is packed, and then the requests
for it get it back and leave the unpack pointer at the pack pointer, or there was no memory. -/
theorem calls_come_back (type : BufferType) (calls : List Call) (h : ∀ c ∈ calls, c.Fits) :
    (∃ b, packCalls calls (Buffer.construct type) = (.ok (), b) ∧
      unpackCalls (calls.map Call.request) b =
        (.ok (calls.map Call.answer), { b with unpackPtr := b.bytesUsed })) ∨
    (∃ b, packCalls calls (Buffer.construct type) = (.error (.rc .errOutOfResource), b) ∧
      memoryLimit ≤ (calls.flatMap (Call.enc type)).length) := by
  have hwrites : Writes type (packCalls calls) (calls.flatMap (Call.enc type)) :=
    writes_forM calls fun c hc => (h c hc).writes type
  exact hwrites.round_trip (reads_unpackCalls calls h)

/-- One call after the other: numbers, strings and a byte object in a buffer of either kind. -/
theorem calls_come_back_three : let calls : List Call :=
      [⟨.int16, [-1, 300]⟩, ⟨.string, [none, charPtr [], charPtr [104, 105]]⟩,
        ⟨.byteObject, [⟨2, [7, 0]⟩]⟩]
    ∃ b, packCalls calls (Buffer.construct .fullyDesc) = (.ok (), b) ∧
      unpackCalls (calls.map Call.request) b =
        (.ok (calls.map Call.answer), { b with unpackPtr := b.bytesUsed }) := by
  refine (calls_come_back .fullyDesc _ ?_).resolve_right ?_
  · simp only [forall_mem_cons, not_mem_nil, false_implies, implies_true, and_true]
    refine ⟨⟨by simp, by simp, fun _ _ => trivial⟩, ⟨by simp, by simp, ?_⟩,
      ⟨by simp, by simp, ?_⟩⟩
    · simp only [forall_mem_cons, not_mem_nil, false_implies, implies_true, and_true]
      exact ⟨.inl rfl, .inr ⟨[], rfl, by simp, by simp⟩, .inr ⟨[104, 105], rfl, by decide,
        by simp⟩⟩
    · simp only [forall_mem_cons, not_mem_nil, false_implies, implies_true, and_true]
      exact ⟨by decide, by decide, rfl⟩
  · rintro ⟨b, -, hlimit⟩
    exact absurd hlimit (by decide +kernel)

/-- A string whose length with its zero is `2 ^ 32` is packed as `NULL`. -/
theorem writes_packCharPtr_wraps (hzero : 0 ∉ s)
    (hlen : s.length = 2 ^ 32 - 1) : Writes type (packCharPtr (charPtr s)) (CharPtr.enc none) := by
  have hint : Sensys.int32 s.length + 1 = 0 := by
    rw [hlen, Sensys.int32, Int.bmod_def]
    omega
  have hpack : packCharPtr (charPtr s) = (do
      packLength 0
      packByte (s ++ [0]) 0) := by
    simp only [packCharPtr, charPtr, findIdx?_terminated hzero, hint]
    rw [if_neg (by decide)]
  have hlength : (s ++ [0]).length = s.length + 1 := length_append
  have hbyte : Writes type (packByte (s ++ [0]) 0) [] :=
    writes_packByte_take (Nat.zero_le _) (by rw [hlength, memoryLimit]; omega)
  have hbind := (writes_packLength 0).bind (w := fun _ => packByte (s ++ [0]) 0) hbyte
  rw [hpack]
  rwa [List.append_nil] at hbind

theorem lost_of_wraps (type : BufferType) (hzero : 0 ∉ s) (hlen : s.length = 2 ^ 32 - 1) : ∃ b,
    pack string [charPtr s] (Buffer.construct type) = (.ok (), b) ∧
    unpack string 1 b = (.ok (1, [none]), { b with unpackPtr := b.bytesUsed }) := by
  have hone : Writes type (packCharPtr (charPtr s)) (CharPtr.enc none) :=
    writes_packCharPtr_wraps hzero hlen
  have hwrites : Writes type (string.packFn [charPtr s]) (stringFormat.enc type [none]) :=
    hone.bind writes_pure
  have hreads := stringFormat.reads_unpack_one type (.inl rfl : CharPtr.Ok none)
  rcases (writes_pack hwrites).round_trip hreads with hcome | ⟨b, -, hlimit⟩
  · exact hcome
  · rw [length_singleton] at hlimit
    cases type <;> exact absurd hlimit (by decide)

/-- **A long string is lost.**  Both calls succeed, and the string has become `NULL`. -/
theorem long_string_is_lost : ∃ (s : List UInt8) (b : Buffer), 0 ∉ s ∧
    pack string [charPtr s] (Buffer.construct .fullyDesc) = (.ok (), b) ∧
    unpack string 1 b = (.ok (1, [none]), { b with unpackPtr := b.bytesUsed }) := by
  obtain ⟨s, hzero, hlen⟩ : ∃ s : List UInt8, 0 ∉ s ∧ s.length = 2 ^ 32 - 1 :=
    ⟨List.replicate _ 1, fun h => absurd (eq_of_mem_replicate h) (by decide),
      length_replicate⟩
  obtain ⟨b, hcome⟩ := lost_of_wraps .fullyDesc hzero hlen
  exact ⟨s, b, hzero, hcome⟩

end Sensys.Opal.Dss
