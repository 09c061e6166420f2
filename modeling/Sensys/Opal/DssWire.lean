/-
# What is packed can be unpacked

Two relations say what functions of the data storage service do to a buffer, and one puts them
together.

* `Writes type w bytes`: the call `w` packs exactly `bytes`, or runs out of memory.
* `Reads type r bytes a`: where `bytes` come next, the call `r` returns `a` and stands behind them.
* `Lossless type w r a`: what `w` packs, `r` unpacks as `a`.

All three follow the structure of the calls: sequences (`Lossless.bind`) and loops
(`Lossless.times`).  So a pair of functions that pack and unpack the same fields in the same order
is lossless field by field.
-/
import Sensys.Opal.Dss

namespace Sensys.Opal.Dss

open Failing List Buffer

/-! ## 1. Buffers that are in order -/

/-- The pointers are in the memory of the buffer. -/
structure Buffer.Wf (b : Buffer) : Prop where
  used : b.base.length = b.bytesUsed
  lower : 0 ≤ b.unpackPtr
  upper : b.unpackPtr ≤ b.bytesUsed
  fits : b.bytesUsed ≤ b.bytesAllocated
  room : b.bytesAllocated ≤ ptrdiffMax

/-- The bytes from `unpack_ptr` to `pack_ptr`. -/
def Buffer.unread (b : Buffer) : List UInt8 := b.base.drop b.unpackPtr.toNat

/-- `unpack_ptr`, moved. -/
def Buffer.advance (b : Buffer) (n : ℕ) : Buffer := { b with unpackPtr := b.unpackPtr + n }

/-- More bytes, and memory for them. -/
def Buffer.extend (b : Buffer) (bytes : List UInt8) (allocated : ℕ) : Buffer :=
  { b with
    base := b.base ++ bytes
    bytesUsed := b.bytesUsed + bytes.length
    bytesAllocated := allocated }

theorem Buffer.wf_construct (type : BufferType) : (construct type).Wf :=
  ⟨rfl, Int.le_refl _, Int.le_refl _, Nat.le_refl _, Nat.zero_le _⟩

theorem Buffer.wf_load (type : BufferType) {payload} (h : payload.length ≤ ptrdiffMax) :
    (load type payload).Wf :=
  ⟨rfl, Int.le_refl _, Int.natCast_nonneg _, Nat.le_refl _, h⟩

variable (b : Buffer)

theorem Buffer.advance_zero : b.advance 0 = b := by
  simp [advance]

theorem Buffer.advance_advance (m n : ℕ) :
    (b.advance m).advance n = b.advance (m + n) := by
  simp [advance, Int.add_assoc]

theorem Buffer.extend_extend (s t : List UInt8) (m n : ℕ) :
    (b.extend s m).extend t n = b.extend (s ++ t) n := by
  simp [extend, Nat.add_assoc]

section Wf

variable {b : Buffer} (h : b.Wf)

include h

theorem Buffer.Wf.length_unread : (b.unread.length : ℤ) = b.bytesUsed - b.unpackPtr := by
  have hused := h.used
  have hlower := h.lower
  have hupper := h.upper
  rw [unread, length_drop]
  omega

theorem Buffer.Wf.unread_advance (n : ℕ) : (b.advance n).unread = b.unread.drop n := by
  have hlower := h.lower
  have hsum : (b.unpackPtr + n).toNat = b.unpackPtr.toNat + n := by omega
  rw [unread, advance, unread, drop_drop, hsum]

theorem Buffer.Wf.advance {n} (hn : n ≤ b.unread.length) : (b.advance n).Wf := by
  have hlen := h.length_unread
  refine ⟨h.used, ?_, ?_, h.fits, h.room⟩
  · exact Int.add_nonneg h.lower (Int.natCast_nonneg n)
  · simp only [Buffer.advance]
    omega

/-- Behind the bytes that come next. -/
theorem Buffer.Wf.past {bytes rest} (hunread : b.unread = bytes ++ rest) :
    (b.advance bytes.length).Wf ∧ (b.advance bytes.length).unread = rest := by
  have hle : bytes.length ≤ b.unread.length := by
    rw [hunread, length_append]
    exact Nat.le_add_right _ _
  exact ⟨h.advance hle, by rw [h.unread_advance, hunread, drop_left]⟩

theorem Buffer.Wf.extend {bytes allocated} (hfits : b.bytesUsed + bytes.length ≤ allocated)
    (hroom : allocated ≤ ptrdiffMax) : (b.extend bytes allocated).Wf := by
  have hused := h.used
  have hupper := h.upper
  refine ⟨?_, h.lower, ?_, hfits, hroom⟩
  · simp only [Buffer.extend, length_append]
    omega
  · simp only [Buffer.extend]
    omega

end Wf

/-! ## 2. Sizes -/

theorem sizeT_natCast {n : ℕ} (h : n < 2 ^ 64) : sizeT n = n := by
  rw [sizeT]
  omega

/-- The doubling loop reaches what is required, and does not go beyond the double. -/
theorem grow_spec (required : ℕ) : ∀ fuel a, 0 < a → required ≤ a + fuel →
    required ≤ grow required fuel a ∧ grow required fuel a ≤ max a (2 * required)
  | 0, a, _, hr => by
    rw [grow]
    omega
  | fuel + 1, a, ha, hr => by
    rw [grow]
    split
    · have ih := grow_spec required fuel (2 * a) (by omega) (by omega)
      omega
    · omega

/-- The limit below which memory is always there. -/
def memoryLimit : ℕ := 2 ^ 62

theorem toAlloc_spec {allocated required} (hreq : required < 2 ^ 64 - 1024)
    (halloc : allocated ≤ ptrdiffMax) : required ≤ toAlloc allocated required ∧
      (required < memoryLimit → toAlloc allocated required ≤ ptrdiffMax) := by
  rw [toAlloc, memoryLimit]
  rw [ptrdiffMax] at halloc ⊢
  by_cases hbig : thresholdSize ≤ required
  · have hsize : sizeT (required + thresholdSize - 1) = required + 1023 := by
      rw [sizeT, thresholdSize]
      omega
    rw [if_pos hbig, hsize, thresholdSize]
    omega
  · have hstart : 0 < (if allocated = 0 then initialSize else allocated) ∧
        (if allocated = 0 then initialSize else allocated) ≤ 2 ^ 63 - 1 := by
      rw [initialSize]
      split <;> omega
    have hgrow := grow_spec required required _ hstart.1 (by omega)
    rw [if_neg hbig]
    omega

/-- A buffer that is in order and has no bytes does not change when it starts anew. -/
theorem Buffer.Wf.anew {b : Buffer} (h : b.Wf) :
    (if b.base.isEmpty then { b with bytesUsed := 0, unpackPtr := 0 } else b) = b := by
  split
  · rename_i hempty
    have hused := h.used
    have hlower := h.lower
    have hupper := h.upper
    rw [List.isEmpty_iff.mp hempty, length_nil] at hused
    have hptr : b.unpackPtr = 0 := by omega
    rw [hused, ← hptr]
  · rfl

/-- `opal_dss_buffer_extend` makes room, or there is no memory. -/
theorem bufferExtend_spec {b : Buffer} (h : b.Wf) {n} (hn : n < memoryLimit) :
    (∃ allocated, bufferExtend n b = (.ok (), { b with bytesAllocated := allocated }) ∧
      b.bytesUsed + n ≤ allocated ∧ allocated ≤ ptrdiffMax) ∨
    ∃ b', bufferExtend n b = (.error (.rc .errOutOfResource), b') ∧
      memoryLimit ≤ b.bytesUsed + n := by
  have hfits := h.fits
  have hroom := h.room
  have hused := h.used
  simp only [ptrdiffMax] at hroom
  simp only [memoryLimit] at hn
  have hleft : sizeT (b.bytesAllocated - b.bytesUsed) = b.bytesAllocated - b.bytesUsed := by
    rw [sizeT]
    omega
  have hreq : sizeT (b.bytesUsed + n) = b.bytesUsed + n := by
    rw [sizeT]
    omega
  obtain ⟨hge, hle⟩ := toAlloc_spec (by omega : b.bytesUsed + n < 2 ^ 64 - 1024) h.room
  rw [bufferExtend, hleft]
  by_cases henough : n ≤ b.bytesAllocated - b.bytesUsed
  · exact .inl ⟨b.bytesAllocated, if_pos henough, by omega, h.room⟩
  · rw [if_neg henough, hreq, h.anew]
    by_cases hmemory : toAlloc b.bytesAllocated (b.bytesUsed + n) ≤ ptrdiffMax
    · refine .inl ⟨_, ?_, hge, hmemory⟩
      simp only [hmemory, if_true]
      rw [take_of_length_le (by omega)]
    · refine .inr ⟨{ b with base := [] }, if_neg hmemory, ?_⟩
      by_contra hlimit
      exact hmemory (hle (by omega))

/-! ## 3. What a call packs -/

/-- **The call packs these bytes**, unless there is no memory for them. -/
def Writes (type : BufferType) (w : Dss Unit) (bytes : List UInt8) : Prop :=
  ∀ b : Buffer, b.Wf → b.type = type →
    (∃ allocated, w b = (.ok (), b.extend bytes allocated) ∧ (b.extend bytes allocated).Wf) ∨
    ∃ b', w b = (.error (.rc .errOutOfResource), b') ∧
      memoryLimit ≤ b.bytesUsed + bytes.length

section Writes

variable {type : BufferType}

theorem writes_pure : Writes type (pure ()) [] := by
  intro b h _
  have hsame : b.extend [] b.bytesAllocated = b := by simp [extend]
  exact .inl ⟨b.bytesAllocated, by rw [hsame]; rfl, by rwa [hsame]⟩

theorem Writes.bind {v w s t} (hv : Writes type v s) (hw : Writes type (w ()) t) :
    Writes type (v >>= w) (s ++ t) := by
  intro b h htype
  rcases hv b h htype with ⟨m, hrun, hwf⟩ | ⟨b', hrun, hlimit⟩
  · rw [bind_ok hrun]
    rcases hw _ hwf htype with ⟨n, hrun', hwf'⟩ | ⟨b', hrun', hlimit⟩
    · rw [extend_extend] at hrun' hwf'
      exact .inl ⟨n, hrun', hwf'⟩
    · refine .inr ⟨b', hrun', ?_⟩
      simp only [extend] at hlimit
      rw [length_append]
      omega
  · refine .inr ⟨b', bind_error hrun, ?_⟩
    rw [length_append]
    omega

variable {bytes : List UInt8}

theorem writes_withType {f} (h : Writes type (f type) bytes) : Writes type (withType f) bytes := by
  intro b hwf htype
  rw [withType, htype]
  exact h b hwf htype

/-- Room made and then used. -/
theorem writes_append (h : bytes.length < memoryLimit) :
    Writes type (bufferExtend bytes.length >>= fun _ => append bytes) bytes := by
  intro b hwf _
  rcases bufferExtend_spec hwf h with ⟨n, hrun, hfits, hroom⟩ | ⟨b', hrun, hlimit⟩
  · refine .inl ⟨n, ?_, hwf.extend hfits hroom⟩
    rw [bind_ok hrun]
    exact if_pos hfits
  · exact .inr ⟨b', bind_error hrun, hlimit⟩

theorem writes_packByte_take {src n} (hn : sizeT n ≤ src.length) (h : src.length < memoryLimit) :
    Writes type (packByte src n) (src.take (sizeT n)) := by
  have hlen : (src.take (sizeT n)).length = sizeT n := by
    rw [length_take, Nat.min_eq_left hn]
  have hwrites : Writes type _ (src.take (sizeT n)) := writes_append (by omega)
  rw [hlen] at hwrites
  rwa [packByte, if_pos hn]

theorem writes_packByte {n : ℤ} (hn : n = bytes.length)
    (h : bytes.length < memoryLimit) : Writes type (packByte bytes n) bytes := by
  have hsize : sizeT n = bytes.length := by
    rw [memoryLimit] at h
    rw [hn, sizeT_natCast (by omega)]
  have htake : Writes type _ _ := writes_packByte_take (Nat.le_of_eq hsize) h
  rwa [hsize, take_length] at htake

theorem length_flatMap_bigEndian (size : ℕ) (src : List ℕ) :
    (src.flatMap (bigEndian size)).length = src.length * size := by
  simp [length_flatMap, length_bigEndian]

theorem writes_packWords {size : ℕ} {src} (h : src.length * size < memoryLimit) :
    Writes type (packWords size src) (src.flatMap (bigEndian size)) := by
  have hlen := length_flatMap_bigEndian size src
  have hsize : sizeT (src.length * size) = (src.flatMap (bigEndian size)).length := by
    rw [memoryLimit] at h
    rw [hlen, ← Int.natCast_mul, sizeT_natCast (by omega)]
  rw [packWords, hsize]
  exact writes_append (by omega)

end Writes

/-! ## 4. What a call unpacks -/

/-- **Where these bytes come next, the call returns this value and stands behind them.** -/
def Reads {α : Type} (type : BufferType) (r : Dss α) (bytes : List UInt8) (a : α) : Prop :=
  ∀ b : Buffer, b.Wf → b.type = type → ∀ rest, b.unread = bytes ++ rest →
    r b = (.ok a, b.advance bytes.length)

section Reads

variable {α β : Type} {type : BufferType}

theorem reads_pure (a : α) : Reads type (pure a) [] a := by
  intro b _ _ _ _
  rw [length_nil, advance_zero]
  rfl

variable {r : Dss α} {a : α} {bytes : List UInt8} {n : ℤ}

theorem Reads.bind {f s t} {c : β} (hr : Reads type r s a) (hf : Reads type (f a) t c) :
    Reads type (r >>= f) (s ++ t) c := by
  intro b hwf htype rest hunread
  have hs : b.unread = s ++ (t ++ rest) := by rw [hunread, List.append_assoc]
  obtain ⟨hwf', hrest⟩ := hwf.past hs
  rw [bind_ok (hr b hwf htype _ hs), hf _ hwf' htype rest hrest, advance_advance,
    length_append]

theorem Reads.bind_pure {f} {c : β} (hr : Reads type r bytes a) (hf : f a = pure c) :
    Reads type (r >>= f) bytes c := by
  have hbind := hr.bind (f := f) (hf ▸ reads_pure c)
  rwa [List.append_nil] at hbind

theorem Reads.map (h : Reads type r bytes a) (f : α → β) : Reads type (f <$> r) bytes (f a) := by
  exact h.bind_pure rfl

theorem reads_withType {f} (h : Reads type (f type) bytes a) : Reads type (withType f) bytes a := by
  intro b hwf htype rest hunread
  rw [withType, htype]
  exact h b hwf htype rest hunread

/-- The first value of an array. -/
theorem Reads.one {r} {as : List α} (h : Reads type r bytes (a :: as)) :
    Reads type (one r) bytes a :=
  h.bind_pure rfl

theorem Buffer.Wf.tooSmall_eq {b : Buffer} (h : b.Wf) (n : ℕ) :
    tooSmall n b = decide (b.unread.length < n) := by
  have hlen := h.length_unread
  have hlower := h.lower
  have hfits := h.fits
  have hroom := h.room
  simp only [ptrdiffMax] at hroom
  have hsize : sizeT (b.bytesUsed - b.unpackPtr) = b.unread.length := by
    rw [← hlen, sizeT_natCast (by omega)]
  rw [tooSmall, hsize, decide_eq_false (by omega), Bool.false_or]

theorem Reads.unlessTooSmall (h : Reads type r bytes a) {n} (hn : n ≤ bytes.length) :
    Reads type (unlessTooSmall n r) bytes a := by
  intro b hwf htype rest hunread
  have henough : ¬ b.unread.length < n := by
    rw [hunread, length_append]
    omega
  rw [Dss.unlessTooSmall, hwf.tooSmall_eq, decide_eq_false henough]
  exact h b hwf htype rest hunread

theorem reads_fetch (hn : n = bytes.length)
    (h : bytes.length < memoryLimit) : Reads type (fetch n) bytes bytes := by
  intro b hwf _ rest hunread
  rw [memoryLimit] at h
  have hlen := hwf.length_unread
  have hused := hwf.used
  rw [hunread, length_append] at hlen
  rw [fetch, hn, sizeT_natCast (by omega), if_pos ⟨hwf.lower, by omega⟩]
  have htake : (b.base.drop b.unpackPtr.toNat).take bytes.length = bytes := by
    rw [← unread, hunread, take_left]
  rw [htake]
  rfl

theorem reads_unpackByte (hn : n = bytes.length)
    (h : bytes.length < memoryLimit) : Reads type (unpackByte n) bytes bytes := by
  have hsize : sizeT n = bytes.length := by
    rw [memoryLimit] at h
    rw [hn, sizeT_natCast (by omega)]
  exact (reads_fetch hn h).unlessTooSmall (Nat.le_of_eq hsize)

/-- A loop reads one value after the other. -/
theorem reads_times {enc} : ∀ {as},
    (∀ a ∈ as, Reads type r (enc a) a) → Reads type (times as.length r) (as.flatMap enc) as
  | [], _ => reads_pure []
  | a :: as, h => by
    have hone := h a mem_cons_self
    have hrest := reads_times fun b hb => h b (mem_cons_of_mem a hb)
    exact hone.bind (hrest.bind_pure rfl)

theorem reads_unpackWords {size : ℕ} {src} (hn : n = src.length) (hword : ∀ v ∈ src, v < 256 ^ size)
    (hsize : size < memoryLimit) (h : src.length * size < memoryLimit) :
    Reads type (unpackWords size n) (src.flatMap (bigEndian size)) src := by
  have hlen := length_flatMap_bigEndian size src
  have hone : ∀ v ∈ src, Reads type (ofBigEndian <$> fetch size) (bigEndian size v) v := by
    intro v hv
    have hfetch : Reads type (fetch size) (bigEndian size v) (bigEndian size v) :=
      reads_fetch (by rw [length_bigEndian]) (by rwa [length_bigEndian])
    have hmap := hfetch.map ofBigEndian
    rwa [ofBigEndian_bigEndian_of_lt (hword v hv)] at hmap
  have htimes := reads_times hone
  rw [hn, unpackWords, Int.toNat_natCast]
  refine htimes.unlessTooSmall ?_
  rw [memoryLimit] at h
  exact Nat.le_of_eq (by rw [hlen, ← Int.natCast_mul, sizeT_natCast (by omega)])

end Reads

/-! ## 5. Tags, lengths and calls -/

/-- The type byte that is written into a described buffer only. -/
def tag (type : BufferType) (dataType : UInt8) : List UInt8 :=
  if type = .fullyDesc then [dataType] else []

/-- The bytes of an `int32_t`. -/
def word (n : ℤ) : List UInt8 := bigEndian 4 (Int32.ofInt n).toUInt32.toNat

/-- What `opal_dss_pack` writes in front of `n` values of a type. -/
def header (type : BufferType) (dataType : UInt8) (n : ℤ) : List UInt8 :=
  tag type int32Type ++ (word n ++ tag type dataType)

section Calls

variable {α : Type} {type : BufferType} {info : TypeInfo α} {bytes : List UInt8} (t : UInt8)

theorem writes_storeDataType : Writes type (storeDataType t) [t] :=
  writes_packByte rfl (by simp [memoryLimit])

theorem reads_getDataType : Reads type getDataType [t] t :=
  (reads_unpackByte rfl (by simp [memoryLimit])).one

theorem writes_packLength (n : ℤ) : Writes type (packLength n) (word n) := by
  have hwords : Writes type (packWords 4 [(Int32.ofInt n).toUInt32.toNat]) _ :=
    writes_packWords (by simp [memoryLimit])
  rw [packLength, packInt32, word]
  simpa using hwords

variable {n : ℤ}

theorem reads_unpackLength (hlower : -2 ^ 31 ≤ n) (hupper : n < 2 ^ 31) :
    Reads type unpackLength (word n) n := by
  have hwords : Reads type (unpackWords 4 1) _ [(Int32.ofInt n).toUInt32.toNat] :=
    reads_unpackWords rfl (by simpa using (Int32.ofInt n).toUInt32.toNat_lt) (by decide)
      (by simp [memoryLimit])
  have hlength := (hwords.map (List.map UInt32.ofNat)).one.map fun n => n.toInt32.toInt
  rw [unpackLength, unpackInt32, word]
  simpa [Int32.toInt_ofInt_of_le hlower hupper] using hlength

theorem writes_describe : Writes type (describe t) (tag type t) := by
  refine writes_withType ?_
  cases type with
  | nonDesc => exact writes_pure
  | fullyDesc => exact writes_storeDataType t

/-- A type that is as expected is passed over. -/
theorem reads_expect (rc : Rc) : Reads type (expect t rc) (tag type t) () := by
  refine reads_withType ?_
  cases type with
  | nonDesc => exact reads_pure ()
  | fullyDesc =>
    refine (reads_getDataType t).bind (t := []) ?_
    rw [if_neg (fun hne => hne rfl)]
    exact reads_pure ()

theorem writes_packBuffer {src} (h : Writes type (info.packFn src) bytes) :
    Writes type (packBuffer info src) (tag type info.type ++ bytes) :=
  (writes_describe info.type).bind h

theorem reads_unpackBuffer {dst} (h : Reads type (info.unpackFn n) bytes dst) :
    Reads type (unpackBuffer info n) (tag type info.type ++ bytes) dst :=
  (reads_expect info.type .errPackMismatch).bind h

theorem writes_pack {src} (h : Writes type (info.packFn src) bytes) :
    Writes type (pack info src) (header type info.type src.length ++ bytes) := by
  have hbind := (writes_describe int32Type).bind (w := fun _ => do
      packLength src.length
      packBuffer info src)
    ((writes_packLength src.length).bind (writes_packBuffer h))
  rw [header, List.append_assoc, List.append_assoc]
  exact hbind

/-- **A call that asks for enough values gets those that come next.** -/
theorem reads_unpack {numVals} {dst : List α} (hlower : -2 ^ 31 ≤ n) (hupper : n < 2 ^ 31)
    (hnonzero : numVals ≠ 0) (hroom : n ≤ numVals) (h : Reads type (info.unpackFn n) bytes dst) :
    Reads type (unpack info numVals) (header type info.type n ++ bytes) (n, dst) := by
  have hcount : Reads type unpackCount (tag type int32Type ++ word n) n :=
    (reads_expect int32Type .errUnpackFailure).bind (reads_unpackLength hlower hupper)
  have hvals := (reads_unpackBuffer h).bind_pure (f := fun dst => pure (n, dst)) rfl
  have hbind := hcount.bind (f := fun localNum =>
    if numVals < localNum then do
      let _ ← unpackBuffer info numVals
      throw (.rc .errUnpackInadequateSpace)
    else do
      let dst ← unpackBuffer info localNum
      pure (localNum, dst)) (by rwa [if_neg (by omega)])
  rw [unpack, if_neg hnonzero]
  simpa [header] using hbind

end Calls

/-! ## 6. Round trips -/

/-- **Bytes that one call packs and another one unpacks**, through a new buffer: unless there is no
memory, the other one stands at the pack pointer afterwards. -/
theorem Writes.round_trip {α : Type} {type w r bytes} {a : α} (hw : Writes type w bytes)
    (hr : Reads type r bytes a) : (∃ b, w (construct type) = (.ok (), b) ∧
      r b = (.ok a, { b with unpackPtr := b.bytesUsed })) ∨
    ∃ b, w (construct type) = (.error (.rc .errOutOfResource), b) ∧
      memoryLimit ≤ bytes.length := by
  rcases hw _ (wf_construct type) rfl with ⟨n, hrun, hwf⟩ | ⟨b, hrun, hlimit⟩
  · refine .inl ⟨_, hrun, ?_⟩
    rw [hr _ hwf rfl [] (by simp [unread, extend, construct])]
    simp [advance, extend, construct]
  · refine .inr ⟨b, hrun, ?_⟩
    simpa [construct] using hlimit

/-- **What one call packs, the other one unpacks to this value.** -/
def Lossless {α : Type} (type : BufferType) (w : Dss Unit) (r : Dss α) (a : α) : Prop :=
  ∃ bytes, Writes type w bytes ∧ Reads type r bytes a

section Lossless

variable {α β : Type} {type : BufferType}

theorem lossless_pure (a : α) : Lossless type (pure ()) (pure a) a :=
  ⟨[], writes_pure, reads_pure a⟩

variable {w : Dss Unit} {r : Dss α} {a : α}

theorem Lossless.bind {v f} {c : β} (h : Lossless type v r a) (h' : Lossless type w (f a) c) :
    Lossless type (v >>= fun _ => w) (r >>= f) c := by
  obtain ⟨s, hv, hr⟩ := h
  obtain ⟨t, hw, hf⟩ := h'
  exact ⟨s ++ t, hv.bind hw, hr.bind hf⟩

theorem Lossless.bind_pure {f} {c : β} (h : Lossless type w r a) (hf : f a = pure c) :
    Lossless type w (r >>= f) c := by
  obtain ⟨bytes, hw, hr⟩ := h
  exact ⟨bytes, hw, hr.bind_pure hf⟩

theorem Lossless.map (h : Lossless type w r a) (f : α → β) : Lossless type w (f <$> r) (f a) := by
  obtain ⟨bytes, hw, hr⟩ := h
  exact ⟨bytes, hw, hr.map f⟩

theorem Lossless.times {w} : ∀ as : List α,
    (∀ a ∈ as, Lossless type (w a) r a) → Lossless type (as.forM w) (times as.length r) as
  | [], _ => lossless_pure []
  | a :: as, h => (h a mem_cons_self).bind
      ((Lossless.times as fun b hb => h b (mem_cons_of_mem a hb)).bind_pure rfl)

/-- What cannot be unpacked from nothing takes at least one byte. -/
theorem Lossless.nonempty (h : Lossless type w r a) (hr : (r (construct type)).1 ≠ .ok a) :
    ∃ bytes, bytes ≠ [] ∧ Writes type w bytes ∧ Reads type r bytes a := by
  obtain ⟨bytes, hw, hreads⟩ := h
  refine ⟨bytes, ?_, hw, hreads⟩
  rintro rfl
  exact hr (by rw [hreads _ (wf_construct type) rfl [] rfl])

/-- **A round trip through a new buffer.** -/
theorem Lossless.round_trip (h : Lossless type w r a) :
    (∃ b, w (construct type) = (.error (.rc .errOutOfResource), b)) ∨
    ∃ b, w (construct type) = (.ok (), b) ∧
      r b = (.ok a, { b with unpackPtr := b.bytesUsed }) := by
  obtain ⟨bytes, hw, hr⟩ := h
  rcases hw.round_trip hr with hok | ⟨b, herror, -⟩
  · exact .inr hok
  · exact .inl ⟨b, herror⟩

end Lossless

/-! ## 7. What cannot be sent -/

section Delivers

variable {α β : Type} {type : BufferType}

/-- **Where these bytes come next, the call returns an error.** -/
def Refuses (type : BufferType) (r : Dss α) (bytes : List UInt8) : Prop :=
  ∀ b : Buffer, b.Wf → b.type = type → ∀ rest, b.unread = bytes ++ rest →
    ∃ e b', r b = (.error e, b')

variable {r : Dss α} {f : α → Dss β} {a : α} {w v : Dss Unit} {o : Option α}

/-- Nothing after an error is done. -/
theorem Refuses.bind {s} (h : Refuses type r s) (f : α → Dss β) (t : List UInt8) :
    Refuses type (r >>= f) (s ++ t) := by
  intro b hwf htype rest hunread
  rw [List.append_assoc] at hunread
  obtain ⟨e, b', hrun⟩ := h b hwf htype _ hunread
  exact ⟨e, b', bind_error hrun⟩

theorem Reads.bind_refuses {s t} (hr : Reads type r s a) (hf : Refuses type (f a) t) :
    Refuses type (r >>= f) (s ++ t) := by
  intro b hwf htype rest hunread
  rw [List.append_assoc] at hunread
  obtain ⟨hwf', hrest⟩ := hwf.past hunread
  rw [bind_ok (hr b hwf htype _ hunread)]
  exact hf _ hwf' htype rest hrest

/-- The value is not packed, or what is packed for it cannot be unpacked. -/
def Fails (type : BufferType) (w : Dss Unit) (r : Dss α) : Prop :=
  (∀ b : Buffer, b.Wf → b.type = type → ∃ e b', w b = (.error e, b')) ∨
  ∃ bytes, Writes type w bytes ∧ Refuses type r bytes

/-- **What arrives**: a value, or an error on the way. -/
def Delivers (type : BufferType) (w : Dss Unit) (r : Dss α) : Option α → Prop
  | some a => Lossless type w r a
  | none => Fails type w r

/-- Packing fails always, or there are bytes. -/
theorem Delivers.writes (h : Delivers type w r o) :
    (∀ b : Buffer, b.Wf → b.type = type → ∃ e b', w b = (.error e, b')) ∨
    ∃ bytes, Writes type w bytes := by
  cases o with
  | some a =>
    obtain ⟨bytes, hw, -⟩ := h
    exact .inr ⟨bytes, hw⟩
  | none => exact h.imp_right fun ⟨bytes, hw, _⟩ => ⟨bytes, hw⟩

theorem Writes.bind_fails {s} {r : Dss β} (hv : Writes type v s)
    (herror : ∀ b : Buffer, b.Wf → b.type = type → ∃ e b', w b = (.error e, b')) :
    Fails type (v >>= fun _ => w) r := by
  refine .inl fun b hwf htype => ?_
  rcases hv b hwf htype with ⟨n, hrun, hwf'⟩ | ⟨b', hrun, -⟩
  · rw [bind_ok hrun]
    exact herror _ hwf' htype
  · exact ⟨_, b', bind_error hrun⟩

theorem Fails.bind {r'} {o : Option β} (h : Fails type v r) (h' : Delivers type w r' o) :
    Fails type (v >>= fun _ => w) (r >>= f) := by
  rcases h with herror | ⟨s, hv, hr⟩
  · refine .inl fun b hwf htype => ?_
    obtain ⟨e, b', hrun⟩ := herror b hwf htype
    exact ⟨e, b', bind_error hrun⟩
  · rcases h'.writes with herror | ⟨t, hw⟩
    · exact hv.bind_fails herror
    · exact .inr ⟨s ++ t, hv.bind hw, hr.bind f t⟩

theorem Lossless.bind_fails (h : Lossless type v r a) (h' : Fails type w (f a)) :
    Fails type (v >>= fun _ => w) (r >>= f) := by
  obtain ⟨s, hv, hr⟩ := h
  rcases h' with herror | ⟨t, hw, hf⟩
  · exact hv.bind_fails herror
  · exact .inr ⟨s ++ t, hv.bind hw, hr.bind_refuses hf⟩

theorem Lossless.bind_delivers {o} (h : Lossless type v r a) (h' : Delivers type w (f a) o) :
    Delivers type (v >>= fun _ => w) (r >>= f) o := by
  cases o with
  | some c => exact h.bind h'
  | none => exact h.bind_fails h'

theorem Fails.stop (h : Fails type w r) (f : α → Dss β) : Fails type w (r >>= f) := by
  refine h.imp_right fun ⟨bytes, hw, hr⟩ => ⟨bytes, hw, ?_⟩
  have hbind := hr.bind f []
  rwa [List.append_nil] at hbind

theorem Delivers.bind_pure (h : Delivers type w r o)
    (g : α → β) : Delivers type w (r >>= fun a => pure (g a)) (o.map g) := by
  cases o with
  | some a => exact Lossless.bind_pure h rfl
  | none => exact Fails.stop h _

/-- A loop arrives if every value does. -/
theorem Delivers.times {w} {r : Dss β} {o} : ∀ as : List α,
    (∀ a ∈ as, Delivers type (w a) r (o a)) →
      Delivers type (as.forM w) (times as.length r) (as.mapM o)
  | [], _ => lossless_pure []
  | a :: as, h => by
    have hone := h a mem_cons_self
    have hrest := Delivers.times as fun b hb => h b (mem_cons_of_mem a hb)
    cases ha : o a with
    | none =>
      rw [ha] at hone
      rw [mapM_cons, ha]
      exact Fails.bind hone hrest
    | some c =>
      rw [ha] at hone
      have hcons : (a :: as).mapM o = (as.mapM o).map (c :: ·) := by
        rw [mapM_cons, ha]
        cases as.mapM o <;> rfl
      rw [hcons]
      exact Lossless.bind_delivers hone (hrest.bind_pure (c :: ·))

theorem mapM_eq_self_iff {o} : ∀ {as : List α},
    as.mapM o = some as ↔ ∀ a ∈ as, o a = some a
  | [] => by simp
  | a :: as => by
    rw [mapM_cons, forall_mem_cons, ← mapM_eq_self_iff]
    cases o a with
    | none => simp
    | some c =>
      cases as.mapM o with
      | none => simp
      | some cs => simp

/-- A call that succeeds has not run out of memory. -/
theorem not_outOfResource {x : Except Stop Unit × Buffer} (h : x.1 = .ok ()) :
    ¬ ∃ b, x = (.error (.rc .errOutOfResource), b) := by
  rintro ⟨b, rfl⟩
  cases h

/-- **What a round trip through a new buffer gives.** -/
theorem Delivers.round_trip (h : Delivers type w r o) (a : α) :
    (∃ b, w (construct type) = (.error (.rc .errOutOfResource), b)) ∨
    ((∃ b, w (construct type) = (.ok (), b) ∧
      r b = (.ok a, { b with unpackPtr := b.bytesUsed })) ↔ o = some a) := by
  cases o with
  | some c =>
    refine (Lossless.round_trip h).imp_right fun ⟨b, hrun, hread⟩ => ?_
    constructor
    · rintro ⟨b', hrun', hread'⟩
      rw [hrun] at hrun'
      cases hrun'
      rw [hread] at hread'
      cases hread'
      rfl
    · rintro hsame
      cases hsame
      exact ⟨b, hrun, hread⟩
  | none =>
    refine .inr (iff_of_false ?_ (Option.some_ne_none a).symm)
    rintro ⟨b, hrun, hread⟩
    rcases h with herror | ⟨bytes, hw, hr⟩
    · obtain ⟨e, b', hrun'⟩ := herror _ (wf_construct type) rfl
      cases hrun.symm.trans hrun'
    rcases hw _ (wf_construct type) rfl with ⟨n, hrun', hwf⟩ | ⟨b', hrun', -⟩
    · cases hrun.symm.trans hrun'
      obtain ⟨e, b', hread'⟩ := hr _ hwf rfl [] (by
        simp [unread, extend, construct])
      cases hread.symm.trans hread'
    · cases hrun.symm.trans hrun'

end Delivers

end Sensys.Opal.Dss
