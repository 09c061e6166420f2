/-
# Unpacking bytes that nobody packed

A buffer that came over the wire holds any bytes, so counts and lengths in it can be anything.  A
request `Decodes` if in every buffer it either reads bytes that are there, to a value that depends
on those bytes only, or returns an error code, and in both cases leaves the unpack pointer between
where it was and the end.  Nothing undefined happens.  The rules of section 1 follow the way the
functions are built; section 3 has one lemma for each of them.

A negative count stops the functions that compute a size from it, because the size is then a huge
`size_t`.  `opal_dss_unpack_string` and `opal_dss_unpack_byte_object` have a loop and no size, so
they do nothing and succeed: `*num_vals` is negative after a call that returned `OPAL_SUCCESS`.

* `unpack_bounded_iff`: in every run of requests, a call is bounded if and only if it does not ask
  for strings or byte objects where a header with a negative count comes next.
* `negative_count_succeeds`: four bytes that do it.
-/
import Sensys.Opal.DssFormat

namespace Sensys.Opal.Dss

open Failing List Buffer

/-! ## 1. Requests that decode -/

/-- **The request decodes bytes that are there**, with `Q` of the value and the bytes, or it
returns an error code. -/
def Decodes {α : Type} (type : BufferType) (r : Dss α) (Q : α → List UInt8 → Prop) : Prop :=
  ∀ b : Buffer, b.Wf → b.type = type →
    (∃ a bytes rest, b.unread = bytes ++ rest ∧ Reads type r bytes a ∧ Q a bytes) ∨
    ∃ rc n, n ≤ b.unread.length ∧ r b = (.error (.rc rc), b.advance n)

section Rules

variable {α β : Type} {type : BufferType} {Q : α → List UInt8 → Prop} {Q' : β → List UInt8 → Prop}

theorem decodes_pure {a} (h : Q a []) : Decodes type (pure a) Q :=
  fun b _ _ => .inl ⟨a, [], b.unread, rfl, reads_pure a, h⟩

theorem decodes_throw (rc : Rc) : Decodes type (throw (.rc rc)) Q :=
  fun b _ _ => .inr ⟨rc, 0, Nat.zero_le _, by rw [advance_zero]; rfl⟩

variable {r : Dss α} {n : ℕ}

theorem Decodes.mono {P} (h : Decodes type r P) (himp : ∀ a s, P a s → Q a s) :
    Decodes type r Q := by
  intro b hwf htype
  rcases h b hwf htype with ⟨a, s, rest, hunread, hreads, hp⟩ | herror
  · exact .inl ⟨a, s, rest, hunread, hreads, himp a s hp⟩
  · exact .inr herror

theorem Decodes.bind {f} (hr : Decodes type r Q)
    (hf : ∀ a s, Q a s → Decodes type (f a) fun c t => Q' c (s ++ t)) :
    Decodes type (r >>= f) Q' := by
  intro b hwf htype
  rcases hr b hwf htype with ⟨a, s, rest, hunread, hreads, hq⟩ | ⟨rc, n, hn, hrun⟩
  · have hrun := hreads b hwf htype rest hunread
    obtain ⟨hwf', hrest⟩ := hwf.past hunread
    rcases hf a s hq _ hwf' htype with
      ⟨c, t, rest', hunread', hreads', hq'⟩ | ⟨rc, n, hn, hrun'⟩
    · refine .inl ⟨c, s ++ t, rest', ?_, hreads.bind hreads', hq'⟩
      rw [List.append_assoc, ← hunread', hrest, hunread]
    · refine .inr ⟨rc, s.length + n, ?_, ?_⟩
      · rw [hrest] at hn
        rw [hunread, length_append]
        exact Nat.add_le_add_left hn _
      · rw [bind_ok hrun, hrun', advance_advance]
  · exact .inr ⟨rc, n, hn, bind_error hrun⟩

theorem Decodes.map (h : Decodes type r Q) (f : α → β)
    (himp : ∀ a s, Q a s → Q' (f a) s) : Decodes type (f <$> r) Q' := by
  exact h.bind fun a s hq => decodes_pure (by rw [List.append_nil]; exact himp a s hq)

theorem Decodes.congr {r'} (h : Decodes type r Q) (heq : ∀ b, b.type = type → r' b = r b) :
    Decodes type r' Q := by
  intro b hwf htype
  rcases h b hwf htype with ⟨a, s, rest, hunread, hreads, hq⟩ | ⟨rc, n, hn, hrun⟩
  · refine .inl ⟨a, s, rest, hunread, fun b' hwf' htype' rest' hunread' => ?_, hq⟩
    rw [heq b' htype']
    exact hreads b' hwf' htype' rest' hunread'
  · exact .inr ⟨rc, n, hn, by rw [heq b htype, hrun]⟩

theorem decodes_withType {f} (h : Decodes type (f type) Q) : Decodes type (withType f) Q :=
  h.congr fun b htype => by rw [withType, htype]

/-- The first value of an array that has one. -/
theorem Decodes.one {r P} (h : Decodes type r P)
    (himp : ∀ as s, P as s → ∃ a tail, as = a :: tail ∧ Q a s) : Decodes type (one r) Q := by
  refine h.bind fun as s hp => ?_
  obtain ⟨a, tail, rfl, hq⟩ := himp as s hp
  exact decodes_pure (by rwa [List.append_nil])

theorem Buffer.Wf.length_unread_le {b : Buffer} (h : b.Wf) : b.unread.length ≤ ptrdiffMax := by
  have hlen := h.length_unread
  have hlower := h.lower
  have hfits := h.fits
  have hroom := h.room
  omega

theorem unlessTooSmall_error {b} (h : b.Wf) (hn : b.unread.length < n) :
    unlessTooSmall n r b = (.error (.rc .errUnpackReadPastEndOfBuffer), b.advance 0) := by
  rw [Dss.unlessTooSmall, h.tooSmall_eq, decide_eq_true hn, advance_zero]
  rfl

/-- A size that is checked, and then read. -/
theorem decodes_unlessTooSmall (h : n ≤ ptrdiffMax → ∀ bytes : List UInt8,
      bytes.length = n → ∃ a, Reads type (unlessTooSmall n r) bytes a ∧ Q a bytes) :
    Decodes type (unlessTooSmall n r) Q := by
  intro b hwf htype
  by_cases hn : n ≤ b.unread.length
  · have hlen : (b.unread.take n).length = n := by
      rw [length_take, Nat.min_eq_left hn]
    obtain ⟨a, hreads, hq⟩ := h (Nat.le_trans hn hwf.length_unread_le) (b.unread.take n) hlen
    exact .inl ⟨a, _, b.unread.drop n, (take_append_drop n _).symm, hreads, hq⟩
  · exact .inr ⟨_, 0, Nat.zero_le _, unlessTooSmall_error hwf (by omega)⟩

/-- A size that is checked in front of a request that checks again. -/
theorem Decodes.unlessTooSmall (h : Decodes type r Q)
    (hn : ∀ a s, Q a s → n ≤ s.length) : Decodes type (unlessTooSmall n r) Q := by
  intro b hwf htype
  by_cases hsmall : b.unread.length < n
  · exact .inr ⟨_, 0, Nat.zero_le _, unlessTooSmall_error hwf hsmall⟩
  · rcases h b hwf htype with ⟨a, s, rest, hunread, hreads, hq⟩ | ⟨rc, m, hm, hrun⟩
    · exact .inl ⟨a, s, rest, hunread, hreads.unlessTooSmall (hn a s hq), hq⟩
    · refine .inr ⟨rc, m, hm, ?_⟩
      rw [Dss.unlessTooSmall, hwf.tooSmall_eq, decide_eq_false hsmall]
      exact hrun

/-- A loop over values that take at least `size` bytes each. -/
theorem Decodes.times {size} (h : Decodes type r fun _ s => size ≤ s.length) :
    ∀ n : ℕ, Decodes type (times n r) fun as s => as.length = n ∧ n * size ≤ s.length
  | 0 => decodes_pure ⟨rfl, by simp⟩
  | n + 1 => h.bind fun a s hs => (Decodes.times h n).bind fun as t ht => decodes_pure (by
      rw [List.append_nil, length_append, length_cons, Nat.succ_mul]
      omega)

end Rules

/-! ## 2. Bytes, numbers and tags -/

/-- The values of an `int32_t`. -/
def IsInt32 (n : ℤ) : Prop := -2 ^ 31 ≤ n ∧ n < 2 ^ 31

/-- A size that is computed from a negative count is larger than any memory. -/
theorem IsInt32.nonneg_of_sizeT {n} (h : IsInt32 n) {size : ℕ} (hpos : 0 < size) (hle : size ≤ 16)
    (hsize : sizeT (n * size) ≤ ptrdiffMax) :
    0 ≤ n ∧ n.toNat * size < memoryLimit ∧ sizeT (n * size) = n.toNat * size := by
  obtain ⟨hlower, hupper⟩ := h
  rw [ptrdiffMax] at hsize
  rw [memoryLimit]
  by_cases hn : 0 ≤ n
  · have hmul : n.toNat * size ≤ n.toNat * 16 := Nat.mul_le_mul_left _ hle
    have hcast : n * size = (n.toNat * size : ℕ) := by
      rw [Int.natCast_mul, Int.toNat_of_nonneg hn]
    rw [hcast, sizeT_natCast (by omega)]
    exact ⟨hn, by omega, rfl⟩
  · have hneg : (-n).toNat * size ≤ (-n).toNat * 16 := Nat.mul_le_mul_left _ hle
    have hone : (-n).toNat * 1 ≤ (-n).toNat * size := Nat.mul_le_mul_left _ hpos
    have hcast : n * size = -((-n).toNat * size : ℕ) := by
      rw [Int.natCast_mul, Int.toNat_of_nonneg (by omega), Int.neg_mul, Int.neg_neg]
    rw [hcast, sizeT] at hsize
    omega

section Primitives

variable {type : BufferType}

theorem decodes_unpackByte {n} (h : IsInt32 n) :
    Decodes type (unpackByte n) fun bytes s => s = bytes ∧ (bytes.length : ℤ) = n := by
  refine decodes_unlessTooSmall fun hmax bytes hlen => ?_
  have hmul : n * (1 : ℕ) = n := Int.mul_one n
  obtain ⟨hpos, hlt, hsize⟩ := h.nonneg_of_sizeT Nat.one_pos (by decide) (by rwa [hmul])
  rw [hmul] at hsize
  exact ⟨bytes, reads_unpackByte (by omega) (by omega), rfl, by omega⟩

theorem decodes_unpackWords {size} (hpos : 0 < size) (hle : size ≤ 16) {n : ℤ} (h : IsInt32 n) :
    Decodes type (unpackWords size n) fun src s =>
      0 ≤ n ∧ src.length = n.toNat ∧ s = src.flatMap (bigEndian size) ∧
        ∀ v ∈ src, v < 256 ^ size := by
  refine decodes_unlessTooSmall fun hmax bytes hlen => ?_
  obtain ⟨hn, hlt, hsize⟩ := h.nonneg_of_sizeT hpos hle hmax
  obtain ⟨src, hcount, hword, rfl⟩ :=
    exists_flatMap_bigEndian size n.toNat bytes (hlen.trans hsize)
  refine ⟨src, reads_unpackWords (by omega) hword ?_ (by rwa [hcount]), hn, hcount, rfl, hword⟩
  rw [memoryLimit]
  omega

theorem decodes_getDataType : Decodes type getDataType fun t s => s = [t] := by
  have hint : IsInt32 1 := by simp [IsInt32]
  refine (decodes_unpackByte hint).one fun bytes s ⟨hs, hlen⟩ => ?_
  obtain ⟨t, rfl⟩ := List.length_eq_one_iff.mp (by omega : bytes.length = 1)
  exact ⟨t, [], rfl, hs⟩

theorem decodes_expect (t : UInt8) (rc : Rc) :
    Decodes type (expect t rc) fun _ s => s = tag type t := by
  refine decodes_withType ?_
  cases type with
  | nonDesc => exact decodes_pure rfl
  | fullyDesc =>
    refine decodes_getDataType.bind fun localType s hs => ?_
    split
    · exact decodes_throw rc
    · rename_i hsame
      rw [not_not] at hsame
      refine decodes_pure ?_
      rw [List.append_nil, hs, hsame]
      rfl

theorem decodes_unpackLength : Decodes type unpackLength fun n s => s = word n ∧ IsInt32 n := by
  have hint : IsInt32 1 := by simp [IsInt32]
  have hnumbers : Decodes type (unpackInt32 1) fun ns s => ∃ n, ns = [n] ∧ s = bigEndian 4 n.toNat :=
    (decodes_unpackWords (by decide) (by decide) hint).map _ fun src s ⟨_, hlen, hs, hlt⟩ => by
      obtain ⟨v, rfl⟩ := List.length_eq_one_iff.mp hlen
      have hv : v < 2 ^ 32 := hlt v (mem_singleton_self v)
      refine ⟨UInt32.ofNat v, rfl, ?_⟩
      rw [hs, UInt32.toNat_ofNat_of_lt' hv]
      simp
  have hnumber : Decodes type (one (unpackInt32 1)) fun n s => s = bigEndian 4 n.toNat :=
    hnumbers.one fun ns s ⟨n, hns, hs⟩ => ⟨n, [], hns, hs⟩
  refine hnumber.map _ fun n s hs => ⟨?_, ?_, ?_⟩
  · rw [hs, word, Int32.ofInt_toInt, UInt32.toUInt32_toInt32]
  · exact Int32.le_toInt _
  · exact Int32.toInt_lt _

end Primitives

/-! ## 3. The types -/

/-- **The type decodes arrays**: `Neg` if it also does for negative counts. -/
def TypeInfo.Bounded {α : Type} (info : TypeInfo α) (Neg : Prop) : Prop :=
  ∀ type n, IsInt32 n → Decodes type (info.unpackFn n) fun vals s =>
    vals.length = n.toNat ∧ n.toNat ≤ s.length ∧ (n < 0 → Neg)

section Types

variable {α β : Type} {info : TypeInfo α} {Neg : Prop} (t : UInt8)

theorem TypeInfo.Bounded.reinterpret (h : info.Bounded Neg) (raw : β → α) (ofRaw : α → β) :
    (info.reinterpret t raw ofRaw).Bounded Neg :=
  fun type n hn => (h type n hn).map (List.map ofRaw) fun vals s ⟨hlen, hs⟩ =>
    ⟨by rwa [length_map], hs⟩

theorem bounded_words {size} (hpos : 0 < size) (hle : size ≤ 16) (packFn : List α → Dss Unit)
    (ofNat : ℕ → α) :
    TypeInfo.Bounded ⟨t, packFn, fun n => List.map ofNat <$> unpackWords size n⟩ Neg :=
  fun type n hn => (decodes_unpackWords hpos hle hn).map _ fun src s ⟨hnonneg, hlen, hs, _⟩ => by
    have hbytes := length_flatMap_bigEndian size src
    have hmul : src.length * 1 ≤ src.length * size := Nat.mul_le_mul_left _ hpos
    rw [length_map, hs]
    exact ⟨hlen, by omega, by omega⟩

variable (packFn : List α → Dss Unit)

/-- A loop that a negative count does not enter. -/
theorem bounded_times {r} (hneg : Neg) (h : ∀ type, Decodes type r fun _ s => 1 ≤ s.length) :
    TypeInfo.Bounded ⟨t, packFn, fun n => times n.toNat r⟩ Neg :=
  fun type n _ => ((h type).times n.toNat).mono fun vals s ⟨hlen, hs⟩ =>
    ⟨hlen, by omega, fun _ => hneg⟩

/-- A loop with a size in front. -/
theorem bounded_sized {r} {size : ℕ} (hpos : 0 < size) (hle : size ≤ 16)
    (h : ∀ type, Decodes type r fun _ s => size ≤ s.length) : TypeInfo.Bounded
      ⟨t, packFn, fun n => unlessTooSmall (sizeT (n * size)) (times n.toNat r)⟩ Neg := by
  intro type n hn
  by_cases hmax : sizeT (n * size) ≤ ptrdiffMax
  · obtain ⟨hnonneg, -, hsize⟩ := hn.nonneg_of_sizeT hpos hle hmax
    refine (((h type).times n.toNat).unlessTooSmall fun vals s ⟨_, hs⟩ => ?_).mono
      fun vals s ⟨hlen, hs⟩ => ?_
    · rwa [hsize]
    · have hmul : n.toNat * 1 ≤ n.toNat * size := Nat.mul_le_mul_left _ hpos
      exact ⟨hlen, by omega, by omega⟩
  · exact decodes_unlessTooSmall fun hle' => absurd hle' hmax

variable {type : BufferType} {n : ℤ}

/-- The array of a type, after its tag. -/
theorem TypeInfo.Bounded.decodes_unpackBuffer (h : info.Bounded Neg)
    (hn : IsInt32 n) : Decodes type (unpackBuffer info n) fun vals s =>
      ∃ body, s = tag type info.type ++ body ∧ vals.length = n.toNat ∧ n.toNat ≤ body.length ∧
        (n < 0 → Neg) :=
  (decodes_expect info.type .errPackMismatch).bind fun _ s hs =>
    (h type n hn).mono fun vals body hbody => ⟨body, by rw [hs], hbody⟩

/-- A tag that was looked at is read afterwards. -/
theorem decodes_peekType {Q} {f : UInt8 → Dss α}
    (h : ∀ t, Decodes .fullyDesc (f t) fun a s => s ≠ [] ∧ Q a s) :
    Decodes .fullyDesc (peekType >>= f) Q := by
  intro b hwf htype
  rcases hunread : b.unread with _ | ⟨t, tail⟩
  · refine .inr ⟨.errUnpackReadPastEndOfBuffer, 0, Nat.zero_le _, bind_error ?_⟩
    have hlen := hwf.length_unread
    rw [hunread, length_nil] at hlen
    rw [peekType, if_neg (fun hne => hne htype), if_pos (by omega), advance_zero]
  · have hpeek := peekType_eq hwf htype hunread
    rcases h t b hwf htype with ⟨a, s, rest, hs, hreads, hne, hq⟩ | ⟨rc, n, hn, hrun⟩
    · obtain ⟨t', s', rfl⟩ := exists_cons_of_ne_nil hne
      rw [hunread, cons_append, List.cons.injEq] at hs
      obtain ⟨rfl, htail⟩ := hs
      refine .inl ⟨a, t :: s', rest, by rw [htail, cons_append], ?_, hq⟩
      intro b' hwf' htype' rest' hunread'
      rw [bind_ok (peekType_eq hwf' htype' hunread')]
      exact hreads b' hwf' htype' rest' hunread'
    · exact .inr ⟨rc, n, by rwa [hunread] at hn, by rw [bind_ok hpeek, hrun]⟩

/-- The values of an array, and the tag in front of them if the buffer is described. -/
def Tagged (type : BufferType) (n : ℤ) (vals : List α) (s : List UInt8) : Prop :=
  (type = .fullyDesc → s ≠ []) ∧ vals.length = n.toNat ∧ n.toNat ≤ s.length ∧ 0 ≤ n

theorem TypeInfo.Bounded.decodes_tagged (h : info.Bounded False)
    (hn : IsInt32 n) : Decodes type (unpackBuffer info n) (Tagged type n) :=
  (h.decodes_unpackBuffer hn).mono fun vals s ⟨body, hs, hlen, hbody, hneg⟩ => by
    refine ⟨fun hdesc hnil => ?_, hlen, ?_, Int.not_lt.mp hneg⟩
    · rw [hnil, hdesc] at hs
      cases hs
    · rw [hs, length_append]
      omega

theorem TypeInfo.Bounded.decodes_unpackConverted (h : info.Bounded False) (hn : IsInt32 n)
    (value : α → ℤ) (convert : ℤ → β) :
    Decodes type (unpackConverted info value convert n) (Tagged type n) :=
  (h.decodes_tagged hn).map _ fun vals s ⟨hne, hlen, hs⟩ =>
    ⟨hne, by rwa [length_map], hs⟩

theorem bounded_byte : byte.Bounded Neg := fun type n hn =>
  (decodes_unpackByte hn).mono fun bytes s ⟨hs, hlen⟩ => by
    rw [hs]
    omega

theorem bounded_uint8 : uint8.Bounded Neg := bounded_byte

theorem bounded_int8 : int8.Bounded Neg := bounded_byte.reinterpret _ _ _

theorem bounded_uint16 : uint16.Bounded Neg := bounded_words 13 (by decide) (by decide) _ _

theorem bounded_int16 : int16.Bounded Neg := bounded_uint16.reinterpret _ _ _

theorem bounded_uint32 : uint32.Bounded Neg := bounded_words 14 (by decide) (by decide) _ _

theorem bounded_int32 : int32.Bounded Neg := bounded_uint32.reinterpret _ _ _

theorem bounded_uint64 : uint64.Bounded Neg := bounded_words 15 (by decide) (by decide) _ _

theorem bounded_int64 : int64.Bounded Neg := bounded_uint64.reinterpret _ _ _

theorem decodes_unpackSizeMismatch (hn : IsInt32 n) (convert : ℤ → β)
    (t : UInt8) : Decodes type (unpackSizeMismatch convert t n) (Tagged type n) := by
  rw [unpackSizeMismatch]
  split
  · exact bounded_uint8.decodes_unpackConverted hn _ _
  split
  · exact bounded_int8.decodes_unpackConverted hn _ _
  split
  · exact bounded_uint16.decodes_unpackConverted hn _ _
  split
  · exact bounded_int16.decodes_unpackConverted hn _ _
  split
  · exact bounded_uint32.decodes_unpackConverted hn _ _
  split
  · exact bounded_int32.decodes_unpackConverted hn _ _
  split
  · exact bounded_uint64.decodes_unpackConverted hn _ _
  split
  · exact bounded_int64.decodes_unpackConverted hn _ _
  · exact decodes_throw _

/-- A type whose real type is read first. -/
theorem TypeInfo.Bounded.real (h : info.Bounded False) (convert : ℤ → α) :
    TypeInfo.Bounded ⟨t, packFn, unpackReal info convert⟩ Neg := by
  intro type n hn
  have hrest : ∀ remote : UInt8, Decodes type
      (if remote = info.type then unpackBuffer info n else unpackSizeMismatch convert remote n)
      (Tagged type n) := by
    intro remote
    split
    · exact h.decodes_tagged hn
    · exact decodes_unpackSizeMismatch hn convert remote
  cases type with
  | nonDesc =>
    refine (decodes_withType decodes_getDataType).bind fun remote s _ => (hrest remote).mono ?_
    rintro vals body ⟨-, hlen, hbody, hnonneg⟩
    rw [length_append]
    exact ⟨hlen, by omega, by omega⟩
  | fullyDesc =>
    have hpeek : Decodes .fullyDesc (peekType >>= fun remote =>
        if remote = info.type then unpackBuffer info n else unpackSizeMismatch convert remote n)
        fun vals s => vals.length = n.toNat ∧ n.toNat ≤ s.length ∧ (n < 0 → Neg) :=
      decodes_peekType fun remote => (hrest remote).mono fun vals s ⟨hne, hlen, hs, hnonneg⟩ =>
        ⟨hne rfl, hlen, hs, by omega⟩
    refine hpeek.congr fun b htype => ?_
    have hremote : remoteType b = peekType b := by
      rw [remoteType, withType, htype, if_pos rfl]
    exact (bind_apply _ _ b).trans (by rw [hremote, bind_apply])

theorem bounded_int : int.Bounded Neg := bounded_int32.real _ _ _

theorem one_le_length_word_append (n : ℤ) (t : List UInt8) : 1 ≤ (word n ++ t).length := by
  rw [length_append, word, length_bigEndian]
  omega

theorem bounded_string (hneg : Neg) : string.Bounded Neg := by
  refine bounded_times 3 _ hneg fun type => decodes_unpackLength.bind fun len s ⟨hs, hint⟩ => ?_
  subst hs
  split
  · exact decodes_pure (one_le_length_word_append len [])
  split
  · exact decodes_throw _
  · exact (decodes_unpackByte hint).map some fun _ t _ => one_le_length_word_append len t

theorem bounded_byteObject (hneg : Neg) : byteObject.Bounded Neg := by
  refine bounded_times 20 _ hneg fun type => decodes_unpackLength.bind fun len s ⟨hs, hint⟩ => ?_
  subst hs
  split
  · exact (decodes_unpackByte hint).map _ fun _ t _ => one_le_length_word_append len t
  · exact decodes_pure (one_le_length_word_append len [])

theorem decodes_unpackInt64 (n : ℕ) (h : IsInt32 n) :
    Decodes type (unpackInt64 n) fun vals s => vals.length = n ∧ s.length = n * 8 :=
  (decodes_unpackWords (by decide) (by decide) h).map _ fun src s ⟨_, hlen, hs, _⟩ => by
    rw [hs, length_flatMap_bigEndian, length_map, hlen]
    simp

theorem bounded_timeval : timeval.Bounded Neg := by
  refine bounded_sized 18 _ (by decide : 0 < 16) (by decide) fun type => ?_
  refine (decodes_unpackInt64 2 (by simp [IsInt32])).bind fun vals s ⟨hlen, hs⟩ => ?_
  obtain ⟨sec, usec, rfl⟩ := List.length_eq_two.mp hlen
  exact decodes_pure (by simp [hs])

theorem bounded_time : time.Bounded Neg := by
  refine bounded_sized 19 _ (by decide : 0 < 8) (by decide) fun type => ?_
  have hone : Decodes type (one (unpackInt64 1)) fun _ s => 8 ≤ s.length :=
    (decodes_unpackInt64 1 (by simp [IsInt32])).one fun vals s ⟨hlen, hs⟩ => by
      obtain ⟨t, rfl⟩ := List.length_eq_one_iff.mp hlen
      exact ⟨t, [], rfl, by omega⟩
  exact hone.map _ fun _ _ h => h

end Types

/-- The types whose functions do not look at the sign of the count. -/
def DataType.Loops (t : DataType) : Prop := t = .string ∨ t = .byteObject

theorem DataType.bounded : ∀ {t : DataType}, t ≠ .buffer → t.info.Bounded t.Loops
  | .byte, _ => bounded_byte
  | .bool, _ => (bounded_uint8.real _ _ _).reinterpret _ _ _
  | .string, _ => bounded_string (Or.inl rfl)
  | .size, _ => bounded_uint64.real _ _ _
  | .pid, _ => (bounded_uint32.real _ _ _).reinterpret _ _ _
  | .int, _ => bounded_int
  | .int8, _ => bounded_int8
  | .int16, _ => bounded_int16
  | .int32, _ => bounded_int32
  | .int64, _ => bounded_int64
  | .uint, _ => bounded_int.reinterpret _ _ _
  | .uint8, _ => bounded_uint8
  | .uint16, _ => bounded_uint16
  | .uint32, _ => bounded_uint32
  | .uint64, _ => bounded_uint64
  | .timeval, _ => bounded_timeval
  | .time, _ => bounded_time
  | .byteObject, _ => bounded_byteObject (Or.inr rfl)
  | .buffer, h => absurd rfl h

/-! ## 4. Runs of requests -/

/-- What a call that succeeds has done: it has read a header with a count and the values behind. -/
def Answer {α : Type} (type : BufferType) (info : TypeInfo α) (capacity : ℤ) (Neg : Prop)
    (answer : ℤ × List α) (s : List UInt8) : Prop :=
  ∃ body, s = header type info.type answer.1 ++ body ∧ IsInt32 answer.1 ∧ answer.1 ≤ capacity ∧
    answer.2.length = answer.1.toNat ∧ answer.1.toNat ≤ body.length ∧ (answer.1 < 0 → Neg)

theorem TypeInfo.Bounded.decodes_unpack {α : Type} {info : TypeInfo α} {Neg : Prop}
    (h : info.Bounded Neg) {type capacity} (hcap : 1 ≤ capacity) :
    Decodes type (unpack info capacity) (Answer type info capacity Neg) := by
  have hcount : Decodes type unpackCount fun n s => s = tag type int32Type ++ word n ∧ IsInt32 n :=
    (decodes_expect _ _).bind fun _ s hs => decodes_unpackLength.mono fun n t ht =>
      ⟨by rw [hs, ht.1], ht.2⟩
  rw [unpack, if_neg (by omega)]
  refine hcount.bind ?_
  rintro n s ⟨hs, hint⟩
  split
  · -- the values that there is room for are read, and the call fails all the same
    have hroom : IsInt32 capacity := ⟨by omega, Int.lt_trans ‹_› hint.2⟩
    exact (h.decodes_unpackBuffer hroom).bind fun _ _ _ => decodes_throw _
  · rename_i hroom
    refine (h.decodes_unpackBuffer hint).bind ?_
    rintro vals t ⟨body, ht, hvals⟩
    refine decodes_pure ⟨body, ?_, hint, Int.not_lt.mp hroom, hvals⟩
    rw [hs, ht, header]
    simp only [List.append_assoc, List.append_nil]

variable {b : Buffer}

/-- **At the end of the buffer** there is nothing to unpack. -/
theorem TypeInfo.Bounded.unpack_nil {α : Type} {info : TypeInfo α} {Neg : Prop}
    (h : info.Bounded Neg) {capacity} (hcap : 1 ≤ capacity) (hwf : b.Wf) (hnil : b.unread = []) :
    ∃ rc, unpack info capacity b = (.error (.rc rc), b) := by
  rcases h.decodes_unpack hcap b hwf rfl with
    ⟨_, bytes, rest, hunread, -, body, hbytes, -⟩ | ⟨rc, n, hn, hrun⟩
  · have hempty : bytes = [] := (append_eq_nil_iff.mp (hunread.symm.trans hnil)).1
    exact absurd (append_eq_nil_iff.mp (hbytes.symm.trans hempty)).1 (header_ne_nil _ _ _)
  · rw [hnil, length_nil, Nat.le_zero] at hn
    rw [hn, advance_zero] at hrun
    exact ⟨rc, hrun⟩

/-- A call of `opal_dss.unpack`. -/
structure Request where
  type : DataType
  capacity : ℤ

/-- The call runs. -/
def Request.run (r : Request) : Dss (ℤ × List r.type.Val) := unpack r.type.info r.capacity

/-- Room for at least one value, and no nested buffers. -/
def Request.Admissible (r : Request) : Prop := r.type ≠ .buffer ∧ 1 ≤ r.capacity

/-- The buffer after some calls, whatever they return. -/
def after (b : Buffer) (requests : List Request) : Buffer :=
  requests.foldl (fun b r => (r.run b).2) b

/-- **The call stays in its bounds**: the pointer goes forward and not past the end, nothing
undefined happens, and if it succeeds, the values are as many as it reports, within the capacity,
and come from the bytes that it has passed. -/
structure Request.Bounded (r : Request) (b : Buffer) : Prop where
  base : (r.run b).2.base = b.base
  forward : b.unpackPtr ≤ (r.run b).2.unpackPtr
  upper : (r.run b).2.unpackPtr ≤ b.base.length
  defined : (r.run b).1 ≠ .error .undefined
  values : ∀ n vals, (r.run b).1 = .ok (n, vals) →
    0 ≤ n ∧ n ≤ r.capacity ∧ vals.length = n ∧ ∃ bytes rest, b.unread = bytes ++ rest ∧
      (r.run b).2.unpackPtr = b.unpackPtr + bytes.length ∧ n ≤ bytes.length ∧
      Reads b.type r.run bytes (n, vals)

/-- Strings or byte objects are asked for where a header of theirs has a negative count. -/
def Request.NegativeCount (r : Request) (b : Buffer) : Prop :=
  r.type.Loops ∧ ∃ n rest, -2 ^ 31 ≤ n ∧ n < 0 ∧
    b.unread = header b.type r.type.info.type n ++ rest

variable {r : Request}

theorem Request.Admissible.decodes (h : r.Admissible) (type : BufferType) :
    Decodes type r.run (Answer type r.type.info r.capacity r.type.Loops) :=
  (DataType.bounded h.1).decodes_unpack h.2

/-- One call leaves the pointers in order. -/
theorem Request.Admissible.wf_run (h : r.Admissible) (hwf : b.Wf) :
    ∃ n ≤ b.unread.length, (r.run b).2 = b.advance n := by
  rcases h.decodes b.type b hwf rfl with ⟨a, s, rest, hunread, hreads, -⟩ | ⟨rc, n, hn, hrun⟩
  · refine ⟨s.length, ?_, by rw [hreads b hwf rfl rest hunread]⟩
    rw [hunread, length_append]
    exact Nat.le_add_right _ _
  · exact ⟨n, hn, by rw [hrun]⟩

/-- So does a run. -/
theorem wf_after (hwf : b.Wf) : ∀ requests : List Request,
    (∀ r ∈ requests, r.Admissible) → (after b requests).Wf := by
  intro requests
  induction requests generalizing b with
  | nil => exact fun _ => hwf
  | cons r requests ih =>
    intro h
    obtain ⟨n, hn, hrun⟩ := (h r mem_cons_self).wf_run hwf
    have hnext : (r.run b).2.Wf := by
      rw [hrun]
      exact hwf.advance hn
    exact ih hnext fun r' hr' => h r' (mem_cons_of_mem r hr')

/-- A negative count reads nothing, and succeeds. -/
theorem DataType.Loops.reads {t : DataType} (h : t.Loops) {type n} (hn : n < 0) :
    Reads type (t.info.unpackFn n) [] [] := by
  have hzero : n.toNat = 0 := Int.toNat_of_nonpos (Int.le_of_lt hn)
  have htimes : ∀ {α : Type} (r : Dss α), Reads type (times n.toNat r) [] [] := by
    intro α r
    rw [hzero]
    exact reads_pure []
  rcases h with rfl | rfl
  · exact htimes _
  · exact htimes _

/-- **A call is bounded unless the count is negative.** -/
theorem Request.Admissible.bounded_iff (h : r.Admissible)
    (hwf : b.Wf) : r.Bounded b ↔ ¬ r.NegativeCount b := by
  constructor
  · rintro hbounded ⟨hloops, n, rest, hlower, hneg, hunread⟩
    have hcap := h.2
    have hreads : Reads b.type r.run (header b.type r.type.info.type n ++ []) (n, []) :=
      reads_unpack hlower (by omega) (by omega) (by omega) (hloops.reads hneg)
    have hrun := hreads b hwf rfl rest (by rw [List.append_nil, hunread])
    have hvalues := (hbounded.values n [] (by rw [hrun])).1
    omega
  · intro hcount
    obtain ⟨k, hk, hrun⟩ := h.wf_run hwf
    have hlen := hwf.length_unread
    have hused := hwf.used
    refine ⟨by rw [hrun]; rfl, ?_, ?_, ?_, ?_⟩
    · simp only [hrun, advance]
      omega
    · simp only [hrun, advance]
      omega
    · rcases h.decodes b.type b hwf rfl with ⟨a, s, rest, hs, hreads, -⟩ | ⟨rc, n, -, herror⟩
      · rw [hreads b hwf rfl rest hs]
        exact fun hne => by cases hne
      · rw [herror]
        exact fun hne => by cases hne
    · intro n vals hok
      rcases h.decodes b.type b hwf rfl with
        ⟨⟨m, vals'⟩, s, rest, hs, hreads, hanswer⟩ | ⟨rc, n, -, herror⟩
      · have hrun' := hreads b hwf rfl rest hs
        rw [hrun'] at hok ⊢
        obtain ⟨rfl, rfl⟩ : m = n ∧ vals' = vals := by simpa using hok
        obtain ⟨body, hbytes, hint, hroom, hcounted, hbody, hneg⟩ := hanswer
        dsimp only at hcounted hbody
        have hnonneg : 0 ≤ m := by
          by_contra hlt
          rw [hbytes, List.append_assoc] at hs
          exact hcount ⟨hneg (by omega), m, _, hint.1, by omega, hs⟩
        refine ⟨hnonneg, hroom, by omega, s, rest, hs, rfl, ?_, hreads⟩
        rw [hbytes, length_append]
        omega
      · rw [herror] at hok
        cases hok

/-- **Unpacking bytes that nobody packed**: in every run of requests from a loaded buffer, a call
is bounded if and only if there is no negative count. -/
theorem unpack_bounded_iff (type : BufferType) (payload : List UInt8)
    (hpayload : payload.length < 2 ^ 31) (requests : List Request)
    (hrequests : ∀ r ∈ requests, r.Admissible) (r : Request) (hr : r.Admissible) :
    r.Bounded (after (Buffer.load type payload) requests) ↔
      ¬ r.NegativeCount (after (Buffer.load type payload) requests) :=
  hr.bounded_iff (wf_after (wf_load type (by rw [ptrdiffMax]; omega)) requests hrequests)

/-- A string, and a negative count behind it: the first call is bounded. -/
theorem unpack_bounded_iff_string : Request.Bounded ⟨.string, 1⟩
      (Buffer.load .nonDesc [0, 0, 0, 1, 0, 0, 0, 2, 104, 0, 255, 255, 255, 255]) := by
  refine (unpack_bounded_iff .nonDesc _ (by decide) [] (by simp) ⟨.string, 1⟩
    ⟨by decide, by decide⟩).mpr ?_
  rintro ⟨-, n, rest, hlower, hneg, hunread⟩
  have hreads := reads_unpackLength hlower (by omega) _
    (wf_load .nonDesc (by decide)) rfl rest hunread
  have hone : (unpackLength (load .nonDesc
      [0, 0, 0, 1, 0, 0, 0, 2, 104, 0, 255, 255, 255, 255])).1 = .ok 1 := by decide +kernel
  rw [hreads] at hone
  cases hone
  exact absurd hneg (by decide)

/-- **Four bytes are enough**: asked for one string, `opal_dss.unpack` returns `OPAL_SUCCESS` and
reports `-1` values. -/
theorem negative_count_succeeds :
    (Request.run ⟨.string, 1⟩ (Buffer.load .nonDesc [255, 255, 255, 255])).1 =
      .ok (-1, ([] : List CharPtr)) ∧
    ¬ Request.Bounded ⟨.string, 1⟩ (Buffer.load .nonDesc [255, 255, 255, 255]) := by
  have hrun : (unpack string 1 (load .nonDesc [255, 255, 255, 255])).1 =
      .ok (-1, ([] : List CharPtr)) := by decide +kernel
  exact ⟨hrun, fun hbounded => absurd (hbounded.values (-1) [] hrun).1 (by decide)⟩

end Sensys.Opal.Dss
