/-
# Bitmaps

The model of `opal/class/opal_bitmap.c`: an array of 64-bit words with a largest size, and the
functions that make one, set a bit and test a bit.  Bit numbers are of type `int`.

`opal_bitmap_set_bit` enlarges the array when it has to, to a multiple of its present size.  On an
array of no words, which is what a failed `opal_bitmap_init` leaves, it divides by zero; `none`
stands for that.

`Bitmap.Holds` is the purpose: the bitmap is a set of numbers below its size.
-/
import Sensys.Constants

namespace Sensys.Opal

open List

/-- `opal_bitmap_t`; `array_size` is the length of the array. -/
structure Bitmap where
  bitmap : List (BitVec 64)
  maxSize : ℤ
  deriving DecidableEq, Repr

namespace Bitmap

/-- `opal_bitmap_construct`. -/
def construct : Bitmap := ⟨[], 2 ^ 31 - 1⟩

/-- `opal_bitmap_init`. -/
def init (bm : Bitmap) (size : ℤ) : Rc × Bitmap :=
  if size ≤ 0 ∨ bm.maxSize < size then (.errBadParam, bm)
  else
    let arraySize := (size.toNat + 63) / 64
    let maxSize := if bm.bitmap ≠ [] ∧ bm.maxSize < arraySize then (arraySize : ℤ) else bm.maxSize
    (.success, ⟨List.replicate arraySize 0, maxSize⟩)

/-- The part of `opal_bitmap_set_bit` that makes room for a word. -/
def makeRoom (bm : Bitmap) (index : ℕ) : Option Bitmap :=
  let arraySize := bm.bitmap.length
  if arraySize ≤ index then
    if arraySize = 0 then none
    else
      let newSize := (index / arraySize + 1) * arraySize
      let newSize := if bm.maxSize < newSize then bm.maxSize.toNat else newSize
      some { bm with bitmap := bm.bitmap ++ List.replicate (newSize - arraySize) 0 }
  else some bm

/-- `opal_bitmap_set_bit`. -/
def setBit (bm : Bitmap) (bit : ℤ) : Option (Rc × Bitmap) :=
  if bit < 0 ∨ bm.maxSize < bit then some (.errBadParam, bm)
  else
    let index := bit.toNat / 64
    let offset := bit.toNat % 64
    (bm.makeRoom index).map fun bm =>
      (.success, { bm with bitmap := bm.bitmap.modify index (· ||| (1#64 <<< offset)) })

/-- `opal_bitmap_is_set_bit`.  The size in bits is computed in `int`. -/
def isSetBit (bm : Bitmap) (bit : ℤ) : Bool :=
  if bit < 0 ∨ int32 (bm.bitmap.length * 64) ≤ bit then false
  else (bm.bitmap.getD (bit.toNat / 64) 0).getLsbD (bit.toNat % 64)

/-! ## A bitmap is a set -/

/-- **The bitmap has room for the numbers below `size`, and holds the ones on the list.** -/
structure Holds (bm : Bitmap) (size : ℕ) (held : List ℕ) : Prop where
  length : bm.bitmap.length = (size + 63) / 64
  maxSize : bm.maxSize = 2 ^ 31 - 1
  bits : ∀ bit : ℤ, bm.isSetBit bit = true ↔ ∃ n ∈ held, bit = n

/-- The largest size for which the size in bits is an `int`. -/
def sizeLimit : ℕ := 2 ^ 31 - 64

theorem holds_init {size} (hpos : 0 < size) (hsize : size ≤ sizeLimit) :
    Holds (construct.init size).2 size [] := by
  have hok : ¬ ((size : ℤ) ≤ 0 ∨ construct.maxSize < size) := by
    simp only [construct, sizeLimit] at hsize ⊢
    omega
  rw [init, if_neg hok]
  refine ⟨by simp, by simp [construct], ?_⟩
  intro bit
  simp only [isSetBit, not_mem_nil, false_and, exists_false, iff_false]
  split
  · simp
  · by_cases hin : bit.toNat / 64 < (size + 63) / 64 <;> simp [hin]

theorem getLsbD_or_shiftLeft (w : BitVec 64) {i j} (hi : i < 64) (hj : j < 64) :
    (w ||| (1#64 <<< j)).getLsbD i = (w.getLsbD i || decide (i = j)) := by
  rw [BitVec.getLsbD_or, BitVec.getLsbD_shiftLeft, BitVec.getLsbD_one]
  by_cases hij : i = j
  · subst hij
    simp [hi]
  · have hdec : decide (i = j) = false := decide_eq_false hij
    have hbit : (decide (i < 64) && !decide (i < j) && (decide (0 < 64) && decide (i - j = 0)))
        = false := by
      simp
      omega
    rw [hdec, hbit]

/-- The word of a bit after a word was changed. -/
theorem getD_modify (words : List (BitVec 64)) (f : BitVec 64 → BitVec 64) (i j : ℕ)
    (hi : i < words.length) :
    (words.modify i f).getD j 0 = if j = i then f (words.getD j 0) else words.getD j 0 := by
  by_cases hij : j = i
  · subst hij
    simp [getElem?_eq_getElem hi]
  · simp [hij, Ne.symm hij]

/-- **Setting a bit adds a number to the set.** -/
theorem Holds.setBit {bm size held} (h : Holds bm size held) (hsize : size ≤ sizeLimit) {n}
    (hn : n < size) : ∃ bm', bm.setBit n = some (.success, bm') ∧ Holds bm' size (held ++ [n]) := by
  have hword : n / 64 < bm.bitmap.length := by
    rw [h.length]
    omega
  have hbound : ¬ ((n : ℤ) < 0 ∨ bm.maxSize < n) := by
    rw [h.maxSize]
    simp only [sizeLimit] at hsize
    omega
  have hroom : bm.makeRoom (n / 64) = some bm := by
    rw [makeRoom]
    simp only [Nat.not_le.mpr hword, if_false]
  refine ⟨{ bm with bitmap := bm.bitmap.modify (n / 64) (· ||| (1#64 <<< (n % 64))) }, ?_, ?_⟩
  · rw [Bitmap.setBit, if_neg hbound]
    simp [hroom]
  · refine ⟨by simp [h.length], h.maxSize, ?_⟩
    intro bit
    have hlimit : int32 (bm.bitmap.length * 64) = bm.bitmap.length * 64 := by
      refine int32_eq (by omega) ?_
      rw [h.length]
      simp only [sizeLimit] at hsize
      omega
    have hold := h.bits bit
    simp only [isSetBit, length_modify, hlimit] at hold ⊢
    by_cases hout : bit < 0 ∨ (bm.bitmap.length : ℤ) * 64 ≤ bit
    · rw [if_pos hout] at hold ⊢
      constructor
      · intro hfalse
        cases hfalse
      · rintro ⟨m, hm, rfl⟩
        rcases mem_append.mp hm with hm | hm
        · exact hold.mpr ⟨m, hm, rfl⟩
        · rw [List.mem_singleton] at hm
          omega
    · rw [if_neg hout] at hold ⊢
      obtain ⟨k, rfl⟩ : ∃ k : ℕ, bit = k := ⟨bit.toNat, by omega⟩
      rw [getD_modify _ _ _ _ hword]
      simp only [Int.toNat_natCast, mem_append, List.mem_singleton] at hold ⊢
      split_ifs with hsame
      · rw [getLsbD_or_shiftLeft _ (Nat.mod_lt _ (by omega))
          (Nat.mod_lt _ (by omega)), Bool.or_eq_true, hold, decide_eq_true_eq]
        constructor
        · rintro (⟨m, hm, heq⟩ | heq)
          · exact ⟨m, .inl hm, heq⟩
          · exact ⟨n, .inr rfl, by omega⟩
        · rintro ⟨m, hm | rfl, heq⟩
          · exact .inl ⟨m, hm, heq⟩
          · exact .inr (by omega)
      · rw [hold]
        constructor
        · rintro ⟨m, hm, heq⟩
          exact ⟨m, .inl hm, heq⟩
        · rintro ⟨m, hm | rfl, heq⟩
          · exact ⟨m, hm, heq⟩
          · omega

end Bitmap

end Sensys.Opal
