/-
# Numbers as bytes

A number in network byte order: a fixed number of bytes, the most significant first.  Writing a
number and reading it back gives the number modulo the size (`ofBigEndian_bigEndian`); any bytes
are the bytes of the number that they stand for (`bigEndian_ofBigEndian`).
-/
import Mathlib.Data.List.Basic
import Mathlib.Tactic.Ring

namespace Sensys

open List

/-- The lowest `size` bytes of a number, the most significant first. -/
def bigEndian : ℕ → ℕ → List UInt8
  | 0, _ => []
  | size + 1, n => UInt8.ofNat (n / 256 ^ size) :: bigEndian size n

/-- The number that bytes stand for. -/
def ofBigEndian : List UInt8 → ℕ
  | [] => 0
  | byte :: bytes => byte.toNat * 256 ^ bytes.length + ofBigEndian bytes

theorem length_bigEndian : ∀ size n : ℕ, (bigEndian size n).length = size
  | 0, _ => rfl
  | size + 1, n => congrArg (· + 1) (length_bigEndian size n)

/-- **Reading back.** -/
theorem ofBigEndian_bigEndian : ∀ size n : ℕ, ofBigEndian (bigEndian size n) = n % 256 ^ size
  | 0, n => (Nat.mod_one n).symm
  | size + 1, n => by
    have hsplit : n % 256 ^ (size + 1) = n % 256 ^ size + 256 ^ size * (n / 256 ^ size % 256) :=
      Nat.mod_pow_succ
    rw [bigEndian, ofBigEndian, length_bigEndian, ofBigEndian_bigEndian size n,
      UInt8.toNat_ofNat', hsplit, Nat.mul_comm, Nat.add_comm]

theorem ofBigEndian_bigEndian_of_lt {size n} (h : n < 256 ^ size) :
    ofBigEndian (bigEndian size n) = n := by
  rw [ofBigEndian_bigEndian, Nat.mod_eq_of_lt h]

theorem ofBigEndian_lt : ∀ bytes : List UInt8, ofBigEndian bytes < 256 ^ bytes.length
  | [] => Nat.one_pos
  | byte :: bytes => by
    have ih := ofBigEndian_lt bytes
    have hbyte : byte.toNat + 1 ≤ 256 := byte.toNat_lt
    calc byte.toNat * 256 ^ bytes.length + ofBigEndian bytes
        < (byte.toNat + 1) * 256 ^ bytes.length := by rw [Nat.succ_mul]; omega
      _ ≤ 256 * 256 ^ bytes.length := Nat.mul_le_mul_right _ hbyte
      _ = 256 ^ (bytes.length + 1) := by rw [Nat.pow_succ, Nat.mul_comm]

/-- What is above the lowest bytes does not matter. -/
theorem bigEndian_add_mul : ∀ size n k : ℕ, bigEndian size (n + k * 256 ^ size) = bigEndian size n
  | 0, _, _ => rfl
  | size + 1, n, k => by
    have hpower : k * 256 ^ (size + 1) = k * 256 * 256 ^ size := by
      rw [Nat.pow_succ, Nat.mul_assoc, Nat.mul_comm 256]
    have hhead : UInt8.ofNat ((n + k * 256 * 256 ^ size) / 256 ^ size) =
        UInt8.ofNat (n / 256 ^ size) := by
      rw [Nat.add_mul_div_right _ _ (Nat.pow_pos (by decide)), ← UInt8.toNat_inj]
      simp
    rw [bigEndian, bigEndian, hpower, hhead, bigEndian_add_mul size n (k * 256)]

/-- **Writing back.** -/
theorem bigEndian_ofBigEndian : ∀ bytes : List UInt8,
    bigEndian bytes.length (ofBigEndian bytes) = bytes
  | [] => rfl
  | byte :: bytes => by
    have hdiv : (ofBigEndian bytes + byte.toNat * 256 ^ bytes.length) / 256 ^ bytes.length =
        byte.toNat := by
      rw [Nat.add_mul_div_right _ _ (Nat.pow_pos (by decide)),
        Nat.div_eq_of_lt (ofBigEndian_lt bytes), Nat.zero_add]
    rw [length_cons, ofBigEndian, bigEndian, Nat.add_comm (_ * _), hdiv, bigEndian_add_mul,
      bigEndian_ofBigEndian bytes, UInt8.ofNat_toNat]

/-- Encodings of bounded length. -/
theorem length_flatMap_le {α : Type} {enc : α → List UInt8} {size} : ∀ {as : List α},
    (∀ a ∈ as, (enc a).length ≤ size) → (as.flatMap enc).length ≤ as.length * size
  | [], _ => Nat.zero_le _
  | a :: as, h => by
    rw [flatMap_cons, length_append, length_cons, Nat.succ_mul, Nat.add_comm]
    exact Nat.add_le_add (length_flatMap_le fun b hb => h b (mem_cons_of_mem a hb))
      (h a mem_cons_self)

/-- Bytes are an array of numbers if their length is right. -/
theorem exists_flatMap_bigEndian (size : ℕ) : ∀ n bytes,
    bytes.length = n * size → ∃ src : List ℕ,
      src.length = n ∧ (∀ v ∈ src, v < 256 ^ size) ∧ src.flatMap (bigEndian size) = bytes
  | 0, bytes, h => ⟨[], rfl, by simp, (eq_nil_of_length_eq_zero (by simpa using h)).symm⟩
  | n + 1, bytes, h => by
    rw [Nat.succ_mul] at h
    have hhead : (bytes.take size).length = size := by
      rw [length_take]
      omega
    obtain ⟨src, hlen, hlt, hsrc⟩ := exists_flatMap_bigEndian size n (bytes.drop size)
      (by rw [length_drop]; omega)
    have hvalue := ofBigEndian_lt (bytes.take size)
    have hback := bigEndian_ofBigEndian (bytes.take size)
    rw [hhead] at hvalue hback
    refine ⟨ofBigEndian (bytes.take size) :: src, congrArg (· + 1) hlen, ?_, ?_⟩
    · exact forall_mem_cons.mpr ⟨hvalue, hlt⟩
    · rw [flatMap_cons, hback, hsrc, take_append_drop]

end Sensys
