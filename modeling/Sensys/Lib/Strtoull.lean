/-
# `strtoull` in any base

Numerals in a base of up to 36, and `strtoull` as C has it: blanks are skipped, there may be a sign,
the base 0 leaves it to the numeral (`0x` for 16, another leading `0` for 8, and else 10), and a
number that is too large is cut off.

* `strtoull_hex`, `strtoull_zero_hex`: a hexadecimal numeral is read in base 16, and in base 0 if its
  `0x` is there;
* `strtoull_zero`: WITHOUT the `0x` base 0 reads it as a decimal or octal numeral, up to the first
  character that is no digit of that base;
* `valueIn_takeWhile_iff`: in a smaller base it is the same number only if that is less than the
  base.
-/
import Sensys.Lib.CString

namespace Sensys.CString

open List

/-! ## 1. Numerals -/

/-- The value of a character as a digit; 36 if it is none in any base. -/
def digitValue (c : UInt8) : ℕ :=
  if isDigit c then c.toNat - 48
  else if 97 ≤ c.toNat ∧ c.toNat ≤ 122 then c.toNat - 87
  else if 65 ≤ c.toNat ∧ c.toNat ≤ 90 then c.toNat - 55
  else 36

/-- A digit of a base. -/
def isDigitIn (b : ℕ) (c : UInt8) : Bool := decide (digitValue c < b)

/-- The value of a numeral. -/
def valueIn (b : ℕ) (s : Str) : ℕ := s.foldl (fun a c => b * a + digitValue c) 0

variable {c : UInt8}

/-- The characters that can stand in a numeral are no blanks and no signs. -/
theorem toNat_of_digitValue_lt (h : digitValue c < 36) : 48 ≤ c.toNat := by
  rw [digitValue] at h
  split_ifs at h with hdigit
  · exact (isDigit_iff.mp hdigit).1
  all_goals omega

theorem isDigitIn_iff {b} : isDigitIn b c = true ↔ digitValue c < b :=
  decide_eq_true_iff

@[simp] theorem valueIn_append_singleton (b : ℕ) (s : Str) (c : UInt8) :
    valueIn b (s ++ [c]) = b * valueIn b s + digitValue c := by
  simp [valueIn]

/-- The same digits in a smaller base. -/
theorem valueIn_le {b b'} (hb : b ≤ b') (s : Str) : valueIn b s ≤ valueIn b' s := by
  induction s using List.reverseRecOn with
  | nil => exact Nat.le_refl 0
  | append_singleton s c ih =>
    rw [valueIn_append_singleton, valueIn_append_singleton]
    exact Nat.add_le_add_right (Nat.mul_le_mul hb ih) _

/-- Every further digit shifts the number. -/
theorem mul_valueIn_le {b} (hb : 0 < b) (s : Str) {t} (ht : t ≠ []) :
    b * valueIn b s ≤ valueIn b (s ++ t) := by
  induction t using List.reverseRecOn with
  | nil => exact absurd rfl ht
  | append_singleton t c ih =>
    rw [← List.append_assoc, valueIn_append_singleton]
    by_cases hnil : t = []
    · rw [hnil, List.append_nil]
      exact Nat.le_add_right _ _
    · calc b * valueIn b s ≤ valueIn b (s ++ t) := ih hnil
        _ ≤ b * valueIn b (s ++ t) := Nat.le_mul_of_pos_left _ hb
        _ ≤ _ := Nat.le_add_right _ _

/-- A numeral of the value 0 has the digit 0 only. -/
theorem digitValue_of_valueIn_eq_zero {b} (hb : 0 < b) {s} (h : valueIn b s = 0) :
    ∀ c ∈ s, digitValue c = 0 := by
  induction s using List.reverseRecOn with
  | nil => simp
  | append_singleton s c ih =>
    rw [valueIn_append_singleton, Nat.add_eq_zero_iff, Nat.mul_eq_zero] at h
    intro d hd
    rcases mem_append.mp hd with hd | hd
    · exact ih (h.1.resolve_left (by omega)) d hd
    · rw [List.mem_singleton.mp hd]
      exact h.2

/-- **Reading a numeral in a smaller base** gives its value exactly if that is less than the base. -/
theorem valueIn_takeWhile_iff {b b'} (hb : 0 < b) (hb' : b < b') (digits : Str) :
    valueIn b (digits.takeWhile (isDigitIn b)) = valueIn b' digits ↔ valueIn b' digits < b := by
  have hsplit := takeWhile_append_dropWhile (p := isDigitIn b) (l := digits)
  constructor
  · intro heq
    by_contra hlarge
    by_cases hrest : digits.dropWhile (isDigitIn b) = []
    · -- all are digits of the base, and there are two of them
      rw [hrest, List.append_nil] at hsplit
      rw [hsplit] at heq
      have hall : ∀ c ∈ digits, digitValue c < b := fun c hc =>
        isDigitIn_iff.mp (mem_takeWhile_imp (hsplit.symm ▸ hc))
      rcases eq_nil_or_concat digits with rfl | ⟨ds, c, rfl⟩
      · exact hlarge hb
      · have hc := hall c (by simp)
        rw [concat_eq_append, valueIn_append_singleton] at heq hlarge
        rw [valueIn_append_singleton] at heq
        have hle := Nat.mul_le_mul_left b (valueIn_le hb'.le ds)
        have hpos : 0 < valueIn b' ds := Nat.pos_of_ne_zero fun hzero => by
          rw [hzero, Nat.mul_zero] at hlarge
          omega
        have hlt := Nat.mul_lt_mul_of_pos_right hb' hpos
        omega
    · -- the digits that are left out shift the number
      have hshift := mul_valueIn_le (b := b') (by omega) (digits.takeWhile (isDigitIn b)) hrest
      have hle := valueIn_le hb'.le (digits.takeWhile (isDigitIn b))
      have htwo := Nat.mul_le_mul_right (valueIn b' (digits.takeWhile (isDigitIn b)))
        (show 2 ≤ b' by omega)
      rw [hsplit] at hshift
      omega
  · intro hlt
    rcases eq_nil_or_concat digits with rfl | ⟨ds, c, rfl⟩
    · rfl
    · rw [concat_eq_append] at hlt ⊢
      rw [valueIn_append_singleton] at hlt
      have hzero : valueIn b' ds = 0 := by
        by_contra hne
        have hself := Nat.le_mul_of_pos_right b' (Nat.pos_of_ne_zero hne)
        omega
      have hdigits := digitValue_of_valueIn_eq_zero (by omega) hzero
      have hself : (ds ++ [c]).takeWhile (isDigitIn b) = ds ++ [c] := by
        rw [takeWhile_eq_self_iff]
        intro d hd
        rcases mem_append.mp hd with hd | hd
        · rw [isDigitIn_iff, hdigits d hd]
          exact hb
        · rw [isDigitIn_iff, List.mem_singleton.mp hd]
          omega
      have hzero' : valueIn b ds = 0 := Nat.le_zero.mp (hzero ▸ valueIn_le hb'.le ds)
      rw [hself, valueIn_append_singleton, valueIn_append_singleton, hzero, hzero', Nat.mul_zero,
        Nat.mul_zero]

/-! ## 2. `strtoull` -/

/-- `ULLONG_MAX`. -/
def ullongMax : ℕ := 2 ^ 64 - 1

/-- The base of a numeral, and its digits with what follows them. -/
def baseOf (base : ℕ) (s : Str) : ℕ × Str :=
  if (base = 0 ∨ base = 16) ∧ s.head? = some 48 ∧
      (s.tail.head? = some 120 ∨ s.tail.head? = some 88) ∧
      s.tail.tail.head?.any (isDigitIn 16) = true then
    (16, s.tail.tail)
  else if base = 0 then (if s.head? = some 48 then 8 else 10, s)
  else (base, s)

/-- `strtoull(s, NULL, base)`. -/
def strtoull (base : ℕ) (s : Str) : ℕ :=
  let t := s.dropWhile isSpace
  let negative := t.head? = some 45
  let t := if t.head? = some 45 ∨ t.head? = some 43 then t.tail else t
  let digits := (baseOf base t).2.takeWhile (isDigitIn (baseOf base t).1)
  let n := valueIn (baseOf base t).1 digits
  if n > ullongMax then ullongMax else if negative then (2 ^ 64 - n) % 2 ^ 64 else n

section Hexadecimal

variable {digits rest : Str}

/-- There is a digit in front. -/
theorem strtoull_cons (hc : digitValue c < 36) {base b s t digits}
    (hbase : baseOf base (c :: s) = (b, t)) (hread : t.takeWhile (isDigitIn b) = digits)
    (hfit : valueIn b digits ≤ ullongMax) : strtoull base (c :: s) = valueIn b digits := by
  obtain ⟨hspace, h45, h43⟩ := not_blank_of_le (toNat_of_digitValue_lt hc)
  have hblank : (c :: s).dropWhile isSpace = c :: s := by simp [hspace]
  simp only [strtoull, hblank, head?_cons, Option.some.injEq, h45, h43, or_self, if_false, hbase,
    hread]
  rw [if_neg (by omega)]

/-- Only `0x` stands before a hexadecimal digit. -/
theorem isDigitIn_of_x (h : c = 120 ∨ c = 88) : isDigitIn 16 c = false ∧ digitValue c < 36 := by
  rcases h with rfl | rfl <;> decide

theorem digitValue_head_lt (hdigits : ∀ c ∈ digits, isDigitIn 16 c = true) (hc : c ∈ digits) :
    digitValue c < 36 := by
  have := isDigitIn_iff.mp (hdigits c hc)
  omega

variable (hne : digits ≠ []) (hdigits : ∀ c ∈ digits, isDigitIn 16 c = true)
  (hrest : ∀ c, rest.head? = some c → digitValue c = 36) (hfit : valueIn 16 digits ≤ ullongMax)

include hrest

/-- What follows a numeral is not read. -/
theorem takeWhile_digits {b} (hb : b ≤ 36) (digits : Str) :
    (digits ++ rest).takeWhile (isDigitIn b) = digits.takeWhile (isDigitIn b) := by
  have hstop : rest.takeWhile (isDigitIn b) = [] := by
    cases rest with
    | nil => rfl
    | cons c rest =>
      have hc := hrest c rfl
      rw [takeWhile_cons_of_neg]
      rw [isDigitIn_iff]
      omega
  rw [takeWhile_append, hstop, List.append_nil]
  split
  · next hall => exact ((List.takeWhile_prefix _).eq_of_length hall).symm
  · rfl

include hdigits

theorem takeWhile_hex : (digits ++ rest).takeWhile (isDigitIn 16) = digits := by
  rw [takeWhile_digits hrest (by omega), takeWhile_eq_self_iff.mpr hdigits]

include hne

/-- A numeral without `0x` has the base that is asked for. -/
theorem baseOf_digits (base : ℕ) : baseOf base (digits ++ rest) =
      (if base = 0 then (if digits.head? = some 48 then 8 else 10) else base, digits ++ rest) := by
  obtain ⟨c, ds, rfl⟩ := exists_cons_of_ne_nil hne
  have hx : ¬ ((ds ++ rest).head? = some 120 ∨ (ds ++ rest).head? = some 88) := by
    intro h
    obtain ⟨x, hx, hhead⟩ : ∃ x, (x = 120 ∨ x = 88) ∧ (ds ++ rest).head? = some x := by
      rcases h with h | h
      · exact ⟨120, .inl rfl, h⟩
      · exact ⟨88, .inr rfl, h⟩
    obtain ⟨hnot, hlt⟩ := isDigitIn_of_x hx
    cases ds with
    | nil =>
      have := hrest x hhead
      omega
    | cons d ds =>
      obtain rfl : d = x := Option.some.inj hhead
      rw [hdigits d (by simp)] at hnot
      cases hnot
  rw [baseOf, if_neg fun h => hx h.2.2.1]
  split <;> rfl

include hfit

/-- **Base 16.** -/
theorem strtoull_hex : strtoull 16 (digits ++ rest) = valueIn 16 digits := by
  have hbase := baseOf_digits hne hdigits hrest 16
  have hread := takeWhile_hex hdigits hrest
  obtain ⟨c, ds, rfl⟩ := exists_cons_of_ne_nil hne
  exact strtoull_cons (digitValue_head_lt hdigits mem_cons_self) hbase hread hfit

/-- **Base 0, and `0x` is there.** -/
theorem strtoull_zero_hex :
    strtoull 0 (32 :: 48 :: 120 :: (digits ++ rest)) = valueIn 16 digits := by
  have hread := takeWhile_hex hdigits hrest
  have hbase : baseOf 0 (48 :: 120 :: (digits ++ rest)) = (16, digits ++ rest) := by
    obtain ⟨c, ds, rfl⟩ := exists_cons_of_ne_nil hne
    rw [baseOf, if_pos]
    · rfl
    · exact ⟨.inl rfl, rfl, .inl rfl, by simp [hdigits c]⟩
  -- the blank is skipped
  have hblank : strtoull 0 (32 :: 48 :: 120 :: (digits ++ rest)) =
      strtoull 0 (48 :: 120 :: (digits ++ rest)) := rfl
  rw [hblank, strtoull_cons (by decide) hbase hread hfit]

/-- **Base 0, and `0x` is not there.** -/
theorem strtoull_zero : let b := if digits.head? = some 48 then 8 else 10
    strtoull 0 (digits ++ rest) = valueIn b (digits.takeWhile (isDigitIn b)) := by
  intro b
  have hb : b < 16 := by
    show (if digits.head? = some 48 then 8 else 10) < 16
    split <;> omega
  have hbase := baseOf_digits hne hdigits hrest 0
  have hread := takeWhile_digits hrest (show b ≤ 36 by omega) digits
  -- the digits that are read are not more than the numeral
  have hle : valueIn b (digits.takeWhile (isDigitIn b)) ≤ ullongMax := by
    refine (valueIn_le hb.le _).trans (le_trans ?_ hfit)
    by_cases hnil : digits.dropWhile (isDigitIn b) = []
    · rw [takeWhile_eq_self_iff.mpr (dropWhile_eq_nil_iff.mp hnil)]
    · have hshift := mul_valueIn_le (b := 16) (by omega) (digits.takeWhile (isDigitIn b)) hnil
      rw [takeWhile_append_dropWhile] at hshift
      omega
  obtain ⟨c, ds, rfl⟩ := exists_cons_of_ne_nil hne
  exact strtoull_cons (digitValue_head_lt hdigits mem_cons_self) hbase hread hle

/-- **When base 0 reads the number.** -/
theorem strtoull_zero_iff : strtoull 0 (digits ++ rest) = valueIn 16 digits ↔
      valueIn 16 digits < if digits.head? = some 48 then 8 else 10 := by
  rw [strtoull_zero hne hdigits hrest hfit]
  split
  · exact valueIn_takeWhile_iff (by omega) (by omega) digits
  · exact valueIn_takeWhile_iff (by omega) (by omega) digits

end Hexadecimal

end Sensys.CString
