/-
# Byte strings, decimal numerals and `strtol`

C strings are lists of bytes without the terminating zero.  This file has the character classes
of the C locale, the comparison that ignores letter case, decimal numerals with and without zero
padding, and `strtol` in base ten, with the laws by which a numeral that was printed is read back:

* `pad_value`: a digit string is the zero-padded numeral, of its own length, of its own value;
* `value_pad`, `value_decimal`: printing and reading a number gives the number;
* `strtol_run`: `strtol` reads a leading digit run, stops behind it, and reports overflow exactly
  when its value does not fit a `long`.
-/
import Mathlib.Data.Nat.Log
import Mathlib.Data.List.Induction
import Mathlib.Data.List.TakeWhile
import Mathlib.Tactic.Ring

namespace Sensys

open List

/-- A C string. -/
abbrev Str := List UInt8

namespace CString

/-- A string literal as a C string. -/
def ofString (s : String) : Str := s.toList.map Char.toUInt8

/-! ## 1. Taking a string apart -/

theorem takeWhile_stop {p} {s rest : Str} (hs : ∀ c ∈ s, p c = true)
    (hrest : ∀ c, rest.head? = some c → p c = false) : (s ++ rest).takeWhile p = s := by
  rw [takeWhile_append_of_pos hs]
  cases rest with
  | nil => simp
  | cons c rest => simp [hrest c rfl]

theorem dropWhile_stop {p} {s rest : Str} (hs : ∀ c ∈ s, p c = true)
    (hrest : ∀ c, rest.head? = some c → p c = false) : (s ++ rest).dropWhile p = rest := by
  rw [dropWhile_append_of_pos hs]
  cases rest with
  | nil => rfl
  | cons c rest => simp [hrest c rfl]

variable {c : UInt8}

/-- A string is what stands before a character of it, the character, and the rest. -/
theorem takeWhile_ne_append : ∀ {s}, c ∈ s →
    s.takeWhile (· != c) ++ c :: (s.dropWhile (· != c)).tail = s
  | d :: s, h => by
    by_cases hd : d = c
    · simp [hd]
    · have hs : c ∈ s := (mem_cons.mp h).resolve_left (Ne.symm hd)
      simp [hd, takeWhile_ne_append hs]

/-- `strstr`: the string from the first place on where the token stands. -/
def strstr (s token : Str) : Option Str := s.tails.find? fun t => token.isPrefixOf t

/-! ## 2. Character classes -/

/-- `isdigit`. -/
def isDigit (c : UInt8) : Bool := decide (48 ≤ c.toNat) && decide (c.toNat ≤ 57)

/-- `isalpha`, in the C locale. -/
def isAlpha (c : UInt8) : Bool :=
  (decide (65 ≤ c.toNat) && decide (c.toNat ≤ 90)) ||
    (decide (97 ≤ c.toNat) && decide (c.toNat ≤ 122))

/-- `isspace`, in the C locale. -/
def isSpace (c : UInt8) : Bool :=
  decide (c.toNat = 32) || (decide (9 ≤ c.toNat) && decide (c.toNat ≤ 13))

theorem isDigit_iff : isDigit c = true ↔ 48 ≤ c.toNat ∧ c.toNat ≤ 57 := by
  simp [isDigit]

theorem isAlpha_iff : isAlpha c = true ↔
    (65 ≤ c.toNat ∧ c.toNat ≤ 90) ∨ (97 ≤ c.toNat ∧ c.toNat ≤ 122) := by
  simp [isAlpha]

theorem isDigit_eq_false_of_isAlpha (h : isAlpha c = true) : isDigit c = false := by
  rw [Bool.eq_false_iff, ne_eq, isDigit_iff]
  rw [isAlpha_iff] at h
  omega

/-! ## 3. Numerals -/

/-- The value of a digit string. -/
def value (s : Str) : ℕ := s.foldl (fun a c => 10 * a + (c.toNat - 48)) 0

/-- The digit character of a number below ten. -/
def digit (d : ℕ) : UInt8 := UInt8.ofNat (48 + d)

/-- The last `w` decimal digits of `n`. -/
def pad : ℕ → ℕ → Str
  | 0, _ => []
  | w + 1, n => pad w (n / 10) ++ [digit (n % 10)]

/-- The number of decimal digits of `n`. -/
def width (n : ℕ) : ℕ := Nat.log 10 n + 1

/-- `"%d"` and `"%lu"` of a number that is not negative. -/
def decimal (n : ℕ) : Str := pad (width n) n

/-- `"%d"`. -/
def decimalInt : ℤ → Str
  | .ofNat n => decimal n
  | .negSucc n => 45 :: decimal (n + 1)

theorem toNat_digit {d} (h : d < 10) : (digit d).toNat = 48 + d := by
  rw [digit, UInt8.toNat_ofNat', Nat.mod_eq_of_lt (by omega)]

theorem isDigit_digit {d} (h : d < 10) : isDigit (digit d) = true := by
  rw [isDigit_iff, toNat_digit h]
  omega

variable (s : Str)

theorem value_append_digit (c : UInt8) : value (s ++ [c]) = 10 * value s + (c.toNat - 48) := by
  simp [value]

@[simp] theorem length_pad : ∀ w n : ℕ, (pad w n).length = w
  | 0, _ => rfl
  | w + 1, n => by simp [pad, length_pad w]

theorem isDigit_of_mem_pad : ∀ w n {c}, c ∈ pad w n → isDigit c = true
  | 0, _, _, h => by simp [pad] at h
  | w + 1, n, c, h => by
    rw [pad, mem_append, List.mem_singleton] at h
    rcases h with h | rfl
    · exact isDigit_of_mem_pad w _ h
    · exact isDigit_digit (Nat.mod_lt _ (by omega))

theorem value_pad : ∀ w n : ℕ, n < 10 ^ w → value (pad w n) = n
  | 0, n, h => by
    have : n = 0 := by simpa using h
    subst this
    rfl
  | w + 1, n, h => by
    have hdiv : n / 10 < 10 ^ w := by
      rw [Nat.div_lt_iff_lt_mul (by omega), ← pow_succ]
      exact h
    rw [pad, value_append_digit, value_pad w _ hdiv, toNat_digit (Nat.mod_lt _ (by omega))]
    omega

/-- **A digit string is the padded numeral of its value.** -/
theorem pad_value (hs : ∀ c ∈ s, isDigit c = true) : pad s.length (value s) = s := by
  induction s using List.reverseRecOn with
  | nil => rfl
  | append_singleton s c ih =>
    have hc := isDigit_iff.mp (hs c (by simp))
    have hdiv : (10 * value s + (c.toNat - 48)) / 10 = value s := by omega
    have hmod : (10 * value s + (c.toNat - 48)) % 10 = c.toNat - 48 := by omega
    have hdig : digit (c.toNat - 48) = c := by
      rw [← UInt8.toNat_inj, toNat_digit (by omega)]
      omega
    rw [length_append, length_singleton, pad, value_append_digit, hdiv, hmod, hdig,
      ih fun d hd => hs d (by simp [hd])]

theorem value_lt_pow (hs : ∀ c ∈ s, isDigit c = true) : value s < 10 ^ s.length := by
  induction s using List.reverseRecOn with
  | nil => simp [value]
  | append_singleton s c ih =>
    have hc := isDigit_iff.mp (hs c (by simp))
    have := ih fun d hd => hs d (by simp [hd])
    rw [value_append_digit, length_append, length_singleton, pow_succ]
    omega

theorem lt_pow_width (n : ℕ) : n < 10 ^ width n := Nat.lt_pow_succ_log_self (by omega) n

/-- A number below a power of ten has no more digits than that. -/
theorem width_le {n w} (hw : 0 < w) (h : n < 10 ^ w) : width n ≤ w := by
  rw [width]
  by_cases hn : n = 0
  · rw [hn, Nat.log_zero_right]
    exact hw
  · exact (Nat.log_lt_iff_lt_pow (by omega) hn).mpr h

theorem decimal_ne_nil (n : ℕ) : decimal n ≠ [] := by
  have : (decimal n).length = width n := length_pad _ _
  intro h
  rw [h, length_nil, width] at this
  omega

theorem value_decimal (n : ℕ) : value (decimal n) = n := value_pad _ _ (lt_pow_width n)

theorem isDigit_of_mem_decimal {n} (h : c ∈ decimal n) : isDigit c = true :=
  isDigit_of_mem_pad _ _ h

/-- Padding beyond the width of a number adds zeros. -/
theorem pad_add (w d n : ℕ) (h : n < 10 ^ w) :
    pad (d + w) n = List.replicate d (digit 0) ++ pad w n := by
  induction w generalizing n with
  | zero =>
    have hn : n = 0 := by simpa using h
    subst hn
    induction d with
    | zero => rfl
    | succ d ih =>
      simp only [Nat.add_zero, pad, List.append_nil, Nat.zero_div, Nat.zero_mod] at ih ⊢
      rw [ih, replicate_succ']
  | succ w ih =>
    have hdiv : n / 10 < 10 ^ w := by
      rw [Nat.div_lt_iff_lt_mul (by omega), ← pow_succ]
      exact h
    rw [← Nat.add_assoc]
    simp only [pad]
    rw [ih _ hdiv, List.append_assoc]

/-! ## 4. `strtol` -/

/-- `LONG_MAX`. -/
def longMax : ℕ := 2 ^ 63 - 1

/-- `strtol(s, &end, 10)`: the value, whether `errno` is set to `ERANGE`, and the rest of the
string from `end`. -/
def strtol (s : Str) : ℤ × Bool × Str :=
  let t := s.dropWhile isSpace
  let negative := t.head? = some 45
  let t := if t.head? = some 45 ∨ t.head? = some 43 then t.tail else t
  let digits := t.takeWhile isDigit
  if digits = [] then (0, false, s)
  else
    let n := value digits
    let rest := t.dropWhile isDigit
    if negative then
      if n > longMax + 1 then (-((longMax : ℤ) + 1), true, rest) else (-(n : ℤ), false, rest)
    else if n > longMax then (longMax, true, rest) else (n, false, rest)

theorem not_blank_of_le {c : UInt8} (h : 48 ≤ c.toNat) : isSpace c = false ∧ c ≠ 45 ∧ c ≠ 43 := by
  refine ⟨?_, ?_, ?_⟩
  · simp only [isSpace, Bool.or_eq_false_iff, Bool.and_eq_false_iff, decide_eq_false_iff_not]
    omega
  all_goals
    rintro rfl
    exact absurd h (by decide)

/-- **`strtol` reads a digit run** and stops behind it; a number that is no `long` is cut off. -/
theorem strtol_run {digits rest} (hne : digits ≠ []) (hdigits : ∀ c ∈ digits, isDigit c = true)
    (hrest : ∀ c, rest.head? = some c → isDigit c = false) : strtol (digits ++ rest) =
      if longMax < value digits then ((longMax : ℤ), true, rest)
      else ((value digits : ℤ), false, rest) := by
  obtain ⟨c, ds, rfl⟩ := exists_cons_of_ne_nil hne
  obtain ⟨hspace, h45, h43⟩ := not_blank_of_le (isDigit_iff.mp (hdigits c mem_cons_self)).1
  have htake : (c :: ds ++ rest).takeWhile isDigit = c :: ds := takeWhile_stop hdigits hrest
  have hdrop : (c :: ds ++ rest).dropWhile isDigit = rest := dropWhile_stop hdigits hrest
  have hblank : (c :: ds ++ rest).dropWhile isSpace = c :: ds ++ rest := by simp [hspace]
  have hhead : (c :: ds ++ rest).head? = some c := rfl
  simp only [strtol, hblank, hhead, Option.some.injEq, h45, h43, or_self, if_false, htake, hdrop,
    reduceCtorEq, gt_iff_lt]

/-- A digit run whose value is a `long`. -/
theorem strtol_digits {digits rest} (hne : digits ≠ []) (hdigits : ∀ c ∈ digits, isDigit c = true)
    (hrest : ∀ c, rest.head? = some c → isDigit c = false) (hfit : value digits ≤ longMax) :
    strtol (digits ++ rest) = ((value digits : ℤ), false, rest) := by
  rw [strtol_run hne hdigits hrest, if_neg (by omega)]

/-! ## 5. Letter case -/

/-- `tolower`, in the C locale. -/
def toLower (c : UInt8) : UInt8 := if 65 ≤ c.toNat ∧ c.toNat ≤ 90 then c + 32 else c

/-- A string with its capital letters replaced by small ones. -/
def lower (s : Str) : Str := s.map toLower

/-- `0 == strcasecmp(s, t)`. -/
def caseEq (s t : Str) : Bool := decide (lower s = lower t)

theorem caseEq_iff {s t} : caseEq s t = true ↔ lower s = lower t := by
  simp [caseEq]

theorem caseEq_comm (s t) : caseEq s t = caseEq t s := by
  simp [caseEq, eq_comm]

theorem caseEq_congr_left {s s'} (h : lower s = lower s') (t : Str) : caseEq s t = caseEq s' t := by
  rw [caseEq, caseEq, h]

theorem caseEq_congr_right {t t'} (h : lower t = lower t') (s : Str) :
    caseEq s t = caseEq s t' := by
  rw [caseEq, caseEq, h]

theorem lower_lower : lower (lower s) = lower s := by
  have htwice : ∀ c, toLower (toLower c) = toLower c := fun c => by
    unfold toLower
    split
    · have hadd : (c + 32).toNat = c.toNat + 32 := by rw [UInt8.toNat_add]; simp; omega
      rw [if_neg (by omega)]
    · rfl
  simp only [lower, List.map_map, Function.comp_def, htwice]

theorem caseEq_lower_left (s t : Str) : caseEq (lower s) t = caseEq s t :=
  caseEq_congr_left (lower_lower s) t

theorem caseEq_lower_right (s t : Str) : caseEq s (lower t) = caseEq s t :=
  caseEq_congr_right (lower_lower t) s

end CString

end Sensys
