/-
# Two readings of a duration

A duration is a number and a unit.  `orcm_util_get_time_in_sec` (`orcm/util/utils.c`) and
`analyze_counter::set_window_size` (`orcm/mca/analytics/cott/analyze_counter.cpp`) both read one, the
first with `strtol` in base 0 and the second with `strtoull` in base 10.  In base 0 a leading zero
makes the number OCTAL; it could do nothing else, because only digits get that far.

`durations_agree_iff`: the two agree if and only if there is no leading zero, or the number is so
small that octal is decimal.
-/
import Mathlib.Data.List.Basic
import Sensys.Lib.Strtoull
import Sensys.Orcm.Analytics
import Sensys.Orcm.CottCounter

namespace Sensys.Orcm.Durations

open CString Analytics Cott List

/-! ## 1. Durations -/

/-- The units. -/
inductive TimeUnit where
  | seconds | minutes | hours | days
  deriving DecidableEq, Repr

/-- How a unit is written. -/
def TimeUnit.char : TimeUnit → UInt8
  | seconds => 115
  | minutes => 109
  | hours => 104
  | days => 100

/-- How long it is. -/
def TimeUnit.length : TimeUnit → ℕ
  | seconds => 1
  | minutes => 60
  | hours => 3600
  | days => 86400

/-- A number of units, which is at least a second and fits in an `int`. -/
structure Duration where
  digits : Str
  unit : TimeUnit
  ne_nil : digits ≠ []
  all_digits : ∀ c ∈ digits, isDigit c = true
  pos : 1 ≤ value digits * unit.length
  lt : value digits * unit.length < 2 ^ 31

/-- The duration in seconds. -/
def Duration.inSec (d : Duration) : ℕ := value d.digits * d.unit.length

/-- The text. -/
def Duration.text (d : Duration) : Str := d.digits ++ [d.unit.char]

/-! ## 2. Octal and decimal -/

theorem foldl_eq_valueIn (b : ℕ) {s} (hs : ∀ c ∈ s, isDigit c = true) :
    s.foldl (fun a c => b * a + (c.toNat - 48)) 0 = valueIn b s :=
  foldl_ext _ _ _ fun a c hc => by rw [digitValue, if_pos (hs c hc)]

theorem takeWhile_eq_isDigitIn : ∀ {s : Str}, (∀ c ∈ s, isDigit c = true) →
    s.takeWhile (fun c => decide (c.toNat < 56)) = s.takeWhile (isDigitIn 8)
  | [], _ => rfl
  | c :: s, hs => by
    have hsame : decide (c.toNat < 56) = isDigitIn 8 c := by
      rw [isDigitIn, digitValue, if_pos (hs c mem_cons_self)]
      exact decide_eq_decide.mpr (by omega)
    rw [takeWhile_cons, takeWhile_cons, hsame,
      takeWhile_eq_isDigitIn fun d hd => hs d (mem_cons_of_mem _ hd)]

theorem valueIn_takeWhile_le (ds : Str) :
    valueIn 8 (ds.takeWhile (isDigitIn 8)) ≤ valueIn 10 ds := by
  have hle := valueIn_le (show 8 ≤ 10 by decide) (ds.takeWhile (isDigitIn 8))
  have hsplit := takeWhile_append_dropWhile (p := isDigitIn 8) (l := ds)
  by_cases hrest : ds.dropWhile (isDigitIn 8) = []
  · rw [hrest, append_nil] at hsplit
    rwa [hsplit] at hle ⊢
  · have hshift := mul_valueIn_le (b := 10) (by decide) (ds.takeWhile (isDigitIn 8)) hrest
    rw [hsplit] at hshift
    omega

/-- **Which digits base 0 reads as they are**; what it reads is never more. -/
theorem strtolBase0_eq_iff {digits} (hs : ∀ c ∈ digits, isDigit c = true)
    (hlong : value digits ≤ longMax) : strtolBase0 digits ≤ value digits ∧
      (strtolBase0 digits = value digits ↔ digits.head? ≠ some 48 ∨ value digits ≤ 7) := by
  cases digits with
  | nil => decide
  | cons c ds =>
    by_cases hc : c = 48
    · subst hc
      have hds : ∀ c ∈ ds, isDigit c = true := fun c hc => hs c (mem_cons_of_mem _ hc)
      have hvalue : value (48 :: ds) = valueIn 10 ds := by
        rw [← foldl_eq_valueIn 10 hds]
        rfl
      have hread : strtolBase0 (48 :: ds) =
          min longMax (valueIn 8 (ds.takeWhile (isDigitIn 8))) := by
        rw [strtolBase0, takeWhile_eq_isDigitIn hds, foldl_eq_valueIn 8 fun c hc =>
          hds c ((takeWhile_sublist _).subset hc)]
      have hle := valueIn_takeWhile_le ds
      rw [hread, min_eq_right (by omega), hvalue, valueIn_takeWhile_iff (by decide) (by decide)]
      simpa [Nat.lt_succ_iff] using hle
    · have hread : strtolBase0 (c :: ds) = value (c :: ds) := by
        rw [strtolBase0.eq_2 _ (by simpa using fun h => absurd h hc), min_eq_right hlong]
      exact ⟨hread.le, iff_of_true hread (.inl (by simpa using hc))⟩

/-! ## 3. The two readings -/

variable (d : Duration)

theorem Duration.value_lt : value d.digits < 2 ^ 31 := by
  have hunit : 1 ≤ d.unit.length := by cases d.unit <;> decide
  exact (Nat.le_mul_of_pos_right _ hunit).trans_lt d.lt

theorem Duration.getTimeInSec_text :
    getTimeInSec d.text = strtolBase0 d.digits * d.unit.length := by
  have hunit : isDigit d.unit.char = false ∧
      getSecondsMultiplier d.unit.char = d.unit.length := by
    cases d.unit <;> decide
  have hlong : value d.digits ≤ longMax := d.value_lt.le.trans (by decide)
  have hlt : strtolBase0 d.digits * d.unit.length < 2 ^ 64 :=
    (Nat.mul_le_mul_right _ (strtolBase0_eq_iff d.all_digits hlong).1).trans_lt
      (d.lt.trans (by decide))
  have hnumeric : checkNumeric d.digits = true := all_eq_true.mpr d.all_digits
  simpa [getTimeInSec, text, hunit, hnumeric] using hlt

/-- `set_window_size` sets the seconds of the duration. -/
theorem Duration.setWindowSize_text (counter : AnalyzeCounter) :
    (counter.setWindowSize d.text).windowSize = d.inSec := by
  obtain ⟨c, ds, hdigits⟩ := exists_cons_of_ne_nil d.ne_nil
  have hc : isBlank c = false := by
    have hdigit := d.all_digits c (hdigits ▸ mem_cons_self)
    rw [isDigit_iff] at hdigit
    rw [isBlank, contains_eq_mem, decide_eq_false_iff_not]
    have hblank : ∀ b ∈ ([32, 9, 10, 13, 12] : Str), ¬ 48 ≤ b.toNat := by
      decide +kernel
    exact fun hmem => hblank c hmem hdigit.1
  have hunit : isBlank d.unit.char = false ∧
      lookupFactor d.unit.char = some (d.unit.length : ℤ) := by
    cases d.unit <;> decide
  have htrim : ((d.text.dropWhile isBlank).reverse.dropWhile isBlank).reverse = d.text := by
    simp [text, hdigits, hc, hunit]
  have hlt := d.value_lt
  have hsec : (value d.digits * d.unit.length : ℤ) < 2 ^ 31 := by exact_mod_cast d.lt
  have hpos : (1 : ℤ) ≤ value d.digits * d.unit.length := by exact_mod_cast d.pos
  have hwindow : windowOf d.text = some (value d.digits * d.unit.length : ℤ) := by
    simp only [windowOf, htrim]
    simp only [text, getLast?_concat, hunit, dropLast_concat]
    have hnumber : timeT (value d.digits : ℤ) = value d.digits := timeT_eq (by omega) (by omega)
    rw [timesFactor, if_pos ⟨d.ne_nil, all_eq_true.mpr d.all_digits⟩, min_eq_left (by omega),
      hnumber, timeT_eq (by omega) (by omega)]
  rw [AnalyzeCounter.setWindowSize, hwindow]
  simp only [dif_pos hpos]
  rw [inSec, Nat.cast_mul]

/-- **The two parsers agree on a duration, and on its seconds, exactly if it has no leading zero or
its number is at most 7.** -/
theorem durations_agree_iff (d : Duration) (counter : AnalyzeCounter) :
    ((getTimeInSec d.text : ℤ) = (counter.setWindowSize d.text).windowSize ∧
      (counter.setWindowSize d.text).windowSize = d.inSec) ↔
      d.digits.head? ≠ some 48 ∨ value d.digits ≤ 7 := by
  have hunit : 0 < d.unit.length := by cases d.unit <;> decide
  rw [d.setWindowSize_text, d.getTimeInSec_text, Duration.inSec, Nat.cast_inj, Nat.mul_left_inj hunit.ne',
    and_iff_left rfl]
  exact (strtolBase0_eq_iff d.all_digits (d.value_lt.le.trans (by decide))).2

/-- Ten seconds, with a leading zero. -/
def tenSeconds : Duration :=
  ⟨ofString "010", .seconds, by decide, List.all_eq_true.mp (by decide), by decide, by decide⟩

/-- **A leading zero makes it eight seconds.** -/
theorem ten_seconds_are_eight : tenSeconds.inSec = 10 ∧ getTimeInSec tenSeconds.text = 8 ∧
    (AnalyzeCounter.new.setWindowSize tenSeconds.text).windowSize = 10 := by
  refine ⟨by decide, by decide +kernel, ?_⟩
  decide

end Sensys.Orcm.Durations
