/-
# Analytics: values, times and sizes

What the analytics plugins share: the values of a sample (`orcm_value_t`), the time of a sample and
the names of compute types (`orcm/mca/analytics/base/analytics_base_stubs.c`), the attributes of a
workflow step, and the differences of times and the sizes and timeouts that are written as a number
and a unit (`orcm/util/utils.c`).

The plugins compute with `double`.  `Doubles F` are the operations they use, on any type: nothing
that is proved depends on how they round.
-/
import Sensys.Constants
import Sensys.Lib.CString

namespace Sensys.Orcm.Analytics

open CString

/-! ## 1. Numbers and values -/

/-- The `double` operations of the plugins. -/
structure Doubles (F : Type) where
  zero : F
  dblMax : F
  dblMin : F
  add : F → F → F
  sub : F → F → F
  mul : F → F → F
  div : F → F → F
  square : F → F
  sqrt : F → F
  lt : F → F → Bool
  le : F → F → Bool
  ofNat : ℕ → F

/-- `struct timeval`. -/
structure Timeval where
  sec : ℤ
  usec : ℤ
  deriving DecidableEq, Repr

/-- `orcm_value_t`: its key, its data read as a time, its data as
`orcm_util_get_number_orcm_value` reads it, and its units. -/
structure OrcmValue (F : Type) where
  key : Option Str
  tv : Timeval
  number : F
  units : Option Str
  deriving DecidableEq, Repr

/-- `orcm_analytics_value_t`; any of the lists may be missing. -/
structure AnalyticsValue (F : Type) where
  key : Option (List (OrcmValue F))
  nonComputeData : Option (List (OrcmValue F))
  computeData : Option (List (OrcmValue F))
  deriving DecidableEq, Repr

/-- An attribute of a workflow step, an `opal_value_t` with a text. -/
structure StepAttribute where
  key : Option Str
  string : Option Str
  deriving DecidableEq, Repr

/-! ## 2. The time of a sample -/

/-- `orcm_analytics_base_timeval_to_uint64`.  The microseconds are divided by `10E6`, which is ten
million. -/
def timevalToUint64 (time : Timeval) : ℕ :=
  let seconds := (time.sec % 2 ^ 64).toNat
  if 5000000 ≤ time.usec then (seconds + 1) % 2 ^ 64 else seconds

/-- `orcm_analytics_base_get_sample_time`: the first value whose key contains `time`. -/
def getSampleTime {F : Type} : List (OrcmValue F) → Except Rc ℕ
  | [] => .error .errBadParam
  | item :: list =>
    match item.key with
    | none => .error .errBadParam
    | some key =>
      if key.tails.any (ofString "time").isPrefixOf then .ok (timevalToUint64 item.tv)
      else getSampleTime list

/-! ## 3. Sizes with a unit -/

/-- `get_seconds_multiplier`: days, hours, minutes, or seconds. -/
def getSecondsMultiplier (type : UInt8) : ℕ :=
  if type = 100 then 86400 else if type = 104 then 3600 else if type = 109 then 60 else 1

/-- `check_numeric`. -/
def checkNumeric (value : Str) : Bool := value.all isDigit

/-- `strtol` in base 0, on a text of digits: a leading `0` makes it octal. -/
def strtolBase0 : Str → ℕ
  | 48 :: digits =>
    min longMax ((digits.takeWhile fun c => decide (c.toNat < 56)).foldl
      (fun a c => 8 * a + (c.toNat - 48)) 0)
  | digits => min longMax (value digits)

/-- `orcm_util_get_time_in_sec`.  For the empty text, whose last character the code reads outside
of it, there is no value to model; here it is 0, as for a text that is not numeric. -/
def getTimeInSec (time : Str) : ℕ :=
  match time.getLast? with
  | none => 0
  | some type =>
    let timeval := if isDigit type then time else time.dropLast
    if checkNumeric timeval then strtolBase0 timeval * getSecondsMultiplier type % 2 ^ 64 else 0

theorem getTimeInSec_lt (time : Str) : getTimeInSec time < 2 ^ 64 := by
  rw [getTimeInSec]
  cases time.getLast? with
  | none => exact Nat.two_pow_pos 64
  | some type =>
    generalize htimeval : (if isDigit type = true then time else time.dropLast) = timeval
    simp only [htimeval]
    split
    · exact Nat.mod_lt _ (by decide)
    · decide

example : getTimeInSec (ofString "10") = 10 := by decide +kernel
example : getTimeInSec (ofString "2h") = 7200 := by decide +kernel

/-! ## 4. Times and compute types -/

section Times

variable {F : Type} (D : Doubles F)

/-- A `long` as a `double`. -/
def ofLong (n : ℤ) : F := if 0 ≤ n then D.ofNat n.toNat else D.sub D.zero (D.ofNat (-n).toNat)

/-- A time in seconds. -/
def seconds (time : Timeval) : F :=
  D.add (ofLong D time.sec) (D.div (ofLong D time.usec) (D.ofNat 1000000))

/-- `orcm_util_time_diff`. -/
def timeDiff (time1 time2 : Timeval) : F := D.sub (seconds D time2) (seconds D time1)

end Times

/-- `ORCM_ANALYTICS_COMPUTE_*`. -/
inductive ComputeType where
  | unknown
  | average
  | min
  | max
  | sd
  deriving DecidableEq, Repr

/-- `orcm_analytics_base_get_compute_type`. -/
def getComputeType (computeType : Str) : ComputeType :=
  if computeType = ofString "average" then .average
  else if computeType = ofString "min" then .min
  else if computeType = ofString "max" then .max
  else if computeType = ofString "sd" then .sd
  else .unknown

end Sensys.Orcm.Analytics
