/-
# Counters over a threshold

`orcm/mca/analytics/cott/analyze_counter.cpp` and `host_analyze_counters.cpp`: a counter is given
values with their times and keeps the recent ones in a queue.  When a value has grown by the
threshold since the oldest value of the queue, a callback is run.  There is one such counter for
every host and label.

A counter has a window and a threshold of at least 1: both are 1 to begin with, and the functions
that set them refuse less.  That is part of the type (`AnalyzeCounter`), because the loop that
removes old entries relies on it: when the queue has become empty it compares 0 with the window.

Values are `uint32_t`, times `time_t`.
-/
import Sensys.Constants
import Sensys.Lib.CString

namespace Sensys.Orcm.Cott

open CString

/-! ## 1. One counter -/

/-- Arithmetic on `time_t`, which wraps around. -/
def timeT (n : ℤ) : ℤ := n.bmod (2 ^ 64)

theorem timeT_eq {n} (h : 0 ≤ n) (h' : n < 2 ^ 63) : timeT n = n := by
  rw [timeT, Int.bmod_def]
  omega

/-- `analyze_counter`. -/
structure AnalyzeCounter where
  windowSize : ℤ
  threshold : UInt32
  pastData : List (UInt32 × ℤ)
  window_pos : 1 ≤ windowSize
  threshold_pos : 1 ≤ threshold

/-- The constructor. -/
def AnalyzeCounter.new : AnalyzeCounter where
  windowSize := 1
  threshold := 1
  pastData := []
  window_pos := le_refl 1
  threshold_pos := by decide

/-- The blanks around a duration. -/
def isBlank (c : UInt8) : Bool := [32, 9, 10, 13, 12].contains c

/-- `lookup_factor_`. -/
def lookupFactor (type : UInt8) : Option ℤ :=
  if type = 115 then some 1
  else if type = 109 then some 60
  else if type = 104 then some 3600
  else if type = 100 then some 86400
  else none

/-- A number of the unit, if the text is one: `strtoull`, and a product of `time_t`. -/
def timesFactor (digits : Str) (factor : ℤ) : Option ℤ :=
  if digits ≠ [] ∧ digits.all isDigit then
    some (timeT (timeT (min (value digits) (2 ^ 64 - 1)) * factor))
  else none

/-- The window that a duration stands for. -/
def windowOf (durStr : Str) : Option ℤ :=
  let str := ((durStr.dropWhile isBlank).reverse.dropWhile isBlank).reverse
  match str.getLast? with
  | none => none
  | some type =>
    match lookupFactor type with
    | some factor => timesFactor str.dropLast factor
    | none => timesFactor str 1

namespace AnalyzeCounter

/-- `set_window_size`. -/
def setWindowSize (counter : AnalyzeCounter) (durStr : Str) : AnalyzeCounter :=
  match windowOf durStr with
  | none => counter
  | some val => if h : 1 ≤ val then { counter with windowSize := val, window_pos := h } else counter

/-- `set_threshold`. -/
def setThreshold (counter : AnalyzeCounter) (limit : UInt32) : AnalyzeCounter :=
  if h : 1 ≤ limit then { counter with threshold := limit, threshold_pos := h } else counter

/-- What the callback is given. -/
structure Firing where
  errorCount : UInt32
  elapsed : ℤ
  rawData : List UInt32
  deriving DecidableEq, Repr

/-- The new entry. -/
def push (counter : AnalyzeCounter) (past : List (UInt32 × ℤ)) (val : UInt32) (tval : ℤ) :
    AnalyzeCounter :=
  { counter with pastData := past ++ [(val, tval)] }

/-- `add_value`: the counter, and the callback if it is run. -/
def addValue (counter : AnalyzeCounter) (val : UInt32) (tval : ℤ) :
    AnalyzeCounter × Option Firing :=
  let past := counter.pastData.dropWhile fun entry =>
    decide (counter.windowSize < timeT (tval - entry.2))
  match past with
  -- `error_count` stays 0, which is below the threshold
  | [] => (counter.push [] val tval, none)
  | front :: rest =>
    if val < front.1 ∨ val < (rest.getLast?.getD front).1 then (counter.push [] val tval, none)
    else
      let errorCount := val - front.1
      if counter.threshold ≤ errorCount then
        (counter.push [] val tval,
          some ⟨errorCount, timeT (tval - front.2), past.map Prod.fst ++ [val]⟩)
      else (counter.push past val tval, none)

end AnalyzeCounter

/-! ## 2. Counters by host and label -/

/-- `host_analyze_counters`. -/
structure HostAnalyzeCounters where
  windowSize : Str
  threshold : UInt32
  labelMask : Str
  maskParts : List Str
  dataDb : Str × Str → Option AnalyzeCounter

/-- The text behind the first place where a part is found. -/
def behind (part : Str) : Str → Option Str
  | [] => if part = [] then some [] else none
  | c :: text =>
    if part.isPrefixOf (c :: text) then some ((c :: text).drop part.length) else behind part text

/-- The loop of `is_wanted_label` over the parts. -/
def hasParts : List Str → Str → Bool
  | [], _ => true
  | part :: parts, text =>
    match behind part text with
    | none => false
    | some rest => hasParts parts rest

namespace HostAnalyzeCounters

/-- The constructor. -/
def new : HostAnalyzeCounters where
  windowSize := ofString "5s"
  threshold := 1
  labelMask := []
  maskParts := []
  dataDb := fun _ => none

/-- `set_window_size`. -/
def setWindowSize (counters : HostAnalyzeCounters) (durStr : Str) : HostAnalyzeCounters :=
  { counters with
    windowSize := durStr
    dataDb := fun pair => (counters.dataDb pair).map fun counter => counter.setWindowSize durStr }

/-- `set_threshold`. -/
def setThreshold (counters : HostAnalyzeCounters) (limit : UInt32) : HostAnalyzeCounters :=
  { counters with
    threshold := limit
    dataDb := fun pair => (counters.dataDb pair).map fun counter => counter.setThreshold limit }

/-- `set_value_label_mask`: the parts between the stars, if there is a star. -/
def setValueLabelMask (counters : HostAnalyzeCounters) (labelMask : Str) : HostAnalyzeCounters :=
  { counters with
    labelMask := labelMask
    maskParts := if labelMask.contains 42 then (labelMask.splitOn 42).filter (· ≠ []) else [] }

/-- `is_wanted_label`. -/
def isWantedLabel (counters : HostAnalyzeCounters) (label : Str) : Bool :=
  if label = [] then false
  else if counters.labelMask.all (· == 42) then true
  else if counters.maskParts = [] then decide (label = counters.labelMask)
  else hasParts counters.maskParts label

/-- A counter with the settings of all. -/
def newCounter (counters : HostAnalyzeCounters) : AnalyzeCounter :=
  (AnalyzeCounter.new.setWindowSize counters.windowSize).setThreshold counters.threshold

/-- The counter of a host and a label. -/
def counterOf (counters : HostAnalyzeCounters) (pair : Str × Str) : AnalyzeCounter :=
  (counters.dataDb pair).getD counters.newCounter

/-- What the callback is given, with the host and the label. -/
structure Report where
  host : Str
  label : Str
  firing : AnalyzeCounter.Firing
  deriving DecidableEq, Repr

/-- `add_value`: the counters, and the callback if it is run. -/
def addValue (counters : HostAnalyzeCounters) (host label : Str) (val : UInt32) (tval : ℤ) :
    HostAnalyzeCounters × Option Report :=
  if host = [] ∨ label = [] then (counters, none)
  else
    let (counter, fired) := (counters.counterOf (host, label)).addValue val tval
    ({ counters with dataDb := Function.update counters.dataDb (host, label) (some counter) },
      fired.map fun firing => ⟨host, label, firing⟩)

end HostAnalyzeCounters

end Sensys.Orcm.Cott
