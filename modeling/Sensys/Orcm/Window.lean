/-
# The window plugin

`orcm/mca/analytics/window/analytics_window.c`.  The plugin keeps one `win_statistics_t` and is
called with one sample after the other.  In TIME mode it collects the samples of a stretch of
`win_size` seconds, in COUNTER mode `win_size` samples; a full window is computed and its result
sent on, and the next one begins.

Sending the result is the environment: `Sending` says what became of it.

Two details carry the proofs.  The counter `num_sample_recv` also tells whether the plugin has been
configured: when it is 0, `analyze` reads the attributes of the step again and resets the window.
And in time mode the sample that does not fit the window closes it and is counted in the next one.
-/
import Sensys.Orcm.Analytics

namespace Sensys.Orcm.Window

open CString Analytics

/-! ## 1. The statistics of a window -/

/-- `win_statistics_t`. -/
structure WinStatistics (F : Type) where
  winSize : ℕ
  winLeft : ℕ
  winRight : ℕ
  numSampleRecv : ℕ
  numDataPoint : ℕ
  sumMinMax : F
  sumSquare : F
  computeType : Option Str
  winType : Option Str
  deriving DecidableEq, Repr

section Model

variable {F : Type} (D : Doubles F)

/-- `strncmp (text, word, strlen (word)) == 0`, for a text that is there. -/
def startsWith (text : Option Str) (word : String) : Bool :=
  text.any (ofString word).isPrefixOf

/-- `win_statistics_con`. -/
def winStatisticsCon : WinStatistics F where
  winSize := 0
  winLeft := 0
  winRight := 0
  numSampleRecv := 0
  numDataPoint := 0
  sumMinMax := D.zero
  sumSquare := D.zero
  computeType := none
  winType := none

/-- `reset_window`. -/
def resetWindow (st : WinStatistics F) (left incre : ℕ) : WinStatistics F where
  winSize := st.winSize
  winLeft := left
  winRight := (left + incre) % 2 ^ 64
  numSampleRecv := 0
  numDataPoint := 0
  sumMinMax :=
    if startsWith st.computeType "min" then D.dblMax
    else if startsWith st.computeType "max" then D.dblMin
    else D.zero
  sumSquare := D.zero
  computeType := st.computeType
  winType := st.winType

/-- The compute types there are. -/
def knownCompute (type : Option Str) : Bool :=
  startsWith type "average" || startsWith type "min" || startsWith type "max"
    || startsWith type "sd"

/-- `fill_win_statistics`. -/
def fillWinStatistics (st : WinStatistics F) : Rc × WinStatistics F :=
  if st.winSize = 0 then (.errBadParam, st)
  else
    let st := if st.winType.isNone then { st with winType := some (ofString "time") } else st
    if !startsWith st.winType "time" && !startsWith st.winType "counter" then (.errBadParam, st)
    else if !knownCompute st.computeType then (.errBadParam, st)
    else if startsWith st.winType "time" then (.success, resetWindow D st 0 0)
    else (.success, resetWindow D st 0 st.winSize)

/-- One attribute of the step.  The size may be given again, the types are kept. -/
def fillAttribute (st : WinStatistics F) (key string : Str) : WinStatistics F :=
  if key = ofString "win_size" then { st with winSize := getTimeInSec string }
  else if key = ofString "compute" then { st with computeType := st.computeType.or (some string) }
  else if key = ofString "type" then { st with winType := st.winType.or (some string) }
  else st

/-- The loop of `fill_attributes`. -/
def fillEach (st : WinStatistics F) : List StepAttribute → Rc × WinStatistics F
  | [] => (.success, st)
  | ⟨some key, some string⟩ :: attributes => fillEach (fillAttribute st key string) attributes
  | _ :: _ => (.errBadParam, st)

/-- `fill_attributes`. -/
def fillAttributes (st : WinStatistics F) (attributes : List StepAttribute) :
    Rc × WinStatistics F :=
  match fillEach st attributes with
  | (.success, st) => fillWinStatistics D st
  | failed => failed

/-! ## 2. Accumulating and computing -/

/-- `accumulate_data_average`. -/
def accumulateDataAverage (st : WinStatistics F) (num : F) : WinStatistics F :=
  { st with sumMinMax := D.add st.sumMinMax num }

/-- `accumulate_data_min`. -/
def accumulateDataMin (st : WinStatistics F) (num : F) : WinStatistics F :=
  if D.lt num st.sumMinMax then { st with sumMinMax := num } else st

/-- `accumulate_data_max`. -/
def accumulateDataMax (st : WinStatistics F) (num : F) : WinStatistics F :=
  if D.lt st.sumMinMax num then { st with sumMinMax := num } else st

/-- `accumulate_data_sd`. -/
def accumulateDataSd (st : WinStatistics F) (num : F) : WinStatistics F :=
  let st := accumulateDataAverage D st num
  { st with sumSquare := D.add st.sumSquare (D.square num) }

/-- One value of `accumulate_data`, by the compute type. -/
def accumulateNumber (st : WinStatistics F) (num : F) : WinStatistics F :=
  if startsWith st.computeType "average" then accumulateDataAverage D st num
  else if startsWith st.computeType "min" then accumulateDataMin D st num
  else if startsWith st.computeType "max" then accumulateDataMax D st num
  else accumulateDataSd D st num

/-- `accumulate_data`. -/
def accumulateData (st : WinStatistics F) (dataList : List (OrcmValue F)) : WinStatistics F :=
  dataList.foldl (fun st item => accumulateNumber D st item.number)
    { st with
      numSampleRecv := (st.numSampleRecv + 1) % 2 ^ 64
      numDataPoint := (st.numDataPoint + dataList.length) % 2 ^ 64 }

/-- `computing`. -/
def computing (st : WinStatistics F) : F :=
  let n := D.ofNat st.numDataPoint
  if startsWith st.computeType "average" then D.div st.sumMinMax n
  else if startsWith st.computeType "min" || startsWith st.computeType "max" then st.sumMinMax
  else if 1 < st.numDataPoint then
    let temp := D.sub (D.mul n st.sumSquare) (D.square st.sumMinMax)
    if D.le D.zero temp then
      D.sqrt (D.div temp (D.ofNat (st.numDataPoint * (st.numDataPoint - 1) % 2 ^ 64)))
    else D.zero
  else D.zero

/-! ## 3. Full windows -/

/-- What becomes of a result: it is sent on; it is dropped, because no value could be made for it,
which is not reported; or an error comes back. -/
inductive Sending where
  | sent
  | dropped
  | failed (rc : Rc)
  deriving DecidableEq, Repr

/-- A result that was sent on: the statistics of the window, the result, and what it takes from the
sample that closed the window. -/
structure Emission (F : Type) where
  stats : WinStatistics F
  result : F
  units : Option Str
  key : Option (List (OrcmValue F))
  nonComputeData : Option (List (OrcmValue F))
  deriving DecidableEq, Repr

/-- What a call does: its return code, the statistics it leaves, and what it sent on. -/
structure Outcome (F : Type) where
  rc : Rc
  stats : WinStatistics F
  emitted : Option (Emission F)
  deriving DecidableEq, Repr

/-- `handle_full_window`. -/
def handleFullWindow (sending : Sending) (st : WinStatistics F) (value : AnalyticsValue F) :
    Rc × Option (Emission F) :=
  if st.numSampleRecv = 0 then (.success, none)
  else
    match sending with
    | .failed rc => (rc, none)
    | .dropped => (.success, none)
    | .sent =>
      (.success, some
        { stats := st
          result := computing D st
          units := ((value.computeData.getD []).head?.bind OrcmValue.units)
          key := value.key
          nonComputeData := value.nonComputeData })

/-- `do_compute_time_window`. -/
def doComputeTimeWindow (sending : Sending) (st : WinStatistics F) (value : AnalyticsValue F) :
    Outcome F :=
  let computeData := value.computeData.getD []
  match getSampleTime (value.nonComputeData.getD []) with
  | .error rc => ⟨rc, st, none⟩
  | .ok sampleTime =>
    if sampleTime < st.winLeft then ⟨.errRecvMoreThanPosted, st, none⟩
    else if st.winLeft = st.winRight then
      let st := { st with
        winLeft := sampleTime
        winRight := (sampleTime + st.winSize) % 2 ^ 64 }
      ⟨.success, accumulateData D st computeData, none⟩
    else if st.winRight ≤ sampleTime then
      match handleFullWindow D sending st value with
      | (.success, emitted) =>
        let left := if (st.winRight + st.winSize) % 2 ^ 64 ≤ sampleTime
          then sampleTime - sampleTime % st.winSize else st.winRight
        ⟨.success, accumulateData D (resetWindow D st left st.winSize) computeData, emitted⟩
      | (rc, emitted) => ⟨rc, st, emitted⟩
    else ⟨.success, accumulateData D st computeData, none⟩

/-- `do_compute_counter_window`. -/
def doComputeCounterWindow (sending : Sending) (st : WinStatistics F) (value : AnalyticsValue F) :
    Outcome F :=
  let st := accumulateData D st (value.computeData.getD [])
  if st.winRight ≤ st.numSampleRecv then
    match handleFullWindow D sending st value with
    | (.success, emitted) => ⟨.success, resetWindow D st 0 st.winSize, emitted⟩
    | (rc, emitted) => ⟨rc, st, emitted⟩
  else ⟨.success, st, none⟩

/-- The sample has the parts that `do_compute` asks for. -/
def wellFormed (value : AnalyticsValue F) : Bool :=
  value.key.any (!·.isEmpty) && value.nonComputeData.isSome && value.computeData.any (!·.isEmpty)

/-- `do_compute`. -/
def doCompute (sending : Sending) (st : WinStatistics F) (value : AnalyticsValue F) : Outcome F :=
  if !wellFormed value then ⟨.errBadParam, st, none⟩
  else if startsWith st.winType "time" then doComputeTimeWindow D sending st value
  else doComputeCounterWindow D sending st value

/-- `fill_first_sample`. -/
def fillFirstSample (sending : Sending) (attributes : List StepAttribute) (st : WinStatistics F)
    (value : AnalyticsValue F) : Outcome F :=
  match fillAttributes D st attributes with
  | (.success, st) => doCompute D sending st value
  | (rc, st) => ⟨rc, st, none⟩

/-- `analyze`, for the attributes of the step.  No value stands for a caddy that
`orcm_analytics_base_assert_caddy_data` rejects. -/
def analyze (attributes : List StepAttribute) (sending : Sending) (st : WinStatistics F) :
    Option (AnalyticsValue F) → Outcome F
  | none => ⟨.errBadParam, st, none⟩
  | some value =>
    if st.numSampleRecv = 0 then fillFirstSample D sending attributes st value
    else doCompute D sending st value

end Model

end Sensys.Orcm.Window
