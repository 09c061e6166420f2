/-
# The spatial plugin

`orcm/mca/analytics/spatial/analytics_spatial.c`.  The plugin waits for a sample of every node of a
list, keeps the latest one of each in a hash table, and computes a result over all of them when the
table is FULL: when it has as many entries as the list has names.  The first sample of a round sets
a timer, and when the timer fires the result is computed over what is there.

`analyze` is called in both cases; a call without `compute_data` is the timer's.  Making the result
and sending it on is the environment (`Sending`), and so are the clock and the event library, which
may refuse the timer (`Arming`).

The hash table is that of `HashTable`, whose operations are partial there; so are the functions here
that use it.  The key of a node is its name with the final `NUL`.
-/
import Sensys.Orcm.LogicalGroup
import Sensys.Orcm.Window

namespace Sensys.Orcm.Spatial

open CString Opal Analytics
open Window (Sending)

/-! ## 1. The statistics -/

/-- `orcm_analytics_value_t`; the items of `key` are texts. -/
structure SampleValue (F : Type) where
  key : Option (List StepAttribute)
  nonComputeData : Option (List (OrcmValue F))
  computeData : Option (List (OrcmValue F))
  deriving DecidableEq, Repr

/-- `opal_event_t`: what the timer will hand over, and whether it is still to fire. -/
structure TimeoutEvent (F : Type) where
  value : SampleValue F
  pending : Bool
  deriving DecidableEq, Repr

/-- `spatial_statistics_t`.  A `nodelist` without names is `NULL`. -/
structure SpatialStatistics (F : Type) where
  interval : ℕ
  size : ℕ
  nodelist : List Str
  computeType : ComputeType
  lastRoundTime : Option Timeval
  buckets : HashTable Str (List (OrcmValue F))
  result : F
  numDataPoint : ℕ
  timeoutEvent : Option (TimeoutEvent F)
  timeout : ℕ

/-- What the event library does with a new timer: it takes it, it makes it and does not take it, or
none is made. -/
inductive Arming where
  | added
  | notAdded (rc : Rc)
  | notMade (rc : Rc)
  deriving DecidableEq, Repr

/-- What a call of the plugin finds: the time, and how sending and the timer go. -/
structure Env where
  now : Timeval
  sending : Sending
  arming : Arming
  deriving DecidableEq, Repr

/-- What the step is configured with: its attributes, and what the expansion of the node list
depends on. -/
structure Step where
  attributes : List StepAttribute
  groups : LogicalGroup.Groups
  erange : Bool
  fuel : ℕ

/-- A result that was sent on. -/
structure Emission (F : Type) where
  computeType : ComputeType
  result : F
  units : Option Str
  key : Option (List StepAttribute)
  nonComputeData : Option (List (OrcmValue F))
  deriving DecidableEq, Repr

/-- What a call does: its return code, the statistics it leaves, and what it sent on. -/
structure Outcome (F : Type) where
  rc : Rc
  stats : SpatialStatistics F
  emitted : Option (Emission F)

section Model

variable {F : Type} (D : Doubles F)

/-- `spatial_statistics_con`; the table is made later. -/
def spatialStatisticsCon : SpatialStatistics F where
  interval := 60
  size := 0
  nodelist := []
  computeType := .unknown
  lastRoundTime := none
  buckets := ⟨[], 0, 0, 0, 0, 0, 0⟩
  result := D.zero
  numDataPoint := 0
  timeoutEvent := none
  timeout := 60

/-- What an accumulation starts with. -/
def startResult : ComputeType → F
  | .min => D.dblMax
  | .max => D.dblMin
  | _ => D.zero

/-- `reset_statistics`. -/
def resetStatistics (st : SpatialStatistics F) (currentTime : Option Timeval) :
    SpatialStatistics F :=
  { st with
    buckets := st.buckets.removeAll.2
    numDataPoint := 0
    result := startResult D st.computeType
    lastRoundTime := currentTime.or st.lastRoundTime
    timeoutEvent := none }

/-- `fill_spatial_statistics`. -/
def fillSpatialStatistics (st : SpatialStatistics F) : Rc × SpatialStatistics F :=
  if st.computeType = .unknown then (.errBadParam, st)
  else
    let st := { st with size := st.nodelist.length }
    if st.size = 0 then (.errBadParam, st)
    else if st.interval = 0 then (.errBadParam, st)
    else if st.timeout = 0 then (.errBadParam, st)
    else (.success, { resetStatistics D st none with buckets := HashTable.init st.size })

/-- The loop of `init_spatial_statistics` over the attributes.  If the list of nodes cannot be parsed
it stays empty here, and the next call parses it again; the source keeps the pointer to the array that
`orcm_logical_group_parse_array_string` has freed, and the next call counts what is there. -/
def initEach (step : Step) : List StepAttribute → SpatialStatistics F →
    Option (Rc × SpatialStatistics F)
  | [], st => some (.success, st)
  | ⟨some key, some string⟩ :: attributes, st =>
    if key = ofString "nodelist" then
      if st.nodelist = [] then
        (LogicalGroup.parseArrayString step.groups string step.erange step.fuel).bind fun
          | (.success, nodelist) => initEach step attributes { st with nodelist := nodelist }
          | (rc, _) => some (rc, st)
      else initEach step attributes st
    else if key = ofString "compute" then
      initEach step attributes { st with computeType := getComputeType string }
    else if key = ofString "interval" then
      initEach step attributes { st with interval := getTimeInSec string }
    else if key = ofString "timeout" then
      initEach step attributes { st with timeout := getTimeInSec string }
    else initEach step attributes st
  | _ :: _, st => some (.errBadParam, st)

/-- `init_spatial_statistics`. -/
def initSpatialStatistics (step : Step) (st : SpatialStatistics F) :
    Option (Rc × SpatialStatistics F) :=
  (initEach step step.attributes st).map fun
    | (.success, st) => fillSpatialStatistics D st
    | failed => failed

/-! ## 2. Computing -/

/-- The key of a node in the table. -/
def nodeKey (node : Str) : Str := node ++ [0]

/-- The sample of a node. -/
def bucketOf (st : SpatialStatistics F) (node : Str) : Option (Except Rc (List (OrcmValue F))) :=
  st.buckets.getValue hashKeyPtr (nodeKey node)

/-- `do_operation`, on the result. -/
def doOperation (type : ComputeType) (result num : F) : F :=
  if type = .average ∨ type = .sd then D.add result num
  else if type = .min then if D.lt num result then num else result
  else if D.lt result num then num else result

/-- What the sample of a node adds to the result, the number of values and the units. -/
def addBucket (type : ComputeType) (data : List (OrcmValue F)) (acc : F × ℕ × Option Str) :
    F × ℕ × Option Str :=
  (data.foldl (fun result item => doOperation D type result item.number) acc.1,
    (acc.2.1 + data.length) % 2 ^ 64,
    data.foldl (fun units item => units.or item.units) acc.2.2)

/-- The loop of `do_compute` over the node list. -/
def computeEach (st : SpatialStatistics F) : List Str → F × ℕ × Option Str →
    Option (F × ℕ × Option Str)
  | [], acc => some acc
  | node :: nodes, acc =>
    (bucketOf st node).bind fun
      | .error _ => computeEach st nodes acc
      | .ok data => computeEach st nodes (addBucket D st.computeType data acc)

/-- The sum of `find_sd` over the node list. -/
def sumSquares (st : SpatialStatistics F) : List Str → F → Option F
  | [], sum => some sum
  | node :: nodes, sum =>
    (bucketOf st node).bind fun
      | .error _ => sumSquares st nodes sum
      | .ok data => sumSquares st nodes (data.foldl
          (fun sum item => D.add sum (D.square (D.sub item.number st.result))) sum)

/-- `find_sd`. -/
def findSd (st : SpatialStatistics F) : Option (SpatialStatistics F) :=
  if st.computeType = .sd then
    (sumSquares D st st.nodelist D.zero).map fun sum =>
      { st with result := D.sqrt (D.div sum (D.ofNat st.numDataPoint)) }
  else some st

/-- `do_compute`: the return code, the statistics and the units.  It goes on from the result and the
number of values that are there. -/
def doCompute (st : SpatialStatistics F) : Option (Rc × SpatialStatistics F × Option Str) :=
  (computeEach D st st.nodelist (st.result, st.numDataPoint, none)).bind fun
    | (result, numDataPoint, units) =>
      let st := { st with result := result, numDataPoint := numDataPoint }
      if numDataPoint = 0 then some (.errBadParam, st, units)
      else
        let st := if st.computeType = .average ∨ st.computeType = .sd then
          { st with result := D.div st.result (D.ofNat numDataPoint) } else st
        (findSd D st).map fun st => (.success, st, units)

/-- `handle_full_bucket`. -/
def handleFullBucket (env : Env) (st : SpatialStatistics F) (value : SampleValue F) :
    Option (Outcome F) :=
  (doCompute D st).map fun
    | (.success, st, units) =>
      match env.sending with
      | .failed rc => ⟨rc, st, none⟩
      | .dropped => ⟨.success, st, none⟩
      | .sent => ⟨.success, st, some ⟨st.computeType, st.result, units, value.key,
          value.nonComputeData⟩⟩
    | (rc, st, _) => ⟨rc, st, none⟩

/-! ## 3. Samples -/

/-- `insert_timeout_event`. -/
def insertTimeoutEvent (env : Env) (st : SpatialStatistics F) (value : SampleValue F) :
    Rc × SpatialStatistics F :=
  let event : TimeoutEvent F :=
    ⟨{ value with computeData := none }, decide (env.arming = .added)⟩
  match env.arming with
  | .added => (.success, { st with timeoutEvent := some event })
  | .notAdded rc => (rc, { st with timeoutEvent := some event })
  | .notMade rc => (rc, st)

/-- The inner loop of `fill_bucket`: the first host name is compared with the node. -/
def isFrom (node : Str) : List StepAttribute → Except Rc Bool
  | [] => .ok false
  | ⟨none, _⟩ :: _ => .error .errBadParam
  | ⟨some key, string⟩ :: items =>
    if key = ofString "hostname" then
      match string with
      | none => .error .errBadParam
      | some host => .ok (decide (node = host))
    else isFrom node items

/-- The outer loop of `fill_bucket`: the first node of the list that the sample is from. -/
def findNode (items : List StepAttribute) : List Str → Except Rc Str
  | [] => .error .errBadParam
  | node :: nodes =>
    match isFrom node items with
    | .error rc => .error rc
    | .ok true => .ok node
    | .ok false => findNode items nodes

/-- The sample is in the table: the result is computed, or the timer is set with the first one. -/
def bucketFilled (env : Env) (st : SpatialStatistics F) (value : SampleValue F) :
    Option (Outcome F) :=
  if st.size = st.buckets.getSize then handleFullBucket D env st value
  else
    let (rc, st) :=
      if st.buckets.getSize = 1 ∧ st.timeoutEvent.isNone then insertTimeoutEvent env st value
      else (.success, st)
    some ⟨if rc = .success then .errRecvMoreThanPosted else rc, st, none⟩

/-- `fill_bucket`. -/
def fillBucket (env : Env) (st : SpatialStatistics F) (value : SampleValue F) :
    Option (Outcome F) :=
  match findNode (value.key.getD []) st.nodelist with
  | .error rc => some ⟨rc, st, none⟩
  | .ok node =>
    (st.buckets.setValue hashKeyPtr (nodeKey node) (value.computeData.getD [])).bind fun
      | (.success, buckets) => bucketFilled D env { st with buckets := buckets } value
      | (rc, buckets) => some ⟨rc, { st with buckets := buckets }, none⟩

/-- The round has begun: `interval` seconds have passed since the last one. -/
def roundBegun (st : SpatialStatistics F) (now : Timeval) : Bool :=
  st.lastRoundTime.all fun last => D.le (D.ofNat st.interval) (timeDiff D last now)

/-- The parts that `collect_sample` asks for. -/
def wellFormed (value : SampleValue F) : Bool :=
  value.key.any (!·.isEmpty) && value.nonComputeData.isSome && value.computeData.any (!·.isEmpty)

/-- `collect_sample`. -/
def collectSample (env : Env) (st : SpatialStatistics F) (value : SampleValue F) :
    Option (Outcome F) :=
  if !wellFormed value then some ⟨.errBadParam, st, none⟩
  else if roundBegun D st env.now then
    (fillBucket D env st value).map fun outcome =>
      if outcome.emitted.isSome then
        { outcome with stats := resetStatistics D outcome.stats (some env.now) }
      else outcome
  else some ⟨.errRecvMoreThanPosted, st, none⟩

/-- `analyze`, with the statistics initialised. -/
def analyzeValue (env : Env) (st : SpatialStatistics F) (value : SampleValue F) :
    Option (Outcome F) :=
  match value.computeData with
  | none =>
    (handleFullBucket D env st value).map fun outcome =>
      if outcome.emitted.isSome then
        { outcome with stats := resetStatistics D outcome.stats (some env.now) }
      else outcome
  | some _ => collectSample D env st value

/-- `analyze`, for a caddy that `orcm_analytics_base_assert_caddy_data` accepts. -/
def analyze (step : Step) (env : Env) (st : SpatialStatistics F) (value : SampleValue F) :
    Option (Outcome F) :=
  if st.size = 0 then
    (initSpatialStatistics D step st).bind fun
      | (.success, st) => analyzeValue D env st value
      | (rc, st) => some ⟨rc, { st with size := 0 }, none⟩
  else analyzeValue D env st value

/-! ## 4. Runs -/

/-- What happens to the plugin: a sample comes, or the timer fires. -/
inductive Label (F : Type) where
  | sample (key : Option (List StepAttribute)) (nonComputeData : Option (List (OrcmValue F)))
      (computeData : List (OrcmValue F)) (env : Env)
  | timeout (env : Env)

/-- One call of the plugin; the timer fires once, and only while it is pending. -/
def step (config : Step) (st : SpatialStatistics F) : Label F → Option (Outcome F)
  | .sample key nonComputeData computeData env =>
    analyze D config env st ⟨key, nonComputeData, some computeData⟩
  | .timeout env =>
    st.timeoutEvent.bind fun event =>
      if event.pending then
        analyze D config env { st with timeoutEvent := some { event with pending := false } }
          event.value
      else none

/-- A sequence of calls: what each of them sent on, and the statistics in the end. -/
def run (config : Step) : SpatialStatistics F → List (Label F) →
    Option (List (Option (Emission F)) × SpatialStatistics F)
  | st, [] => some ([], st)
  | st, label :: labels =>
    (step D config st label).bind fun outcome =>
      (run config outcome.stats labels).map fun (emitted, st) => (outcome.emitted :: emitted, st)

end Model

end Sensys.Orcm.Spatial
