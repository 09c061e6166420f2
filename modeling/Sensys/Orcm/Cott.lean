/-
# The cott plugin

`orcm/mca/analytics/cott/analytics_cott.cpp`: a workflow step that raises an event when a counter
grows over a threshold.  A workflow may have many such steps, but their counters are ONE global
object, `counter_analyzer`, and so is what the events are to look like, `global_step_data`:

* `cott_init` makes a new object and forgets the old one;
* `cott_finalize` deletes the object, whichever step it is for;
* `cott_analyze` first sets the attributes of its step, those that it has.

A call when there is no object is undefined (`none`).  Memory that runs out is not modelled.
-/
import Sensys.Orcm.CottCounter

namespace Sensys.Orcm.Cott

open CString

/-! ## 1. Attributes -/

/-- `ORCM_EVENT_SOFT_FAULT` and `ORCM_EVENT_HARD_FAULT`. -/
inductive Fault where
  | soft
  | hard
  deriving DecidableEq, Repr

/-- `ORCM_RAS_SEVERITY_*`. -/
inductive Severity where
  | emerg
  | alert
  | crit
  | error
  | warning
  | notice
  | info
  | debug
  deriving DecidableEq, Repr

/-- `step_data_t`. -/
structure StepData where
  faultType : Fault
  storeEvent : Bool
  severity : Severity
  useNotifier : Bool
  notifierAction : Str
  deriving DecidableEq, Repr

/-- `global_step_data`, as the program starts. -/
def StepData.init : StepData := ⟨.hard, true, .error, false, ofString "none"⟩

/-- `lookup_fault`. -/
def lookupFault (fault : Str) : Option Fault :=
  if fault = ofString "soft" then some .soft
  else if fault = ofString "hard" then some .hard
  else none

/-- `lookup_store`. -/
def lookupStore (store : Str) : Option Bool :=
  if store = ofString "yes" ∨ store = ofString "true" ∨ store = ofString "1" then some true
  else if store = ofString "no" ∨ store = ofString "false" ∨ store = ofString "0" then some false
  else none

/-- `lookup_severity`. -/
def lookupSeverity (severity : Str) : Option Severity :=
  if severity = ofString "emerg" then some .emerg
  else if severity = ofString "alert" then some .alert
  else if severity = ofString "crit" then some .crit
  else if severity = ofString "error" then some .error
  else if severity = ofString "warn" then some .warning
  else if severity = ofString "notice" then some .notice
  else if severity = ofString "info" then some .info
  else if severity = ofString "debug" then some .debug
  else none

/-- The threshold that a text stands for; 1 if it is not a good one. -/
def thresholdOf (text : Str) : UInt32 :=
  if text.length ≤ 10 then
    let (val, _, _) := strtol text
    if val < 2 ^ 32 ∧ 0 < val then UInt32.ofNat val.toNat else 1
  else 1

/-- `counter_analyzer` and `global_step_data`. -/
structure Globals where
  counterAnalyzer : Option HostAnalyzeCounters
  stepData : StepData

/-- A change of the analyzer, which has to be there. -/
def onAnalyzer (globals : Globals) (f : HostAnalyzeCounters → HostAnalyzeCounters) :
    Option Globals :=
  globals.counterAnalyzer.map fun analyzer => { globals with counterAnalyzer := some (f analyzer) }

/-- One attribute of `set_attributes`. -/
def setAttribute (globals : Globals) (key string : Str) : Option Globals :=
  if key = ofString "label_mask" then onAnalyzer globals (·.setValueLabelMask string)
  else if key = ofString "time_window" then onAnalyzer globals (·.setWindowSize string)
  else if key = ofString "count_threshold" then
    onAnalyzer globals (·.setThreshold (thresholdOf string))
  else if key = ofString "fault_type" then
    some { globals with stepData := { globals.stepData with
      faultType := (lookupFault string).getD globals.stepData.faultType } }
  else if key = ofString "store_event" then
    some { globals with stepData := { globals.stepData with
      storeEvent := (lookupStore string).getD globals.stepData.storeEvent } }
  else if key = ofString "notifier_action" then
    some { globals with stepData := { globals.stepData with
      useNotifier := decide (string ≠ ofString "none")
      notifierAction := string } }
  else if key = ofString "severity" then
    some { globals with stepData := { globals.stepData with
      severity := (lookupSeverity string).getD globals.stepData.severity } }
  else some globals

/-- `set_attributes`. -/
def setAttributes : List (Str × Str) → Globals → Option Globals
  | [], globals => some globals
  | (key, string) :: attributes, globals =>
    (setAttribute globals key string).bind (setAttributes attributes)

/-! ## 2. Samples and events -/

/-- `orcm_analytics_value_t`, as the plugin reads it: texts in `key`, seconds in
`non_compute_data`, and numbers in `compute_data`. -/
structure CottValue where
  key : List (Str × Str)
  nonComputeData : List (Str × ℤ)
  computeData : List (Str × UInt32)
  deriving DecidableEq, Repr

/-- An event of type `COUNTER`: the sample it was made from, its severity and category, and for a
notification the message and the action. -/
structure Event where
  value : CottValue
  severity : Severity
  category : Fault
  notification : Option (Str × Str)
  deriving DecidableEq, Repr

/-- What a call produces: the counts that are handed on, the events for the database and those for
the notifier. -/
structure Produced where
  thresholdData : List (Str × UInt32)
  stored : List Event
  eventList : List Event
  deriving DecidableEq, Repr

/-- The message of an event; `me` is the name of the process. -/
def message (me label : Str) (count threshold : UInt32) (host : Str) : Str :=
  me ++ ofString " analytics:cott:EVENT '" ++ label ++ ofString "=" ++
    decimalInt (int32 count.toNat) ++ ofString "' count exceeding threshold of " ++
    decimalInt (int32 threshold.toNat) ++ ofString " on host '" ++ host ++ ofString "'"

/-- `cott_event_fired_callback`. -/
def eventFiredCallback (me : Str) (globals : Globals) (analyzer : HostAnalyzeCounters)
    (value : CottValue) (report : HostAnalyzeCounters.Report) (produced : Produced) : Produced :=
  let data := globals.stepData
  let count := report.firing.errorCount
  { thresholdData := produced.thresholdData ++ [(report.label, count)]
    stored := produced.stored ++
      if data.storeEvent then [⟨value, data.severity, data.faultType, none⟩] else []
    eventList := produced.eventList ++
      if data.useNotifier then [⟨value, data.severity, data.faultType,
        some (message me report.label count analyzer.threshold report.host, data.notifierAction)⟩]
      else [] }

/-- The loop of `add_data_values`. -/
def addDataValues (me hostname : Str) (tv : ℤ) (globals : Globals) (value : CottValue) :
    List (Str × UInt32) → HostAnalyzeCounters → Produced → HostAnalyzeCounters × Produced
  | [], analyzer, produced => (analyzer, produced)
  | (label, val) :: items, analyzer, produced =>
    if analyzer.isWantedLabel label then
      let (analyzer, report) := analyzer.addValue hostname label val tv
      let produced := match report with
        | none => produced
        | some report => eventFiredCallback me globals analyzer value report produced
      addDataValues me hostname tv globals value items analyzer produced
    else addDataValues me hostname tv globals value items analyzer produced

/-- `get_hostname_from_caddy`. -/
def getHostname (value : CottValue) : Str := (value.key.lookup (ofString "hostname")).getD []

/-- `get_timeval_from_caddy`. -/
def getTimeval (value : CottValue) : ℤ := (value.nonComputeData.lookup (ofString "ctime")).getD 0

/-- `cott_analyze`; without a host name or a time nothing is produced and handed on. -/
def cottAnalyze (me : Str) (attributes : List (Str × Str)) (value : CottValue)
    (globals : Globals) : Option (Globals × Option Produced) :=
  (setAttributes attributes globals).bind fun globals =>
    if getHostname value = [] ∨ getTimeval value = 0 then some (globals, none)
    else if value.computeData = [] then some (globals, some ⟨[], [], []⟩)
    else globals.counterAnalyzer.map fun analyzer =>
      let (analyzer, produced) := addDataValues me (getHostname value) (getTimeval value) globals
        value value.computeData analyzer ⟨[], [], []⟩
      ({ globals with counterAnalyzer := some analyzer }, some produced)

/-! ## 3. Several steps -/

/-- What happens to a step. -/
inductive Action where
  | create
  | finalize
  | feed (value : CottValue)

/-- Something happens to one of the steps. -/
structure Label (ι : Type) where
  step : ι
  action : Action

section Steps

variable {ι : Type} (me : Str) (attributes : ι → List (Str × Str))

/-- `cott_init`, `cott_finalize` and `cott_analyze`. -/
def act (globals : Globals) (label : Label ι) : Option (Globals × Option Produced) :=
  match label.action with
  | .create => some ({ globals with counterAnalyzer := some .new }, none)
  | .finalize => some ({ globals with counterAnalyzer := none }, none)
  | .feed value => cottAnalyze me (attributes label.step) value globals

/-- A run: what each action produced, with its step. -/
def run : Globals → List (Label ι) → Option (List (ι × Option Produced))
  | _, [] => some []
  | globals, label :: labels =>
    (act me attributes globals label).bind fun (globals, produced) =>
      (run globals labels).map fun rest => (label.step, produced) :: rest

end Steps

end Sensys.Orcm.Cott
