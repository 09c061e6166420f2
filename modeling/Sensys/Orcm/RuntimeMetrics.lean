/-
# Which sensors are collected

`orcm/mca/sensor/base/sensor_runtime_metrics.cpp`: a plugin of sensors is enabled or disabled as a
whole or for one label at a time, by requests that name a data group and perhaps a label, as in
`errcounts:DIMM_CE`.

While a collection is going on, a request waits for its end; it is assumed here that this does not
come in time.
-/
import Sensys.Constants
import Sensys.Lib.CString

namespace Sensys.Orcm

open CString

/-- `RuntimeMetrics`; each label is in the map once. -/
structure RuntimeMetrics where
  datagroup : Str
  initialPluginState : Bool
  currentPluginState : Bool
  sensorLabelMap : List (Str × Bool)
  collectionLock : Bool
  deriving DecidableEq, Repr

namespace RuntimeMetrics

/-- `DoCollectMetrics`. -/
def doCollectMetrics (metrics : RuntimeMetrics) (sensorLabel : Option Str) : Bool :=
  (sensorLabel.bind fun label => metrics.sensorLabelMap.lookup label).getD
    metrics.currentPluginState

/-- `GetSensorDatagroupFromSpec`. -/
def getSensorDatagroupFromSpec (spec : Str) : Str := spec.takeWhile (· != 58)

/-- `GetSensorLabelFromSpec`. -/
def getSensorLabelFromSpec (spec : Str) : Str := (spec.dropWhile (· != 58)).tail

/-- `IsForMyDatagroup`. -/
def isForMyDatagroup (metrics : RuntimeMetrics) (spec : Str) : Bool :=
  getSensorDatagroupFromSpec spec == ofString "all" ||
    getSensorDatagroupFromSpec spec == metrics.datagroup

/-- The state of the labels that are chosen. -/
def setLabels (newState : Bool) (chosen : Str → Bool) (labels : List (Str × Bool)) :
    List (Str × Bool) :=
  labels.map fun entry => if chosen entry.1 then (entry.1, newState) else entry

/-- `SetCollectionState`. -/
def setCollectionState (newState : Bool) (spec : Str) (metrics : RuntimeMetrics) :
    Rc × RuntimeMetrics :=
  if !metrics.isForMyDatagroup spec then (.success, metrics)
  else if metrics.collectionLock then (.errTimeout, metrics)
  else
    let label := getSensorLabelFromSpec spec
    if label.isEmpty || label == ofString "all" || metrics.sensorLabelMap.isEmpty then
      (.success, { metrics with
        currentPluginState := newState
        sensorLabelMap := setLabels newState (fun _ => true) metrics.sensorLabelMap })
    else if (metrics.sensorLabelMap.lookup label).isSome then
      (.success, { metrics with
        sensorLabelMap := setLabels newState (· == label) metrics.sensorLabelMap })
    else (.errNotFound, metrics)

/-- `ResetCollectionState`. -/
def resetCollectionState (spec : Str) (metrics : RuntimeMetrics) : Rc × RuntimeMetrics :=
  setCollectionState metrics.initialPluginState spec metrics

/-- The constructor; what the plugin says overrides the global state. -/
def new (datagroup : Str) (_globalCollectMetrics pluginCollectMetrics : Bool) : RuntimeMetrics :=
  (resetCollectionState datagroup ⟨datagroup, pluginCollectMetrics, true, [], false⟩).2

/-- `TrackSensorLabel`. -/
def trackSensorLabel (label : Str) (metrics : RuntimeMetrics) : RuntimeMetrics :=
  if (metrics.sensorLabelMap.lookup label).isSome then metrics
  else { metrics with
    sensorLabelMap := metrics.sensorLabelMap ++ [(label, metrics.initialPluginState)] }

/-- `CountOfCollectedLabels`. -/
def countOfCollectedLabels (metrics : RuntimeMetrics) : ℕ :=
  (metrics.sensorLabelMap.filter Prod.snd).length

/-- A label that is enabled is counted, or else the plugin is enabled. -/
theorem exists_collected {metrics : RuntimeMetrics} {label}
    (h : metrics.doCollectMetrics (some label) = true) :
    metrics.countOfCollectedLabels ≠ 0 ∨ metrics.doCollectMetrics none = true := by
  rw [doCollectMetrics, Option.bind_some] at h
  cases hlookup : metrics.sensorLabelMap.lookup label with
  | none =>
    rw [hlookup] at h
    exact .inr h
  | some state =>
    rw [hlookup, Option.getD_some] at h
    subst h
    obtain ⟨before, after, hmap, -⟩ := List.lookup_eq_some_iff.mp hlookup
    exact .inl (by simp [countOfCollectedLabels, hmap])

end RuntimeMetrics

end Sensys.Orcm
