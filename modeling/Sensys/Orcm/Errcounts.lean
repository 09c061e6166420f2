/-
# Samples of the error counts

`orcm/mca/sensor/errcounts/errcounts.cpp`: a sample lets the collector walk the file tree
(`EdacCollector.collectData`), and delivers what is passed to its callback for the labels that are
enabled (`RuntimeMetrics.doCollectMetrics`).

After a sample the last value delivered for an enabled label is to be its count in that sample
(`delivered_current`).  But the collector remembers a count BEFORE the callback looks whether the
label is enabled.  A count that changes while its label is disabled is remembered and not
delivered; when the label is enabled again, it is no change any more.
-/
import Sensys.Lib.Run
import Sensys.Orcm.EdacCollector
import Sensys.Orcm.RuntimeMetrics

namespace Sensys.Orcm.Errcounts

open CString EdacCollector List Option

/-! ## 1. Samples -/

/-- `errcounts_impl`, with all that it has delivered. -/
structure State where
  metrics : RuntimeMetrics
  previous : Str → Option ℤ
  delivered : List (Str × ℤ)

/-- `data_callback`. -/
def dataCallback (metrics : RuntimeMetrics) (label : Str) (errorCount : ℤ)
    (samples : List (Str × ℤ)) : List (Str × ℤ) :=
  if metrics.doCollectMetrics (some label) then samples ++ [(label, errorCount)] else samples

/-- The test at the beginning of `collect_sample`. -/
def skips (metrics : RuntimeMetrics) : Bool :=
  metrics.countOfCollectedLabels == 0 && !metrics.doCollectMetrics none

/-- `collect_sample`. -/
def collectSample (base : Str) (tree : Tree) (s : State) : State :=
  if skips s.metrics then s
  else
    let (previous, samples) := collectData base tree (dataCallback s.metrics) (s.previous, [])
    { s with previous := previous, delivered := s.delivered ++ samples }

/-- What happens: the inventory finds a label, labels are enabled, disabled or reset, or a sample is
taken. -/
inductive Label where
  | track (label : Str)
  | set (newState : Bool) (spec : Str)
  | reset (spec : Str)
  | sample (tree : Tree)

def step (base : Str) (s : State) : Label → Option State
  | .track label => some { s with metrics := s.metrics.trackSensorLabel label }
  | .set newState spec => some { s with metrics := (s.metrics.setCollectionState newState spec).2 }
  | .reset spec => some { s with metrics := (s.metrics.resetCollectionState spec).2 }
  | .sample tree => some (collectSample base tree s)

def Start (s : State) : Prop :=
  ∃ globalCollect pluginCollect, s = ⟨RuntimeMetrics.new (ofString "errcounts") globalCollect
    pluginCollect, fun _ => none, []⟩

/-- The last value for a label. -/
def lastValue (label : Str) (readings : List (Str × ℤ)) : Option ℤ :=
  (valuesOf label readings).getLast?

/-- **The condition.**  When a sample is taken, the counts of the labels that are disabled are the
values that were delivered last. -/
def Careful (base : Str) (s : State) : Label → Prop
  | .sample tree => skips s.metrics = false → ∀ reading ∈ logged base tree,
      s.metrics.doCollectMetrics (some reading.1) = false →
        lastValue reading.1 s.delivered = some reading.2
  | .track _ => True
  | .set _ _ => True
  | .reset _ => True

instance (base : Str) (s : State) : (label : Label) → Decidable (Careful base s label)
  | .sample tree => inferInstanceAs (Decidable (_ → ∀ reading ∈ logged base tree, _ → _))
  | .track _ => isTrue trivial
  | .set _ _ => isTrue trivial
  | .reset _ => isTrue trivial

/-! ## 2. What a sample delivers -/

section Sample

variable (metrics : RuntimeMetrics)

/-- What is delivered of some readings. -/
def enabled (readings : List (Str × ℤ)) : List (Str × ℤ) :=
  readings.filter fun reading => metrics.doCollectMetrics (some reading.1)

theorem foldl_dataCallback (readings samples : List (Str × ℤ)) :
    readings.foldl (fun samples reading => dataCallback metrics reading.1 reading.2 samples) samples =
      samples ++ enabled metrics readings := by
  induction readings generalizing samples with
  | nil => exact (List.append_nil _).symm
  | cons reading readings ih =>
    rw [foldl_cons, ih, dataCallback, enabled, enabled, filter_cons]
    split <;> simp

variable {label : Str}

theorem valuesOf_enabled (h : metrics.doCollectMetrics (some label) = true)
    (readings : List (Str × ℤ)) :
    valuesOf label (enabled metrics readings) = valuesOf label readings := by
  induction readings with
  | nil => rfl
  | cons reading readings ih =>
    obtain ⟨label', count⟩ := reading
    by_cases hlabel : label' = label
    · subst hlabel
      rw [enabled, filter_cons, if_pos h, valuesOf_cons_self, valuesOf_cons_self]
      exact congrArg _ ih
    · rw [valuesOf_cons_of_ne hlabel, ← ih, enabled, enabled, filter_cons]
      split
      · rw [valuesOf_cons_of_ne hlabel]
      · rfl

theorem valuesOf_enabled_of_disabled
    (h : metrics.doCollectMetrics (some label) = false) (readings : List (Str × ℤ)) :
    valuesOf label (enabled metrics readings) = [] := by
  rw [valuesOf, filterMap_eq_nil_iff]
  intro reading hreading
  obtain ⟨-, henabled⟩ := mem_filter.mp hreading
  refine if_neg fun hlabel => ?_
  rw [hlabel, h] at henabled
  cases henabled

variable {metrics}

theorem collectSample_eq (base : Str) (tree : Tree) {s} (hskips : skips s.metrics = false)
    (hproper : Proper s.previous) : collectSample base tree s = { s with
        previous := remember s.previous (logged base tree)
        delivered := s.delivered ++ enabled s.metrics (changes s.previous (logged base tree)) } := by
  rw [collectSample, if_neg (by simp [hskips]), collectData_eq,
    logAll_eq _ _ _ hproper fun _ => ne_of_mem_logged, foldl_dataCallback]
  rfl

/-- A sample is not skipped if a label is enabled. -/
theorem skips_eq_false (h : metrics.doCollectMetrics (some label) = true) :
    skips metrics = false := by
  rcases RuntimeMetrics.exists_collected h with hcount | hplugin
  · simp [skips, hcount]
  · simp [skips, hplugin]

end Sample

theorem lastValue_append (label : Str) (readings readings' : List (Str × ℤ)) :
    lastValue label (readings ++ readings') =
      (lastValue label readings').or (lastValue label readings) := by
  rw [lastValue, valuesOf_append, getLast?_append, lastValue, lastValue]

/-! ## 3. The invariant -/

/-- What the collector remembers was delivered. -/
structure Inv (s : State) : Prop where
  proper : Proper s.previous
  delivered : ∀ label, s.previous label = lastValue label s.delivered

variable {s : State} {base : Str}

theorem inv_start (h : Start s) : Inv s := by
  obtain ⟨globalCollect, pluginCollect, rfl⟩ := h
  exact ⟨fun _ => by simp, fun _ => rfl⟩

/-- **A sample keeps the invariant.** -/
theorem Inv.sample (h : Inv s) {tree} (hcareful : Careful base s (.sample tree)) :
    Inv (collectSample base tree s) := by
  cases hskips : skips s.metrics with
  | true =>
    rw [collectSample, if_pos hskips]
    exact h
  | false =>
    rw [collectSample_eq base tree hskips h.proper]
    refine ⟨proper_remember h.proper, fun label => ?_⟩
    show remember s.previous (logged base tree) label = lastValue label
      (s.delivered ++ enabled s.metrics (changes s.previous (logged base tree)))
    rw [lastValue_append, ← h.delivered label]
    cases henabled : s.metrics.doCollectMetrics (some label) with
    | true =>
      -- the changes are delivered, and they lead to what is remembered
      rw [lastValue, valuesOf_enabled _ henabled, ← remember_eq, remember_changes]
    | false =>
      -- there are no changes
      rw [lastValue, valuesOf_enabled_of_disabled _ henabled, remember_eq]
      cases hlast : (valuesOf label (logged base tree)).getLast? with
      | none => rfl
      | some count =>
        obtain ⟨reading, hreading, hcount⟩ := mem_filterMap.mp (mem_of_getLast? hlast)
        split at hcount
        · next hlabel =>
          cases hcount
          subst hlabel
          rw [h.delivered, hcareful hskips reading hreading henabled]
          rfl
        · cases hcount

theorem Inv.step {s'} (h : Inv s) {label} (hcareful : Careful base s label)
    (hstep : step base s label = some s') : Inv s' := by
  cases label with
  | track label | set newState spec | reset spec =>
    cases hstep
    exact ⟨h.proper, h.delivered⟩
  | sample tree =>
    cases hstep
    exact h.sample hcareful

/-! ## 4. Nothing is lost -/

/-- The states of the runs in which all goes well. -/
def Runs (base : Str) : State → Prop := Reachable (step base) Start (Careful base)

/-- **After a sample the last value delivered for an enabled label is its count in that sample.** -/
theorem delivered_current {base : Str} {s : State} (h : Runs base s) {tree : Tree}
    (hcareful : Careful base s (.sample tree)) {label : Str}
    (henabled : s.metrics.doCollectMetrics (some label) = true) {count : ℤ}
    (hcount : lastValue label (logged base tree) = some count) :
    lastValue label (collectSample base tree s).delivered = some count := by
  have hinv := Reachable.invariant (P := Inv) (fun _ => inv_start) (fun _ _ _ hs => hs.step) h
  rw [← (hinv.sample hcareful).delivered label,
    collectSample_eq base tree (skips_eq_false henabled) hinv.proper]
  rw [lastValue] at hcount
  simp [remember_eq, hcount]

/-- A sample is taken while a label is disabled. -/
def disabledSample (dimm : String) : List Label :=
  [.track (ofString "DIMM_CE"), .track (ofString "OTHER_CE"),
    .set false (ofString "errcounts:DIMM_CE"),
    .sample (sampleTree (some "3\n") (some "0\n") (some dimm)),
    .set true (ofString "errcounts:DIMM_CE")]

/-- A label is disabled and enabled, and its count changes when it is enabled again. -/
theorem delivered_current_sample : ∃ s, Runs (ofString "/e") s ∧
      lastValue (ofString "DIMM_CE") s.delivered = none ∧ lastValue (ofString "DIMM_CE")
        (collectSample (ofString "/e") (sampleTree (some "3\n") (some "0\n") (some "DIMM\n"))
          s).delivered = some 2 := by
  obtain ⟨s, hs, hnone, hcareful, henabled⟩ : ∃ s, Runs (ofString "/e") s ∧
      lastValue (ofString "DIMM_CE") s.delivered = none ∧
      Careful (ofString "/e") s
        (.sample (sampleTree (some "3\n") (some "0\n") (some "DIMM\n"))) ∧
      s.metrics.doCollectMetrics (some (ofString "DIMM_CE")) = true :=
    exists_of_follow ⟨true, true, rfl⟩ (disabledSample "OTHER\n") (by decide +kernel)
  exact ⟨s, hs, hnone, delivered_current hs hcareful henabled (by decide +kernel)⟩

/-- A count is read while its label is disabled, and it is not delivered when that is enabled. -/
theorem disabled_change_is_lost : ∃ s, Reachable (step (ofString "/e")) Start always s ∧
      s.metrics.doCollectMetrics (some (ofString "DIMM_CE")) = true ∧ lastValue (ofString "DIMM_CE")
        (logged (ofString "/e") (sampleTree (some "3\n") (some "0\n") (some "DIMM\n"))) = some 2 ∧
      lastValue (ofString "DIMM_CE")
        (collectSample (ofString "/e") (sampleTree (some "3\n") (some "0\n") (some "DIMM\n"))
          s).delivered = none :=
  exists_of_follow ⟨true, true, rfl⟩ (disabledSample "DIMM\n") (by decide +kernel)

end Sensys.Orcm.Errcounts
