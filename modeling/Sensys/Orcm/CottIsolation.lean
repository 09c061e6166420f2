/-
# Steps of the cott plugin and each other

A step is ISOLATED in a run when its calls produce what they produce in the run without all other
steps (`Isolated`).

With the global objects of the plugin this holds in runs in which no two steps are there at the same
time, and in which every step that is fed after another one says itself what its events are to look
like (`isolated_of_alone`).  For `cott_init` makes a new analyzer, so a step that comes alone starts
afresh; but `global_step_data` is never reset, and a step without a `severity` has that of a step
that is long gone.

Two steps at the same time share the counters: a step fires because of a sample of the other, and
when one of them ends, the next call of the other has no analyzer (`steps_are_not_isolated`).
-/
import Sensys.Orcm.Cott

namespace Sensys.Orcm.Cott

open CString List Option

/-! ## 1. Attributes on an analyzer that is there -/

/-- What an attribute does to the analyzer. -/
def setAnalyzer (analyzer : HostAnalyzeCounters) (attr : Str × Str) : HostAnalyzeCounters :=
  if attr.1 = ofString "label_mask" then analyzer.setValueLabelMask attr.2
  else if attr.1 = ofString "time_window" then analyzer.setWindowSize attr.2
  else if attr.1 = ofString "count_threshold" then analyzer.setThreshold (thresholdOf attr.2)
  else analyzer

/-- The category that an attribute gives. -/
def faultGiven (attr : Str × Str) : Option Fault :=
  if attr.1 = ofString "fault_type" then lookupFault attr.2 else none

/-- Whether events are to be stored, if an attribute says so. -/
def storeGiven (attr : Str × Str) : Option Bool :=
  if attr.1 = ofString "store_event" then lookupStore attr.2 else none

/-- What an attribute says about notifications. -/
def notifierGiven (attr : Str × Str) : Option (Bool × Str) :=
  if attr.1 = ofString "notifier_action" then some (decide (attr.2 ≠ ofString "none"), attr.2)
  else none

/-- The severity that an attribute gives. -/
def severityGiven (attr : Str × Str) : Option Severity :=
  if attr.1 = ofString "severity" then lookupSeverity attr.2 else none

/-- What an attribute does to the step data. -/
def setStepData (data : StepData) (attr : Str × Str) : StepData :=
  let notifier := (notifierGiven attr).getD (data.useNotifier, data.notifierAction)
  { faultType := (faultGiven attr).getD data.faultType
    storeEvent := (storeGiven attr).getD data.storeEvent
    severity := (severityGiven attr).getD data.severity
    useNotifier := notifier.1
    notifierAction := notifier.2 }

/-- Every attribute has its place. -/
theorem setAttribute_eq (analyzer : HostAnalyzeCounters) (data : StepData) (attr : Str × Str) :
    setAttribute ⟨some analyzer, data⟩ attr.1 attr.2 =
      some ⟨some (setAnalyzer analyzer attr), setStepData data attr⟩ := by
  obtain ⟨key, string⟩ := attr
  -- the seven words are different, so at most one of the conditions holds
  by_cases hmask : key = ofString "label_mask"
  · subst hmask
    rfl
  by_cases hwindow : key = ofString "time_window"
  · subst hwindow
    rfl
  by_cases hthreshold : key = ofString "count_threshold"
  · subst hthreshold
    rfl
  by_cases hfault : key = ofString "fault_type"
  · subst hfault
    rfl
  by_cases hstore : key = ofString "store_event"
  · subst hstore
    rfl
  by_cases hnotifier : key = ofString "notifier_action"
  · subst hnotifier
    rfl
  by_cases hseverity : key = ofString "severity"
  · subst hseverity
    rfl
  simp [setAttribute, setAnalyzer, setStepData, faultGiven, storeGiven, notifierGiven,
    severityGiven, hmask, hwindow, hthreshold, hfault, hstore, hnotifier, hseverity]

theorem setAttributes_eq :
    ∀ attributes analyzer data, setAttributes attributes ⟨some analyzer, data⟩ =
      some ⟨some (attributes.foldl setAnalyzer analyzer), attributes.foldl setStepData data⟩
  | [], _, _ => rfl
  | attr :: attributes, analyzer, data => by
    rw [setAttributes, setAttribute_eq, bind_some, setAttributes_eq attributes]
    rfl

/-! ## 2. Steps that say everything -/

/-- The attributes say all about the events. -/
def complete (attributes : List (Str × Str)) : Bool :=
  attributes.any (fun attr => (faultGiven attr).isSome) &&
    attributes.any (fun attr => (storeGiven attr).isSome) &&
    attributes.any (fun attr => (notifierGiven attr).isSome) &&
    attributes.any (fun attr => (severityGiven attr).isSome)

/-- A part of the step data that is given does not depend on what it was. -/
theorem foldl_given {τ : Type} (part : StepData → τ) (given : Str × Str → Option τ)
    (hpart : ∀ data attr, part (setStepData data attr) = (given attr).getD (part data)) :
    ∀ (attributes : List (Str × Str)) {data data' : StepData},
      part data = part data' ∨ attributes.any (fun attr => (given attr).isSome) = true →
        part (attributes.foldl setStepData data) = part (attributes.foldl setStepData data')
  | [], data, data', h => by simpa using h
  | attr :: attributes, data, data', h => by
    refine foldl_given part given hpart attributes ?_
    rw [hpart, hpart]
    cases hgiven : given attr with
    | none => simpa [hgiven] using h
    | some value => exact Or.inl rfl

theorem foldl_setStepData_eq {attributes} (h : complete attributes = true) (data data' : StepData) :
    attributes.foldl setStepData data = attributes.foldl setStepData data' := by
  simp only [complete, Bool.and_eq_true] at h
  obtain ⟨⟨⟨hfault, hstore⟩, hnotifier⟩, hseverity⟩ := h
  have h₁ := foldl_given StepData.faultType faultGiven (fun _ _ => rfl) attributes
    (.inr hfault : data.faultType = data'.faultType ∨ _)
  have h₂ := foldl_given StepData.storeEvent storeGiven (fun _ _ => rfl) attributes
    (.inr hstore : data.storeEvent = data'.storeEvent ∨ _)
  have h₃ := foldl_given (fun data => (data.useNotifier, data.notifierAction)) notifierGiven
    (fun _ _ => rfl) attributes
    (.inr hnotifier : (data.useNotifier, data.notifierAction) =
      (data'.useNotifier, data'.notifierAction) ∨ _)
  have h₄ := foldl_given StepData.severity severityGiven (fun _ _ => rfl) attributes
    (.inr hseverity : data.severity = data'.severity ∨ _)
  generalize attributes.foldl setStepData data = a at h₁ h₂ h₃ h₄ ⊢
  cases a
  simp_all

/-- **What such a step does depends on the analyzer only.** -/
theorem cottAnalyze_congr (me : Str) {attributes} (h : complete attributes = true)
    (value : CottValue) (analyzer : HostAnalyzeCounters) (data data' : StepData) :
    cottAnalyze me attributes value ⟨some analyzer, data⟩ =
      cottAnalyze me attributes value ⟨some analyzer, data'⟩ := by
  rw [cottAnalyze, cottAnalyze, setAttributes_eq, setAttributes_eq,
    foldl_setStepData_eq h data data']

/-- It leaves an analyzer behind. -/
theorem cottAnalyze_some (me : Str) (attributes : List (Str × Str)) (value : CottValue)
    (analyzer : HostAnalyzeCounters) (data : StepData) :
    ∃ analyzer' data' produced, cottAnalyze me attributes value ⟨some analyzer, data⟩ =
      some (⟨some analyzer', data'⟩, produced) := by
  rw [cottAnalyze, setAttributes_eq, bind_some]
  split_ifs
  · exact ⟨_, _, _, rfl⟩
  · exact ⟨_, _, _, rfl⟩
  · exact ⟨_, _, _, rfl⟩

/-! ## 3. Runs -/

section Runs

variable {ι : Type}

/-- Before any step is created. -/
def Globals.start : Globals := ⟨none, StepData.init⟩

/-- The run beside the one without the other steps: at most one step is there, and it has an
analyzer.  If it is the one looked at, the analyzers are the same, and so are the step data when no
other step has been fed. -/
structure Beside (step : ι) (live fed : List ι) (globals globals' : Globals) : Prop where
  one : live = [] ∨ ∃ s, live = [s]
  analyzer : live ≠ [] → ∃ analyzer, globals.counterAnalyzer = some analyzer
  same : step ∈ live → globals'.counterAnalyzer = globals.counterAnalyzer
  data : (∀ other ∈ fed, other = step) → globals'.stepData = globals.stepData

variable {me : Str} {attributes : ι → List (Str × Str)} {step : ι}

variable {globals globals' globals₁ : Globals} {label : Label ι} {labels : List (Label ι)}
  {produced : Option Produced}

theorem Beside.eq_singleton {s live fed} (h : Beside step live fed globals globals')
    (hs : s ∈ live) : live = [s] := by
  rcases h.one with rfl | ⟨s', rfl⟩
  · exact absurd hs not_mem_nil
  · rw [List.mem_singleton.mp hs]

theorem run_cons {rest} (hact : act me attributes globals label = some (globals₁, produced))
    (hrun : run me attributes globals₁ labels = some rest) :
    run me attributes globals (label :: labels) = some ((label.step, produced) :: rest) := by
  rw [run, hact, bind_some]
  exact congrArg (Option.map _) hrun

variable [DecidableEq ι]

/-- Steps are created before they are fed and finalized, and not twice.  `live` are the steps that
are there. -/
def Orderly : List ι → List (Label ι) → Prop
  | _, [] => True
  | live, ⟨step, .create⟩ :: labels => step ∉ live ∧ Orderly (step :: live) labels
  | live, ⟨step, .finalize⟩ :: labels => step ∈ live ∧ Orderly (live.erase step) labels
  | live, ⟨step, .feed _⟩ :: labels => step ∈ live ∧ Orderly live labels

/-- The condition: a step is created when there is no other one, and a step that is fed after
another step has been fed has complete attributes.  `fed` are the steps that have been fed. -/
def Alone (attributes : ι → List (Str × Str)) : List ι → List ι → List (Label ι) → Prop
  | _, _, [] => True
  | live, fed, ⟨step, .create⟩ :: labels => live = [] ∧ Alone attributes (step :: live) fed labels
  | live, fed, ⟨step, .finalize⟩ :: labels => Alone attributes (live.erase step) fed labels
  | live, fed, ⟨step, .feed _⟩ :: labels =>
    ((∀ other ∈ fed, other = step) ∨ complete (attributes step) = true) ∧
      Alone attributes live (step :: fed) labels

/-- The labels of one step. -/
def labelsOf (step : ι) (labels : List (Label ι)) : List (Label ι) :=
  labels.filter fun label => decide (label.step = step)

/-- **The step is isolated**: the run is defined, and without the other steps it is what is left of
it without them. -/
def Isolated (me : Str) (attributes : ι → List (Str × Str)) (labels : List (Label ι)) (step : ι) :
    Prop :=
  ∃ produced, run me attributes .start labels = some produced ∧
    run me attributes .start (labelsOf step labels) =
      some (produced.filter fun entry => decide (entry.1 = step))

/-- The same from any two states: with the other steps from the first, without them from the
second. -/
def SideBySide (me : Str) (attributes : ι → List (Str × Str)) (step : ι)
    (globals globals' : Globals) (labels : List (Label ι)) : Prop :=
  ∃ rest, run me attributes globals labels = some rest ∧
    run me attributes globals' (labelsOf step labels) =
      some (rest.filter fun entry => decide (entry.1 = step))

/-- One action of another step is left out. -/
theorem run_other (hstep : label.step ≠ step)
    (hact : act me attributes globals label = some (globals₁, produced))
    (hrest : SideBySide me attributes step globals₁ globals' labels) :
    SideBySide me attributes step globals globals' (label :: labels) := by
  obtain ⟨rest, hrun, hrun'⟩ := hrest
  refine ⟨(label.step, produced) :: rest, run_cons hact hrun, ?_⟩
  rw [labelsOf, filter_cons_of_neg (by simpa using hstep),
    filter_cons_of_neg (by simpa using hstep)]
  exact hrun'

/-- One action of the step is in both runs. -/
theorem run_same {globals₁'} (hstep : label.step = step)
    (hact : act me attributes globals label = some (globals₁, produced))
    (hact' : act me attributes globals' label = some (globals₁', produced))
    (hrest : SideBySide me attributes step globals₁ globals₁' labels) :
    SideBySide me attributes step globals globals' (label :: labels) := by
  obtain ⟨rest, hrun, hrun'⟩ := hrest
  refine ⟨(label.step, produced) :: rest, run_cons hact hrun, ?_⟩
  rw [labelsOf, filter_cons_of_pos (by simpa using hstep),
    filter_cons_of_pos (by simpa using hstep)]
  exact run_cons hact' hrun'

/-- **The two runs stay beside each other.** -/
theorem run_beside : ∀ {labels live fed globals globals'},
    Orderly live labels → Alone attributes live fed labels →
      Beside step live fed globals globals' → SideBySide me attributes step globals globals' labels
  | [], _, _, _, _, _, _, _ => ⟨[], rfl, rfl⟩
  | ⟨s, .create⟩ :: labels, live, fed, globals, globals', horder, halone, h => by
    obtain ⟨rfl, halone⟩ := halone
    by_cases hs : s = step
    · exact run_same hs rfl rfl (run_beside horder.2 halone
        ⟨.inr ⟨s, rfl⟩, fun _ => ⟨_, rfl⟩, fun _ => rfl, h.data⟩)
    · refine run_other hs rfl (run_beside horder.2 halone
        ⟨.inr ⟨s, rfl⟩, fun _ => ⟨_, rfl⟩, fun hmem => ?_, h.data⟩)
      exact absurd (List.mem_singleton.mp hmem).symm hs
  | ⟨s, .finalize⟩ :: labels, live, fed, globals, globals', horder, halone, h => by
    have hnil : live.erase s = [] := by simp [h.eq_singleton horder.1]
    have hrest := horder.2
    rw [Alone, hnil] at halone
    rw [hnil] at hrest
    by_cases hs : s = step
    · exact run_same hs rfl rfl (run_beside hrest halone
        ⟨.inl rfl, fun hne => absurd rfl hne, by simp, h.data⟩)
    · exact run_other hs rfl (run_beside hrest halone
        ⟨.inl rfl, fun hne => absurd rfl hne, by simp, h.data⟩)
  | ⟨s, .feed value⟩ :: labels, live, fed, globals, globals', horder, halone, h => by
    obtain ⟨hgiven, halone⟩ := halone
    have hlive : live = [s] := h.eq_singleton horder.1
    obtain ⟨analyzer, hanalyzer⟩ := h.analyzer (by simp [hlive])
    obtain ⟨analyzer', data', produced, hanalyze⟩ :=
      cottAnalyze_some me (attributes s) value analyzer globals.stepData
    have hact : act me attributes globals ⟨s, .feed value⟩ =
        some (⟨some analyzer', data'⟩, produced) := by
      rw [act, ← hanalyze, ← hanalyzer]
    by_cases hs : s = step
    · -- the step has its own analyzer, and its own data or none that matter
      have hact' : act me attributes globals' ⟨s, .feed value⟩ =
          some (⟨some analyzer', data'⟩, produced) := by
        have hsame := h.same (by simp [hlive, hs])
        rcases hgiven with hfed | hcomplete
        · have hdata := h.data (by simpa [hs] using hfed)
          rw [act, ← hanalyze, ← hdata, ← hanalyzer, ← hsame]
        · rw [act, ← hanalyze, cottAnalyze_congr me hcomplete value analyzer _ globals'.stepData,
            ← hanalyzer, ← hsame]
      exact run_same hs hact hact' (run_beside horder.2 halone
        ⟨h.one, fun _ => ⟨analyzer', rfl⟩, fun _ => rfl, fun _ => rfl⟩)
    · refine run_other hs hact (run_beside horder.2 halone
        ⟨h.one, fun _ => ⟨analyzer', rfl⟩, fun hmem => ?_, fun hfed => ?_⟩)
      · rw [hlive, List.mem_singleton] at hmem
        exact absurd hmem.symm hs
      · exact absurd (hfed s mem_cons_self) hs

/-- **Steps that come one after the other and say everything are isolated.** -/
theorem isolated_of_alone {labels : List (Label ι)} (horder : Orderly [] labels)
    (halone : Alone attributes [] [] labels) (step : ι) : Isolated me attributes labels step :=
  run_beside horder halone ⟨.inl rfl, fun hne => absurd rfl hne, by simp, fun _ => rfl⟩

/-- Two steps, one after the other. -/
theorem isolated_of_alone_two : let attributes : Bool → List (Str × Str) := fun step =>
      [(ofString "label_mask", ofString "CE*"), (ofString "time_window", ofString "10s"),
        (ofString "count_threshold", if step then ofString "5" else ofString "3"),
        (ofString "fault_type", ofString "soft"), (ofString "store_event", ofString "yes"),
        (ofString "notifier_action", ofString "none"), (ofString "severity", ofString "warn")]
    let value (seconds : ℤ) (count : UInt32) : CottValue :=
      ⟨[(ofString "hostname", ofString "node1")], [(ofString "ctime", seconds)],
        [(ofString "CE1", count)]⟩
    let labels : List (Label Bool) :=
      [⟨true, .create⟩, ⟨true, .feed (value 100 0)⟩, ⟨true, .feed (value 101 9)⟩,
        ⟨true, .finalize⟩, ⟨false, .create⟩, ⟨false, .feed (value 102 9)⟩]
    Orderly [] labels ∧ Alone attributes [] [] labels ∧
      Isolated (ofString "me") attributes labels true := by
  intro attributes value labels
  have horder : Orderly [] labels := by simp [labels, Orderly]
  have hcomplete : ∀ step, complete (attributes step) = true := by decide +kernel
  have halone : Alone attributes [] [] labels := by simp [labels, Alone, hcomplete]
  exact ⟨horder, halone, isolated_of_alone horder halone true⟩

/-- A step fires because of another step's sample; and a step has no analyzer any more once another
step is finalized. -/
theorem steps_are_not_isolated : let attributes : Bool → List (Str × Str) := fun _ =>
      [(ofString "label_mask", ofString "CE*"), (ofString "time_window", ofString "10s"),
        (ofString "count_threshold", ofString "3"), (ofString "fault_type", ofString "soft"),
        (ofString "store_event", ofString "yes"), (ofString "notifier_action", ofString "none"),
        (ofString "severity", ofString "warn")]
    let value (seconds : ℤ) (count : UInt32) : CottValue :=
      ⟨[(ofString "hostname", ofString "node1")], [(ofString "ctime", seconds)],
        [(ofString "CE1", count)]⟩
    let both : List (Label Bool) := [⟨true, .create⟩, ⟨false, .create⟩,
      ⟨false, .feed (value 100 0)⟩, ⟨true, .feed (value 101 5)⟩]
    let ended : List (Label Bool) := [⟨true, .create⟩, ⟨false, .create⟩, ⟨true, .finalize⟩,
      ⟨false, .feed (value 100 0)⟩]
    Orderly [] both ∧ ¬ Isolated (ofString "me") attributes both true ∧
      Orderly [] ended ∧ run (ofString "me") attributes .start ended = none := by
  intro attributes value both ended
  refine ⟨by simp [both, Orderly], ?_, by simp [ended, Orderly], by decide +kernel⟩
  rintro ⟨produced, hrun, halone⟩
  have hfires : (run (ofString "me") attributes .start both).map
      (fun produced => produced.filter fun entry => decide (entry.1 = true)) =
      some [(true, none), (true, some ⟨[(ofString "CE1", 5)],
        [⟨value 101 5, .warning, .soft, none⟩], []⟩)] := by decide +kernel
  have hsilent : run (ofString "me") attributes .start (labelsOf true both) =
      some [(true, none), (true, some ⟨[], [], []⟩)] := by decide +kernel
  rw [hrun, map_some, ← halone, hsilent] at hfires
  exact absurd hfires (by decide)

end Runs

end Sensys.Orcm.Cott
