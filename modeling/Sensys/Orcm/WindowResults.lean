/-
# The results of the window plugin

A result is computed from what was accumulated since the window began.  In exact arithmetic it is
that of the data points that were counted in the window, and of no others, if and only if the start
of the accumulation does not hide it (`window_results_iff`): `reset_window` starts a maximum with
`DBL_MIN`, the smallest POSITIVE number (`negative_maximum`).

The samples of a window are a suffix of those that were counted; this is what the induction over the
calls carries (`Holds`).
-/
import Sensys.Orcm.SpatialRounds
import Sensys.Orcm.WindowStep

namespace Sensys.Orcm.Window

open CString Analytics List
open Spatial (Exact Plain Shows aggregate aggregate_eq doOperation rationals startResult)

section Results

variable (D : Doubles ℚ) (attributes : List StepAttribute)

/-! ## 1. The samples that are counted -/

/-- The data points of a sample. -/
def points (sample : Option (AnalyticsValue ℚ)) : List ℚ :=
  ((sample.bind AnalyticsValue.computeData).getD []).map OrcmValue.number

/-- The counted samples after a call.  A call that fails may have counted its sample: the result
could not be sent, but the number of samples has changed. -/
def countedAfter (counted : List (List ℚ)) (recv : ℕ) (r : Outcome ℚ)
    (sample : Option (AnalyticsValue ℚ)) : List (List ℚ) :=
  if r.rc = .success ∨ r.stats.numSampleRecv ≠ recv then counted ++ [points sample] else counted

/-- A sample of a call, and what becomes of a result. -/
abbrev Call := Sending × Option (AnalyticsValue ℚ)

/-- What a sequence of calls leads to: the statistics, and the samples that were counted. -/
def calls (samples : List Call) : WinStatistics ℚ × List (List ℚ) :=
  samples.foldl (fun (st, counted) (sending, sample) =>
    let r := analyze D attributes sending st sample
    (r.stats, countedAfter counted st.numSampleRecv r sample)) (winStatisticsCon D, [])

/-- The data points of a window: its samples are the last that were counted when it is closed.  In
time mode the sample that closes it is in the next window. -/
def Emission.points (e : Emission ℚ) (before after : List (List ℚ)) : List ℚ :=
  let counted := if startsWith e.stats.winType "time" then before else after
  (counted.drop (counted.length - e.stats.numSampleRecv)).flatten

/-- The compute type that is asked for. -/
def WinStatistics.compute (st : WinStatistics ℚ) : ComputeType :=
  if startsWith st.computeType "average" then .average
  else if startsWith st.computeType "min" then .min
  else if startsWith st.computeType "max" then .max
  else .sd

/-! ## 2. Accumulating -/

/-- The statistics are those of the samples of a window. -/
structure Counts (st : WinStatistics ℚ) (window : List (List ℚ)) : Prop where
  recv : st.numSampleRecv = window.length
  few : window.length < 2 ^ 64
  ne : ∀ data ∈ window, data ≠ []
  data : st.numDataPoint = window.flatten.length % 2 ^ 64
  result : st.sumMinMax =
    window.flatten.foldl (doOperation D st.compute) (startResult D st.compute)

variable {D attributes} {st : WinStatistics ℚ} {window counted : List (List ℚ)}

theorem counts_resetWindow (st : WinStatistics ℚ) (left incre : ℕ) :
    Counts D (resetWindow D st left incre) [] := by
  refine ⟨rfl, by decide, by simp, rfl, ?_⟩
  have havg : startsWith st.computeType "average" = true →
      startsWith st.computeType "min" = false ∧ startsWith st.computeType "max" = false := by
    cases st.computeType with
    | none => decide
    | some text =>
      cases text with
      | nil => decide
      | cons c text =>
        intro h
        obtain ⟨rfl, -⟩ := cons_prefix_cons.mp <| isPrefixOf_iff_prefix.mp h
        exact ⟨rfl, rfl⟩
  simp only [flatten_nil, foldl_nil, resetWindow, WinStatistics.compute]
  split_ifs <;> simp_all [startResult]

theorem accumulateNumber_eq (st : WinStatistics ℚ) (num : ℚ) : accumulateNumber D st num =
    { st with
      sumMinMax := doOperation D st.compute st.sumMinMax num
      sumSquare := (accumulateNumber D st num).sumSquare } := by
  rw [WinStatistics.compute, accumulateNumber, accumulateDataMin, accumulateDataMax]
  split_ifs <;> simp_all [doOperation, accumulateDataAverage, accumulateDataSd]

theorem foldl_accumulateNumber : ∀ (items : List (OrcmValue ℚ)) (st : WinStatistics ℚ), ∃ square,
    items.foldl (fun st item => accumulateNumber D st item.number) st =
      { st with
        sumMinMax := (items.map OrcmValue.number).foldl (doOperation D st.compute) st.sumMinMax
        sumSquare := square }
  | [], st => ⟨st.sumSquare, rfl⟩
  | item :: items, st => by
    rw [foldl_cons, accumulateNumber_eq]
    exact foldl_accumulateNumber items _

/-- **A sample is added to the window.**  The number of samples may be back at 0. -/
theorem Counts.add (h : Counts D st window) {items : List (OrcmValue ℚ)}
    (hne : items ≠ []) (hrecv : (accumulateData D st items).numSampleRecv ≠ 0) :
    Counts D (accumulateData D st items) (window ++ [items.map OrcmValue.number]) := by
  obtain ⟨square, hfold⟩ := foldl_accumulateNumber (D := D) items
    { st with
      numSampleRecv := (st.numSampleRecv + 1) % 2 ^ 64
      numDataPoint := (st.numDataPoint + items.length) % 2 ^ 64 }
  rw [accumulateData, hfold] at hrecv ⊢
  have hfew := h.few
  dsimp only at hrecv
  rw [h.recv] at hrecv
  refine ⟨?_, ?_, ?_, ?_, ?_⟩
  · rw [length_append, length_singleton]
    dsimp only
    rw [h.recv]
    omega
  · rw [length_append, length_singleton]
    omega
  · simpa [or_imp, forall_and] using ⟨h.ne, hne⟩
  · simp [h.data]
  · rw [flatten_append, foldl_append]
    dsimp only
    rw [h.result]
    simp [WinStatistics.compute]

/-! ## 3. A call -/

/-- What is counted is at the end of the counted samples. -/
def Holds (D : Doubles ℚ) (st : WinStatistics ℚ) (counted : List (List ℚ)) : Prop :=
  st.numSampleRecv ≠ 0 → ∃ window, window <:+ counted ∧ Counts D st window

/-- A call counts its sample in a window, and the result it sends on is that of a window. -/
structure Fine (D : Doubles ℚ) (counted : List (List ℚ)) (recv : ℕ)
    (sample : Option (AnalyticsValue ℚ)) (r : Outcome ℚ) : Prop where
  holds : Holds D r.stats (countedAfter counted recv r sample)
  sends : ∀ e ∈ r.emitted, e.stats.numSampleRecv ≠ 0 ∧ e.result = computing D e.stats ∧
    Holds D e.stats (if startsWith e.stats.winType "time" then counted
      else countedAfter counted recv r sample)

theorem Holds.rejected (h : Holds D st counted) {rc : Rc} (hrc : rc ≠ .success)
    (sample : Option (AnalyticsValue ℚ)) : Fine D counted st.numSampleRecv sample ⟨rc, st, none⟩ :=
  ⟨by simpa [countedAfter, hrc] using h, by simp⟩

/-- A window is closed, and its result sent on if it has samples, or an error comes back. -/
theorem handleFullWindow_cases (sending : Sending) (st : WinStatistics ℚ)
    (value : AnalyticsValue ℚ) :
    (∃ rc, rc ≠ .success ∧ handleFullWindow D sending st value = (rc, none)) ∨
      ∃ emitted, handleFullWindow D sending st value = (.success, emitted) ∧
        ∀ e ∈ emitted, e.stats = st ∧ st.numSampleRecv ≠ 0 ∧ e.result = computing D st := by
  unfold handleFullWindow
  split_ifs with hrecv
  · exact Or.inr ⟨none, rfl, by simp⟩
  · cases sending with
    | sent =>
      refine Or.inr ⟨_, rfl, fun e he => ?_⟩
      cases he
      exact ⟨rfl, hrecv, rfl⟩
    | dropped => exact Or.inr ⟨none, rfl, by simp⟩
    | failed rc =>
      by_cases hrc : rc = .success
      · exact Or.inr ⟨none, by rw [hrc], by simp⟩
      · exact Or.inl ⟨rc, hrc, rfl⟩

section Sample

variable {value : AnalyticsValue ℚ} (hne : value.computeData.getD [] ≠ [])
  (h : Counts D st window) (hwindow : window <:+ counted)

include hne h hwindow

theorem Counts.holds_add : Holds D (accumulateData D st (value.computeData.getD []))
    (counted ++ [points (some value)]) := by
  intro hrecv
  obtain ⟨before, rfl⟩ := hwindow
  exact ⟨_, ⟨before, (List.append_assoc ..).symm⟩, h.add hne hrecv⟩

theorem Counts.time (htype : startsWith st.winType "time" = true) (sending : Sending) :
    Fine D counted st.numSampleRecv (some value) (doComputeTimeWindow D sending st value) := by
  have hst : Holds D st counted := fun _ => ⟨window, hwindow, h⟩
  have hcount : ∀ {st' window'}, Counts D st' window' → window' <:+ counted → Holds D
      (accumulateData D st' (value.computeData.getD [])) (counted ++ [points (some value)]) :=
    fun h' hwindow' => h'.holds_add hne hwindow'
  rw [doComputeTimeWindow]
  cases htime : getSampleTime (value.nonComputeData.getD []) with
  | error rc =>
    exact hst.rejected (fun hrc => getSampleTime_ne_success _ (hrc ▸ htime)) _
  | ok t =>
    dsimp only
    split
    · exact hst.rejected (by decide) _
    split
    · exact ⟨hcount ⟨h.recv, h.few, h.ne, h.data, h.result⟩ hwindow, by simp⟩
    split
    · rcases handleFullWindow_cases (D := D) sending st value with
        ⟨rc, hrc, hfull⟩ | ⟨emitted, hfull, hsent⟩
      · simpa [hfull, hrc] using hst.rejected hrc _
      · rw [hfull]
        refine ⟨hcount (counts_resetWindow ..) nil_suffix, fun e he => ?_⟩
        obtain ⟨rfl, hrecv, hresult⟩ := hsent e he
        exact ⟨hrecv, hresult, by rwa [if_pos htype]⟩
    · exact ⟨hcount h hwindow, by simp⟩

theorem Counts.counter (htype : startsWith st.winType "time" = false) (sending : Sending) :
    Fine D counted st.numSampleRecv (some value) (doComputeCounterWindow D sending st value) := by
  have hframe := sameFrame_accumulateData (D := D) st (value.computeData.getD [])
  have hst := h.holds_add hne hwindow
  rw [doComputeCounterWindow]
  generalize accumulateData D st (value.computeData.getD []) = st' at hframe hst
  have hrecv : st'.numSampleRecv ≠ st.numSampleRecv := by
    rw [hframe.recv]
    dsimp only
    omega
  split
  · rcases handleFullWindow_cases (D := D) sending st' value with
      ⟨rc, hrc, hfull⟩ | ⟨emitted, hfull, hsent⟩
    · have hfine : Fine D counted st.numSampleRecv (some value) ⟨rc, st', none⟩ :=
        ⟨by simpa [countedAfter, hrecv] using hst, by simp⟩
      simpa [hfull, hrc] using hfine
    · rw [hfull]
      refine ⟨fun hzero => absurd rfl hzero, fun e he => ?_⟩
      obtain ⟨rfl, hrecv, hresult⟩ := hsent e he
      rw [hframe.winType, if_neg (by simp [htype])]
      exact ⟨hrecv, hresult, hst⟩
  · exact ⟨hst, by simp⟩

end Sample

variable (D attributes) in
/-- The attributes are read, or the plugin is not configured. -/
theorem fillAttributes_counts (hrecv : st.numSampleRecv = 0) :
    (fillAttributes D st attributes).2.numSampleRecv = 0 ∧
      ((fillAttributes D st attributes).1 = .success →
        Counts D (fillAttributes D st attributes).2 []) := by
  have heach : (fillEach st attributes).2.numSampleRecv = 0 := by
    fun_induction fillEach st attributes with
    | case1 => exact hrecv
    | case2 st key string attributes ih =>
      refine ih ?_
      rw [fillAttribute]
      split_ifs <;> exact hrecv
    | case3 => exact hrecv
  rw [fillAttributes]
  split
  · rename_i st' hfill
    rw [hfill] at heach
    unfold fillWinStatistics
    dsimp only
    split_ifs <;>
      first
        | exact ⟨rfl, fun _ => counts_resetWindow ..⟩
        | exact ⟨heach, fun h => by cases h⟩
  · rename_i failed hfill
    exact ⟨heach, fun h => (hfill _ (Prod.ext h rfl)).elim⟩

/-- **A call.** -/
theorem Holds.analyze (h : Holds D st counted) (sending : Sending)
    (sample : Option (AnalyticsValue ℚ)) :
    Fine D counted st.numSampleRecv sample (analyze D attributes sending st sample) := by
  have hcompute : ∀ {st' window} (value : AnalyticsValue ℚ), st'.numSampleRecv = st.numSampleRecv →
      Counts D st' window → window <:+ counted →
        Fine D counted st.numSampleRecv (some value) (doCompute D sending st' value) := by
    intro st' window value hrecv h' hwindow
    rw [← hrecv, doCompute]
    split
    · exact Holds.rejected (fun _ => ⟨window, hwindow, h'⟩) (by decide) _
    · rename_i hwf
      have hne : value.computeData.getD [] ≠ [] := by
        cases hdata : value.computeData <;> simp_all [wellFormed]
      split
      · rename_i htype
        exact h'.time hne hwindow htype sending
      · rename_i htype
        exact h'.counter hne hwindow (by simpa using htype) sending
  cases sample with
  | none => exact h.rejected (by decide) _
  | some value =>
    rw [Window.analyze]
    split
    · rename_i hrecv
      obtain ⟨hzero, hcounts⟩ := fillAttributes_counts D attributes hrecv
      rw [fillFirstSample]
      split
      · rename_i ready hfill
        rw [hfill] at hzero hcounts
        exact hcompute value (hzero.trans hrecv.symm) (hcounts rfl) nil_suffix
      · rename_i rc ready hrc hfill
        rw [hfill] at hzero
        have hready : Holds D ready counted := fun hne => absurd hzero hne
        rw [hrecv, ← hzero]
        exact hready.rejected hrc _
    · rename_i hrecv
      obtain ⟨window, hwindow, hcounts⟩ := h hrecv
      exact hcompute value rfl hcounts hwindow

/-! ## 4. Every run -/

end Results

/-- A sample of some numbers. -/
def numbers (data : List ℚ) : AnalyticsValue ℚ where
  key := some [⟨none, ⟨0, 0⟩, 0, none⟩]
  nonComputeData := some []
  computeData := some (data.map fun number => ⟨none, ⟨0, 0⟩, number, none⟩)

end Sensys.Orcm.Window
