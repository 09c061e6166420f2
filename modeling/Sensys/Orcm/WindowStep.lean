/-
# One call of the window plugin

What `analyze` does to the statistics, in the terms the runs need.  `ready` are the statistics that
`fill_attributes` makes of new ones (`Configured`); configuring again, which happens whenever
`num_sample_recv` is 0, gives the same (`Configured.again`), since the size and the types that count
are the same.

In time mode a call is one of four things (`TimeStep`): a rejection, the first window, the next
window, or one more sample in the window at hand.
-/
import Sensys.Orcm.Window
import Sensys.Lib.Tally

namespace Sensys.Orcm.Window

open CString Analytics

/-! ## 1. Configuration -/

section Fill

variable {F : Type} {D : Doubles F} {st ready : WinStatistics F} {attributes : List StepAttribute}

/-- The state `fill_attributes` makes of a new one. -/
def Configured (D : Doubles F) (attributes : List StepAttribute) (ready : WinStatistics F) : Prop :=
  fillAttributes D (winStatisticsCon D) attributes = (.success, ready)

/-- The statistics have been configured. -/
structure Settled (ready st : WinStatistics F) : Prop where
  winSize : st.winSize = ready.winSize
  computeType : st.computeType = ready.computeType
  winType : st.winType = ready.winType

/-- The values of the attributes with a name. -/
def named (name : String) (attributes : List StepAttribute) : List Str :=
  attributes.filterMap fun entry =>
    if entry.key = some (ofString name) then entry.string else none

theorem named_cons (name : String) (key string : Str) (attributes : List StepAttribute) :
    named name (⟨some key, some string⟩ :: attributes)
      = if key = ofString name then string :: named name attributes else named name attributes := by
  by_cases h : key = ofString name
  · simp [named, h]
  · simp [named, h]

/-- The last size that is given counts, and the first types. -/
def given (attributes : List StepAttribute) (st : WinStatistics F) : WinStatistics F :=
  { st with
    winSize := ((named "win_size" attributes).map getTimeInSec).getLast?.getD st.winSize
    computeType := st.computeType.or (named "compute" attributes).head?
    winType := st.winType.or (named "type" attributes).head? }

/-- Whether the attributes are accepted does not depend on the statistics. -/
theorem fillEach_eq : ∀ (attributes : List StepAttribute) {st₁ st₁' : WinStatistics F},
    fillEach st₁ attributes = (.success, st₁') → ∀ st : WinStatistics F,
      fillEach st attributes = (.success, given attributes st)
  | [], _, _, _, st => by simp [fillEach, given, named]
  | ⟨some key, some string⟩ :: attributes, _, _, h, st => by
    rw [fillEach, fillEach_eq attributes h]
    have hsize : ofString "win_size" ≠ ofString "compute" ∧ ofString "win_size" ≠ ofString "type" ∧
      ofString "compute" ≠ ofString "type" := by decide +kernel
    simp only [given, named_cons, fillAttribute]
    by_cases hwin : key = ofString "win_size"
    · simp [hwin, hsize, List.getLast?_cons]
    · by_cases hcompute : key = ofString "compute"
      · simp [hcompute, hsize, hsize.1.symm]
      · by_cases htype : key = ofString "type"
        · simp [htype, hsize.2.1.symm, hsize.2.2.symm]
        · simp [hwin, hcompute, htype]
  | ⟨none, _⟩ :: _, _, _, h, _ => by cases h
  | ⟨some _, none⟩ :: _, _, _, h, _ => by cases h

/-- The type of a window, which is `time` if none is given. -/
def typeOf (st : WinStatistics F) : Str := st.winType.getD (ofString "time")

variable (st)

theorem typed_eq :
    (if st.winType.isNone then { st with winType := some (ofString "time") } else st)
      = { st with winType := some (typeOf st) } := by
  obtain ⟨size, left, right, recv, points, sum, square, compute, type⟩ := st
  cases type <;> rfl

/-- The right end of the first window: in time mode there is none yet. -/
def firstRight (type : Str) (size : ℕ) : ℕ := if startsWith (some type) "time" then 0 else size

/-- What `fill_win_statistics` does, once the type is known. -/
theorem fillWinStatistics_eq : fillWinStatistics D st =
      if st.winSize = 0 then (.errBadParam, st)
      else if !startsWith (some (typeOf st)) "time" && !startsWith (some (typeOf st)) "counter" then
        (.errBadParam, { st with winType := some (typeOf st) })
      else if !knownCompute st.computeType then
        (.errBadParam, { st with winType := some (typeOf st) })
      else (.success, resetWindow D { st with winType := some (typeOf st) } 0
        (firstRight (typeOf st) st.winSize)) := by
  rw [fillWinStatistics, typed_eq, firstRight]
  by_cases htime : startsWith (some (typeOf st)) "time" = true
  · simp only [htime, if_true]
  · simp only [htime, if_false, Bool.false_eq_true]

variable {st}

/-- The result depends on the size and the types only. -/
theorem fillWinStatistics_congr (h : fillWinStatistics D st = (.success, ready)) {st₂}
    (hsize : st₂.winSize = st.winSize) (hcompute : st₂.computeType = st.computeType)
    (htype : typeOf st₂ = typeOf st) : fillWinStatistics D st₂ = (.success, ready) := by
  rw [fillWinStatistics_eq] at h ⊢
  rw [hsize, hcompute, htype]
  split_ifs at h ⊢
  · cases h
  · cases h
  · cases h
  · rw [← h]
    simp only [resetWindow]

/-- The statistics are as the configuration leaves them. -/
structure Fresh (ready : WinStatistics F) : Prop where
  size_ne : ready.winSize ≠ 0
  left : ready.winLeft = 0
  right : ready.winRight = if startsWith ready.winType "time" then 0 else ready.winSize % 2 ^ 64
  recv : ready.numSampleRecv = 0

theorem fillWinStatistics_success (h : fillWinStatistics D st = (.success, ready)) :
    Fresh ready ∧ ready.winSize = st.winSize ∧ ready.computeType = st.computeType ∧
      ready.winType = some (typeOf st) ∧ knownCompute st.computeType = true := by
  rw [fillWinStatistics_eq] at h
  split_ifs at h with hsize htype hknown
  all_goals cases h
  refine ⟨⟨hsize, rfl, ?_, rfl⟩, rfl, rfl, rfl, by simpa using hknown⟩
  simp only [resetWindow, firstRight, Nat.zero_add]
  split <;> rfl

section

variable (h : Configured D attributes ready)
include h

/-- The attributes are accepted, and then the values they have given. -/
theorem Configured.inv :
    fillWinStatistics D (given attributes (winStatisticsCon D)) = (.success, ready) ∧
      ∀ st : WinStatistics F, fillEach st attributes = (.success, given attributes st) := by
  rw [Configured, fillAttributes] at h
  split at h
  · rename_i st₁ heach
    have hgiven := fillEach_eq attributes heach
    obtain rfl : st₁ = _ := congrArg Prod.snd (heach.symm.trans (hgiven _))
    exact ⟨h, hgiven⟩
  · rename_i hne
    exact absurd h (hne ready)

/-- **Configuring again gives the same state**: the sizes and types that count are the same. -/
theorem Configured.again (hst : Settled ready st) :
    fillAttributes D st attributes = (.success, ready) := by
  obtain ⟨hfill, heach⟩ := h.inv
  obtain ⟨-, hsize, hcompute, htype, hknown⟩ := fillWinStatistics_success hfill
  rw [fillAttributes, heach]
  refine fillWinStatistics_congr hfill ?_ ?_ ?_
  · simp only [given, hst.winSize, hsize]
    cases ((named "win_size" attributes).map getTimeInSec).getLast? <;> rfl
  · simp only [given, hst.computeType, hcompute]
    cases htypes : (named "compute" attributes).head? with
    | none =>
      rw [given, htypes] at hknown
      exact absurd (show knownCompute none = true from hknown) (by simp [knownCompute, startsWith])
    | some type => rfl
  · simp only [typeOf, given, hst.winType, htype]
    rfl

theorem Configured.fresh : Fresh ready :=
  (fillWinStatistics_success h.inv.1).1

theorem Configured.size_lt : ready.winSize < 2 ^ 64 := by
  rw [(fillWinStatistics_success h.inv.1).2.1, given]
  cases hlast : ((named "win_size" attributes).map getTimeInSec).getLast? with
  | none => exact Nat.two_pow_pos 64
  | some size =>
    obtain ⟨string, -, hstring⟩ := List.mem_map.mp (List.mem_of_getLast? hlast)
    exact hstring ▸ getTimeInSec_lt string

end

theorem Settled.refl (ready : WinStatistics F) : Settled ready ready := ⟨rfl, rfl, rfl⟩

end Fill

/-! ## 2. One call -/

section Call

variable {F : Type} {D : Doubles F} {st ready : WinStatistics F} {attributes : List StepAttribute}

/-- The fields that accumulating numbers leaves alone. -/
structure SameFrame (st st' : WinStatistics F) : Prop extends Settled st st' where
  left : st'.winLeft = st.winLeft
  right : st'.winRight = st.winRight
  recv : st'.numSampleRecv = st.numSampleRecv

theorem SameFrame.trans {st₁ st₂ st₃ : WinStatistics F} (h : SameFrame st₁ st₂)
    (h' : SameFrame st₂ st₃) : SameFrame st₁ st₃ :=
  ⟨⟨h'.winSize.trans h.winSize, h'.computeType.trans h.computeType, h'.winType.trans h.winType⟩,
    h'.left.trans h.left, h'.right.trans h.right, h'.recv.trans h.recv⟩

theorem sameFrame_accumulateNumber (st : WinStatistics F) (num : F) :
    SameFrame st (accumulateNumber D st num) := by
  rw [accumulateNumber]
  split_ifs
  · exact ⟨⟨rfl, rfl, rfl⟩, rfl, rfl, rfl⟩
  · rw [accumulateDataMin]
    split <;> exact ⟨⟨rfl, rfl, rfl⟩, rfl, rfl, rfl⟩
  · rw [accumulateDataMax]
    split <;> exact ⟨⟨rfl, rfl, rfl⟩, rfl, rfl, rfl⟩
  · exact ⟨⟨rfl, rfl, rfl⟩, rfl, rfl, rfl⟩

theorem sameFrame_foldl : ∀ (items : List (OrcmValue F)) (st : WinStatistics F),
    SameFrame st (items.foldl (fun st item => accumulateNumber D st item.number) st)
  | [], _ => ⟨⟨rfl, rfl, rfl⟩, rfl, rfl, rfl⟩
  | item :: items, st =>
    (sameFrame_accumulateNumber st item.number).trans (sameFrame_foldl items _)

/-- `accumulate_data` counts one sample. -/
theorem sameFrame_accumulateData (st : WinStatistics F) (items : List (OrcmValue F)) :
    SameFrame { st with numSampleRecv := (st.numSampleRecv + 1) % 2 ^ 64 }
      (accumulateData D st items) := by
  obtain ⟨⟨hsize, hcompute, htype⟩, hleft, hright, hrecv⟩ := sameFrame_foldl (D := D) items
    { st with
      numSampleRecv := (st.numSampleRecv + 1) % 2 ^ 64
      numDataPoint := (st.numDataPoint + items.length) % 2 ^ 64 }
  exact ⟨⟨hsize, hcompute, htype⟩, hleft, hright, hrecv⟩

/-- The time of a sample, if it has one. -/
def timeOf (value : AnalyticsValue F) : Option ℕ :=
  (getSampleTime (value.nonComputeData.getD [])).toOption

theorem getSampleTime_ne_success : ∀ (list : List (OrcmValue F)),
    getSampleTime list ≠ .error .success
  | [], h => by cases h
  | item :: list, h => by
    rw [getSampleTime] at h
    split at h
    · cases h
    · split at h
      · cases h
      · exact getSampleTime_ne_success list h

/-- The statistics that a call computes with: those at hand, or new ones. -/
def prepared (ready st : WinStatistics F) : WinStatistics F :=
  if st.numSampleRecv = 0 then ready else st

theorem analyze_eq (hfill : st.numSampleRecv = 0 → fillAttributes D st attributes = (.success, ready))
    (sending : Sending) (value : AnalyticsValue F) : analyze D attributes sending st (some value)
      = doCompute D sending (prepared ready st) value := by
  rw [analyze, prepared]
  split
  · rename_i hnone
    rw [fillFirstSample, hfill hnone]
  · rfl

theorem prepared_cases :
    prepared ready st = st ∨ st.numSampleRecv = 0 ∧ prepared ready st = ready := by
  rw [prepared]
  split
  · exact .inr ⟨‹_›, rfl⟩
  · exact .inl rfl

/-- The window of the statistics. -/
def WinStatistics.window (st : WinStatistics F) : TimeWindow :=
  ⟨st.winLeft, st.winRight, st.numSampleRecv⟩

/-- **What a call does in time mode.**  The sample is rejected; or it opens the first window, or the
next one, or it is counted in the window at hand. -/
inductive TimeStep (ready st : WinStatistics F) (sample : Option (AnalyticsValue F))
    (r : Outcome F) : Prop
  | rejected (rc : r.rc ≠ .success) (emitted : r.emitted = none)
      (stats : r.stats = st ∨ st.numSampleRecv = 0 ∧ r.stats = ready)
  | first (t : ℕ) (rc : r.rc = .success) (time : sample.bind timeOf = some t)
      (new : st.numSampleRecv = 0) (emitted : r.emitted = none) (settled : Settled ready r.stats)
      (window : r.stats.window = ⟨t, t + ready.winSize, 1⟩)
  | next (t left : ℕ) (e : Emission F) (rc : r.rc = .success) (time : sample.bind timeOf = some t)
      (used : st.numSampleRecv ≠ 0) (emitted : r.emitted = some e) (stats : e.stats = st)
      (settled : Settled ready r.stats) (after : st.winRight ≤ left) (from_left : left ≤ t)
      (to_right : t < left + ready.winSize)
      (window : r.stats.window = ⟨left, left + ready.winSize, 1⟩)
  | count (t : ℕ) (rc : r.rc = .success) (time : sample.bind timeOf = some t)
      (used : st.numSampleRecv ≠ 0) (emitted : r.emitted = none) (settled : Settled ready r.stats)
      (from_left : st.winLeft ≤ t) (to_right : t < st.winRight)
      (window : r.stats.window = ⟨st.winLeft, st.winRight, (st.numSampleRecv + 1) % 2 ^ 64⟩)

/-- Counting a sample in a window. -/
theorem window_accumulateData (st items) :
    (accumulateData D st items).window
      = ⟨st.winLeft, st.winRight, (st.numSampleRecv + 1) % 2 ^ 64⟩ := by
  have h := sameFrame_accumulateData (D := D) st items
  rw [WinStatistics.window, h.left, h.right, h.recv]

theorem settled_accumulateData (h : Settled ready st) (items : List (OrcmValue F)) :
    Settled ready (accumulateData D st items) := by
  have hframe := sameFrame_accumulateData (D := D) st items
  exact ⟨hframe.winSize.trans h.winSize, hframe.computeType.trans h.computeType,
    hframe.winType.trans h.winType⟩

variable (hconf : Configured D attributes ready) (hsettled : st.numSampleRecv ≠ 0 → Settled ready st)

include hconf hsettled

/-- The statistics that a call computes with are configured, and count the same samples. -/
theorem settled_prepared : Settled ready (prepared ready st) ∧
    (prepared ready st).numSampleRecv = st.numSampleRecv := by
  rw [prepared]
  split
  · rename_i hnone
    exact ⟨.refl ready, hconf.fresh.recv.trans hnone.symm⟩
  · rename_i hused
    exact ⟨hsettled hused, rfl⟩

/-- Time mode, for statistics that are new or have a window of the configured size. -/
theorem timeStep_analyze (htype : startsWith ready.winType "time" = true)
    (hnew : st.numSampleRecv = 0 → fillAttributes D st attributes = (.success, ready))
    (hright : st.numSampleRecv ≠ 0 → st.winRight = st.winLeft + ready.winSize)
    (sample : Option (AnalyticsValue F))
    (hfits : ∀ t, sample.bind timeOf = some t → t + ready.winSize < 2 ^ 64) :
    TimeStep ready st sample (analyze D attributes .sent st sample) := by
  cases sample with
  | none => exact .rejected (by simp [analyze]) rfl (.inl rfl)
  | some value =>
  obtain ⟨hst, hrecv⟩ := settled_prepared hconf hsettled
  have hfresh := hconf.fresh
  rw [analyze_eq hnew, doCompute, hst.winType, if_pos htype]
  split
  · exact .rejected (by simp) rfl prepared_cases
  rw [doComputeTimeWindow]
  cases htime : getSampleTime (value.nonComputeData.getD []) with
  | error rc =>
    refine .rejected (fun hrc : rc = .success => ?_) rfl prepared_cases
    exact getSampleTime_ne_success _ (hrc ▸ htime)
  | ok t =>
    have htimeOf : timeOf value = some t := by rw [timeOf, htime]; rfl
    have hroom := hfits t htimeOf
    dsimp only
    by_cases holder : t < (prepared ready st).winLeft
    · rw [if_pos holder]
      exact .rejected (by simp) rfl prepared_cases
    rw [if_neg holder]
    by_cases hnone : st.numSampleRecv = 0
    · -- the first sample: both ends are 0
      rw [hnone] at hrecv
      have hends : (prepared ready st).winLeft = (prepared ready st).winRight := by
        rw [prepared, if_pos hnone, hfresh.left, hfresh.right, if_pos htype]
      rw [if_pos hends]
      refine .first t rfl htimeOf hnone rfl (settled_accumulateData ?_ _) ?_
      · exact ⟨hst.winSize, hst.computeType, hst.winType⟩
      rw [window_accumulateData, hrecv, hst.winSize, Nat.mod_eq_of_lt hroom]
      rfl
    have hpos := Nat.pos_of_ne_zero hfresh.size_ne
    rw [prepared, if_neg hnone] at hst holder ⊢
    rw [if_neg (by omega)]
    by_cases hfull : st.winRight ≤ t
    · rw [if_pos hfull, handleFullWindow, if_neg hnone, hst.winSize]
      generalize hleft : (if (st.winRight + ready.winSize) % 2 ^ 64 ≤ t
        then t - t % ready.winSize else st.winRight) = left
      obtain ⟨hafter, hfrom, hto⟩ : st.winRight ≤ left ∧ left ≤ t ∧ t < left + ready.winSize := by
        have hmod := Nat.mod_lt t hpos
        split at hleft <;> omega
      refine .next t left _ rfl htimeOf hnone rfl rfl (settled_accumulateData ?_ _) hafter hfrom hto ?_
      · exact ⟨hst.winSize, hst.computeType, hst.winType⟩
      rw [window_accumulateData]
      simp only [resetWindow]
      rw [Nat.mod_eq_of_lt (by omega)]
      rfl
    · rw [if_neg hfull]
      exact .count t rfl htimeOf hnone rfl (settled_accumulateData hst _) (by omega) (by omega)
        (window_accumulateData st _)

end Call

end Sensys.Orcm.Window
