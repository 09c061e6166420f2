/-
# Runs of the window plugin

A `History` is what a sequence of samples has led to, if every result is sent on: the statistics,
the samples that were accepted, and the results.

In time mode the results and the window at hand are a TALLY of the accepted samples
(`TimeInvariant`): windows of the configured size, one after the other, each counting the samples in
it.  In counter mode a result is sent after every `win_size` accepted samples.

`num_sample_recv` is a 64-bit counter, and 0 is taken for "not configured yet".  `Within` asks that
no stretch of time as long as a window gets `2 ^ 64` samples.  Without it the window at hand is
forgotten, and the next one may overlap it (`window_starts_over`).
-/
import Sensys.Orcm.WindowStep

namespace Sensys.Orcm.Window

open CString Analytics List Option TimeWindow

/-! ## 1. Histories -/

section Histories

variable {F : Type} (D : Doubles F) (attributes : List StepAttribute)

/-- What a sequence of samples has led to. -/
structure History (F : Type) where
  stats : WinStatistics F
  accepted : List (AnalyticsValue F)
  emitted : List (Emission F)

/-- One more sample. -/
def History.feed (h : History F) (sample : Option (AnalyticsValue F)) : History F :=
  let r := analyze D attributes .sent h.stats sample
  { stats := r.stats
    accepted := h.accepted ++ if r.rc = .success then sample.toList else []
    emitted := h.emitted ++ r.emitted.toList }

/-- The history of a sequence of samples, from the start of the plugin. -/
def history (samples : List (Option (AnalyticsValue F))) : History F :=
  samples.foldl (History.feed D attributes) ⟨winStatisticsCon D, [], []⟩

theorem history_append_singleton (samples : List (Option (AnalyticsValue F)))
    (sample : Option (AnalyticsValue F)) : history D attributes (samples ++ [sample])
      = (history D attributes samples).feed D attributes sample := by
  rw [history, foldl_append]
  rfl

/-- The times of the accepted samples. -/
def History.times (h : History F) : List ℕ := h.accepted.filterMap timeOf

/-- The windows whose results were sent on. -/
def History.closed (h : History F) : List TimeWindow := h.emitted.map fun e => e.stats.window

/-- All windows: the closed ones, and the one at hand. -/
def History.windows (h : History F) : List TimeWindow :=
  h.closed ++ if h.stats.numSampleRecv = 0 then [] else [h.stats.window]

/-- The times of a sequence of samples. -/
def timesOf (samples : List (Option (AnalyticsValue F))) : List ℕ :=
  samples.filterMap fun sample => sample.bind timeOf

/-- The times of the samples leave room for a window, and no stretch of time that is as long as a
window has as many samples as the counter has values. -/
structure Within (size : ℕ) (samples : List (Option (AnalyticsValue F))) : Prop where
  room : ∀ t ∈ timesOf samples, t + size < 2 ^ 64
  sparse : ∀ left count, (timesOf samples).countP (TimeWindow.holds ⟨left, left + size, count⟩)
    < 2 ^ 64

end Histories

/-! ## 2. Time mode -/

section Time

variable {F : Type} {D : Doubles F} {attributes : List StepAttribute} {ready : WinStatistics F}

/-- **The invariant of time mode.** -/
inductive TimeInvariant (D : Doubles F) (attributes : List StepAttribute)
    (ready : WinStatistics F) (h : History F) : Prop
  | idle (recv : h.stats.numSampleRecv = 0) (left : h.stats.winLeft = 0)
      (fill : fillAttributes D h.stats attributes = (.success, ready))
      (accepted : h.accepted = []) (emitted : h.emitted = [])
  | running (recv : h.stats.numSampleRecv ≠ 0) (settled : Settled ready h.stats)
      (tally : Tally ready.winSize (h.closed ++ [h.stats.window]) h.times)

variable {h : History F} {sample : Option (AnalyticsValue F)} {t : ℕ}

section

variable (hinv : TimeInvariant D attributes ready h)
include hinv

theorem TimeInvariant.tally_windows : Tally ready.winSize h.windows h.times := by
  cases hinv with
  | idle recv left fill accepted emitted =>
    rw [History.windows, History.closed, History.times, if_pos recv, accepted, emitted]
    exact Tally.nil
  | running recv settled tally =>
    rw [History.windows, if_neg recv]
    exact tally

theorem TimeInvariant.settled (hne : h.stats.numSampleRecv ≠ 0) : Settled ready h.stats := by
  cases hinv with
  | idle recv => exact absurd recv hne
  | running recv settled tally => exact settled

theorem TimeInvariant.width (hne : h.stats.numSampleRecv ≠ 0) :
    h.stats.winRight = h.stats.winLeft + ready.winSize := by
  cases hinv with
  | idle recv => exact absurd recv hne
  | running recv settled tally =>
    exact tally.width h.stats.window (mem_append_right _ mem_cons_self)

end

theorem feed_rejected (hrc : (analyze D attributes .sent h.stats sample).rc ≠ .success)
    (hemitted : (analyze D attributes .sent h.stats sample).emitted = none) :
    h.feed D attributes sample
      = ⟨(analyze D attributes .sent h.stats sample).stats, h.accepted, h.emitted⟩ := by
  simp [History.feed, hrc, hemitted]

/-- An accepted sample, by the window it leaves. -/
theorem timeInvariant_feed_accepted {window}
    (hrc : (analyze D attributes .sent h.stats sample).rc = .success)
    (htime : sample.bind timeOf = some t)
    (hsettled : Settled ready (analyze D attributes .sent h.stats sample).stats)
    (hwindow : (analyze D attributes .sent h.stats sample).stats.window = window)
    (hcount : window.count ≠ 0)
    (htally : Tally ready.winSize (h.closed ++ ((analyze D attributes .sent h.stats
      sample).emitted.toList.map fun e => e.stats.window) ++ [window]) (h.times ++ [t])) :
    TimeInvariant D attributes ready (h.feed D attributes sample) := by
  subst hwindow
  refine .running hcount hsettled ?_
  obtain ⟨value, rfl, hvalue⟩ := bind_eq_some_iff.mp htime
  simpa [History.times, History.closed, History.feed, hrc, hvalue] using htally

/-- The accepted samples are among the samples. -/
theorem times_sublist (samples : List (Option (AnalyticsValue F))) :
    (history D attributes samples).times.Sublist (timesOf samples) := by
  induction samples using List.reverseRecOn with
  | nil => exact Sublist.refl _
  | append_singleton samples sample ih =>
    rw [history_append_singleton, timesOf, filterMap_append]
    simp only [History.times, History.feed, filterMap_append]
    refine Sublist.append ih ?_
    split
    · cases sample <;> exact Sublist.refl _
    · exact nil_sublist _

theorem Within.of_append {size} {samples samples' : List (Option (AnalyticsValue F))}
    (h : Within size (samples ++ samples')) : Within size samples := by
  have hsub : (timesOf samples).Sublist (timesOf (samples ++ samples')) := by
    rw [timesOf, timesOf, filterMap_append]
    exact sublist_append_left _ _
  exact ⟨fun t ht => h.room t (hsub.subset ht),
    fun left count => (hsub.countP_le).trans_lt (h.sparse left count)⟩

/-- **Time mode**, for a history and one more sample. -/
structure PartitionsTime (size : ℕ) (h : History F) (sample : Option (AnalyticsValue F))
    (r : Outcome F) : Prop where
  /-- The windows have the size, lie one after the other, and count the accepted samples. -/
  tally : Tally size h.windows h.times
  /-- Every accepted sample is in exactly one window. -/
  once : ∀ t ∈ h.times, ∃! window, window ∈ h.windows ∧ window.holds t = true
  /-- An accepted sample is in the window it leaves. -/
  inside : r.rc = .success → ∃ t, sample.bind timeOf = some t ∧ r.stats.winLeft ≤ t ∧
    t < r.stats.winRight ∧ r.stats.winRight - r.stats.winLeft = size
  /-- A sample from before the window changes nothing. -/
  older : ∀ t, sample.bind timeOf = some t → t < h.stats.winLeft →
    r.rc ≠ .success ∧ r.stats = h.stats ∧ r.emitted = none

theorem TimeStep.inside {st r} (hstep : TimeStep ready st sample r) (hsize : ready.winSize ≠ 0)
    (hwidth : st.numSampleRecv ≠ 0 → st.winRight = st.winLeft + ready.winSize)
    (hrc : r.rc = .success) : ∃ t, sample.bind timeOf = some t ∧ r.stats.winLeft ≤ t ∧
      t < r.stats.winRight ∧ r.stats.winRight - r.stats.winLeft = ready.winSize := by
  cases hstep with
  | rejected rc => exact absurd hrc rc
  | first t _ time _ _ _ window | next t _ _ _ time _ _ _ _ _ _ _ window =>
    simp only [WinStatistics.window, mk.injEq] at window
    exact ⟨t, time, by omega, by omega, by omega⟩
  | count t rc time used emitted settled from_left to_right window =>
    simp only [WinStatistics.window, mk.injEq] at window
    exact ⟨t, time, by omega, by omega, by omega⟩

/-- A sample from before the window is rejected: it can open no window and is counted in none. -/
theorem TimeStep.older {st r} (hstep : TimeStep ready st sample r)
    (hwidth : st.numSampleRecv ≠ 0 → st.winRight = st.winLeft + ready.winSize)
    (hnew : st.numSampleRecv = 0 → st.winLeft = 0) (htime : sample.bind timeOf = some t)
    (ht : t < st.winLeft) : r.rc ≠ .success ∧ r.stats = st ∧ r.emitted = none := by
  have hused : st.numSampleRecv ≠ 0 := fun h => by
    omega
  cases hstep with
  | rejected rc emitted stats =>
    exact ⟨rc, stats.elim id fun h => absurd h.1 hused, emitted⟩
  | first t' rc time new => exact absurd new hused
  | next t' _ _ _ time _ _ _ _ after | count t' _ time _ _ _ from_left =>
    have heq : t' = t := some.inj (time.symm.trans htime)
    omega

variable (hconf : Configured D attributes ready)
  (htype : startsWith ready.winType "time" = true)

include hconf htype

/-- What the next call does. -/
theorem TimeInvariant.step (hinv : TimeInvariant D attributes ready h)
    (sample : Option (AnalyticsValue F))
    (hfits : ∀ t, sample.bind timeOf = some t → t + ready.winSize < 2 ^ 64) :
    TimeStep ready h.stats sample (analyze D attributes .sent h.stats sample) := by
  refine timeStep_analyze hconf hinv.settled htype ?_ hinv.width sample hfits
  cases hinv with
  | idle recv left fill => exact fun _ => fill
  | running recv => exact fun heq => absurd heq recv

/-- **The invariant is kept by every sample** for which the counter of its window has room. -/
theorem TimeInvariant.feed (hinv : TimeInvariant D attributes ready h)
    (sample : Option (AnalyticsValue F))
    (hfits : ∀ t, sample.bind timeOf = some t → t + ready.winSize < 2 ^ 64)
    (hroom : ∀ t, sample.bind timeOf = some t → h.stats.window.holds t = true →
      h.stats.numSampleRecv + 1 < 2 ^ 64) :
    TimeInvariant D attributes ready (h.feed D attributes sample) := by
  have hfresh := hconf.fresh
  have hpos := Nat.pos_of_ne_zero hfresh.size_ne
  cases hinv.step hconf htype sample hfits with
  | rejected rc emitted stats =>
    rw [feed_rejected rc emitted]
    rcases stats with hsame | ⟨hnew, hready⟩
    · rw [hsame]
      exact hinv
    · rw [hready]
      cases hinv with
      | idle recv left fill accepted emitted =>
        exact .idle hfresh.recv hfresh.left (hconf.again (.refl ready)) accepted emitted
      | running recv => exact absurd hnew recv
  | first t rc time new emitted settled window =>
    cases hinv with
    | running recv => exact absurd new recv
    | idle recv left fill accepted hempty =>
      refine timeInvariant_feed_accepted rc time settled window Nat.one_ne_zero ?_
      have hclosed : h.closed = [] := by rw [History.closed, hempty]; rfl
      have htimes : h.times = [] := by rw [History.times, accepted]; rfl
      rw [emitted, hclosed, htimes]
      exact Tally.nil.start (fun _ hmem => (not_mem_nil hmem).elim) le_rfl (by omega)
  | next t left e rc time used emitted stats settled after from_left to_right window =>
    cases hinv with
    | idle recv => exact absurd recv used
    | running recv hsettled tally =>
      refine timeInvariant_feed_accepted rc time settled window Nat.one_ne_zero ?_
      rw [emitted, toList_some, map_singleton, stats]
      refine tally.start (fun earlier hmem => ?_) from_left to_right
      exact (tally.right_le_last hmem).trans after
  | count t rc time used emitted settled from_left to_right window =>
    cases hinv with
    | idle recv => exact absurd recv used
    | running recv hsettled tally =>
      have hholds : h.stats.window.holds t = true := holds_iff.mpr ⟨from_left, to_right⟩
      rw [Nat.mod_eq_of_lt (hroom t time hholds)] at window
      refine timeInvariant_feed_accepted rc time settled window (Nat.succ_ne_zero _) ?_
      rw [emitted, toList_none, map_nil, List.append_nil]
      exact tally.count hholds

/-- **Every history in time mode is a tally**, by induction over the samples. -/
theorem timeInvariant (samples : List (Option (AnalyticsValue F)))
    (h : Within ready.winSize samples) :
    TimeInvariant D attributes ready (history D attributes samples) := by
  induction samples using List.reverseRecOn with
  | nil => exact .idle rfl rfl hconf rfl rfl
  | append_singleton samples sample ih =>
    have hinv := ih h.of_append
    have htimes := @times_sublist _ D attributes samples
    rw [history_append_singleton]
    generalize history D attributes samples = past at hinv htimes ⊢
    have hmem : ∀ t, sample.bind timeOf = some t → t ∈ timesOf (samples ++ [sample]) := by
      intro t ht
      simp [timesOf, ht]
    refine hinv.feed hconf htype sample (fun t ht => h.room t (hmem t ht)) fun t ht hholds => ?_
    cases hinv with
    | idle recv => rw [recv]; decide
    | running recv settled tally =>
      -- the counter counts samples that are there
      have hlast : past.stats.window ∈ past.closed ++ [past.stats.window] :=
        mem_append_right _ mem_cons_self
      have hsub : (past.times ++ [t]).Sublist (timesOf (samples ++ [sample])) := by
        rw [timesOf, filterMap_append]
        refine htimes.append ?_
        simp [ht]
      have hle := hsub.countP_le (p := past.stats.window.holds)
      rw [countP_append, countP_singleton, if_pos hholds, ← tally.counts _ hlast] at hle
      have hlt := h.sparse past.stats.winLeft past.stats.numSampleRecv
      have hwidth : past.stats.winRight = past.stats.winLeft + ready.winSize := tally.width _ hlast
      rw [← hwidth] at hlt
      exact hle.trans_lt hlt

theorem partitionsTime (samples : List (Option (AnalyticsValue F)))
    (sample : Option (AnalyticsValue F)) (h : Within ready.winSize (samples ++ [sample])) :
    PartitionsTime ready.winSize (history D attributes samples) sample
      (analyze D attributes .sent (history D attributes samples).stats sample) := by
  have hinv := timeInvariant hconf htype samples h.of_append
  generalize history D attributes samples = past at hinv
  have htally := hinv.tally_windows
  have hstep := hinv.step hconf htype sample fun t ht => h.room t (by simp [timesOf, ht])
  have hnew : past.stats.numSampleRecv = 0 → past.stats.winLeft = 0 := by
    cases hinv with
    | idle recv left => exact fun _ => left
    | running recv => exact fun heq => absurd heq recv
  exact ⟨htally, fun t ht => htally.existsUnique ht, hstep.inside hconf.fresh.size_ne hinv.width,
    fun t ht hlt => hstep.older hinv.width hnew ht hlt⟩

end Time

/-! ## 3. Counter mode -/

section Counter

variable {F : Type} {D : Doubles F} {attributes : List StepAttribute} {st ready : WinStatistics F}

/-- **What a call does in counter mode.**  The sample is rejected, or it is counted, or it is the
last one of its window. -/
inductive CounterStep (ready st : WinStatistics F) (sample : Option (AnalyticsValue F))
    (r : Outcome F) : Prop
  | rejected (rc : r.rc ≠ .success) (emitted : r.emitted = none)
      (stats : r.stats = st ∨ st.numSampleRecv = 0 ∧ r.stats = ready)
  | count (rc : r.rc = .success) (sample : sample.isSome = true) (emitted : r.emitted = none)
      (settled : Settled ready r.stats) (right : r.stats.winRight = ready.winSize)
      (recv : r.stats.numSampleRecv = st.numSampleRecv + 1)
      (room : st.numSampleRecv + 1 < ready.winSize)
  | full (e : Emission F) (rc : r.rc = .success) (sample : sample.isSome = true)
      (emitted : r.emitted = some e) (stats : e.stats.numSampleRecv = ready.winSize)
      (settled : Settled ready r.stats) (recv : r.stats.numSampleRecv = 0)
      (last : st.numSampleRecv + 1 = ready.winSize)

/-- **The invariant of counter mode.** -/
structure CounterInvariant (D : Doubles F) (attributes : List StepAttribute)
    (ready : WinStatistics F) (h : History F) : Prop where
  new : h.stats.numSampleRecv = 0 → fillAttributes D h.stats attributes = (.success, ready)
  used : h.stats.numSampleRecv ≠ 0 → Settled ready h.stats ∧ h.stats.winRight = ready.winSize
  lt : h.stats.numSampleRecv < ready.winSize
  accepted : h.accepted.length = ready.winSize * h.emitted.length + h.stats.numSampleRecv
  full : ∀ e ∈ h.emitted, e.stats.numSampleRecv = ready.winSize

variable {h : History F}

theorem length_accepted_feed {sample}
    (hrc : (analyze D attributes .sent h.stats sample).rc = .success)
    (hsample : sample.isSome = true) :
    (h.feed D attributes sample).accepted.length = h.accepted.length + 1 := by
  obtain ⟨value, rfl⟩ := isSome_iff_exists.mp hsample
  simp [History.feed, hrc]

/-- **Counter mode**, for a history and one more sample. -/
structure CountsSamples (size : ℕ) (h : History F) (r : Outcome F) : Prop where
  /-- There is one result for every `size` accepted samples. -/
  results : h.emitted.length = h.accepted.length / size
  /-- Every result counts `size` samples. -/
  full : ∀ e ∈ h.emitted, e.stats.numSampleRecv = size
  /-- The samples since the last result are counted. -/
  rest : h.stats.numSampleRecv = h.accepted.length % size
  /-- A result is sent by the sample that makes the number of accepted ones a multiple. -/
  next : r.emitted.isSome = true ↔ r.rc = .success ∧ size ∣ h.accepted.length + 1

variable (hconf : Configured D attributes ready)
  (htype : startsWith ready.winType "time" = false)

include hconf htype

variable (sample : Option (AnalyticsValue F))

/-- Counter mode, for statistics that are new or in the middle of a window. -/
theorem CounterInvariant.step (hinv : CounterInvariant D attributes ready h) :
    CounterStep ready h.stats sample (analyze D attributes .sent h.stats sample) := by
  have hsize := hconf.size_lt
  have hfresh := hconf.fresh
  have hlt := hinv.lt
  have hmode : ¬ startsWith ready.winType "time" = true := by rw [htype]; decide
  cases sample with
  | none => exact .rejected (by simp [analyze]) rfl (.inl rfl)
  | some value =>
  obtain ⟨hst, hrecv⟩ := settled_prepared hconf fun hne => (hinv.used hne).1
  have hright : (prepared ready h.stats).winRight = ready.winSize := by
    rw [prepared]
    split
    · rw [hfresh.right, if_neg hmode, Nat.mod_eq_of_lt hsize]
    · exact (hinv.used ‹_›).2
  rw [analyze_eq hinv.new, doCompute, hst.winType, if_neg hmode]
  split
  · exact .rejected (by simp) rfl prepared_cases
  have hframe := sameFrame_accumulateData (D := D) (prepared ready h.stats)
    (value.computeData.getD [])
  have hsettled := settled_accumulateData (D := D) hst (value.computeData.getD [])
  rw [doComputeCounterWindow]
  generalize accumulateData D _ (value.computeData.getD []) = acc at hframe hsettled
  have haccRight : acc.winRight = ready.winSize := hframe.right.trans hright
  have haccRecv : acc.numSampleRecv = h.stats.numSampleRecv + 1 := by
    rw [hframe.recv, hrecv]
    exact Nat.mod_eq_of_lt (by omega)
  split_ifs with hfull
  · rw [handleFullWindow, if_neg (by omega)]
    exact .full _ rfl rfl rfl (show acc.numSampleRecv = _ by omega)
      ⟨hsettled.winSize, hsettled.computeType, hsettled.winType⟩ rfl (by omega)
  · exact .count rfl rfl rfl hsettled haccRight haccRecv (by omega)

theorem CounterInvariant.feed (hinv : CounterInvariant D attributes ready h) :
    CounterInvariant D attributes ready (h.feed D attributes sample) := by
  have hfresh := hconf.fresh
  cases hinv.step hconf htype sample with
  | rejected rc emitted stats =>
    rw [feed_rejected rc emitted]
    rcases stats with hsame | ⟨hnew, hready⟩
    · rw [hsame]
      exact hinv
    · have hacc := hinv.accepted
      rw [hready]
      refine ⟨fun _ => hconf.again (.refl ready), fun hne => absurd hfresh.recv hne, ?_, ?_,
        hinv.full⟩
      · rw [hfresh.recv]
        exact Nat.pos_of_ne_zero hfresh.size_ne
      · rw [hfresh.recv, ← hnew]
        exact hacc
  | count rc hsample emitted settled right recv room =>
    have hlen := length_accepted_feed rc hsample
    refine ⟨fun hzero => ?_, fun _ => ⟨settled, right⟩, recv ▸ room, ?_, ?_⟩
    · rw [show (h.feed D attributes sample).stats.numSampleRecv = _ from recv] at hzero
      cases hzero
    · rw [hlen, hinv.accepted]
      simp only [History.feed, emitted, recv]
      simp [Nat.add_assoc]
    · simp only [History.feed, emitted]
      simpa using hinv.full
  | full e rc hsample emitted stats settled recv last =>
    have hlen := length_accepted_feed rc hsample
    refine ⟨fun _ => hconf.again settled, fun hne => absurd recv hne, ?_, ?_, ?_⟩
    · rw [show (h.feed D attributes sample).stats.numSampleRecv = _ from recv]
      omega
    · rw [hlen, hinv.accepted]
      simp only [History.feed, emitted, recv]
      simp only [toList_some, length_append, length_singleton, Nat.mul_add]
      omega
    · simp only [History.feed, emitted, toList_some, mem_append, List.mem_singleton]
      rintro e' (hmem | rfl)
      · exact hinv.full e' hmem
      · exact stats

variable (samples : List (Option (AnalyticsValue F)))

/-- **Counter mode keeps its invariant**, by induction over the samples. -/
theorem counterInvariant : CounterInvariant D attributes ready (history D attributes samples) := by
  induction samples using List.reverseRecOn with
  | nil =>
    exact ⟨fun _ => hconf, fun hne => absurd rfl hne, Nat.pos_of_ne_zero hconf.fresh.size_ne, rfl,
      fun _ hmem => (not_mem_nil hmem).elim⟩
  | append_singleton samples sample ih =>
    rw [history_append_singleton]
    exact ih.feed hconf htype sample

theorem countsSamples (sample : Option (AnalyticsValue F)) :
    CountsSamples ready.winSize (history D attributes samples)
      (analyze D attributes .sent (history D attributes samples).stats sample) := by
  have hinv := counterInvariant hconf htype samples
  generalize history D attributes samples = past at hinv
  have hpos := Nat.pos_of_ne_zero hconf.fresh.size_ne
  have hdvd : ready.winSize ∣ past.accepted.length + 1 ↔
      past.stats.numSampleRecv + 1 = ready.winSize := by
    rw [hinv.accepted, Nat.add_assoc, Nat.dvd_add_right (Nat.dvd_mul_right _ _)]
    constructor
    · intro hle
      have hle' := Nat.le_of_dvd (Nat.succ_pos _) hle
      have hlt := hinv.lt
      omega
    · intro heq
      rw [heq]
  refine ⟨?_, hinv.full, ?_, ?_⟩
  · rw [hinv.accepted, Nat.mul_add_div hpos, Nat.div_eq_of_lt hinv.lt, Nat.add_zero]
  · rw [hinv.accepted, Nat.mul_add_mod, Nat.mod_eq_of_lt hinv.lt]
  · rw [hdvd]
    cases hinv.step hconf htype sample with
    | rejected rc emitted => simp [emitted, rc]
    | count rc hsample emitted settled right recv room =>
      simp [emitted, rc]
      omega
    | full e rc hsample emitted stats settled recv last => simp [emitted, rc, last]

end Counter

/-! ## 4. The plugin -/

/-- **The windows partition the samples**, for every configuration and every sequence of samples. -/
theorem windows_partition_samples {F : Type} (D : Doubles F) (attributes : List StepAttribute)
    (ready : WinStatistics F) (hconf : Configured D attributes ready)
    (samples : List (Option (AnalyticsValue F))) (sample : Option (AnalyticsValue F)) :
    (startsWith ready.winType "time" = true → Within ready.winSize (samples ++ [sample]) →
      PartitionsTime ready.winSize (history D attributes samples) sample
        (analyze D attributes .sent (history D attributes samples).stats sample)) ∧
    (startsWith ready.winType "time" = false →
      CountsSamples ready.winSize (history D attributes samples)
        (analyze D attributes .sent (history D attributes samples).stats sample)) :=
  ⟨fun htype h => partitionsTime hconf htype samples sample h,
    fun htype => countsSamples hconf htype samples sample⟩

section Concrete

/-- Whole numbers in the place of `double`. -/
def integers : Doubles ℤ where
  zero := 0
  dblMax := 2 ^ 63 - 1
  dblMin := 1
  add := (· + ·)
  sub := (· - ·)
  mul := (· * ·)
  div := (· / ·)
  square x := x * x
  sqrt x := x.toNat.sqrt
  lt x y := decide (x < y)
  le x y := decide (x ≤ y)
  ofNat n := n

/-- A window of ten seconds and the average. -/
def tenSeconds : List StepAttribute :=
  [⟨some (ofString "win_size"), some (ofString "10")⟩,
    ⟨some (ofString "compute"), some (ofString "average")⟩]

/-- The statistics it gives. -/
def tenReady : WinStatistics ℤ := (fillAttributes integers (winStatisticsCon integers) tenSeconds).2

theorem tenSeconds_configured : Configured integers tenSeconds tenReady := by
  rw [Configured]
  decide +kernel

/-- A sample of one number. -/
def sampleAt (t : ℤ) : AnalyticsValue ℤ where
  key := some [⟨some (ofString "host"), ⟨0, 0⟩, 0, none⟩]
  nonComputeData := some [⟨some (ofString "sample time"), ⟨t, 0⟩, 0, none⟩]
  computeData := some [⟨some (ofString "temperature"), ⟨0, 0⟩, 40, none⟩]

/-- Two samples with a whole window between them. -/
theorem windows_partition_samples_two : Within 10 ([some (sampleAt 3)] ++ [some (sampleAt 47)]) ∧
    PartitionsTime 10 (history integers tenSeconds [some (sampleAt 3)]) (some (sampleAt 47))
      (analyze integers tenSeconds .sent
        (history integers tenSeconds [some (sampleAt 3)]).stats (some (sampleAt 47))) := by
  have hwithin : Within 10 ([some (sampleAt 3)] ++ [some (sampleAt 47)]) := by
    refine ⟨?_, fun left count => ?_⟩
    · decide
    · exact countP_le_length.trans_lt (by decide)
  exact ⟨hwithin, (windows_partition_samples integers tenSeconds tenReady tenSeconds_configured
    [some (sampleAt 3)] (some (sampleAt 47))).1 (by decide +kernel) hwithin⟩

/-- The window after `n` samples at time 0. -/
theorem history_replicate (n : ℕ) : n < 2 ^ 64 →
    ∃ stats, history integers tenSeconds (List.replicate (n + 1) (some (sampleAt 0)))
        = ⟨stats, List.replicate (n + 1) (sampleAt 0), []⟩ ∧ Settled tenReady stats ∧
      stats.window = ⟨0, 10, (n + 1) % 2 ^ 64⟩ := by
  induction n with
  | zero =>
    intro _
    refine ⟨_, rfl, ⟨?_, ?_, ?_⟩, ?_⟩ <;> decide +kernel
  | succ n ih =>
    intro hn
    obtain ⟨stats, hhist, hsettled, hwindow⟩ := ih (by omega)
    rw [Nat.mod_eq_of_lt (by omega)] at hwindow
    simp only [WinStatistics.window, mk.injEq] at hwindow
    obtain ⟨hleft, hright, hrecv⟩ := hwindow
    have hcall : analyze integers tenSeconds .sent stats (some (sampleAt 0))
        = ⟨.success, accumulateData integers stats ((sampleAt 0).computeData.getD []), none⟩ := by
      have hnew : stats.numSampleRecv = 0 →
          fillAttributes integers stats tenSeconds = (.success, tenReady) := fun hnone => by omega
      have htime : getSampleTime ((sampleAt 0).nonComputeData.getD []) = .ok 0 := by rfl
      have htype : startsWith stats.winType "time" = true := by
        rw [hsettled.winType]
        decide +kernel
      rw [analyze_eq hnew, prepared, if_neg (by omega), doCompute, if_neg (by decide +kernel),
        if_pos htype, doComputeTimeWindow, htime]
      dsimp only
      rw [if_neg (by omega), if_neg (by omega), if_neg (by omega)]
    refine ⟨accumulateData integers stats ((sampleAt 0).computeData.getD []), ?_,
      settled_accumulateData hsettled _, ?_⟩
    · rw [replicate_succ', history_append_singleton, hhist, History.feed, hcall,
        replicate_succ' (n := n + 1)]
      simp
    · rw [window_accumulateData, hleft, hright, hrecv]

/-- **After `2 ^ 64` samples the plugin starts over**: the window from 0 to 10 is followed by the
one from 5 to 15, and its samples are in no window. -/
theorem window_starts_over : ∃ samples sample,
    (∀ t ∈ timesOf (samples ++ [sample]), t + 10 < 2 ^ 64) ∧
    (history integers tenSeconds samples).stats.winLeft = 0 ∧
    (history integers tenSeconds samples).stats.winRight = 10 ∧
    (analyze integers tenSeconds .sent (history integers tenSeconds samples).stats sample).rc
      = .success ∧ (history integers tenSeconds (samples ++ [sample])).stats.winLeft = 5 ∧
    (history integers tenSeconds (samples ++ [sample])).stats.winRight = 15 ∧
    ¬ PartitionsTime 10 (history integers tenSeconds samples) sample
      (analyze integers tenSeconds .sent (history integers tenSeconds samples).stats sample) := by
  obtain ⟨n, hn⟩ : ∃ n, n = 2 ^ 64 - 1 := ⟨_, rfl⟩
  obtain ⟨stats, hhist, hsettled, hwindow⟩ := history_replicate n (by omega)
  have hzero : (n + 1) % 2 ^ 64 = 0 := by omega
  rw [hzero] at hwindow
  simp only [WinStatistics.window, mk.injEq] at hwindow
  obtain ⟨hleft, hright, hrecv⟩ := hwindow
  have hcall : analyze integers tenSeconds .sent stats (some (sampleAt 5))
      = doCompute integers .sent tenReady (sampleAt 5) := by
    rw [analyze_eq (fun _ => tenSeconds_configured.again hsettled), prepared, if_pos hrecv]
  refine ⟨List.replicate (n + 1) (some (sampleAt 0)), some (sampleAt 5), ?_, ?_⟩
  · intro t ht
    have htimes : t = 0 ∨ t = 5 := by
      simp only [timesOf, filterMap_append, mem_append, mem_filterMap,
        mem_replicate, List.mem_singleton] at ht
      rcases ht with ⟨_, ⟨-, rfl⟩, ht⟩ | ⟨_, rfl, ht⟩
      · exact .inl (some.inj (ht.symm.trans (by decide +kernel)))
      · exact .inr (some.inj (ht.symm.trans (by decide +kernel)))
    omega
  · rw [history_append_singleton, hhist, History.feed]
    dsimp only
    rw [hcall]
    refine ⟨hleft, hright, by decide +kernel, by decide +kernel, by decide +kernel, fun h => ?_⟩
    have hmem : 0 ∈ (⟨stats, List.replicate (n + 1) (sampleAt 0), []⟩ : History ℤ).times := by
      refine mem_filterMap.mpr ⟨sampleAt 0, ?_, by decide +kernel⟩
      exact mem_replicate.mpr ⟨Nat.succ_ne_zero n, rfl⟩
    obtain ⟨window, hwindow, -⟩ := h.tally.covers 0 hmem
    simp [History.windows, History.closed, hrecv] at hwindow

end Concrete

end Sensys.Orcm.Window
