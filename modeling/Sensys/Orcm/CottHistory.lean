/-
# When a counter fires, by its whole history

The queue of a counter is trimmed when entries get old, and cleared when a value is smaller than the
one before or when the callback is run.  This file says without a queue when the callback is run at
the sample `i` (`RightAt`): there is an earlier sample `j`, not before the sample of the last
callback, that QUALIFIES.  It is at most a window old, the values have not decreased since, and the
value has grown by the threshold.  The callback is about the first such `j`.

The queue is the LIVE part of the history (`Live`): what is not in it any more cannot qualify again.
All entries of the queue are in order, so the front is the one to look at.

Times are differences of `time_t`, which is exact as long as they are below `2 ^ 63`
(`fires_on_wrapped_time` is what happens else).
-/
import Mathlib.Data.List.GetD
import Sensys.Orcm.CottCounter

namespace Sensys.Orcm.Cott

open CString List HostAnalyzeCounters

/-! ## 1. The history of one counter -/

/-- A value and its time. -/
abbrev Sample := UInt32 × ℤ

/-- The value of a sample. -/
def valAt (samples : List Sample) (i : ℕ) : UInt32 := (samples.getD i (0, 0)).1

/-- The time of a sample. -/
def timeAt (samples : List Sample) (i : ℕ) : ℤ := (samples.getD i (0, 0)).2

/-- The values do not decrease from `j` to `i`. -/
def Rises (samples : List Sample) (j i : ℕ) : Prop :=
  ∀ k, j ≤ k → k < i → valAt samples k ≤ valAt samples (k + 1)

/-- **The sample `j` qualifies at the sample `i`.** -/
structure Qualifies (W : ℤ) (T : UInt32) (samples : List Sample) (j i : ℕ) : Prop where
  recent : timeAt samples i - timeAt samples j ≤ W
  rises : Rises samples j i
  grown : (T.toNat : ℤ) ≤ (valAt samples i).toNat - (valAt samples j).toNat

/-- What the callback is given about the samples `j` to `i`. -/
def firingOf (samples : List Sample) (j i : ℕ) : AnalyzeCounter.Firing where
  errorCount := valAt samples i - valAt samples j
  elapsed := timeAt samples i - timeAt samples j
  rawData := ((samples.take (i + 1)).drop j).map Prod.fst

/-- The callback at the sample `i` is right, if the last one was at `last`: there is none when no
sample qualifies, and else it is about the first one that does. -/
def RightAt (W : ℤ) (T : UInt32) (samples : List Sample) (last i : ℕ) :
    Option AnalyzeCounter.Firing → Prop
  | none => ∀ j, last ≤ j → j < i → ¬ Qualifies W T samples j i
  | some firing => ∃ j, last ≤ j ∧ j < i ∧ Qualifies W T samples j i ∧
      (∀ j', last ≤ j' → j' < j → ¬ Qualifies W T samples j' i) ∧ firing = firingOf samples j i

/-- The times do not decrease, and their differences are no overflow. -/
def TimesOk (samples : List Sample) : Prop :=
  ∀ j i, j ≤ i → i < samples.length →
    timeAt samples j ≤ timeAt samples i ∧ timeAt samples i - timeAt samples j < 2 ^ 63

section Append

variable (samples : List Sample) (x : Sample)

theorem valAt_append {k} (h : k < samples.length) : valAt (samples ++ [x]) k = valAt samples k := by
  rw [valAt, getD_append _ _ _ _ h, valAt]

theorem timeAt_append {k} (h : k < samples.length) :
    timeAt (samples ++ [x]) k = timeAt samples k := by
  rw [timeAt, getD_append _ _ _ _ h, timeAt]

@[simp] theorem valAt_length : valAt (samples ++ [x]) samples.length = x.1 := by
  simp [valAt, List.getD]

@[simp] theorem timeAt_length : timeAt (samples ++ [x]) samples.length = x.2 := by
  simp [timeAt, List.getD]

end Append

/-! ## 2. The queue -/

/-- The queue is the live part of the history, which starts at `a`.  What is before it, back to the
last callback, is followed by a decrease or too old. -/
structure Live (W : ℤ) (samples : List Sample) (last a : ℕ) (queue : List Sample) : Prop where
  last_le : last ≤ a
  le_length : a ≤ samples.length
  queue_eq : queue = samples.drop a
  rises : ∀ k, a ≤ k → k + 1 < samples.length → valAt samples k ≤ valAt samples (k + 1)
  dead : ∀ j, last ≤ j → j < a →
    (∃ k, j ≤ k ∧ k + 1 < samples.length ∧ valAt samples (k + 1) < valAt samples k) ∨
      ∃ i, i < samples.length ∧ W < timeAt samples i - timeAt samples j

/-- What a loop over the front of a queue leaves. -/
theorem exists_dropWhile_drop (p : Sample → Bool) (samples : List Sample) {a}
    (ha : a ≤ samples.length) : ∃ a', a ≤ a' ∧ a' ≤ samples.length ∧
      (samples.drop a).dropWhile p = samples.drop a' ∧
      (∀ j, a ≤ j → j < a' → p (samples.getD j (0, 0)) = true) ∧
      (a' < samples.length → p (samples.getD a' (0, 0)) = false) := by
  obtain ⟨n, hn⟩ : ∃ n, samples.length - a = n := ⟨_, rfl⟩
  induction n generalizing a with
  | zero =>
    have hall : a = samples.length := by omega
    refine ⟨a, le_refl _, ha, by simp [hall], by omega, by omega⟩
  | succ n ih =>
    have hlt : a < samples.length := by omega
    have hget : samples.getD a (0, 0) = samples[a] := getD_eq_getElem _ _ hlt
    rw [drop_eq_getElem_cons hlt]
    by_cases hp : p samples[a] = true
    · obtain ⟨a', hle, hlen, hdrop, hall, hstop⟩ := ih (Nat.succ_le_of_lt hlt) (by omega)
      refine ⟨a', by omega, hlen, by rw [dropWhile_cons_of_pos hp, hdrop], ?_, hstop⟩
      intro j hj hj'
      rcases Nat.eq_or_lt_of_le hj with rfl | hj
      · rwa [hget]
      · exact hall j hj hj'
    · refine ⟨a, le_refl _, ha, ?_, by omega, fun _ => by rw [hget]; simpa using hp⟩
      rw [dropWhile_cons_of_neg hp, ← drop_eq_getElem_cons hlt]

section Step

variable {W : ℤ} {samples : List Sample} {last a : ℕ} {queue : List Sample} {x : Sample}

/-- What is dead stays dead: it does not qualify at the next sample. -/
theorem Live.not_qualifies {T} (h : Live W samples last a queue) (htimes : TimesOk (samples ++ [x]))
    {j} (hj : last ≤ j) (hja : j < a) : ¬ Qualifies W T (samples ++ [x]) j samples.length := by
  intro hq
  have hlen := h.le_length
  rcases h.dead j hj hja with ⟨k, hjk, hk, hdec⟩ | ⟨i, hi, hold⟩
  · have hrise := hq.rises k hjk (by omega)
    rw [valAt_append samples x (show k < samples.length by omega), valAt_append _ _ hk] at hrise
    exact UInt32.not_lt.mpr hrise hdec
  · have hrecent := hq.recent
    obtain ⟨hle, -⟩ := htimes i samples.length (by omega) (by simp)
    rw [timeAt_append _ _ hi] at hle
    rw [timeAt_append samples x (show j < samples.length by omega)] at hrecent
    omega

/-- The live part without the entries that have got old. -/
theorem Live.expire (h : Live W samples last a queue) (htimes : TimesOk (samples ++ [x])) :
    ∃ a', Live W samples last a (samples.drop a) ∧ a ≤ a' ∧ a' ≤ samples.length ∧
      (queue.dropWhile fun entry => decide (W < timeT (x.2 - entry.2))) = samples.drop a' ∧
      (∀ j, a ≤ j → j < a' → W < x.2 - timeAt samples j) ∧
      (a' < samples.length → x.2 - timeAt samples a' ≤ W) := by
  obtain ⟨a', hle, hlen, hdrop, hold, hrecent⟩ :=
    exists_dropWhile_drop (fun entry => decide (W < timeT (x.2 - entry.2))) samples h.le_length
  have hdiff : ∀ j, j < samples.length →
      timeT (x.2 - (samples.getD j (0, 0)).2) = x.2 - timeAt samples j := by
    intro j hj
    obtain ⟨hle, hlt⟩ := htimes j samples.length (by omega) (by simp)
    rw [timeAt_append _ _ hj, timeAt_length] at hle hlt
    exact timeT_eq (by rw [timeAt] at hle; omega) (by rw [timeAt] at hlt; omega)
  refine ⟨a', h.queue_eq ▸ h, hle, hlen, by rw [h.queue_eq, hdrop], ?_, ?_⟩
  · intro j hj hj'
    have := of_decide_eq_true (hold j hj hj')
    rwa [hdiff j (by omega)] at this
  · intro ha'
    have := of_decide_eq_false (hrecent ha')
    rw [hdiff a' ha'] at this
    omega

/-- The history with the new sample, when the live part starts at `a'`. -/
theorem Live.push (h : Live W samples last a (samples.drop a)) {a'} (hle : a ≤ a')
    (hlen : a' ≤ samples.length)
    (hold : ∀ j, a ≤ j → j < a' →
      W < x.2 - timeAt samples j ∨ ∃ k, j ≤ k ∧ k < samples.length ∧
      valAt (samples ++ [x]) (k + 1) < valAt (samples ++ [x]) k)
    (hrises : a' < samples.length → valAt samples (samples.length - 1) ≤ x.1) :
    Live W (samples ++ [x]) last a' (samples.drop a' ++ [x]) := by
  have hlast := h.last_le
  refine ⟨by omega, by simp; omega, by rw [drop_append_of_le_length hlen], ?_, ?_⟩
  · intro k hk hlt
    rw [length_append, length_singleton] at hlt
    rw [valAt_append samples x (show k < samples.length by omega)]
    by_cases hk' : k + 1 < samples.length
    · rw [valAt_append samples x hk']
      exact h.rises k (by omega) hk'
    · have heq : k + 1 = samples.length := by omega
      have hback := hrises (by omega)
      rw [show samples.length - 1 = k by omega] at hback
      rw [heq, valAt_length]
      exact hback
  · intro j hj hja
    rw [length_append, length_singleton]
    by_cases hja' : j < a
    · rcases h.dead j hj hja' with ⟨k, hjk, hk, hdec⟩ | ⟨i, hi, hw⟩
      · refine .inl ⟨k, hjk, by omega, ?_⟩
        rwa [valAt_append samples x hk, valAt_append samples x (show k < samples.length by omega)]
      · refine .inr ⟨i, by omega, ?_⟩
        rwa [timeAt_append samples x hi,
          timeAt_append samples x (show j < samples.length by omega)]
    · rcases hold j (by omega) hja with hw | ⟨k, hjk, hk, hdec⟩
      · refine .inr ⟨samples.length, by omega, ?_⟩
        rwa [timeAt_length, timeAt_append samples x (show j < samples.length by omega)]
      · exact .inl ⟨k, hjk, by omega, hdec⟩

/-- In the live part values only grow. -/
theorem Live.val_le (h : Live W samples last a queue) {j} (hj : a ≤ j) : ∀ {k}, j ≤ k →
    k < samples.length → valAt samples j ≤ valAt samples k
  | 0, hjk, _ => by
    rw [Nat.le_zero.mp hjk]
    exact UInt32.le_refl _
  | k + 1, hjk, hk => by
    rcases Nat.eq_or_lt_of_le hjk with rfl | hlt
    · exact UInt32.le_refl _
    · exact UInt32.le_trans (h.val_le hj (Nat.le_of_lt_succ hlt) (by omega))
        (h.rises k (by omega) hk)

/-- A history whose live part is the new sample. -/
theorem live_last (W : ℤ) (samples : List Sample) (x : Sample) :
    Live W (samples ++ [x]) samples.length samples.length [x] :=
  ⟨le_refl _, by simp, by simp, by simp; omega, by omega⟩

variable (counter : AnalyzeCounter)

/-- The entry at the front of the queue and the one at its back. -/
theorem front_back {a'} (ha' : a' < samples.length) : ∃ front rest,
    samples.drop a' = front :: rest ∧ front = (valAt samples a', timeAt samples a') ∧
      (rest.getLast?.getD front).1 = valAt samples (samples.length - 1) := by
  have hget : ∀ {k : ℕ} (hk : k < samples.length), samples.getD k (0, 0) = samples[k] :=
    fun hk => getD_eq_getElem _ _ hk
  refine ⟨samples[a'], samples.drop (a' + 1), drop_eq_getElem_cons ha', ?_, ?_⟩
  · rw [valAt, timeAt, hget ha']
  · have hlast : (samples.drop a').getLast? = samples.getLast? := by
      rw [getLast?_drop, if_neg (show ¬ samples.length ≤ a' by omega)]
    have hend : samples.getLast? = some samples[samples.length - 1] := by
      rw [getLast?_eq_getElem?,
        getElem?_eq_getElem (show samples.length - 1 < samples.length by omega)]
    rw [drop_eq_getElem_cons ha', getLast?_cons, hend, Option.some.injEq] at hlast
    rw [hlast, valAt, hget (by omega)]

/-- What a call has to do with a sample. -/
def StepRight (counter : AnalyzeCounter) (samples : List Sample) (last : ℕ) (x : Sample)
    (result : AnalyzeCounter × Option AnalyzeCounter.Firing) : Prop :=
  RightAt counter.windowSize counter.threshold (samples ++ [x]) last samples.length result.2 ∧
    ∃ a, Live counter.windowSize (samples ++ [x])
      (if result.2.isSome then samples.length else last) a result.1.pastData

/-- A value that is smaller than the one before: nothing before it qualifies any more. -/
theorem decrease_right {counter} (h : Live counter.windowSize samples last a counter.pastData)
    (hpos : 0 < samples.length) (hdec : x.1 < valAt samples (samples.length - 1)) :
    StepRight counter samples last x (counter.push [] x.1 x.2, none) := by
  have hdec' : ∀ j, j < samples.length → ∃ k, j ≤ k ∧ k < samples.length ∧
      valAt (samples ++ [x]) (k + 1) < valAt (samples ++ [x]) k := by
    intro j hj
    refine ⟨samples.length - 1, by omega, by omega, ?_⟩
    rw [valAt_append samples x (show samples.length - 1 < samples.length by omega),
      show samples.length - 1 + 1 = samples.length by omega, valAt_length]
    exact hdec
  refine ⟨?_, samples.length, ?_⟩
  · intro j hj hjn hq
    obtain ⟨k, hjk, hk, hlt⟩ := hdec' j hjn
    exact UInt32.not_lt.mpr (hq.rises k hjk hk) hlt
  · have hlive : Live counter.windowSize samples last a (samples.drop a) := h.queue_eq ▸ h
    have hpush := hlive.push (x := x) h.le_length (le_refl _)
      (fun j _ hj => .inr (hdec' j hj)) (by omega)
    rwa [drop_length] at hpush

/-- **One sample.**  The callback is right, and the queue is the live part again. -/
theorem addValue_right (h : Live counter.windowSize samples last a counter.pastData)
    (htimes : TimesOk (samples ++ [x])) :
    StepRight counter samples last x (counter.addValue x.1 x.2) := by
  obtain ⟨a', hlive, hle, hlen, hdrop, hold, hrecent⟩ := h.expire htimes
  have hlast := h.last_le
  have hpast : ∀ j, last ≤ j → j < a' →
      ¬ Qualifies counter.windowSize counter.threshold (samples ++ [x]) j samples.length := by
    intro j hj hja'
    by_cases hja : j < a
    · exact h.not_qualifies htimes hj hja
    · intro hq
      have hr := hq.recent
      rw [timeAt_length, timeAt_append samples x (show j < samples.length by omega)] at hr
      have := hold j (by omega) hja'
      omega
  have hpush := hlive.push (x := x) hle hlen fun j hj hj' => .inl (hold j hj hj')
  by_cases ha' : a' < samples.length
  · obtain ⟨front, rest, hqueue, hfront, hback⟩ := front_back ha'
    have hadd : counter.addValue x.1 x.2 =
        if x.1 < front.1 ∨ x.1 < (rest.getLast?.getD front).1 then
          (counter.push [] x.1 x.2, none)
        else if counter.threshold ≤ x.1 - front.1 then
          (counter.push [] x.1 x.2, some ⟨x.1 - front.1, timeT (x.2 - front.2),
            (samples.drop a').map Prod.fst ++ [x.1]⟩)
        else (counter.push (samples.drop a') x.1 x.2, none) := by
      rw [AnalyzeCounter.addValue, hdrop, hqueue]
    rw [hback, hfront] at hadd
    have hmono := hlive.val_le hle (show a' ≤ samples.length - 1 by omega) (by omega)
    by_cases hdec : x.1 < valAt samples (samples.length - 1)
    · rw [hadd, if_pos (.inr hdec)]
      exact decrease_right h (by omega) hdec
    · have hge : valAt samples (samples.length - 1) ≤ x.1 := UInt32.not_lt.mp hdec
      have hfrontle : valAt samples a' ≤ x.1 := UInt32.le_trans hmono hge
      have hcount : (x.1 - valAt samples a').toNat = x.1.toNat - (valAt samples a').toNat :=
        UInt32.toNat_sub_of_le _ _ hfrontle
      rw [hadd, if_neg (not_or.mpr ⟨UInt32.not_lt.mpr hfrontle, hdec⟩)]
      by_cases hfire : counter.threshold ≤ x.1 - valAt samples a'
      · rw [if_pos hfire]
        refine ⟨⟨a', by omega, ha', ⟨?_, ?_, ?_⟩, hpast, ?_⟩, samples.length, live_last _ _ _⟩
        · rw [timeAt_length, timeAt_append samples x ha']
          exact hrecent ha'
        · intro k hk hk'
          exact (hpush fun _ => hge).rises k hk (by simpa using hk')
        · rw [valAt_length, valAt_append samples x ha']
          have := UInt32.le_iff_toNat_le.mp hfire
          have := UInt32.le_iff_toNat_le.mp hfrontle
          omega
        · obtain ⟨hle', hlt'⟩ := htimes a' samples.length (by omega) (by simp)
          rw [timeAt_length, timeAt_append samples x ha'] at hle' hlt'
          rw [firingOf, valAt_length, timeAt_length, valAt_append samples x ha',
            timeAt_append samples x ha', timeT_eq (by omega) hlt',
            take_of_length_le (by simp), drop_append_of_le_length hlen, map_append]
          rfl
      · rw [if_neg hfire]
        refine ⟨?_, a', hpush fun _ => hge⟩
        intro j hj hjn hq
        by_cases hja' : j < a'
        · exact hpast j hj hja' hq
        · have hgrown := hq.grown
          have hval := hlive.val_le hle (show a' ≤ j by omega) hjn
          rw [valAt_length, valAt_append samples x hjn] at hgrown
          rw [UInt32.le_iff_toNat_le] at hfire hval
          omega
  · have heq : a' = samples.length := by omega
    subst heq
    rw [drop_length] at hdrop hpush
    have hadd : counter.addValue x.1 x.2 = (counter.push [] x.1 x.2, none) := by
      rw [AnalyzeCounter.addValue, hdrop]
    rw [hadd]
    exact ⟨fun j hj hjn => hpast j hj hjn, samples.length, hpush (by omega)⟩

end Step

/-! ## 3. A run of one counter -/

/-- The counter is given one sample after the other. -/
def runs : AnalyzeCounter → List Sample → AnalyzeCounter × List (Option AnalyzeCounter.Firing)
  | counter, [] => (counter, [])
  | counter, x :: samples =>
    let (counter, fired) := counter.addValue x.1 x.2
    let (counter, rest) := runs counter samples
    (counter, fired :: rest)

/-- The sample of the last callback, or the first one of all. -/
def lastCallback {ρ : Type} (fired : List (Option ρ)) : ℕ :=
  ((List.range fired.length).filter fun i => (fired.getD i none).isSome).getLast?.getD 0

theorem lastCallback_append {ρ : Type} (fired : List (Option ρ)) (r : Option ρ) :
    lastCallback (fired ++ [r]) = if r.isSome then fired.length else lastCallback fired := by
  have hbefore : (List.range fired.length).filter
      (fun i => ((fired ++ [r]).getD i none).isSome) =
        (List.range fired.length).filter fun i => (fired.getD i none).isSome := by
    refine filter_congr fun i hi => ?_
    rw [getD_append _ _ _ _ (List.mem_range.mp hi)]
  rw [lastCallback, length_append, length_singleton, range_succ, filter_append,
    hbefore]
  cases r with
  | none => simp [List.getD, lastCallback]
  | some r => simp [List.getD]

theorem runs_append (counter : AnalyzeCounter) (x : Sample) : ∀ samples,
    runs counter (samples ++ [x]) = (((runs counter samples).1.addValue x.1 x.2).1,
        (runs counter samples).2 ++ [((runs counter samples).1.addValue x.1 x.2).2])
  | [] => rfl
  | y :: samples => by
    have hrest := runs_append (counter.addValue y.1 y.2).1 x samples
    simp only [runs, hrest, cons_append]

variable (counter : AnalyzeCounter)

theorem length_runs (samples : List Sample) : (runs counter samples).2.length = samples.length := by
  induction samples generalizing counter with
  | nil => rfl
  | cons x samples ih =>
    exact congrArg Nat.succ (ih _)

/-- The settings of a counter do not change. -/
theorem addValue_settings (val tval) :
    (counter.addValue val tval).1.windowSize = counter.windowSize ∧
      (counter.addValue val tval).1.threshold = counter.threshold := by
  rw [AnalyzeCounter.addValue]
  split
  · exact ⟨rfl, rfl⟩
  · dsimp only
    split_ifs <;> exact ⟨rfl, rfl⟩

theorem TimesOk.of_append {samples x} (h : TimesOk (samples ++ [x])) : TimesOk samples := by
  intro j i hji hi
  have := h j i hji (by simp; omega)
  rwa [timeAt_append samples x hi, timeAt_append samples x (show j < samples.length by omega)]
    at this

/-- **After any samples the queue is the live part of their history.** -/
theorem runs_live {counter} (hnew : counter.pastData = []) (samples : List Sample)
    (htimes : TimesOk samples) : (runs counter samples).1.windowSize = counter.windowSize ∧
      (runs counter samples).1.threshold = counter.threshold ∧
      ∃ a, Live counter.windowSize samples (lastCallback (runs counter samples).2) a
        (runs counter samples).1.pastData := by
  induction samples using List.reverseRecOn with
  | nil => exact ⟨rfl, rfl, 0, by rw [runs, hnew]; exact ⟨le_refl _, le_refl _, rfl, by simp, by omega⟩⟩
  | append_singleton samples x ih =>
    obtain ⟨hwindow, hthreshold, a, hlive⟩ := ih htimes.of_append
    obtain ⟨hwindow', hthreshold'⟩ := addValue_settings (runs counter samples).1 x.1 x.2
    rw [← hwindow] at hlive
    obtain ⟨-, a', hlive'⟩ := addValue_right (runs counter samples).1 hlive htimes
    rw [runs_append]
    refine ⟨hwindow'.trans hwindow, hthreshold'.trans hthreshold, a', ?_⟩
    rwa [lastCallback_append, length_runs, ← hwindow]

/-! ## 4. All counters -/

/-- A call of `add_value`. -/
structure Call where
  host : Str
  label : Str
  val : UInt32
  tval : ℤ

/-- The host and the label of a call. -/
def Call.pair (call : Call) : Str × Str := (call.host, call.label)

namespace HostAnalyzeCounters

/-- The calls, one after the other. -/
def run : HostAnalyzeCounters → List Call → HostAnalyzeCounters × List (Option Report)
  | counters, [] => (counters, [])
  | counters, call :: calls =>
    let (counters, report) := counters.addValue call.host call.label call.val call.tval
    let (counters, reports) := run counters calls
    (counters, report :: reports)

end HostAnalyzeCounters

/-- The samples of one host and label. -/
def samplesOf (pair : Str × Str) (calls : List Call) : List Sample :=
  (calls.filter fun call => decide (call.pair = pair)).map fun call => (call.val, call.tval)

/-- What the callbacks of one host and label were given, sample by sample. -/
def reportsOf (pair : Str × Str) (calls : List Call)
    (reports : List (Option HostAnalyzeCounters.Report)) :
    List (Option HostAnalyzeCounters.Report) :=
  ((calls.zip reports).filter fun entry => decide (entry.1.pair = pair)).map Prod.snd

section Pair

variable (pair : Str × Str) (hhost : pair.1 ≠ []) (hlabel : pair.2 ≠ [])

include hhost hlabel

variable (counters : HostAnalyzeCounters)

/-- A call for this host and label is a sample of its counter. -/
theorem addValue_same (val : UInt32) (tval : ℤ) :
    (counters.addValue pair.1 pair.2 val tval).1.counterOf pair =
        ((counters.counterOf pair).addValue val tval).1 ∧
      (counters.addValue pair.1 pair.2 val tval).2 =
        ((counters.counterOf pair).addValue val tval).2.map fun firing =>
          ⟨pair.1, pair.2, firing⟩ := by
  rw [addValue, if_neg (by simp [hhost, hlabel])]
  refine ⟨?_, rfl⟩
  rw [counterOf]
  dsimp only
  rw [Function.update_self]
  rfl

omit hhost hlabel in
/-- A call for another host or label does not touch it. -/
theorem addValue_other {call : Call} (h : call.pair ≠ pair) :
    (counters.addValue call.host call.label call.val call.tval).1.counterOf pair =
      counters.counterOf pair := by
  rw [addValue]
  split
  · rfl
  · rw [counterOf]
    dsimp only
    rw [Function.update_of_ne (show pair ≠ (call.host, call.label) from Ne.symm h)]
    rfl

/-- **Every counter only sees its own samples.** -/
theorem run_pair : ∀ (calls : List Call) (counters : HostAnalyzeCounters),
    (counters.run calls).1.counterOf pair =
        (runs (counters.counterOf pair) (samplesOf pair calls)).1 ∧
      reportsOf pair calls (counters.run calls).2 =
        (runs (counters.counterOf pair) (samplesOf pair calls)).2.map
          (Option.map fun firing => ⟨pair.1, pair.2, firing⟩)
  | [], counters => ⟨rfl, rfl⟩
  | call :: calls, counters => by
    obtain ⟨hcounter, hreports⟩ :=
      run_pair calls (counters.addValue call.host call.label call.val call.tval).1
    by_cases hpair : call.pair = pair
    · have hsamples : samplesOf pair (call :: calls) =
          (call.val, call.tval) :: samplesOf pair calls := by
        rw [samplesOf, filter_cons_of_pos (by simpa using hpair)]
        rfl
      obtain ⟨hsame, hreport⟩ := addValue_same pair hhost hlabel counters call.val call.tval
      have hhost' : call.host = pair.1 := congrArg Prod.fst hpair
      have hlabel' : call.label = pair.2 := congrArg Prod.snd hpair
      rw [hhost', hlabel', hsame] at hcounter hreports
      rw [HostAnalyzeCounters.run, hsamples, runs, hhost', hlabel']
      refine ⟨hcounter, ?_⟩
      rw [reportsOf, zip_cons_cons, filter_cons_of_pos (by simpa using hpair),
        map_cons, map_cons, hreport]
      exact congrArg _ hreports
    · have hsamples : samplesOf pair (call :: calls) = samplesOf pair calls := by
        rw [samplesOf, filter_cons_of_neg (by simpa using hpair)]
        rfl
      rw [addValue_other pair counters hpair] at hcounter hreports
      rw [HostAnalyzeCounters.run, hsamples]
      refine ⟨hcounter, ?_⟩
      rw [reportsOf, zip_cons_cons, filter_cons_of_neg (by simpa using hpair)]
      exact hreports

end Pair

theorem samplesOf_append (history : List Call) (call : Call) :
    samplesOf call.pair (history ++ [call]) =
      samplesOf call.pair history ++ [(call.val, call.tval)] := by
  rw [samplesOf, filter_append, filter_cons_of_pos (by simp), map_append]
  rfl

theorem lastCallback_map {ρ ρ' : Type} (f : ρ → ρ') (fired : List (Option ρ)) :
    lastCallback (fired.map (Option.map f)) = lastCallback fired := by
  have hsome : ∀ i, ((fired.map (Option.map f)).getD i none).isSome =
      (fired.getD i none).isSome := by
    intro i
    simp only [List.getD, getElem?_map]
    cases fired[i]? with
    | none => rfl
    | some r => simp
  rw [lastCallback, lastCallback, length_map]
  simp only [hsome]

/-- New counters with a window and a threshold. -/
def configured (window : Str) (limit : UInt32) : HostAnalyzeCounters :=
  (HostAnalyzeCounters.new.setWindowSize window).setThreshold limit

/-- **When the callback is run, after any calls for any hosts and labels.** -/
theorem callback_right (window : Str) (limit : UInt32) {history : List Call} {call : Call}
    (hhost : call.host ≠ []) (hlabel : call.label ≠ [])
    (htimes : TimesOk (samplesOf call.pair (history ++ [call]))) :
    RightAt (configured window limit).newCounter.windowSize
        (configured window limit).newCounter.threshold (samplesOf call.pair (history ++ [call]))
        (lastCallback (reportsOf call.pair history ((configured window limit).run history).2))
        (samplesOf call.pair history).length
        ((((configured window limit).run history).1.addValue call.host call.label call.val
          call.tval).2.map HostAnalyzeCounters.Report.firing) ∧
      ∀ report, (((configured window limit).run history).1.addValue call.host call.label call.val
        call.tval).2 = some report → (report.host, report.label) = call.pair := by
  have hempty : (configured window limit).newCounter.pastData = [] := by
    rw [newCounter, AnalyzeCounter.setThreshold, AnalyzeCounter.setWindowSize]
    split_ifs <;> split <;> (try split_ifs) <;> rfl
  rw [samplesOf_append] at htimes ⊢
  obtain ⟨hcounter, hreports⟩ := run_pair call.pair hhost hlabel history (configured window limit)
  obtain ⟨-, hreport⟩ := addValue_same call.pair hhost hlabel
    ((configured window limit).run history).1 call.val call.tval
  obtain ⟨hwindow, hthreshold, a, hlive⟩ := runs_live hempty (samplesOf call.pair history)
    htimes.of_append
  rw [← hwindow] at hlive
  have hright := (addValue_right _ hlive htimes).1
  rw [hwindow, hthreshold] at hright
  rw [hcounter] at hreport
  have hcall : (((configured window limit).run history).1.addValue call.host call.label call.val
      call.tval).2 = _ := hreport
  rw [hcall, hreports, lastCallback_map, Option.map_map]
  refine ⟨?_, ?_⟩
  · have hid : (HostAnalyzeCounters.Report.firing ∘ fun firing =>
        (⟨call.pair.1, call.pair.2, firing⟩ : HostAnalyzeCounters.Report)) = id := rfl
    rw [hid, Option.map_id, id]
    exact hright
  · intro report hsome
    obtain ⟨firing, -, rfl⟩ := Option.map_eq_some_iff.mp hsome
    rfl

/-! ## 5. Two runs -/

/-- Values of one host and label. -/
def callsOf (samples : List Sample) : List Call :=
  samples.map fun x => ⟨ofString "n1", ofString "ecc", x.1, x.2⟩

/-- A counter that grows by three in two seconds, with a window of ten seconds and a threshold of
three. -/
theorem callback_right_three :
    (((configured (ofString "10s") 3).run (callsOf [(1, 100), (2, 101)])).1.addValue
      (ofString "n1") (ofString "ecc") 4 102).2 =
        some ⟨ofString "n1", ofString "ecc", ⟨3, 2, [1, 2, 4]⟩⟩ ∧
    RightAt 10 3 [(1, 100), (2, 101), (4, 102)] 0 2 (some ⟨3, 2, [1, 2, 4]⟩) := by
  have htimes : TimesOk [(1, 100), (2, 101), (4, 102)] := by
    intro j i hji hi
    have hcases : ∀ i < 3, ∀ j ≤ i,
        timeAt [(1, 100), (2, 101), (4, 102)] j ≤ timeAt [(1, 100), (2, 101), (4, 102)] i ∧
          timeAt [(1, 100), (2, 101), (4, 102)] i - timeAt [(1, 100), (2, 101), (4, 102)] j <
            2 ^ 63 := by decide
    exact hcases i hi j hji
  have hfired : (((configured (ofString "10s") 3).run (callsOf [(1, 100), (2, 101)])).1.addValue
      (ofString "n1") (ofString "ecc") 4 102).2 =
        some ⟨ofString "n1", ofString "ecc", ⟨3, 2, [1, 2, 4]⟩⟩ := by decide +kernel
  have hright := (@callback_right (ofString "10s") 3 (callsOf [(1, 100), (2, 101)])
    ⟨ofString "n1", ofString "ecc", 4, 102⟩ (by decide) (by decide) htimes).1
  exact ⟨hfired, hright⟩

/-- **A difference of times that wraps around.**  The second sample comes `2 ^ 63` seconds after the
first, the window is ten seconds, and the callback is run with a negative elapsed time. -/
theorem fires_on_wrapped_time :
    (((configured (ofString "10s") 3).run (callsOf [(1, -2 ^ 63)])).1.addValue
      (ofString "n1") (ofString "ecc") 4 0).2 =
        some ⟨ofString "n1", ofString "ecc", ⟨3, -2 ^ 63, [1, 4]⟩⟩ ∧
    ∀ firing, ¬ RightAt 10 3 [(1, -2 ^ 63), (4, 0)] 0 1 (some firing) := by
  refine ⟨by decide +kernel, ?_⟩
  rintro firing ⟨j, -, hj, hq, -⟩
  obtain rfl : j = 0 := by omega
  have hrecent := hq.recent
  exact absurd hrecent (by decide)

end Sensys.Orcm.Cott
