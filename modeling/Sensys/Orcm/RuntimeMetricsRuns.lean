/-
# The most recent request decides

What `RuntimeMetrics` is for: `DoCollectMetrics` of a label is the state that was asked for by the
most recent request that covers the label, one for all, for the data group or for this label
(`expected`); without such a request it is the initial state.

The object keeps a state for the group and a map for the labels that are tracked, and departs from
this in three places:

* a label that is tracked for the first time gets the INITIAL state, whatever was asked for since;
* as long as no label is tracked, a request for one label changes the group;
* later, a request for a label that is not tracked is refused, and changes nothing.

Each of them is harmless if the group has the state in question anyway.

The last two are how requests for labels are meant: they are granted for the group, for the label or
not at all, depending on what is tracked at the time (`Target.granted`).  `requests_are_granted`:
the most recent request that was GRANTED decides, unless the label was tracked too late.
-/
import Sensys.Lib.Run
import Sensys.Orcm.RuntimeMetrics

namespace Sensys.Orcm.RuntimeMetrics

open CString List

/-! ## 1. Calls, and what they ask for -/

/-- A call that changes the object. -/
inductive Call where
  | track (label : Str)
  | set (newState : Bool) (spec : Str)
  | reset (spec : Str)
  deriving DecidableEq, Repr

/-- The object after a call. -/
def Call.run (metrics : RuntimeMetrics) : Call → RuntimeMetrics
  | .track label => trackSensorLabel label metrics
  | .set newState spec => (setCollectionState newState spec metrics).2
  | .reset spec => (resetCollectionState spec metrics).2

/-- The object after some calls. -/
def after (metrics : RuntimeMetrics) (calls : List Call) : RuntimeMetrics :=
  calls.foldl Call.run metrics

/-- What a request is for. -/
inductive Target where
  | group
  | label (label : Str)
  deriving DecidableEq, Repr

/-- The part of a data group that a specification names, if it names the group at all. -/
def target (datagroup spec : Str) : Option Target :=
  if getSensorDatagroupFromSpec spec = ofString "all" ∨
      getSensorDatagroupFromSpec spec = datagroup then
    some (if getSensorLabelFromSpec spec = [] ∨ getSensorLabelFromSpec spec = ofString "all"
      then .group else .label (getSensorLabelFromSpec spec))
  else none

/-- A request for the group is one for every label; `none` stands for the group as a whole. -/
def Target.covers : Target → Option Str → Bool
  | .group, _ => true
  | .label l, asked => asked == some l

/-- The state that a call asks for, and the specification. -/
def Call.request (initial : Bool) : Call → Option (Bool × Str)
  | .track _ => none
  | .set newState spec => some (newState, spec)
  | .reset spec => some (initial, spec)

/-- The state that a call asks for a label. -/
def Call.asks (datagroup : Str) (initial : Bool) (label : Option Str) (call : Call) :
    Option Bool :=
  (call.request initial).bind fun request =>
    if (target datagroup request.2).any (·.covers label) then some request.1 else none

/-- **The most recent request**, or the initial state. -/
def expected (datagroup : Str) (initial : Bool) (calls : List Call) (label : Option Str) : Bool :=
  ((calls.filterMap (Call.asks datagroup initial label)).getLast?).getD initial

/-! ## 2. What is granted -/

/-- The label that a call tracks. -/
def Call.tracks : Call → Option Str
  | .track label => some label
  | .set _ _ => none
  | .reset _ => none

/-- What a request is granted for, when these labels are tracked: without any, a request for one
label is one for the group; otherwise the label has to be tracked. -/
def Target.granted (tracked : List Str) : Target → Option Target
  | .group => some .group
  | .label l =>
    if tracked.isEmpty then some .group
    else if tracked.contains l then some (.label l) else none

theorem Target.mem_of_granted {tracked l} {t : Target} (h : t.granted tracked = some (.label l)) :
    l ∈ tracked := by
  unfold granted at h
  grind

/-- The state that a call is granted for a label. -/
def Call.grants (datagroup : Str) (initial : Bool) (tracked : List Str) (label : Option Str)
    (call : Call) : Option Bool :=
  (call.request initial).bind fun request =>
    if ((target datagroup request.2).bind (·.granted tracked)).any (·.covers label)
    then some request.1 else none

/-- **The most recent request that was granted** for a label, or the initial state.  The most recent
call comes first. -/
def granted (datagroup : Str) (initial : Bool) (label : Option Str) : List Call → Bool
  | [] => initial
  | call :: earlier =>
    (call.grants datagroup initial (earlier.filterMap Call.tracks) label).getD
      (granted datagroup initial label earlier)

/-- The label is tracked for the first time while the group has the initial state. -/
def TrackedInTime (datagroup : Str) (initial : Bool) (calls : List Call) (l : Str) : Prop :=
  ∀ done, done ++ [.track l] <+: calls → l ∈ done.filterMap Call.tracks ∨
    granted datagroup initial none done.reverse = initial

/-! ## 3. What a call does -/

/-- The label is in the map. -/
def Tracked (metrics : RuntimeMetrics) (label : Str) : Prop :=
  (metrics.sensorLabelMap.lookup label).isSome = true

instance (metrics : RuntimeMetrics) (label : Str) : Decidable (Tracked metrics label) :=
  inferInstanceAs (Decidable (_ = true))

theorem lookup_setLabels (newState : Bool) (chosen : Str → Bool) (label : Str) :
    ∀ labels : List (Str × Bool), (setLabels newState chosen labels).lookup label =
      (labels.lookup label).map fun state => if chosen label then newState else state
  | [] => rfl
  | (l, state) :: labels => by
    have ih := lookup_setLabels newState chosen label labels
    unfold setLabels at ih ⊢
    rw [map_cons]
    by_cases hl : label = l
    · subst hl
      cases chosen label <;> simp
    · have hne : (label == l) = false := beq_false_of_ne hl
      cases chosen l <;> simp [lookup_cons, hne, ih]

theorem tracked_set (newState : Bool) (spec : Str) (metrics : RuntimeMetrics) (l : Str) :
    Tracked (setCollectionState newState spec metrics).2 l ↔ Tracked metrics l := by
  unfold setCollectionState Tracked
  dsimp only
  split_ifs <;> simp [lookup_setLabels]

variable (metrics : RuntimeMetrics)

theorem tracked_track (l label : Str) :
    Tracked (trackSensorLabel l metrics) label ↔ label = l ∨ Tracked metrics label := by
  unfold trackSensorLabel
  split
  · rename_i htracked
    constructor
    · exact .inr
    · rintro (rfl | h)
      · exact htracked
      · exact h
  · unfold Tracked
    by_cases hl : label = l
    · simp [hl, lookup_append]
    · have hne : (label == l) = false := beq_false_of_ne hl
      simp [hl, hne, lookup_append, lookup_cons]

theorem tracked_run (call : Call) (l : Str) :
    Tracked (call.run metrics) l ↔ call.tracks = some l ∨ Tracked metrics l := by
  cases call with
  | track label =>
    refine (tracked_track metrics label l).trans ?_
    simp [Call.tracks, eq_comm]
  | set newState spec =>
    refine (tracked_set newState spec metrics l).trans ?_
    simp [Call.tracks]
  | reset spec =>
    refine (tracked_set _ spec metrics l).trans ?_
    simp [Call.tracks]

theorem sensorLabelMap_eq_nil_iff : metrics.sensorLabelMap = [] ↔ ∀ l, ¬ Tracked metrics l := by
  unfold Tracked
  cases metrics.sensorLabelMap with
  | nil => simp
  | cons entry entries =>
    refine iff_of_false (cons_ne_nil entry entries) fun h => h entry.1 ?_
    simp

theorem target_isSome_iff (datagroup spec) : (target datagroup spec).isSome = true ↔
    (getSensorDatagroupFromSpec spec = ofString "all" ∨
      getSensorDatagroupFromSpec spec = datagroup) := by
  unfold target
  split
  · rename_i h
    exact ⟨fun _ => h, fun _ => rfl⟩
  · rename_i h
    exact ⟨fun hnone => absurd hnone (by simp), fun hgroup => absurd hgroup h⟩

theorem isForMyDatagroup_eq (spec : Str) :
    metrics.isForMyDatagroup spec = (target metrics.datagroup spec).isSome := by
  rw [Bool.eq_iff_iff, target_isSome_iff, isForMyDatagroup, Bool.or_eq_true, beq_iff_eq, beq_iff_eq]

theorem doCollectMetrics_of_absent {metrics label} (h : ¬ Tracked metrics label) :
    metrics.doCollectMetrics (some label) = metrics.currentPluginState := by
  unfold doCollectMetrics
  rw [Option.bind_some, Option.not_isSome_iff_eq_none.mp h]
  rfl

theorem doCollectMetrics_track (l : Str) (label : Option Str) :
    (trackSensorLabel l metrics).doCollectMetrics label =
      if ¬ Tracked metrics l ∧ label = some l then metrics.initialPluginState
      else metrics.doCollectMetrics label := by
  by_cases htracked : Tracked metrics l
  · rw [show trackSensorLabel l metrics = metrics from if_pos htracked,
      if_neg (fun h => h.1 htracked)]
  · have hnone := Option.not_isSome_iff_eq_none.mp htracked
    have htrack : trackSensorLabel l metrics = { metrics with
        sensorLabelMap := metrics.sensorLabelMap ++ [(l, metrics.initialPluginState)] } :=
      if_neg htracked
    rw [htrack]
    unfold doCollectMetrics
    cases label with
    | none => simp
    | some l' =>
      by_cases hl : l' = l
      · subst hl
        simp [Tracked, lookup_append, hnone]
      · have hne : (l' == l) = false := beq_false_of_ne hl
        simp [Tracked, lookup_append, lookup_cons, hl, hne]

section Grant

variable {metrics : RuntimeMetrics} {earlier : List Call}

/-- The map has the labels that were tracked by these calls. -/
def Tracks (metrics : RuntimeMetrics) (earlier : List Call) : Prop :=
  ∀ l, Tracked metrics l ↔ l ∈ earlier.filterMap Call.tracks

theorem Tracks.run (h : Tracks metrics earlier) (call : Call) :
    Tracks (call.run metrics) (call :: earlier) := by
  intro l
  rw [tracked_run, h l, mem_filterMap, mem_filterMap]
  simp

theorem Tracks.nil_iff (h : Tracks metrics earlier) :
    earlier.filterMap Call.tracks = [] ↔ metrics.sensorLabelMap = [] := by
  rw [sensorLabelMap_eq_nil_iff, eq_nil_iff_forall_not_mem]
  exact forall_congr' fun l => not_congr (h l).symm

variable (h : Tracks metrics earlier) (hlock : metrics.collectionLock = false) {label : Option Str}

include h hlock

/-- A request changes what it is granted for. -/
theorem setCollectionState_eq (newState spec) :
    setCollectionState newState spec metrics =
      (target metrics.datagroup spec).elim (.success, metrics) fun t =>
        match t.granted (earlier.filterMap Call.tracks) with
        | some .group => (.success, { metrics with
            currentPluginState := newState
            sensorLabelMap := setLabels newState (fun _ => true) metrics.sensorLabelMap })
        | some (.label l) => (.success, { metrics with
            sensorLabelMap := setLabels newState (· == l) metrics.sensorLabelMap })
        | none => (.errNotFound, metrics) := by
  unfold setCollectionState
  rw [isForMyDatagroup_eq, hlock]
  cases htarget : target metrics.datagroup spec with
  | none => rfl
  | some t =>
    unfold target at htarget
    split_ifs at htarget with hgroup hlabel
    · cases htarget
      simp [Target.granted, hlabel]
    · cases htarget
      have htracked := h (getSensorLabelFromSpec spec)
      rw [not_or] at hlabel
      unfold Tracked at htracked
      simp only [Option.elim_some, Target.granted, List.isEmpty_iff, contains_iff_mem, h.nil_iff,
        ← htracked]
      simp [hlabel.1, hlabel.2]
      split_ifs <;> rfl

/-- **One request** gives what is granted, and leaves the rest as it was. -/
theorem doCollectMetrics_request (newState spec) :
    (setCollectionState newState spec metrics).2.doCollectMetrics label =
      (if ((target metrics.datagroup spec).bind
          (·.granted (earlier.filterMap Call.tracks))).any (·.covers label)
        then some newState else none).getD (metrics.doCollectMetrics label) := by
  rw [setCollectionState_eq h hlock]
  cases target metrics.datagroup spec with
  | none => rfl
  | some t =>
    rw [Option.elim_some, Option.bind_some]
    cases hgranted : t.granted (earlier.filterMap Call.tracks) with
    | none => rfl
    | some t' =>
      unfold doCollectMetrics
      cases label with
      | none => cases t' <;> rfl
      | some l' =>
        cases t' with
        | group =>
          simp only [Option.bind_some, lookup_setLabels]
          cases metrics.sensorLabelMap.lookup l' <;> rfl
        | label l =>
          have htracked := (h l).mpr (Target.mem_of_granted hgranted)
          simp only [Option.bind_some, lookup_setLabels, Option.any_some, Target.covers]
          by_cases hl : l' = l
          · subst hl
            obtain ⟨state, hstate⟩ := Option.isSome_iff_exists.mp htracked
            simp [hstate]
          · simp [hl]

end Grant

/-! ## 4. Runs -/

/-- The object gives, for every label and for the group, what was asked for most recently. -/
def Agrees (metrics : RuntimeMetrics) (calls : List Call) : Prop :=
  ∀ label, metrics.doCollectMetrics label =
    expected metrics.datagroup metrics.initialPluginState calls label

/-- What no call changes. -/
structure SameSetup (metrics metrics' : RuntimeMetrics) : Prop where
  datagroup : metrics'.datagroup = metrics.datagroup
  initial : metrics'.initialPluginState = metrics.initialPluginState
  lock : metrics'.collectionLock = metrics.collectionLock

theorem sameSetup_set (newState : Bool) (spec : Str) (metrics : RuntimeMetrics) :
    SameSetup metrics (setCollectionState newState spec metrics).2 := by
  unfold setCollectionState
  dsimp only
  split_ifs <;> exact ⟨rfl, rfl, rfl⟩

theorem sameSetup_run (call : Call) : SameSetup metrics (call.run metrics) := by
  cases call with
  | track l =>
    unfold Call.run trackSensorLabel
    dsimp only
    split_ifs <;> exact ⟨rfl, rfl, rfl⟩
  | set newState spec => exact sameSetup_set newState spec metrics
  | reset spec => exact sameSetup_set _ spec metrics

theorem sameSetup_after (calls : List Call) : SameSetup metrics (metrics.after calls) := by
  induction calls generalizing metrics with
  | nil => exact ⟨rfl, rfl, rfl⟩
  | cons call calls ih =>
    have hone := sameSetup_run metrics call
    have hrest := ih (call.run metrics)
    exact ⟨hrest.1.trans hone.1, hrest.2.trans hone.2, hrest.3.trans hone.3⟩

theorem after_append (calls : List Call) (call : Call) :
    metrics.after (calls ++ [call]) = call.run (metrics.after calls) := by
  unfold after
  rw [foldl_append]
  rfl

variable (datagroup : Str)

theorem target_self_isSome_iff : (target datagroup datagroup).isSome = true ↔
    (58 ∉ datagroup ∨ getSensorDatagroupFromSpec datagroup = ofString "all") := by
  have hself : getSensorDatagroupFromSpec datagroup = datagroup ↔ 58 ∉ datagroup := by
    unfold getSensorDatagroupFromSpec
    rw [takeWhile_eq_self_iff]
    simp only [bne_iff_ne, ne_eq]
    exact ⟨fun h hmem => h 58 hmem rfl, fun h c hc hcolon => h (hcolon ▸ hc)⟩
  rw [target_isSome_iff, hself, or_comm]

/-- The constructor asks for the initial state, by the name of the data group. -/
theorem doCollectMetrics_new (global plugin : Bool) (label : Option Str) :
    (new datagroup global plugin).doCollectMetrics label =
      ((target datagroup datagroup).isNone || plugin) := by
  have htracks : Tracks ⟨datagroup, plugin, true, [], false⟩ [] := fun l => by simp [Tracked]
  unfold new resetCollectionState
  rw [doCollectMetrics_request htracks rfl]
  cases target datagroup datagroup with
  | none => cases label <;> rfl
  | some t => cases t <;> rfl

theorem agrees_new_iff (global plugin : Bool) : Agrees (new datagroup global plugin) [] ↔
      (58 ∉ datagroup ∨ getSensorDatagroupFromSpec datagroup = ofString "all" ∨ plugin = true) := by
  have hinitial : (new datagroup global plugin).initialPluginState = plugin :=
    (sameSetup_set plugin datagroup ⟨datagroup, plugin, true, [], false⟩).initial
  rw [← or_assoc, ← target_self_isSome_iff]
  unfold Agrees
  simp only [doCollectMetrics_new, hinitial, expected, filterMap_nil, getLast?_nil,
    Option.getD_none]
  cases target datagroup datagroup <;> cases plugin <;> simp

/-- The group is disabled and then a label is tracked: it is enabled.  And in a group without
tracked labels, a request for one label disables all of them. -/
theorem request_is_overruled :
    (∃ calls, ((new (ofString "errcounts") true true).after calls).doCollectMetrics
        (some (ofString "DIMM_CE")) = true ∧
      expected (ofString "errcounts") true calls (some (ofString "DIMM_CE")) = false) ∧
    ∃ calls, ((new (ofString "errcounts") true true).after calls).doCollectMetrics none = false ∧
      expected (ofString "errcounts") true calls none = true :=
  ⟨⟨[.set false (ofString "errcounts"), .track (ofString "DIMM_CE")], by decide +kernel⟩,
    ⟨[.set false (ofString "errcounts:DIMM_CE")], by decide +kernel⟩⟩

section Grant

variable {metrics : RuntimeMetrics} {earlier : List Call} {label : Option Str}

theorem doCollectMetrics_run (h : Tracks metrics earlier) (hlock : metrics.collectionLock = false)
    {call}
    (hgranted : metrics.doCollectMetrics label =
      granted metrics.datagroup metrics.initialPluginState label earlier)
    (htrack : ∀ l, call = .track l → label = some l →
      Tracked metrics l ∨ metrics.currentPluginState = metrics.initialPluginState) :
    (call.run metrics).doCollectMetrics label =
      granted metrics.datagroup metrics.initialPluginState label (call :: earlier) := by
  unfold granted
  rw [← hgranted]
  cases call with
  | track l =>
    refine (doCollectMetrics_track metrics l label).trans ?_
    split
    · rename_i hnew
      rw [hnew.2]
      have hinitial := (htrack l rfl hnew.2).resolve_left hnew.1
      exact hinitial.symm.trans (doCollectMetrics_of_absent hnew.1).symm
    · rfl
  | set newState spec => exact doCollectMetrics_request h hlock newState spec
  | reset spec => exact doCollectMetrics_request h hlock _ spec

end Grant

section Runs

variable {metrics : RuntimeMetrics}

theorem tracks_after (hnil : metrics.sensorLabelMap = []) (calls : List Call) :
    Tracks (metrics.after calls) calls.reverse := by
  induction calls using List.reverseRecOn with
  | nil =>
    intro l
    exact iff_of_false ((sensorLabelMap_eq_nil_iff metrics).mp hnil l) not_mem_nil
  | append_singleton calls call ih =>
    rw [after_append, reverse_append]
    exact ih.run call

variable (hnil : metrics.sensorLabelMap = []) (hlock : metrics.collectionLock = false)
  (hnew : ∀ label, metrics.doCollectMetrics label = metrics.initialPluginState)

include hnil hlock hnew

/-- The state of the group is what was granted, and so is that of a label that was tracked in
time. -/
theorem doCollectMetrics_after (calls : List Call) (label : Option Str)
    (htime : ∀ l, label = some l →
      TrackedInTime metrics.datagroup metrics.initialPluginState calls l) :
    (metrics.after calls).doCollectMetrics label =
      granted metrics.datagroup metrics.initialPluginState label calls.reverse := by
  induction calls using List.reverseRecOn generalizing label with
  | nil => exact hnew label
  | append_singleton calls call ih =>
    have hsame := sameSetup_after metrics calls
    have hbefore := ih label fun l hl done hdone =>
      htime l hl done (hdone.trans (prefix_append calls [call]))
    have hgroup := ih none nofun
    rw [after_append, reverse_append]
    rw [← hsame.datagroup, ← hsame.initial] at hbefore hgroup ⊢
    refine doCollectMetrics_run (tracks_after hnil calls) (hsame.lock.trans hlock) hbefore ?_
    rintro l rfl rfl
    refine (htime l rfl calls (prefix_refl _)).imp (fun hmem => ?_) fun hinitial => ?_
    · rw [tracks_after hnil calls l, filterMap_reverse, mem_reverse]
      exact hmem
    · rw [← hsame.datagroup, ← hsame.initial, ← hgroup] at hinitial
      exact hinitial

end Runs

/-- **What holds after every sequence of calls**: for the group, and for every label that was
tracked in time, the most recent request that was granted decides; a request for a tracked label
changes nothing else; and one for a label that is not tracked, where others are, is refused. -/
structure Granted (metrics : RuntimeMetrics) (calls : List Call) : Prop where
  collects : ∀ label, (∀ l, label = some l →
      TrackedInTime metrics.datagroup metrics.initialPluginState calls l) →
    (metrics.after calls).doCollectMetrics label =
      granted metrics.datagroup metrics.initialPluginState label calls.reverse
  frame : ∀ newState spec l, target metrics.datagroup spec = some (.label l) →
    l ∈ calls.filterMap Call.tracks → ∀ label ≠ some l,
      (setCollectionState newState spec (metrics.after calls)).2.doCollectMetrics label =
        (metrics.after calls).doCollectMetrics label
  refused : ∀ newState spec l, target metrics.datagroup spec = some (.label l) →
    calls.filterMap Call.tracks ≠ [] → l ∉ calls.filterMap Call.tracks →
      setCollectionState newState spec (metrics.after calls) = (.errNotFound, metrics.after calls)

/-- **Requests are granted**, on every object that is made for a data group that a specification can
name. -/
theorem requests_are_granted (datagroup : Str) (global plugin : Bool) (calls : List Call)
    (hgroup : 58 ∉ datagroup ∨ getSensorDatagroupFromSpec datagroup = ofString "all" ∨
      plugin = true) : Granted (new datagroup global plugin) calls := by
  have hlock : (new datagroup global plugin).collectionLock = false :=
    (sameSetup_set plugin datagroup ⟨datagroup, plugin, true, [], false⟩).lock
  have hnil : (new datagroup global plugin).sensorLabelMap = [] := by
    rw [sensorLabelMap_eq_nil_iff]
    intro l htracked
    have hempty := (tracked_set plugin datagroup ⟨datagroup, plugin, true, [], false⟩ l).mp htracked
    simp [Tracked] at hempty
  have hsame := sameSetup_after (new datagroup global plugin) calls
  have hlocked := hsame.lock.trans hlock
  have htracks := tracks_after hnil calls
  refine ⟨doCollectMetrics_after hnil hlock ((agrees_new_iff datagroup global plugin).mpr hgroup)
    calls, ?_, ?_⟩
  · intro newState spec l htarget hmem label hne
    rw [doCollectMetrics_request htracks hlocked, hsame.datagroup, htarget]
    simp only [Option.bind_some, Target.granted, filterMap_reverse, List.isEmpty_iff,
      reverse_eq_nil_iff, contains_iff_mem, mem_reverse, if_neg (ne_nil_of_mem hmem), if_pos hmem]
    simp [Target.covers, hne]
  · intro newState spec l htarget hne hnot
    rw [setCollectionState_eq htracks hlocked, hsame.datagroup, htarget]
    simp only [Option.elim_some, Target.granted, filterMap_reverse, List.isEmpty_iff,
      reverse_eq_nil_iff, contains_iff_mem, mem_reverse, if_neg hne, if_neg hnot]

/-- A label is tracked and disabled. -/
theorem requests_are_granted_errcounts : Granted (new (ofString "errcounts") true true)
      [.track (ofString "DIMM_CE"), .set false (ofString "errcounts:DIMM_CE")] ∧
    TrackedInTime (ofString "errcounts") true
      [.track (ofString "DIMM_CE"), .set false (ofString "errcounts:DIMM_CE")]
      (ofString "DIMM_CE") := by
  refine ⟨requests_are_granted _ true true _ (by decide), ?_⟩
  rintro done ⟨rest, hrest⟩
  rcases done with _ | ⟨call, _ | ⟨call', done⟩⟩
  · exact .inr rfl
  · simp at hrest
  · simp at hrest

end Sensys.Orcm.RuntimeMetrics
