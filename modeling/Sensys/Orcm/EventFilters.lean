/-
# The filter of a step's events

`orcm_analytics_base_filter_events` of `orcm/mca/analytics/base/analytics_base_event.c`.  A step
reads from its attributes whether repeated events are suppressed (`suppress_repeat`) and for which of
them another interval holds (`category`, `severity`, `time`).  The loop LEAVES the attributes at the
first of these three that comes before `suppress_repeat`, so a later `suppress_repeat` is not read.

What is emitted is the same in every order of the attributes exactly when no attribute turns the
suppression on, or there is none of the three (`order_irrelevant_iff`).
-/
import Sensys.Orcm.EventRepeats

namespace Sensys.Orcm

open CString Analytics Opal List Option

/-! ## 1. The attributes -/

/-- `orcm_analytics_event_get_severity`. -/
def eventGetSeverity (severity : Str) : ℤ :=
  if severity = ofString "emerg" then rasSeverityEmerg
  else if severity = ofString "alert" then 1
  else if severity = ofString "crit" then 2
  else if severity = ofString "error" then 3
  else if severity = ofString "warn" then 4
  else if severity = ofString "notice" then 5
  else if severity = ofString "info" then 6
  else if severity = ofString "debug" then 7
  else rasSeverityUnknown

section Filter

variable {τ : Type} (suppressRepeat : Option Str)

/-- `event_filter_con`. -/
def eventFilterCon : EventFilter :=
  ⟨rasSeverityUnknown, none, suppressRepeat.elim 0 getTimeInSec⟩

/-- `assign_filter_value`; `none` is `ORCM_ERROR`. -/
def assignFilterValue (key : Str) (value : Option Str) (filter : EventFilter) :
    Option EventFilter :=
  value.bind fun value =>
    if key.isPrefixOf (ofString "category") then some { filter with category := some value }
    else if key.isPrefixOf (ofString "severity") then
      some { filter with severity := eventGetSeverity value }
    else if key.isPrefixOf (ofString "time") then
      some { filter with
        time := if getTimeInSec value = 0 then suppressRepeat.elim 0 getTimeInSec
          else getTimeInSec value }
    else none

/-- Is this the key of a part of the filter? -/
def isFilterKey (key : Str) : Bool :=
  key = ofString "category" || key = ofString "severity" || key = ofString "time"

/-- The loop over the attributes, with `suppress` and `filter`.  It is undefined when
`suppress_repeat` has no text. -/
def readFilter : List StepAttribute → Bool → Option EventFilter →
    Option (Bool × Option EventFilter)
  | [], suppress, filter => some (suppress, filter)
  | attr :: attributes, suppress, filter =>
    match attr.key with
    | none => some (suppress, filter)
    | some key =>
      if key = ofString "suppress_repeat" then
        attr.string.bind fun string =>
          readFilter attributes (suppress || string = ofString "yes") filter
      else if isFilterKey key then
        if suppress then
          match assignFilterValue suppressRepeat key attr.string
              (filter.getD (eventFilterCon suppressRepeat)) with
          | none => some (suppress, some (filter.getD (eventFilterCon suppressRepeat)))
          | some filter => readFilter attributes suppress (some filter)
        else some (suppress, filter)
      else readFilter attributes suppress filter

/-- `orcm_analytics_base_filter_events`. -/
def filterEvents (attributes : List StepAttribute) (tsTable : EventStore)
    (eventList : List (Option (RasEvent τ))) : Option (EventStore × List (RasEvent τ × Bool)) :=
  (readFilter suppressRepeat attributes false none).bind fun found =>
    generateEvents suppressRepeat found.2 found.1 tsTable eventList

/-- The events a step emits. -/
def emittedEvents (attributes : List StepAttribute) (tsTable : EventStore)
    (eventList : List (Option (RasEvent τ))) : Option (List (RasEvent τ)) :=
  (filterEvents suppressRepeat attributes tsTable eventList).map fun result =>
    (result.2.filter (·.2)).map (·.1)

end Filter

/-! ## 2. The loop -/

/-- `suppress_repeat` without a text. -/
def lacksText (attr : StepAttribute) : Bool :=
  attr.key = some (ofString "suppress_repeat") && attr.string = none

/-- `suppress_repeat` with `yes`. -/
def switchesOn (attr : StepAttribute) : Bool :=
  attr.key = some (ofString "suppress_repeat") && attr.string = some (ofString "yes")

/-- `category`, `severity` or `time`. -/
def isFilter (attr : StepAttribute) : Bool := attr.key.any isFilterKey

theorem isFilterKey_ne {key} (h : isFilterKey key = true) : key ≠ ofString "suppress_repeat" := by
  rintro rfl
  revert h
  decide

section Read

variable {suppressRepeat : Option Str}

/-- Once the suppression is on, it stays on. -/
theorem readFilter_on : ∀ {attributes filter found},
    readFilter suppressRepeat attributes true filter = some found → found.1 = true
  | [], filter, found, h => by
    cases h
    rfl
  | attr :: attributes, filter, found, h => by
    unfold readFilter at h
    split at h
    · cases h
      rfl
    · split at h
      · obtain ⟨string, -, h⟩ := bind_eq_some_iff.mp h
        exact readFilter_on h
      · split at h
        · rw [if_pos rfl] at h
          split at h
          · cases h
            rfl
          · exact readFilter_on h
        · exact readFilter_on h

/-- **Without an attribute that turns it on, the suppression stays off.** -/
theorem readFilter_off : ∀ {attributes},
    (∀ attr ∈ attributes, ¬ (lacksText attr = true ∨ switchesOn attr = true)) →
      readFilter suppressRepeat attributes false none = some (false, none)
  | [], _ => rfl
  | attr :: attributes, h => by
    have ih : readFilter suppressRepeat attributes false none = some (false, none) :=
      readFilter_off fun attr hattr => h attr (mem_cons_of_mem _ hattr)
    have hoff := h attr mem_cons_self
    unfold readFilter
    split
    · rfl
    next key hkey =>
      split
      next hswitch =>
        rcases hstring : attr.string with _ | string
        · simp [lacksText, hkey, hswitch, hstring] at hoff
        · have hno : string ≠ ofString "yes" := by
            simpa [lacksText, switchesOn, hkey, hswitch, hstring] using hoff
          simpa [hno] using ih
      · split
        · rfl
        · exact ih

/-- **Without an attribute of the filter, the loop reads every `suppress_repeat`.** -/
theorem readFilter_unfiltered : ∀ attributes suppress,
    (∀ attr ∈ attributes, attr.key.isSome = true) → (∀ attr ∈ attributes, isFilter attr = false) →
      readFilter suppressRepeat attributes suppress none = if attributes.any lacksText then none
        else some (suppress || attributes.any switchesOn, none)
  | [], suppress, _, _ => by simp [readFilter]
  | attr :: attributes, suppress, hkeys, h => by
    have ih := fun suppress => readFilter_unfiltered attributes suppress
      (fun attr hattr => hkeys attr (mem_cons_of_mem _ hattr))
      (fun attr hattr => h attr (mem_cons_of_mem _ hattr))
    obtain ⟨key, hkey⟩ := isSome_iff_exists.mp (hkeys attr mem_cons_self)
    have hfilter : isFilterKey key = false := by
      simpa [isFilter, hkey] using h attr mem_cons_self
    unfold readFilter
    simp only [hkey, hfilter, Bool.false_eq_true, if_false, any_cons]
    by_cases hswitch : key = ofString "suppress_repeat"
    · rcases hstring : attr.string with _ | string
      · simp [hswitch, lacksText, hkey, hstring]
      · simp [hswitch, ih, lacksText, switchesOn, hkey, hstring, Bool.or_assoc]
    · simp [hswitch, ih, lacksText, switchesOn, hkey]

end Read

/-! ## 3. The order of the attributes -/

section Order

variable {τ : Type} {suppressRepeat : Option Str} {attributes : List StepAttribute}

/-- An attribute with a text. -/
def textAttribute (key string : String) : StepAttribute :=
  ⟨some (ofString key), some (ofString string)⟩

/-- An event of no reporter and no data. -/
def bareEvent (timestamp : ℤ) : RasEvent τ :=
  ⟨[], rasEventException, timestamp, rasSeverityUnknown, [], []⟩

theorem text_bareEvent (timestamp : ℤ) :
    (bareEvent timestamp : RasEvent τ).text = ofString "18" := rfl

theorem filterMaxRate_bareEvent (timestamp : ℤ) (filter : Option EventFilter) :
    filterMaxRate suppressRepeat (bareEvent timestamp : RasEvent τ) filter =
      some ((filter.elim (suppressRepeat.elim 0 getTimeInSec) (·.time)) % 2 ^ 32) := by
  rcases filter with _ | ⟨severity, _ | category, time⟩ <;>
    simp [filterMaxRate, bareEvent, matchCategory]

/-- With suppression, an event of an earlier time than the last one of its kind is dropped, whatever
the filter is. -/
theorem generateEvents_bareEvent (tableSize : ℕ) (filter : Option EventFilter) :
    ∃ tsTable, generateEvents suppressRepeat filter true (HashTable.init tableSize)
      [some (bareEvent 1 : RasEvent τ), some (bareEvent 0)] =
        some (tsTable, [(bareEvent 1, true), (bareEvent 0, false)]) := by
  have hfits : ∀ timestamp, (bareEvent timestamp : RasEvent τ).Fits := fun timestamp =>
    ⟨by simp [bareEvent], by rw [text_bareEvent]; decide⟩
  have hzero : (bareEvent 1 : RasEvent τ).hashKey ≠ 0 := by
    rw [RasEvent.hashKey, text_bareEvent]
    decide
  set interval := (filter.elim (suppressRepeat.elim 0 getTimeInSec) (·.time)) % 2 ^ 32
  have hlt : interval < 2 ^ 32 := Nat.mod_lt _ (by decide)
  have htime : InTime interval [(bareEvent 1 : RasEvent τ)] := by
    simp only [InTime, List.mem_singleton, forall_eq, bareEvent]
    omega
  obtain ⟨tsTable, h⟩ := @taken_for_a_repeat _ _ _ _ _ _ tableSize (hfits 1) (hfits 0) hzero
    (filterMaxRate_bareEvent 1 filter) (filterMaxRate_bareEvent 0 filter) htime rfl
    (by simp only [bareEvent]; omega)
  rw [generateAll, bind_eq_some_iff] at h
  obtain ⟨⟨tsTable, log⟩, hlog, h⟩ := h
  simp only [generateAll, map_some, List.append_nil, some.injEq, Prod.mk.injEq] at h
  exact ⟨tsTable, by rw [hlog, h.2]⟩

/-- Behind an attribute of the filter, `suppress_repeat` is not read. -/
theorem emittedEvents_filterFirst {part} (hpart : isFilter part = true) (tsTable : EventStore) :
    emittedEvents suppressRepeat (part :: attributes) tsTable
      [some (bareEvent 1 : RasEvent τ), some (bareEvent 0)] = some [bareEvent 1, bareEvent 0] := by
  obtain ⟨key, hkey, hfilter⟩ := (Option.any_eq_true _ _).mp hpart
  have hread : readFilter suppressRepeat (part :: attributes) false none = some (false, none) := by
    unfold readFilter
    simp only [hkey, if_neg (isFilterKey_ne hfilter), hfilter, if_true, Bool.false_eq_true,
      if_false]
  simp [emittedEvents, filterEvents, hread, generateEvents]

/-- When the suppression is on from the first attribute, the second event is not emitted. -/
theorem emittedEvents_switchFirst {switch}
    (hon : lacksText switch = true ∨ switchesOn switch = true) :
    emittedEvents suppressRepeat (switch :: attributes) (HashTable.init 0)
      [some (bareEvent 1 : RasEvent τ), some (bareEvent 0)] ≠ some [bareEvent 1, bareEvent 0] := by
  intro h
  simp only [emittedEvents, filterEvents, map_eq_some_iff, bind_eq_some_iff] at h
  obtain ⟨result, ⟨found, hread, hresult⟩, hlog⟩ := h
  have hsuppress : found.1 = true := by
    rcases hon with hon | hon
    · simp_all [lacksText, readFilter]
    · have hread' : readFilter suppressRepeat attributes true none = some found := by
        simp_all [switchesOn, readFilter]
      exact readFilter_on hread'
  rw [hsuppress] at hresult
  obtain ⟨tsTable, hrun⟩ := generateEvents_bareEvent 0 found.2
  rw [hrun] at hresult
  cases hresult
  simp at hlog

/-- **The order of the attributes does not matter exactly when no attribute turns the suppression
on, or none is a part of the filter.** -/
theorem order_irrelevant_iff (hkeys : ∀ attr ∈ attributes, attr.key.isSome = true) :
    (∀ attributes', attributes.Perm attributes' →
      ∀ (tsTable : EventStore) (eventList : List (Option (RasEvent τ))),
        emittedEvents suppressRepeat attributes tsTable eventList =
          emittedEvents suppressRepeat attributes' tsTable eventList) ↔
      ¬ ((∃ attr ∈ attributes, lacksText attr = true ∨ switchesOn attr = true) ∧
        ∃ attr ∈ attributes, isFilter attr = true) := by
  constructor
  · rintro hsame ⟨⟨switch, hswitch, hon⟩, part, hpart, hfilter⟩
    have hne : part ≠ switch := by
      rintro rfl
      have hkey : part.key = some (ofString "suppress_repeat") := by
        rcases hon with hon | hon <;> simp_all [lacksText, switchesOn]
      rw [isFilter, hkey] at hfilter
      exact isFilterKey_ne hfilter rfl
    -- the two in either order, before the others
    have hpart' : part ∈ attributes.erase switch := (mem_erase_of_ne hne).mpr hpart
    have hfirst := (perm_cons_erase hswitch).trans ((perm_cons_erase hpart').cons switch)
    have hsecond := hfirst.trans (List.Perm.swap _ _ _)
    refine emittedEvents_switchFirst hon ((hsame _ hfirst _ _).symm.trans ?_)
    rw [hsame _ hsecond, emittedEvents_filterFirst hfilter]
  · intro hnot attributes' hperm tsTable eventList
    suffices hread : readFilter suppressRepeat attributes false none =
        readFilter suppressRepeat attributes' false none by
      rw [emittedEvents, filterEvents, hread, emittedEvents, filterEvents]
    rcases not_and_or.mp hnot with hoff | hnone
    · rw [readFilter_off fun attr hattr hon => hoff ⟨attr, hattr, hon⟩,
        readFilter_off fun attr hattr hon => hoff ⟨attr, hperm.mem_iff.mpr hattr, hon⟩]
    · have hpart : ∀ attr ∈ attributes, isFilter attr = false := fun attr hattr =>
        Bool.eq_false_iff.mpr fun h => hnone ⟨attr, hattr, h⟩
      rw [readFilter_unfiltered _ false hkeys hpart, readFilter_unfiltered _ false
        (fun attr hattr => hkeys attr (hperm.mem_iff.mpr hattr))
        (fun attr hattr => hpart attr (hperm.mem_iff.mpr hattr)), hperm.any_eq, hperm.any_eq]

theorem order_irrelevant_iff_off :
    (∀ attr ∈ [textAttribute "time" "60", textAttribute "suppress_repeat" "no"],
      attr.key.isSome = true) ∧
    ∀ attributes', [textAttribute "time" "60", textAttribute "suppress_repeat" "no"].Perm
        attributes' → ∀ (tsTable : EventStore) (eventList : List (Option (RasEvent Unit))),
        emittedEvents none [textAttribute "time" "60", textAttribute "suppress_repeat" "no"] tsTable
          eventList = emittedEvents none attributes' tsTable eventList :=
  ⟨by decide, (order_irrelevant_iff (by decide)).mpr (by decide)⟩

/-- **Behind `time`, `suppress_repeat` is not read,** and the repeated event is emitted. -/
theorem suppress_repeat_is_not_read :
    emittedEvents none [textAttribute "suppress_repeat" "yes", textAttribute "time" "60"]
        (HashTable.init 16) [some (bareEvent 100 : RasEvent Unit), some (bareEvent 110)] =
          some [bareEvent 100] ∧
      emittedEvents none [textAttribute "time" "60", textAttribute "suppress_repeat" "yes"]
        (HashTable.init 16) [some (bareEvent 100 : RasEvent Unit), some (bareEvent 110)] =
          some [bareEvent 100, bareEvent 110] := by
  decide +kernel

end Order

end Sensys.Orcm
