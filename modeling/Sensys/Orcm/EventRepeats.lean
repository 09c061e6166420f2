/-
# Repeated events

`orcm/mca/analytics/base/analytics_base_event.c`: the events of a workflow step, and the suppression
of those that repeat.  A step keeps a hash table with the time of the last event of every kind.  The
key of a kind is the hash of one text: the values of the reporter, the keys of the data, the type and
the severity, WITHOUT anything in between.

An event is to be dropped when the last event of its kind that was not dropped is recent
(`Repeats`).  The code does that when the texts of two events of different kinds are different
(`drops_right`).  When they are the same, the second one is taken for a repetition of the first
(`taken_for_a_repeat`): `node1` with `2temp` and `node12` with `temp` are one kind to the code.

The hash of a text is a number of 64 bits, so it cannot be injective; that it is on the texts of the
events at hand, and not 0, are hypotheses.
-/
import Mathlib.Data.List.ReduceOption
import Sensys.Opal.HashTableRefines
import Sensys.Orcm.RasEvent

namespace Sensys.Orcm

open CString Analytics Opal List RasEvent HashTable

variable {τ : Type}

/-! ## 1. The key of an event -/

/-- `KEY_SIZE`. -/
def keySize : ℕ := 1000

/-- `orcm_util_create_hash_key`. -/
def createHashKey (key : List UInt8) : UInt64 :=
  key.foldl (fun hash b => 31 * hash + b.toUInt64) 0

/-- The texts of a reporter, one after the other. -/
def reporterText : List (EventValue τ) → Option Str
  | [] => some []
  | attr :: reporter =>
    attr.data.string?.bind fun string =>
      (reporterText reporter).map fun text => string.getD [] ++ text

/-- The keys of the data, one after the other. -/
def keysText (computeList : List (EventValue τ)) : Str :=
  (computeList.map fun computeData => computeData.key.getD []).flatten

/-- `generate_event_hashkey`; undefined when the text leaves its buffer. -/
def generateEventHashkey (evType severity : ℤ) (reporter computeList : List (EventValue τ)) :
    Option UInt64 :=
  (reporterText reporter).bind fun text =>
    let hashKey := text ++ keysText computeList ++ decimalInt evType ++ decimalInt severity
    if hashKey.length < keySize then some (createHashKey (hashKey ++ [0])) else none

/-! ## 2. Repeats -/

/-- The events of a step, by the keys of their kinds: the time of the last one. -/
abbrev EventStore := HashTable UInt64 ℤ

/-- `get_last_event_timestamp`.  The result of `opal_hash_table_set_value_uint64` is COMPARED with
`rc`, not assigned to it. -/
def getLastEventTimestamp (tsTable : EventStore) (key : UInt64) (currentTs : ℤ) :
    Option (Rc × Option ℤ × EventStore) :=
  (tsTable.getValue UInt64.toNat key).bind fun
    | .ok ts => some (.success, some ts, tsTable)
    | .error rc =>
      if rc = .errNotFound then
        (tsTable.setValue UInt64.toNat key currentTs).map fun (rc', tsTable) =>
          if rc = rc' then (.error, none, tsTable) else (.errNotFound, none, tsTable)
      else some (.error, none, tsTable)

/-- `event_filter`. -/
structure EventFilter where
  severity : ℤ
  category : Option Str
  time : ℕ
  deriving DecidableEq, Repr

/-- Does the category of a filter match the description of an event?  Any beginning of
`event_category` is its key. -/
def matchCategory (category : Str) : List (EventValue τ) → Option Bool
  | [] => some true
  | item :: description =>
    match item.key with
    | none => matchCategory category description
    | some key =>
      if key.isPrefixOf (ofString "event_category") then
        item.data.string?.bind fun
          | none => matchCategory category description
          | some string =>
            (matchCategory category description).map (category.isPrefixOf string && ·)
      else matchCategory category description

/-- `filter_max_rate`; `suppressRepeat` is that of `orcm_analytics_base`. -/
def filterMaxRate (suppressRepeat : Option Str) (ev : RasEvent τ) (filter : Option EventFilter) :
    Option ℕ :=
  let rate := suppressRepeat.elim 0 getTimeInSec % 2 ^ 32
  match filter with
  | none => some rate
  | some filter =>
    (filter.category.elim (some true) fun category => matchCategory category ev.description).map
      fun category =>
        if category && !(decide (ev.severity ≠ rasSeverityUnknown ∧ filter.severity < ev.severity))
        then filter.time % 2 ^ 32 else rate

section Generate

variable (suppressRepeat : Option Str)

/-- `is_repeat_event`.  The entry of the table points to the time, which is replaced where it is. -/
def isRepeatEvent (tsTable : EventStore) (ev : RasEvent τ) (filter : Option EventFilter) :
    Option (Bool × EventStore) :=
  (generateEventHashkey ev.type ev.severity ev.reporter ev.data).bind fun key =>
    if key = 0 then some (false, tsTable)
    else
      (getLastEventTimestamp tsTable key ev.timestamp).bind fun (rc, tsAdd, tsTable) =>
        (filterMaxRate suppressRepeat ev filter).bind fun repeatInterval =>
          match rc, tsAdd with
          | .success, some ts =>
            -- a sum of `time_t`
            if ev.timestamp < (ts + repeatInterval).bmod (2 ^ 64) then some (true, tsTable)
            else (tsTable.setValue UInt64.toNat key ev.timestamp).map fun (_, tsTable) =>
              (false, tsTable)
          | _, _ => some (false, tsTable)

/-- `generate_events`: the events in order, each with whether it is emitted. -/
def generateEvents (filter : Option EventFilter) (suppress : Bool) :
    EventStore → List (Option (RasEvent τ)) → Option (EventStore × List (RasEvent τ × Bool))
  | tsTable, [] => some (tsTable, [])
  | tsTable, none :: eventList => generateEvents filter suppress tsTable eventList
  | tsTable, some ev :: eventList =>
    (if suppress then isRepeatEvent suppressRepeat tsTable ev filter
      else some (false, tsTable)).bind fun (isRepeat, tsTable) =>
        (generateEvents filter suppress tsTable eventList).map fun (tsTable, log) =>
          (tsTable, (ev, !isRepeat) :: log)

/-- Calls with suppression on, one after the other. -/
def generateAll : EventStore → List (Option EventFilter × List (Option (RasEvent τ))) →
    Option (EventStore × List (RasEvent τ × Bool))
  | tsTable, [] => some (tsTable, [])
  | tsTable, (filter, eventList) :: calls =>
    (generateEvents suppressRepeat filter true tsTable eventList).bind fun (tsTable, log) =>
      (generateAll tsTable calls).map fun (tsTable, log') => (tsTable, log ++ log')

end Generate

/-! ## 3. What is meant -/

/-- What makes two events the same. -/
structure Kind (τ : Type) where
  type : ℤ
  severity : ℤ
  reporter : List (EventData τ)
  keys : List (Option Str)
  deriving DecidableEq, Repr

/-- The kind of an event. -/
def RasEvent.kind (ev : RasEvent τ) : Kind τ :=
  ⟨ev.type, ev.severity, ev.reporter.map (·.data), ev.data.map (·.key)⟩

section Meant

variable [DecidableEq τ]

/-- The time of the last emitted event of a kind; the latest entry of the log comes first. -/
def lastEmitted (past : List (RasEvent τ × Bool)) (kind : Kind τ) : Option ℤ :=
  (past.find? fun entry => entry.2 && decide (entry.1.kind = kind)).map fun entry =>
    entry.1.timestamp

/-- The last emitted event of the same kind is recent. -/
def Repeats (interval : ℕ) (past : List (RasEvent τ × Bool)) (ev : RasEvent τ) : Prop :=
  ∃ ts, lastEmitted past ev.kind = some ts ∧ ev.timestamp < ts + interval

/-- **Exactly the repeats are dropped.** -/
def DropsRepeats (interval : ℕ) :
    List (RasEvent τ × Bool) → List (RasEvent τ × Bool) → Prop
  | _, [] => True
  | past, (ev, emitted) :: log =>
    (emitted = false ↔ Repeats interval past ev) ∧ DropsRepeats interval ((ev, emitted) :: past) log

end Meant

/-! ## 4. Texts and keys -/

/-- The values of the reporter, the keys of the data, the type and the severity, one after the
other. -/
def RasEvent.text (ev : RasEvent τ) : Str :=
  (ev.reporter.map fun attr => (attr.data.string?.getD none).getD []).flatten ++
    keysText ev.data ++ decimalInt ev.type ++ decimalInt ev.severity

/-- The hash of the text. -/
def RasEvent.hashKey (ev : RasEvent τ) : UInt64 := createHashKey (ev.text ++ [0])

/-- The values of the reporter are texts, and they fit in the buffer with the rest. -/
def RasEvent.Fits (ev : RasEvent τ) : Prop :=
  (∀ attr ∈ ev.reporter, attr.data.string?.isSome = true) ∧ ev.text.length < keySize

theorem reporterText_eq : ∀ {reporter : List (EventValue τ)},
    (∀ attr ∈ reporter, attr.data.string?.isSome = true) → reporterText reporter =
      some (reporter.map fun attr => (attr.data.string?.getD none).getD []).flatten
  | [], _ => rfl
  | attr :: reporter, h => by
    obtain ⟨string, hstring⟩ := Option.isSome_iff_exists.mp (h attr mem_cons_self)
    rw [reporterText, reporterText_eq fun attr hattr => h attr (mem_cons_of_mem _ hattr),
      hstring]
    simp [hstring]

variable {ev : RasEvent τ}

theorem generateEventHashkey_eq (h : ev.Fits) :
    generateEventHashkey ev.type ev.severity ev.reporter ev.data = some ev.hashKey := by
  rw [generateEventHashkey, reporterText_eq h.1, Option.bind_some]
  exact if_pos h.2

variable {ev' : RasEvent τ}

/-- Events of one kind have one text. -/
theorem RasEvent.text_congr (h : ev.kind = ev'.kind) : ev.text = ev'.text := by
  obtain ⟨htype, hseverity, hreporter, hkeys⟩ := (Kind.mk.injEq ..).mp h
  have hvalues := congrArg
    (List.map fun data : EventData τ => (data.string?.getD none).getD []) hreporter
  have htexts := congrArg (List.map fun key : Option Str => key.getD []) hkeys
  rw [map_map, map_map] at hvalues htexts
  simp only [text, keysText, htype, hseverity]
  exact congrArg₂ (fun values keys => List.flatten values ++ List.flatten keys ++
    decimalInt ev'.type ++ decimalInt ev'.severity) hvalues htexts

/-! ## 5. The table and the log -/

/-- What the keys need: every text fits, and the hash is not 0 and does not confuse the texts. -/
structure Hashed (events : List (RasEvent τ)) : Prop where
  fits : ∀ ev ∈ events, ev.Fits
  ne_zero : ∀ ev ∈ events, ev.hashKey ≠ 0
  injective : ∀ ev ∈ events, ∀ ev' ∈ events, ev.hashKey = ev'.hashKey → ev.text = ev'.text

/-- **The condition on the texts**: events of different kinds do not have the same text. -/
def Apart (events : List (RasEvent τ)) : Prop :=
  ∀ ev ∈ events, ∀ ev' ∈ events, ev.text = ev'.text → ev.kind = ev'.kind

/-- The condition on the times: the interval can be added. -/
def InTime (interval : ℕ) (events : List (RasEvent τ)) : Prop :=
  ∀ ev ∈ events, -2 ^ 63 ≤ ev.timestamp ∧ ev.timestamp + interval < 2 ^ 63

theorem Hashed.hashKey_eq_iff {events} (h : Hashed events) (hapart : Apart events)
    (hev : ev ∈ events) (hev' : ev' ∈ events) : ev.hashKey = ev'.hashKey ↔ ev.kind = ev'.kind := by
  constructor
  · intro hkey
    exact hapart ev hev ev' hev' (h.injective ev hev ev' hev' hkey)
  · intro hkind
    rw [hashKey, hashKey, text_congr hkind]

/-! ### One event, by what the table has for it -/

section Table

variable {tsTable : EventStore} {m : Finmap fun _ : UInt64 => ℤ} {suppressRepeat : Option Str}
  {filter : Option EventFilter} {ev : RasEvent τ} {interval : ℕ}

/-- The time of the last event is looked up: a recent one makes a repeat, and otherwise the time of
this event is stored. -/
theorem isRepeatEvent_eq (hm : Refines UInt64.toNat tsTable m) (hfits : ev.Fits)
    (hzero : ev.hashKey ≠ 0) (hrate : filterMaxRate suppressRepeat ev filter = some interval)
    (hbounds : ∀ ts, m.lookup ev.hashKey = some ts → -2 ^ 63 ≤ ts ∧ ts + interval < 2 ^ 63)
    {tsTable'}
    (hset : tsTable.setValue UInt64.toNat ev.hashKey ev.timestamp = some (.success, tsTable')) :
    ((∃ ts, m.lookup ev.hashKey = some ts ∧ ev.timestamp < ts + interval) →
      isRepeatEvent suppressRepeat tsTable ev filter = some (true, tsTable)) ∧
    ((¬ ∃ ts, m.lookup ev.hashKey = some ts ∧ ev.timestamp < ts + interval) →
      isRepeatEvent suppressRepeat tsTable ev filter = some (false, tsTable')) := by
  have hget := getValue_spec hm ev.hashKey
  rw [isRepeatEvent, generateEventHashkey_eq hfits, Option.bind_some, if_neg hzero,
    getLastEventTimestamp, hget, Option.bind_some, hrate]
  cases hlookup : m.lookup ev.hashKey with
  | none => simp [hset]
  | some ts =>
    have hbound := hbounds ts hlookup
    have hwrap : (ts + interval).bmod (2 ^ 64) = ts + interval := by
      rw [Int.bmod_def]
      omega
    simp only [Option.elim_some, Option.bind_some, hwrap, hset, Option.some.injEq,
      exists_eq_left']
    exact ⟨fun hrecent => if_pos hrecent, fun hrecent => if_neg hrecent⟩

/-- **Two events with one text**: if the second is recent, it is dropped. -/
theorem taken_for_a_repeat {tableSize} (hfits : ev.Fits) (hfits' : ev'.Fits)
    (hzero : ev.hashKey ≠ 0) (hrate : filterMaxRate suppressRepeat ev filter = some interval)
    (hrate' : filterMaxRate suppressRepeat ev' filter = some interval)
    (htime : InTime interval [ev]) (htext : ev.text = ev'.text)
    (hrecent : ev'.timestamp < ev.timestamp + interval) :
    ∃ tsTable, generateAll suppressRepeat (init tableSize)
      [(filter, [some ev, some ev'])] = some (tsTable, [(ev, true), (ev', false)]) := by
  have hkey : ev'.hashKey = ev.hashKey := by rw [hashKey, ← htext, hashKey]
  have hm := init_spec (V := ℤ) UInt64.toNat tableSize
  obtain ⟨tsTable, hset, hm'⟩ := setValue_spec hm ev.hashKey ev.timestamp
  have hbounds := htime ev mem_cons_self
  have hfirst := (isRepeatEvent_eq hm hfits hzero hrate (by simp) hset).2 (by simp)
  obtain ⟨_, hset', -⟩ := setValue_spec hm' ev'.hashKey ev'.timestamp
  have hlookup : (Finmap.insert ev.hashKey ev.timestamp
      (∅ : Finmap fun _ : UInt64 => ℤ)).lookup ev'.hashKey = some ev.timestamp := by
    rw [hkey, Finmap.lookup_insert]
  have hsecond := (isRepeatEvent_eq hm' hfits' (by rwa [hkey]) hrate'
    (by rw [hlookup]; rintro _ ⟨⟩; exact hbounds) hset').1 ⟨_, hlookup, hrecent⟩
  refine ⟨tsTable, ?_⟩
  simp [generateAll, generateEvents, hfirst, hsecond]

end Table

section Store

variable [DecidableEq τ] {events : List (RasEvent τ)} {tsTable : EventStore}
  {past : List (RasEvent τ × Bool)} {interval : ℕ}

/-- The table holds the last emitted events of the log. -/
structure Stores (events : List (RasEvent τ)) (tsTable : EventStore)
    (past : List (RasEvent τ × Bool)) : Prop where
  times : ∃ m : Finmap fun _ : UInt64 => ℤ, Refines UInt64.toNat tsTable m ∧
    ∀ ev ∈ events, m.lookup ev.hashKey = lastEmitted past ev.kind
  mem : ∀ entry ∈ past, entry.1 ∈ events

variable (past)

theorem lastEmitted_emitted (ev : RasEvent τ) (kind : Kind τ) :
    lastEmitted ((ev, true) :: past) kind =
      if ev.kind = kind then some ev.timestamp else lastEmitted past kind := by
  by_cases h : ev.kind = kind <;> simp [lastEmitted, h]

theorem lastEmitted_dropped (ev : RasEvent τ) (kind : Kind τ) :
    lastEmitted ((ev, false) :: past) kind = lastEmitted past kind := by
  simp [lastEmitted]

variable {past}

/-- The last emitted event is in the log. -/
theorem lastEmitted_mem {kind ts} (h : lastEmitted past kind = some ts) :
    ∃ entry ∈ past, entry.1.timestamp = ts := by
  obtain ⟨entry, hentry, rfl⟩ := Option.map_eq_some_iff.mp h
  exact ⟨entry, mem_of_find?_eq_some hentry, rfl⟩

variable {ev : RasEvent τ} {suppressRepeat : Option Str}

section

variable (h : Stores events tsTable past)
include h

/-- An emitted event is stored. -/
theorem Stores.emit (hhashed : Hashed events) (hapart : Apart events) (hev : ev ∈ events) :
    ∃ tsTable', tsTable.setValue UInt64.toNat ev.hashKey ev.timestamp =
      some (.success, tsTable') ∧ Stores events tsTable' ((ev, true) :: past) := by
  obtain ⟨m, hm, htimes⟩ := h.times
  obtain ⟨tsTable', hset, hm'⟩ := setValue_spec hm ev.hashKey ev.timestamp
  refine ⟨tsTable', hset, ⟨_, hm', fun ev' hev' => ?_⟩, ?_⟩
  · rw [lastEmitted_emitted]
    by_cases hkind : ev.kind = ev'.kind
    · rw [if_pos hkind, ← (hhashed.hashKey_eq_iff hapart hev hev').mpr hkind, Finmap.lookup_insert]
    · have hkey : ev'.hashKey ≠ ev.hashKey := fun hkey =>
        hkind ((hhashed.hashKey_eq_iff hapart hev hev').mp hkey.symm)
      rw [if_neg hkind, Finmap.lookup_insert_of_ne _ hkey, htimes ev' hev']
  · simpa [hev] using h.mem

/-- A dropped event leaves the table as it is. -/
theorem Stores.drop (hev : ev ∈ events) : Stores events tsTable ((ev, false) :: past) := by
  obtain ⟨m, hm, htimes⟩ := h.times
  refine ⟨⟨m, hm, fun ev' hev' => ?_⟩, ?_⟩
  · rw [lastEmitted_dropped, htimes ev' hev']
  · simpa [hev] using h.mem

/-- **One event**: it is dropped when it repeats, and the table goes along with the log. -/
theorem isRepeatEvent_spec {filter} (hhashed : Hashed events) (hapart : Apart events)
    (htime : InTime interval events) (hev : ev ∈ events)
    (hrate : filterMaxRate suppressRepeat ev filter = some interval) :
    ∃ isRepeat tsTable', isRepeatEvent suppressRepeat tsTable ev filter =
        some (isRepeat, tsTable') ∧ Stores events tsTable' ((ev, !isRepeat) :: past) ∧
      (isRepeat = true ↔ Repeats interval past ev) := by
  obtain ⟨m, hm, htimes⟩ := h.times
  have hfits := hhashed.fits ev hev
  have hzero := hhashed.ne_zero ev hev
  have hlookup := htimes ev hev
  obtain ⟨tsTable', hset, hstores'⟩ := h.emit hhashed hapart hev
  have hbounds : ∀ ts, m.lookup ev.hashKey = some ts →
      -2 ^ 63 ≤ ts ∧ ts + interval < 2 ^ 63 := by
    intro ts hts
    obtain ⟨entry, hentry, rfl⟩ := lastEmitted_mem (hlookup ▸ hts)
    exact htime _ (h.mem entry hentry)
  obtain ⟨hrepeat, hnew⟩ := isRepeatEvent_eq hm hfits hzero hrate hbounds hset
  rw [hlookup] at hrepeat hnew
  by_cases hrecent : Repeats interval past ev
  · exact ⟨true, tsTable, hrepeat hrecent, h.drop hev, by simpa using hrecent⟩
  · exact ⟨false, tsTable', hnew hrecent, hstores', by simpa using hrecent⟩

end

/-! ## 6. Runs -/

theorem dropsRepeats_append : ∀ {past log log' : List (RasEvent τ × Bool)},
    DropsRepeats interval past log → DropsRepeats interval (log.reverse ++ past) log' →
      DropsRepeats interval past (log ++ log')
  | _, [], _, _, h' => h'
  | past, (ev, emitted) :: log, log', h, h' => by
    refine ⟨h.1, dropsRepeats_append h.2 ?_⟩
    simpa using h'

/-- **One call.** -/
theorem generateEvents_spec {filter} (hhashed : Hashed events) (hapart : Apart events)
    (htime : InTime interval events) : ∀ eventList {tsTable past}, Stores events tsTable past →
      (∀ ev ∈ eventList.reduceOption, ev ∈ events ∧
        filterMaxRate suppressRepeat ev filter = some interval) →
      ∃ tsTable' log, generateEvents suppressRepeat filter true tsTable eventList =
          some (tsTable', log) ∧ Stores events tsTable' (log.reverse ++ past) ∧
        log.map Prod.fst = eventList.reduceOption ∧ DropsRepeats interval past log
  | [], tsTable, past, h, _ => ⟨tsTable, [], rfl, h, rfl, trivial⟩
  | none :: eventList, tsTable, past, h, hevents =>
    generateEvents_spec hhashed hapart htime eventList h hevents
  | some ev :: eventList, tsTable, past, h, hevents => by
    rw [reduceOption_cons_of_some] at hevents ⊢
    obtain ⟨hev, hrate⟩ := hevents ev mem_cons_self
    obtain ⟨isRepeat, tsTable₁, hrepeat, hstores, hiff⟩ :=
      isRepeatEvent_spec h hhashed hapart htime hev hrate
    obtain ⟨tsTable₂, log, hrest, hstores', hlog, hdrops⟩ :=
      generateEvents_spec hhashed hapart htime eventList hstores fun ev hev =>
        hevents ev (mem_cons_of_mem _ hev)
    refine ⟨tsTable₂, (ev, !isRepeat) :: log, ?_, ?_, ?_, ?_, hdrops⟩
    · rw [generateEvents, if_pos rfl, hrepeat, Option.bind_some]
      exact congrArg (Option.map _) hrest
    · simpa using hstores'
    · rw [map_cons, hlog]
    · rw [← hiff]
      simp

/-- The events of some calls. -/
def eventsOf (calls : List (Option EventFilter × List (Option (RasEvent τ)))) :
    List (RasEvent τ) :=
  calls.flatMap fun call => call.2.reduceOption

/-- The interval is the same for all events. -/
def ConstantRate (suppressRepeat : Option Str) (interval : ℕ)
    (calls : List (Option EventFilter × List (Option (RasEvent τ)))) : Prop :=
  ∀ call ∈ calls, ∀ ev ∈ call.2.reduceOption,
    filterMaxRate suppressRepeat ev call.1 = some interval

/-- **All calls.** -/
theorem generateAll_spec
    (hhashed : Hashed events) (hapart : Apart events) (htime : InTime interval events) :
    ∀ {calls : List (Option EventFilter × List (Option (RasEvent τ)))} {tsTable : EventStore}
      {past : List (RasEvent τ × Bool)}, Stores events tsTable past →
      (∀ ev ∈ eventsOf calls, ev ∈ events) → ConstantRate suppressRepeat interval calls →
      ∃ tsTable' log, generateAll suppressRepeat tsTable calls = some (tsTable', log) ∧
        log.map Prod.fst = eventsOf calls ∧ DropsRepeats interval past log
  | [], tsTable, past, _, _, _ => ⟨tsTable, [], rfl, rfl, trivial⟩
  | (filter, eventList) :: calls, tsTable, past, h, hmem, hrate => by
    obtain ⟨tsTable₁, log, hcall, hstores, hlog, hdrops⟩ :=
      generateEvents_spec hhashed hapart htime eventList h fun ev hev =>
        ⟨hmem ev (mem_append_left _ hev), hrate (filter, eventList) mem_cons_self ev hev⟩
    obtain ⟨tsTable₂, log', hrest, hlog', hdrops'⟩ :=
      generateAll_spec hhashed hapart htime hstores
        (fun ev hev => hmem ev (mem_append_right _ hev))
        (fun call hcall => hrate call (mem_cons_of_mem _ hcall))
    refine ⟨tsTable₂, log ++ log', ?_, ?_, dropsRepeats_append hdrops hdrops'⟩
    · rw [generateAll, hcall, Option.bind_some]
      exact congrArg (Option.map _) hrest
    · rw [map_append, hlog, hlog', eventsOf, eventsOf, flatMap_cons]

/-- **Exactly the repeats are dropped, when the texts tell the kinds apart.** -/
theorem drops_right {suppressRepeat : Option Str} {interval tableSize : ℕ}
    {calls : List (Option EventFilter × List (Option (RasEvent τ)))}
    (hrate : ConstantRate suppressRepeat interval calls) (hhashed : Hashed (eventsOf calls))
    (htime : InTime interval (eventsOf calls)) (hapart : Apart (eventsOf calls)) :
    ∃ tsTable log, generateAll suppressRepeat (HashTable.init tableSize) calls =
        some (tsTable, log) ∧ log.map Prod.fst = eventsOf calls ∧ DropsRepeats interval [] log :=
  generateAll_spec hhashed hapart htime
    ⟨⟨∅, init_spec UInt64.toNat tableSize, fun _ _ => Finmap.lookup_empty _⟩, by simp⟩
    (fun _ hev => hev) hrate

/-- Two calls with an interval of ten seconds: the second event is dropped. -/
theorem drops_right_ten_seconds : let value (host : String) (timestamp : ℤ) : RasEvent Unit :=
      { reporter := [⟨some (ofString "hostname"), .string (some (ofString host)), none⟩]
        type := 1
        timestamp := timestamp
        severity := 3
        description := []
        data := [⟨some (ofString "temp"), .other (), none⟩] }
    let calls := [(none, [some (value "node1" 100), some (value "node1" 105)]),
      (none, [some (value "node2" 106)])]
    ∃ tsTable log, generateAll (some (ofString "10s")) (HashTable.init 10000) calls =
        some (tsTable, log) ∧
      log.map Prod.fst = eventsOf calls ∧ DropsRepeats 10 [] log := by
  intro value calls
  have hhashed : Hashed (eventsOf calls) :=
    ⟨by unfold RasEvent.Fits; decide +kernel, by decide +kernel, by decide +kernel⟩
  exact drops_right (by unfold ConstantRate; decide +kernel) hhashed
    (by unfold InTime; decide +kernel) (by unfold Apart; decide +kernel)

/-- Key `2temp` of `node1`, then key `temp` of `node12`. -/
theorem another_node_is_dropped : let value (host key : String) (timestamp : ℤ) : RasEvent Unit :=
      { reporter := [⟨some (ofString "hostname"), .string (some (ofString host)), none⟩]
        type := 1
        timestamp := timestamp
        severity := 3
        description := []
        data := [⟨some (ofString key), .other (), none⟩] }
    let ev := value "node1" "2temp" 100
    let ev' := value "node12" "temp" 101
    let calls := [(none, [some ev, some ev'])]
    Hashed (eventsOf calls) ∧ ConstantRate (some (ofString "10s")) 10 calls ∧
      InTime 10 (eventsOf calls) ∧ ev.kind ≠ ev'.kind ∧
      ∃ tsTable, generateAll (some (ofString "10s")) (HashTable.init 10000) calls =
          some (tsTable, [(ev, true), (ev', false)]) ∧
        ¬ DropsRepeats 10 [] [(ev, true), (ev', false)] := by
  intro value ev ev' calls
  have hhashed : Hashed (eventsOf calls) :=
    ⟨by unfold RasEvent.Fits; decide +kernel, by decide +kernel, by decide +kernel⟩
  have hfits : ev.Fits := hhashed.fits ev mem_cons_self
  have hfits' : ev'.Fits := hhashed.fits ev' (mem_cons_of_mem _ mem_cons_self)
  have hkind : ev.kind ≠ ev'.kind := by decide +kernel
  have hrate : ConstantRate (some (ofString "10s")) 10 calls := by
    unfold ConstantRate
    decide +kernel
  have htime : InTime 10 (eventsOf calls) := by
    unfold InTime
    decide +kernel
  have hfirst : InTime 10 [ev] := fun _ hev =>
    htime _ (List.mem_singleton.mp hev ▸ mem_cons_self)
  obtain ⟨tsTable, hrun⟩ : ∃ tsTable, generateAll (some (ofString "10s")) (init 10000)
      calls = some (tsTable, [(ev, true), (ev', false)]) :=
    taken_for_a_repeat hfits hfits' (by decide +kernel) (hrate _ mem_cons_self ev
      mem_cons_self) (by decide +kernel) hfirst (by decide +kernel) (by decide +kernel)
  refine ⟨hhashed, hrate, htime, hkind, tsTable, hrun, ?_⟩
  -- nothing of the kind of the second event has been emitted
  rintro ⟨-, hsecond, -⟩
  obtain ⟨ts, hts, -⟩ := hsecond.mp rfl
  have hnone : lastEmitted [(ev, true)] ev'.kind = none := by decide +kernel
  cases hts

end Store

end Sensys.Orcm
