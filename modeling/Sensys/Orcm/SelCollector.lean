/-
# Scans of the event log of a BMC

`orcm/mca/sensor/ipmi/ipmi_sel_collector.cpp`: a collector reads the system event log of a host.  It
loads the id of the last record that was read from a file (`PersistSel`), asks for that record, and
then for one record after the other, each answer having the id of the next one.  Every new record is
passed to a callback.  At the end the last id is saved in the file for the next collector.  If a
command fails, nothing is saved.

The log grows while this goes on: a run is any sequence of records that are appended, scans that are
begun, and commands of the scan that is going on.  Loading and saving are those of the file, with the
`fuel` of their loops; without enough of it the call has not returned, and there is no step.

Every record is to be passed once, and in order (`exactly_once`).  That goes wrong in three ways:

* A command fails after the scan has passed records.  Their ids are not saved, and the next scan
  passes them again.
* The first record is asked for with the id 0.  If it is the only one, 0 is saved as the last id, and
  the next scan passes the record again.
* The line that is saved cannot be read back: with a long name of the host its end is cut off, and the
  next scan goes on behind another record.

The id is saved when the collector is destroyed, which is a step of its own, and before the next scan
begins.  Nobody else changes the file.
-/
import Mathlib.Data.List.Nodup
import Sensys.Lib.Run
import Sensys.Orcm.PersistSelMap

namespace Sensys.Orcm.SelCollector

open CString PersistSel List Option

/-! ## 1. The log -/

/-- A record of the log; ids are `uint16_t`. -/
structure Record (ρ : Type) where
  id : ℕ
  data : ρ
  deriving DecidableEq, Repr

/-- `INVALID_RECORD_ID`. -/
def invalidRecordId : ℕ := 0

/-- `END_OF_RECORDS`. -/
def endOfRecords : ℕ := 0xffff

/-- The answer to `GET_SEL_ENTRY`: the two bytes of the next id, and a record. -/
structure Response (ρ : Type) where
  low : UInt8
  high : UInt8
  record : Record ρ
  deriving DecidableEq, Repr

variable {ρ : Type}

/-- The id of the record behind, or the end. -/
def nextId (rest : List (Record ρ)) : ℕ := (rest.head?.map Record.id).getD endOfRecords

/-- The record with an id, and the next id. -/
def entryAt : List (Record ρ) → ℕ → Option (ℕ × Record ρ)
  | [], _ => none
  | record :: rest, id => if record.id = id then some (nextId rest, record) else entryAt rest id

/-- The first record, and the next id. -/
def firstEntry : List (Record ρ) → Option (ℕ × Record ρ)
  | [] => none
  | record :: rest => some (nextId rest, record)

/-- What the BMC answers: the id 0 asks for the first record. -/
def getSelEntry (log : List (Record ρ)) (request : List UInt8) : Option (Response ρ) :=
  let id := (request.getD 2 0).toNat + 256 * (request.getD 3 0).toNat
  (if id = 0 then firstEntry log else entryAt log id).map fun (next, record) =>
    ⟨UInt8.ofNat (next % 256), UInt8.ofNat (next / 256), record⟩

/-! ## 2. The collector -/

/-- `ipmi_sel_collector`, with its `persist_record_`. -/
structure Collector where
  badInstance : Bool
  lastRecordId : ℕ
  nextRecordId : ℕ
  readFirstRecord : Bool
  persistRecord : PersistSelRecordId
  deriving DecidableEq, Repr

/-- A collector that is connected, behind `load_last_record_id`. -/
def Collector.loaded (persistRecord : PersistSelRecordId) : Collector :=
  ⟨false, persistRecord.recordId, endOfRecords, false, persistRecord⟩

/-- The id that the next round of `scan_new_records` asks for. -/
def Collector.askedId (collector : Collector) : ℕ :=
  if collector.readFirstRecord then collector.nextRecordId else collector.lastRecordId

/-- `build_current_request`. -/
def buildCurrentRequest (id : ℕ) : List UInt8 :=
  [0, 0, UInt8.ofNat (id % 256), UInt8.ofNat (id / 256 % 256), 0, 0xff]

/-- `get_next_ipmi_sel_record`: its result, the collector, and the record that is passed to the
callback.  `ipmiCmd` is `none` when the command fails. -/
def getNextIpmiSelRecord (ipmiCmd : List UInt8 → Option (Response ρ)) (collector : Collector)
    (id : ℕ) : Bool × Collector × Option (Record ρ) :=
  if id = endOfRecords ∨ collector.badInstance = true then (false, collector, none)
  else
    match ipmiCmd (buildCurrentRequest id) with
    | none =>
      (false, { collector with badInstance := true, nextRecordId := invalidRecordId }, none)
    | some response =>
      let next := response.low.toNat + 256 * response.high.toNat
      (true, { collector with lastRecordId := id, nextRecordId := next },
        if collector.readFirstRecord || id == 0 then some response.record else none)

/-- How one round of the loop in `scan_new_records` ends, with the record that is passed; at the end
of the scan also with the object that is to be saved. -/
inductive Round (ρ : Type) where
  | failed
  | more (collector : Collector) (record : Option (Record ρ))
  | done (persistRecord : PersistSelRecordId) (record : Option (Record ρ))
  deriving DecidableEq, Repr

/-- One round of the loop in `scan_new_records`, and `set_record_id` behind the last one. -/
def scanRound (ipmiCmd : List UInt8 → Option (Response ρ)) (collector : Collector) : Round ρ :=
  match getNextIpmiSelRecord ipmiCmd collector collector.askedId with
  | (false, _, _) => .failed
  | (true, collector, record) =>
    if collector.nextRecordId ≠ endOfRecords then
      .more { collector with readFirstRecord := true } record
    else .done (collector.persistRecord.setRecordId collector.lastRecordId) record

/-! ## 3. Runs -/

/-- Between two scans; in a scan, with the records it has passed; or behind one that has succeeded,
with the object that the collector is destroyed with. -/
inductive Phase (ρ : Type) where
  | idle
  | scanning (collector : Collector) (current : List (Record ρ))
  | ended (persistRecord : PersistSelRecordId)
  deriving DecidableEq, Repr

/-- The name of the host and its log, the file with the ids that are saved, and the records passed by
the scans that are over. -/
structure State (ρ : Type) where
  hostname : Str
  log : List (Record ρ)
  file : Option Str
  earlier : List (Record ρ)
  phase : Phase ρ

/-- The records passed by the scan that is going on. -/
def Phase.current : Phase ρ → List (Record ρ)
  | .scanning _ current => current
  | _ => []

/-- The records passed to the callback. -/
def State.passed (s : State ρ) : List (Record ρ) := s.earlier ++ s.phase.current

/-- What happens: a record is appended, a scan begins (if the BMC can be connected), the scan sends
its next command (which may fail), or the collector is destroyed behind a scan that has succeeded.
The fuel is that of loading and saving. -/
inductive Label (ρ : Type) where
  | append (record : Record ρ)
  | start (connected : Bool) (fuel : ℕ)
  | command (answered : Bool)
  | destroy (fuel : ℕ)

/-- A record that may be appended. -/
def Appendable (log : List (Record ρ)) (record : Record ρ) : Prop :=
  record.id ≠ 0 ∧ record.id < 0xffff ∧ record.id ∉ log.map Record.id

instance (log : List (Record ρ)) (record : Record ρ) : Decidable (Appendable log record) :=
  inferInstanceAs (Decidable (_ ∧ _ ∧ _))

/-- A step, and what `scan_new_records` returns if it returns. -/
def step (s : State ρ) : Label ρ → Option (State ρ × Option Bool)
  | .append record =>
    if Appendable s.log record then some ({ s with log := s.log ++ [record] }, none) else none
  | .start connected fuel =>
    match s.phase with
    | .idle =>
      if connected then
        ((PersistSelRecordId.new s.hostname).loadLastRecordId fuel s.file).map fun
          | some persistRecord => ({ s with phase := .scanning (.loaded persistRecord) [] }, none)
          -- `substr` has thrown, and there is no scan
          | none => (s, none)
      else some (s, some false)
    | _ => none
  | .command answered =>
    match s.phase with
    | .scanning collector current =>
      match scanRound (fun request => if answered then getSelEntry s.log request else none)
        collector with
      -- `bad_instance_` is set, and the object is not destroyed
      | .failed => some ({ s with earlier := s.earlier ++ current, phase := .idle }, some false)
      | .more collector record =>
        some ({ s with phase := .scanning collector (current ++ record.toList) }, none)
      | .done persistRecord record =>
        some ({ s with
          earlier := s.earlier ++ current ++ record.toList
          phase := .ended persistRecord }, some true)
    | _ => none
  | .destroy fuel =>
    match s.phase with
    | .ended persistRecord =>
      (persistRecord.saveLatestRecordId fuel s.file).map fun (file, _) =>
        ({ s with file := file, phase := .idle }, none)
    | _ => none

/-- An empty log, and nothing saved for the host, whatever else is in the file. -/
structure Start (s : State ρ) : Prop where
  log : s.log = []
  earlier : s.earlier = []
  phase : s.phase = .idle
  saved : ∀ persistRecord, Loads s.file s.hostname persistRecord → persistRecord.recordId = 0

/-- **The condition.**  A command fails only when the scan has passed no record; the first record is
not asked for when it is the only one; and when a new id is saved, its line can be read back. -/
def Careful (s : State ρ) : Label ρ → Prop
  | .command answered =>
    match s.phase with
    | .scanning collector current =>
      (answered = false → current = []) ∧
      (collector.readFirstRecord = false → collector.lastRecordId = 0 → s.log.length ≠ 1)
    | _ => True
  | .destroy _ =>
    match s.phase with
    | .ended persistRecord =>
      persistRecord.modified = true → Recordable s.hostname persistRecord.recordId
    | _ => True
  | _ => True

instance (s : State ρ) (label : Label ρ) : Decidable (Careful s label) := by
  unfold Careful
  split
  · split <;> infer_instance
  · split <;> infer_instance
  · infer_instance

/-! ## 4. The BMC answers -/

/-- The ids of a log. -/
def GoodIds (log : List (Record ρ)) : Prop :=
  (log.map Record.id).Nodup ∧ ∀ record ∈ log, record.id ≠ 0 ∧ record.id < 0xffff

theorem requestedId_buildCurrentRequest {id} (h : id < 2 ^ 16) :
    ((buildCurrentRequest id).getD 2 0).toNat + 256 * ((buildCurrentRequest id).getD 3 0).toNat =
      id := by
  simp only [buildCurrentRequest, getD_cons_succ, getD_cons_zero, UInt8.toNat_ofNat']
  omega

variable {rest : List (Record ρ)}

theorem nextId_lt (h : ∀ record ∈ rest, record.id < 0xffff) : nextId rest < 2 ^ 16 := by
  cases rest with
  | nil =>
    show endOfRecords < 2 ^ 16
    decide
  | cons record rest =>
    have := h record mem_cons_self
    simp only [nextId, head?_cons, map_some, getD_some]
    omega

/-- The bytes of an answer. -/
theorem response_next {next} (h : next < 2 ^ 16) :
    (UInt8.ofNat (next % 256)).toNat + 256 * (UInt8.ofNat (next / 256)).toNat = next := by
  rw [UInt8.toNat_ofNat', UInt8.toNat_ofNat']
  omega

/-- The record of an id is found where it stands. -/
theorem entryAt_append : ∀ {before : List (Record ρ)} {record : Record ρ} {rest : List (Record ρ)},
    ((before ++ record :: rest).map Record.id).Nodup →
      entryAt (before ++ record :: rest) record.id = some (nextId rest, record)
  | [], record, rest, _ => by simp [entryAt]
  | first :: before, record, rest, h => by
    rw [cons_append, map_cons, nodup_cons] at h
    have hne : first.id ≠ record.id := fun heq => h.1 (by simp [heq])
    rw [cons_append, entryAt, if_neg hne]
    exact entryAt_append h.2

/-- What the BMC has for an id. -/
def lookup (log : List (Record ρ)) (id : ℕ) : Option (ℕ × Record ρ) :=
  if id = 0 then firstEntry log else entryAt log id

/-- The BMC finds a record that is in the log. -/
theorem lookup_next {before next} (h : GoodIds (before ++ next :: rest)) :
    lookup (before ++ next :: rest) next.id = some (nextId rest, next) := by
  have hzero := (h.2 next (by simp)).1
  rw [lookup, if_neg hzero, entryAt_append h.1]

theorem nextId_eq_endOfRecords (h : ∀ record ∈ rest, record.id < 0xffff) :
    nextId rest = endOfRecords ↔ rest = [] := by
  cases rest with
  | nil => simp [nextId]
  | cons record rest =>
    have := h record mem_cons_self
    simp only [nextId, head?_cons, map_some, getD_some, endOfRecords,
      reduceCtorEq, iff_false]
    omega

/-! ## 5. One round -/

section Round

variable {log : List (Record ρ)} {collector : Collector} {id : ℕ}

/-- A command that fails ends the scan. -/
theorem scanRound_unanswered (collector : Collector) :
    scanRound (fun _ => (none : Option (Response ρ))) collector = .failed := by
  rw [scanRound, getNextIpmiSelRecord]
  split_ifs <;> rfl

section

variable (hid : collector.askedId = id)
include hid

/-- There is no such record. -/
theorem scanRound_of_none (hlt : id < 2 ^ 16) (h : lookup log id = none) :
    scanRound (getSelEntry log) collector = .failed := by
  have hcmd : getSelEntry log (buildCurrentRequest id) = none := by
    rw [getSelEntry, requestedId_buildCurrentRequest hlt]
    exact congrArg (Option.map _) h
  rw [scanRound, hid, getNextIpmiSelRecord, hcmd]
  split_ifs <;> rfl

/-- **A record is read**: it is passed if it is not the one that was read last; and the scan ends
if there is no record behind it. -/
theorem scanRound_of_some (hgood : collector.badInstance = false) (hlt : id < 0xffff) {record}
    (h : lookup log id = some (nextId rest, record)) (hrest : ∀ record ∈ rest, record.id < 0xffff) :
    scanRound (getSelEntry log) collector =
      if rest = [] then .done (collector.persistRecord.setRecordId id)
        (if collector.readFirstRecord || id == 0 then some record else none)
      else .more ⟨false, id, nextId rest, true, collector.persistRecord⟩
        (if collector.readFirstRecord || id == 0 then some record else none) := by
  have hcmd : getSelEntry log (buildCurrentRequest id) = some
      ⟨UInt8.ofNat (nextId rest % 256), UInt8.ofNat (nextId rest / 256), record⟩ := by
    rw [getSelEntry, requestedId_buildCurrentRequest (by omega)]
    exact congrArg (Option.map _) h
  have hend : ¬ (id = endOfRecords ∨ collector.badInstance = true) := by
    rintro (rfl | hbad)
    · exact absurd hlt (by decide)
    · rw [hgood] at hbad
      cases hbad
  rw [scanRound, hid, getNextIpmiSelRecord, if_neg hend, hcmd]
  simp only [response_next (nextId_lt hrest), hgood]
  by_cases hnil : rest = []
  · rw [if_pos hnil, if_neg (not_not.mpr ((nextId_eq_endOfRecords hrest).mpr hnil))]
  · rw [if_neg hnil, if_pos (mt (nextId_eq_endOfRecords hrest).mp hnil)]

end

end Round

/-! ## 6. The invariant -/

/-- The id that is saved: that of the last record passed, or 0. -/
def Cursor (recordId : ℕ) (earlier : List (Record ρ)) : Prop :=
  (recordId = 0 ∧ earlier = []) ∨
    ∃ before last, earlier = before ++ [last] ∧ recordId = last.id

/-- A scan that is going on: at its beginning, or about to ask for the next record. -/
def Scanning (log earlier : List (Record ρ)) (collector : Collector)
    (current : List (Record ρ)) : Prop :=
  (collector = .loaded collector.persistRecord ∧ current = []) ∨
    (collector.badInstance = false ∧ collector.readFirstRecord = true ∧
      ∃ next rest, log = earlier ++ current ++ next :: rest ∧ collector.nextRecordId = next.id)

/-- What the file has in a phase.  Between scans, whatever is loaded is the id of the last record
passed.  Until the collector is destroyed, the file is the one it was loaded from. -/
def PhaseInv (log earlier : List (Record ρ)) (file : Option Str) (hostname : Str) : Phase ρ → Prop
  | .idle => ∀ persistRecord, Loads file hostname persistRecord → Cursor persistRecord.recordId earlier
  | .scanning collector current =>
    Loads file hostname collector.persistRecord ∧ Cursor collector.persistRecord.recordId earlier ∧
      Scanning log earlier collector current
  | .ended persistRecord =>
    ∃ loaded id, Loads file hostname loaded ∧ persistRecord = loaded.setRecordId id ∧
      id < 2 ^ 16 ∧ Cursor id earlier

structure Inv (s : State ρ) : Prop where
  ids : GoodIds s.log
  passed : ∃ rest, s.log = s.passed ++ rest
  phase : PhaseInv s.log s.earlier s.file s.hostname s.phase

variable {s : State ρ}

theorem inv_start (h : Start s) : Inv s := by
  obtain ⟨hostname, log, file, earlier, phase⟩ := s
  obtain ⟨rfl, rfl, rfl, hsaved⟩ := h
  exact ⟨⟨nodup_nil, by simp⟩, ⟨[], rfl⟩, fun obj hload => .inl ⟨hsaved obj hload, rfl⟩⟩

theorem goodIds_append {log} {record : Record ρ} (h : GoodIds log)
    (hrecord : Appendable log record) : GoodIds (log ++ [record]) := by
  obtain ⟨hzero, hend, hfresh⟩ := hrecord
  constructor
  · rw [map_append, nodup_append]
    refine ⟨h.1, nodup_singleton _, fun id hid id' hid' heq => ?_⟩
    obtain rfl := List.mem_singleton.mp hid'
    exact hfresh (heq ▸ hid)
  · intro r hr
    rcases mem_append.mp hr with hr | hr
    · exact h.2 r hr
    · obtain rfl := List.mem_singleton.mp hr
      exact ⟨hzero, hend⟩

/-- The log grows. -/
theorem Inv.append (h : Inv s) {record} (hrecord : Appendable s.log record) :
    Inv { s with log := s.log ++ [record] } := by
  obtain ⟨rest, hrest⟩ := h.passed
  refine ⟨goodIds_append h.ids hrecord, ⟨rest ++ [record], ?_⟩, ?_⟩
  · rw [hrest, List.append_assoc]
    rfl
  · have hphase := h.phase
    show PhaseInv (s.log ++ [record]) s.earlier s.file s.hostname s.phase
    cases hcase : s.phase with
    | idle => rwa [hcase] at hphase
    | ended persistRecord => rwa [hcase] at hphase
    | scanning collector current =>
      rw [hcase] at hphase
      obtain ⟨hload, hcursor, hbegin | ⟨hgood, hread, next, rest, hlog, hid⟩⟩ := hphase
      · exact ⟨hload, hcursor, .inl hbegin⟩
      · exact ⟨hload, hcursor, .inr ⟨hgood, hread, next, rest ++ [record], by simp [hlog], hid⟩⟩

/-- A scan begins. -/
theorem Inv.start (h : Inv s) (hidle : s.phase = .idle) {persistRecord}
    (hload : Loads s.file s.hostname persistRecord) :
    Inv { s with phase := .scanning (.loaded persistRecord) [] } := by
  have hcursor : PhaseInv s.log s.earlier s.file s.hostname .idle := hidle ▸ h.phase
  have hpassed : ∃ rest, s.log = s.earlier ++ [] ++ rest := by
    simpa [State.passed, hidle, Phase.current] using h.passed
  obtain ⟨rest, hrest⟩ := hpassed
  exact ⟨h.ids, ⟨rest, hrest⟩, hload, hcursor _ hload, .inl ⟨rfl, rfl⟩⟩

/-- A scan that has passed nothing fails: the next one loads what this one has loaded. -/
theorem Inv.fail (h : Inv s) {collector} (hscan : s.phase = .scanning collector []) :
    Inv { s with earlier := s.earlier ++ [], phase := .idle } := by
  have hphase : PhaseInv s.log s.earlier s.file s.hostname (.scanning collector []) :=
    hscan ▸ h.phase
  obtain ⟨hload, hcursor, -⟩ := hphase
  refine ⟨h.ids, by simpa [State.passed, hscan, Phase.current] using h.passed, ?_⟩
  intro persistRecord hload'
  rw [List.append_nil, hload'.unique hload]
  exact hcursor

/-- **A collector is destroyed**: from now on every load finds the id of the last record passed. -/
theorem Inv.destroy (h : Inv s) {persistRecord} (hended : s.phase = .ended persistRecord)
    (hline : persistRecord.modified = true → Recordable s.hostname persistRecord.recordId) {file}
    (hsave : Saves s.file persistRecord file) : Inv { s with file := file, phase := .idle } := by
  have hphase : PhaseInv s.log s.earlier s.file s.hostname (.ended persistRecord) :=
    hended ▸ h.phase
  obtain ⟨loaded, id, hload, rfl, hid, hcursor⟩ := hphase
  rw [recordId_setRecordId] at hline
  refine ⟨h.ids, by simpa [State.passed, hended, Phase.current] using h.passed, ?_⟩
  intro persistRecord hload'
  rwa [recordId_of_loads_of_saves hid hline hload hsave hload']

/-- **A round of a scan**: it fails, on an empty log; or it passes at most the next record, and it is
over if there is no record behind.  Then the last record passed is the one that was asked for. -/
theorem round_of_scanning {log earlier current : List (Record ρ)} {collector}
    (hids : GoodIds log) (hpassed : ∃ rest, log = earlier ++ current ++ rest)
    (hcursor : Cursor collector.persistRecord.recordId earlier)
    (hscan : Scanning log earlier collector current)
    (hone : collector.readFirstRecord = false → collector.lastRecordId = 0 → log.length ≠ 1) :
    (scanRound (getSelEntry log) collector = .failed ∧ current = []) ∨
      ∃ id record rest, log = earlier ++ current ++ record.toList ++ rest ∧
        (rest = [] → ∃ before last, earlier ++ current ++ record.toList = before ++ [last] ∧
          id = last.id) ∧
        scanRound (getSelEntry log) collector =
          if rest = [] then .done (collector.persistRecord.setRecordId id) record
          else .more ⟨false, id, nextId rest, true, collector.persistRecord⟩ record := by
  rcases hscan with ⟨hloaded, rfl⟩ | ⟨hgood, hread, next, rest, rfl, hnext⟩
  · have hasked : collector.askedId = collector.persistRecord.recordId := by
      rw [hloaded]
      rfl
    have hgood : collector.badInstance = false := by rw [hloaded]; rfl
    have hread : collector.readFirstRecord = false := by rw [hloaded]; rfl
    rcases hcursor with ⟨hzero, rfl⟩ | ⟨before, last, rfl, hlastId⟩
    · rw [hzero] at hasked
      cases log with
      | nil => exact .inl ⟨scanRound_of_none hasked (by decide) rfl, rfl⟩
      | cons first rest =>
        -- the first record is not the only one
        have hrest : rest ≠ [] := by
          rintro rfl
          exact hone hread (by rw [hloaded]; exact hzero) rfl
        refine .inr ⟨0, some first, rest, rfl, fun hnil => absurd hnil hrest, ?_⟩
        have hlookup : lookup (first :: rest) 0 = some (nextId rest, first) := rfl
        have hround := scanRound_of_some hasked hgood (by decide) hlookup
          fun record hrecord => (hids.2 record (mem_cons_of_mem _ hrecord)).2
        simpa [hread] using hround
    · -- the last record is read again, and not passed
      obtain ⟨rest, rfl⟩ := hpassed
      rw [hlastId] at hasked
      simp only [List.append_nil, List.append_assoc, singleton_append] at hids ⊢
      have hlast := hids.2 last (by simp)
      refine .inr ⟨last.id, none, rest, by simp, fun _ => ⟨before, last, by simp, rfl⟩, ?_⟩
      rw [scanRound_of_some hasked hgood hlast.2 (lookup_next hids) fun record hrecord =>
        (hids.2 record (by simp [hrecord])).2]
      simp [hread, hlast.1]
  · have hlt := (hids.2 next (by simp)).2
    have hasked : collector.askedId = next.id := by
      rw [Collector.askedId, if_pos hread, hnext]
    have hround := scanRound_of_some hasked hgood hlt
      (lookup_next hids) fun record hrecord => (hids.2 record (by simp [hrecord])).2
    refine .inr ⟨next.id, some next, rest, by simp,
      fun _ => ⟨earlier ++ current, next, rfl, rfl⟩, ?_⟩
    rw [hround, hread]
    rfl

/-- A command of a scan. -/
theorem Inv.command {s' : State ρ} (h : Inv s) {answered result}
    (hcareful : Careful s (.command answered))
    (hstep : step s (.command answered) = some (s', result)) :
    Inv s' ∧ (result = some true → s'.passed = s'.log) := by
  obtain ⟨hostname, log, file, earlier, phase⟩ := s
  cases phase with
  | idle => cases hstep
  | ended persistRecord => cases hstep
  | scanning collector current =>
    obtain ⟨hfail, hone⟩ := hcareful
    obtain ⟨hload, hcursor, hscanning⟩ := h.phase
    cases answered with
    | false =>
      obtain rfl := hfail rfl
      simp only [step, Bool.false_eq_true, if_false, scanRound_unanswered] at hstep
      cases hstep
      exact ⟨h.fail rfl, by simp⟩
    | true =>
      simp only [step, if_true] at hstep
      rw [show (fun request => getSelEntry log request) = getSelEntry log from rfl] at hstep
      have hpassed : ∃ rest, log = earlier ++ current ++ rest := h.passed
      rcases round_of_scanning h.ids hpassed hcursor hscanning hone with
        ⟨hround, rfl⟩ | ⟨id, record, rest, hlog, hend, hround⟩
      · rw [hround] at hstep
        cases hstep
        exact ⟨h.fail rfl, by simp⟩
      · rw [hround] at hstep
        cases rest with
        | nil =>
          cases hstep
          have hall : log = earlier ++ current ++ record.toList := by simpa using hlog
          obtain ⟨before, last, hlast, rfl⟩ := hend rfl
          have hid := (h.ids.2 last (by simp [hall, hlast])).2
          refine ⟨⟨h.ids, ⟨[], by simpa [State.passed, Phase.current] using hall⟩, ?_⟩, fun _ => ?_⟩
          · exact ⟨_, _, hload, rfl, by omega, .inr ⟨before, last, hlast, rfl⟩⟩
          · simpa [State.passed, Phase.current] using hall.symm
        | cons next rest =>
          cases hstep
          refine ⟨⟨h.ids, ⟨next :: rest, by simpa [State.passed, Phase.current] using hlog⟩,
            hload, hcursor, ?_⟩, by simp⟩
          exact .inr ⟨rfl, rfl, next, rest, by simpa using hlog, rfl⟩

/-- **A step keeps the invariant**, and after a scan that succeeds all records are passed. -/
theorem Inv.step {s'} (h : Inv s) {label result} (hcareful : Careful s label)
    (hstep : step s label = some (s', result)) :
    Inv s' ∧ (result = some true → s'.passed = s'.log) := by
  cases label with
  | append record =>
    rw [SelCollector.step] at hstep
    split at hstep
    · next hrecord =>
      cases hstep
      exact ⟨h.append hrecord, by simp⟩
    · cases hstep
  | start connected fuel =>
    rw [SelCollector.step] at hstep
    cases hphase : s.phase with
    | scanning collector current => simp [hphase] at hstep
    | ended persistRecord => simp [hphase] at hstep
    | idle =>
      rw [hphase] at hstep
      cases connected with
      | true =>
        obtain ⟨loaded, hload, hresult⟩ := map_eq_some_iff.mp hstep
        cases loaded with
        | none =>
          cases hresult
          exact ⟨h, by simp⟩
        | some persistRecord =>
          cases hresult
          exact ⟨h.start hphase ⟨fuel, hload⟩, by simp⟩
      | false =>
        cases hstep
        exact ⟨h, by simp⟩
  | command answered => exact h.command hcareful hstep
  | destroy fuel =>
    rw [SelCollector.step] at hstep
    cases hphase : s.phase with
    | scanning collector current => simp [hphase] at hstep
    | idle => simp [hphase] at hstep
    | ended persistRecord =>
      rw [hphase] at hstep
      obtain ⟨⟨file, saved⟩, hsave, hresult⟩ := map_eq_some_iff.mp hstep
      cases hresult
      simp only [Careful, hphase] at hcareful
      exact ⟨h.destroy hphase hcareful ⟨fuel, saved, hsave⟩, by simp⟩

/-! ## 7. Exactly once -/

/-- The states of the runs in which all goes well. -/
def Runs : State ρ → Prop := Reachable (fun s label => (step s label).map Prod.fst) Start Careful

theorem inv_of_runs (h : Runs s) : Inv s := by
  refine Reachable.invariant (P := Inv) (fun _ => inv_start) (fun s label s' hs hcareful hstep => ?_) h
  obtain ⟨⟨next, result⟩, hnext, rfl⟩ := map_eq_some_iff.mp hstep
  exact (hs.step hcareful hnext).1

/-- **Every record is passed at most once, and in order; and when a scan succeeds, all records of
the log have been passed exactly once.** -/
theorem exactly_once {s : State ρ} (h : Runs s) : (s.passed.Nodup ∧ s.passed.Sublist s.log) ∧
      ∀ label s', Careful s label → step s label = some (s', some true) →
        s'.passed = s'.log ∧ s'.passed.Nodup := by
  have hnodup {s : State ρ} (h : Inv s) : s.log.Nodup := h.ids.1.of_map
  have hinv := inv_of_runs h
  obtain ⟨rest, hrest⟩ := hinv.passed
  have hsublist : s.passed.Sublist s.log := hrest ▸ sublist_append_left _ _
  refine ⟨⟨(hnodup hinv).sublist hsublist, hsublist⟩, fun label s' hcareful hstep => ?_⟩
  obtain ⟨hinv', hall⟩ := hinv.step hcareful hstep
  exact ⟨hall rfl, hall rfl ▸ hnodup hinv'⟩

/-- The start, for a host of this name, without a file. -/
def fresh (hostname : Str) : State Unit := ⟨hostname, [], none, [], .idle⟩

theorem start_fresh (hostname : Str) : Start (fresh hostname) := by
  refine ⟨rfl, rfl, rfl, ?_⟩
  rintro persistRecord ⟨fuel, ⟨⟩⟩
  rfl

/-- Two records are read by a first scan, and a third one by the next. -/
theorem exactly_once_three : ∃ s : State Unit, Runs s ∧ s.passed = [⟨1, ()⟩, ⟨2, ()⟩] ∧
      s.file = some (ofString "node1=2\n") ∧ (s.passed.Nodup ∧ s.passed.Sublist s.log) ∧
      ∃ s', step s (.command true) = some (s', some true) ∧
        s'.passed = [⟨1, ()⟩, ⟨2, ()⟩, ⟨3, ()⟩] ∧ s'.passed = s'.log ∧ s'.passed.Nodup := by
  obtain ⟨s, hs, hpassed, hfile, hcareful, hstep⟩ : ∃ s : State Unit, Runs s ∧
      s.passed = [⟨1, ()⟩, ⟨2, ()⟩] ∧ s.file = some (ofString "node1=2\n") ∧
      Careful s (.command true) ∧ (step s (.command true)).map (fun r => (r.1.passed, r.2)) =
        some ([⟨1, ()⟩, ⟨2, ()⟩, ⟨3, ()⟩], some true) :=
    exists_of_follow (start_fresh (ofString "node1")) [.append ⟨1, ()⟩, .append ⟨2, ()⟩,
      .start true 0, .command true, .command true, .destroy 0, .start false 0, .append ⟨3, ()⟩,
      .start true 4, .command true] (by decide +kernel)
  obtain ⟨⟨s', result⟩, hsome, hresult⟩ := map_eq_some_iff.mp hstep
  obtain ⟨hthree, rfl⟩ := Prod.mk.inj hresult
  exact ⟨s, hs, hpassed, hfile, (exactly_once hs).1, s', hsome, hthree,
    (exactly_once hs).2 _ _ hcareful hsome⟩

/-- A record is passed twice: if it is the only one when it is asked for first; if the scan fails
after it; or if the name of the host has 74 characters, so that 123 is loaded where 1234 was saved. -/
theorem record_is_passed_twice :
    (∃ s : State Unit, Reachable (fun s label => (step s label).map Prod.fst) Start always s ∧
      s.log = [⟨1, ()⟩] ∧ s.passed = [⟨1, ()⟩, ⟨1, ()⟩] ∧ s.phase = .idle) ∧
    (∃ s : State Unit, Reachable (fun s label => (step s label).map Prod.fst) Start always s ∧
      s.log = [⟨1, ()⟩, ⟨2, ()⟩] ∧ s.passed = [⟨1, ()⟩, ⟨1, ()⟩, ⟨2, ()⟩] ∧ s.phase = .idle) ∧
    ∃ s : State Unit, Reachable (fun s label => (step s label).map Prod.fst) Start always s ∧
      s.hostname.length = 74 ∧ s.log = [⟨123, ()⟩, ⟨1234, ()⟩] ∧
      s.passed = [⟨123, ()⟩, ⟨1234, ()⟩, ⟨1234, ()⟩] := by
  refine ⟨?_, ?_, ?_⟩
  · exact exists_of_follow (start_fresh (ofString "node1")) [.append ⟨1, ()⟩, .start true 0,
      .command true, .destroy 0, .start true 4, .command true, .destroy 0] (by decide +kernel)
  · exact exists_of_follow (start_fresh (ofString "node1")) [.append ⟨1, ()⟩, .append ⟨2, ()⟩,
      .start true 0, .command true, .command false, .start true 0, .command true, .command true,
      .destroy 0] (by decide +kernel)
  · -- the second scan asks for 123, and passes what is behind it
    exact exists_of_follow (start_fresh (replicate 74 120)) [.append ⟨123, ()⟩,
      .append ⟨1234, ()⟩, .start true 0, .command true, .command true, .destroy 0, .start true 4,
      .command true, .command true] (by decide +kernel)

end Sensys.Orcm.SelCollector
