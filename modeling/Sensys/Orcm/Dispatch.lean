/-
# Events on their way to the database

`orcm/mca/dispatch/dfg/dispatch_dfg.c`: what is done with a RAS event depends on the `storage_type`
items of its description.  It may be sent to the notifier, handed to the database, or both; and an
exception is also handed to the database when `store_event_data` is set.

For the database the event becomes one list: its type, severity and time, and the items of its
reporter, its description and its data.  These are MOVED into the list (`opal_list_join`), so an
event that is handed over a second time has nothing left to give.  Every list is complete unless
that happens (`lists_complete_iff`).

The data of a value is a union.  What the code reads when it takes a member that was not set is
anything (`Reading`).  The database answers with the number of a thread, which is negative on
failure (`store`).
-/
import Mathlib.Data.List.Perm.Subperm
import Sensys.Orcm.RasEvent

namespace Sensys.Orcm.Dispatch

open CString Analytics List

variable {τ : Type}

/-! ## 1. The list for the database -/

/-- `orcm_dispatch_base_print_type`. -/
def printType (t : ℤ) : Str :=
  if t = 0 then ofString "SENSOR"
  else if t = 1 then ofString "EXCEPTION"
  else if t = 2 then ofString "COUNTER"
  else if t = 3 then ofString "TRANSITION"
  else if t = 4 then ofString "CHASSIS_ID_LED"
  else ofString "UNKNOWN"

/-- `orcm_dispatch_base_print_severity`. -/
def printSeverity (s : ℤ) : Str :=
  if s = 0 then ofString "EMERGENCY"
  else if s = 1 then ofString "ALERT"
  else if s = 2 then ofString "CRITICAL"
  else if s = 3 then ofString "ERROR"
  else if s = 4 then ofString "WARNING"
  else if s = 5 then ofString "NOTICE"
  else if s = 6 then ofString "INFO"
  else if s = 7 then ofString "DEBUG"
  else ofString "UNKNOWN"

/-- The item with the type of an event. -/
def typeItem (ecd : RasEvent τ) : EventValue τ :=
  ⟨some (ofString "type"), .string (some (printType ecd.type)), none⟩

/-- The item with the severity of an event. -/
def severityItem (ecd : RasEvent τ) : EventValue τ :=
  ⟨some (ofString "severity"), .string (some (printSeverity ecd.severity)), none⟩

/-- The item with the time of an event. -/
def timeItem (ecd : RasEvent τ) : EventValue τ :=
  ⟨some (ofString "ctime"), .timeval ⟨ecd.timestamp, 0⟩, none⟩

/-- The event without its items. -/
def emptied (ecd : RasEvent τ) : RasEvent τ :=
  { ecd with reporter := [], description := [], data := [] }

/-- `dfg_convert_event_data_to_list`: the list, and what is left of the event.  Each of the three
lists is joined in before the time. -/
def convertEventDataToList (ecd : RasEvent τ) : List (EventValue τ) × RasEvent τ :=
  ([typeItem ecd, severityItem ecd] ++ ecd.reporter ++ ecd.description ++ ecd.data ++ [timeItem ecd],
    emptied ecd)

/-! ## 2. Effects -/

/-- `ORCM_DB_ENV_DATA` and `ORCM_DB_EVENT_DATA`. -/
inductive Database where
  | env
  | event
  deriving DecidableEq, Repr

/-- What is done with an event. -/
inductive Effect (τ : Type) where
  | store (database : Database) (inputList : List (EventValue τ))
  | commit (threadId : ℤ)
  | notify (severity : ℤ) (msg action : Str)
  | exec (name : Str) (argv : Option Str)
  deriving DecidableEq, Repr

/-- What is read of a value that holds something else. -/
structure Reading (τ : Type) where
  string : EventData τ → Option Str
  uint : EventData τ → UInt32

/-- `data.string`. -/
def Reading.stringOf (reading : Reading τ) : EventData τ → Option Str
  | .string text => text
  | data => reading.string data

/-- `data.uint`. -/
def Reading.uintOf (reading : Reading τ) : EventData τ → UInt32
  | .uint n => n
  | data => reading.uint data

/-- The settings, and the answers of the database. -/
structure Env (τ : Type) where
  reading : Reading τ
  storeEventData : Bool
  sensorDbCommitRate : ℤ
  store : Database → List (EventValue τ) → ℤ

variable (env : Env τ)

/-- `dfg_generate_database_event`; `counts` is `env_db_commit_count`. -/
def generateDatabaseEvent (counts : ℤ → ℤ) (inputList : List (EventValue τ)) (dataType : ℤ) :
    List (Effect τ) × (ℤ → ℤ) :=
  if dataType = rasEventSensor then
    let threadId := env.store .env inputList
    if threadId < 0 then ([.store .env inputList], counts)
    else if 1 < env.sensorDbCommitRate then
      if env.sensorDbCommitRate = counts threadId + 1 then
        ([.store .env inputList, .commit threadId], Function.update counts threadId 0)
      else ([.store .env inputList], Function.update counts threadId (counts threadId + 1))
    else ([.store .env inputList], counts)
  else ([.store .event inputList], counts)

/-- `dfg_convert_and_log_data_to_db`. -/
def convertAndLogDataToDb (counts : ℤ → ℤ) (ecd : RasEvent τ) :
    List (Effect τ) × (ℤ → ℤ) × RasEvent τ :=
  let (inputList, ecd) := convertEventDataToList ecd
  let (effects, counts) := generateDatabaseEvent env counts inputList ecd.type
  (effects, counts, ecd)

/-- What a notification needs. -/
structure Notice where
  msg : Option Str
  action : Option Str
  execName : Option Str
  execArgv : Option Str
  deriving DecidableEq, Repr

/-- One item of `dfg_iterate_ras_desc`: the first text of each key is taken. -/
def Notice.take (notice : Notice) (key : Str) (string : Option Str) : Notice :=
  if key = ofString "notifier_msg" then { notice with msg := notice.msg.or string }
  else if key = ofString "notifier_action" then { notice with action := notice.action.or string }
  else if key = ofString "exec_name" then { notice with execName := notice.execName.or string }
  else if key = ofString "exec_argv" then { notice with execArgv := notice.execArgv.or string }
  else notice

/-- `dfg_iterate_ras_desc`. -/
def iterateRasDesc : List (EventValue τ) → Notice → Except Rc Notice
  | [], notice =>
    if notice.msg = none ∨ notice.action = none then .error .error else .ok notice
  | item :: description, notice =>
    match item.key with
    | none => .error .errBadParam
    | some key =>
      iterateRasDesc description (notice.take key (env.reading.stringOf item.data))

/-- `dfg_generate_notifier_event`.  Any beginning of `exec` is the action that starts a program. -/
def generateNotifierEvent (ecd : RasEvent τ) : List (Effect τ) :=
  match iterateRasDesc env ecd.description ⟨none, none, none, none⟩ with
  | .error _ => []
  | .ok notice =>
    let action := notice.action.getD []
    if rasSeverityEmerg ≤ ecd.severity ∧ ecd.severity < rasSeverityUnknown then
      if action.isPrefixOf (ofString "exec") then
        notice.execName.toList.map fun name => .exec name notice.execArgv
      else [.notify ecd.severity (notice.msg.getD []) action]
    else []

/-! ## 3. One event -/

/-- `ORCM_STORAGE_TYPE_*`. -/
def storageTypeDatabase : UInt32 := 0
def storageTypeNotification : UInt32 := 1

/-- The loop of `dfg_generate_storage_events`: is the event to go to the database? -/
def storageItems (ecd : RasEvent τ) : List (EventValue τ) → Bool → Bool × List (Effect τ)
  | [], rawDb => (rawDb, [])
  | item :: description, rawDb =>
    match item.key with
    | none => (rawDb, [])
    | some key =>
      if key = ofString "storage_type" then
        let storageType := env.reading.uintOf item.data
        if storageType = storageTypeNotification then
          let (rawDb, effects) := storageItems ecd description rawDb
          (rawDb, generateNotifierEvent env ecd ++ effects)
        else storageItems ecd description (rawDb || decide (storageType = storageTypeDatabase))
      else storageItems ecd description rawDb

/-- `dfg_generate_storage_events`. -/
def generateStorageEvents (counts : ℤ → ℤ) (ecd : RasEvent τ) :
    List (Effect τ) × (ℤ → ℤ) × RasEvent τ :=
  let (rawDb, notices) := storageItems env ecd ecd.description false
  let (raw, counts, ecd) :=
    if rawDb then convertAndLogDataToDb env counts ecd else ([], counts, ecd)
  let isValidEventType := decide (ecd.type = rasEventException ∨ ecd.type = rasEventChassisIdLed)
  let (stored, counts, ecd) :=
    if isValidEventType && env.storeEventData then convertAndLogDataToDb env counts ecd
    else ([], counts, ecd)
  (notices ++ raw ++ stored, counts, ecd)

/-! ## 4. Complete lists -/

/-- **The list has everything of the event**, each item as often as the event. -/
def Complete (ecd : RasEvent τ) (inputList : List (EventValue τ)) : Prop :=
  (typeItem ecd :: severityItem ecd :: timeItem ecd ::
    (ecd.reporter ++ ecd.description ++ ecd.data)).Subperm inputList

/-- A `storage_type` for the database, before any item without a key. -/
def AsksForDatabase (ecd : RasEvent τ) : Prop :=
  ∃ item ∈ ecd.description.takeWhile (·.key.isSome), item.key = some (ofString "storage_type") ∧
    env.reading.uintOf item.data = storageTypeDatabase

/-- An exception, or the LED of a chassis. -/
def Exceptional (ecd : RasEvent τ) : Prop :=
  ecd.type = rasEventException ∨ ecd.type = rasEventChassisIdLed

variable (ecd : RasEvent τ)

theorem complete_convert : Complete ecd (convertEventDataToList ecd).1 := by
  have htime := perm_append_singleton (timeItem ecd)
    (ecd.reporter ++ ecd.description ++ ecd.data)
  exact ((htime.symm.cons _).cons _).subperm

/-- The notifier stores nothing. -/
theorem store_notMem_generateNotifierEvent (database inputList) :
    Effect.store database inputList ∉ generateNotifierEvent env ecd := by
  rw [generateNotifierEvent]
  split
  · simp
  · simp only
    split_ifs <;> simp

/-- What the loop finds: the notices do not store, and the flag is set by an item for the
database. -/
theorem storageItems_spec : ∀ description rawDb,
    (∀ database inputList,
      Effect.store database inputList ∉ (storageItems env ecd description rawDb).2) ∧
    ((storageItems env ecd description rawDb).1 = true ↔ rawDb = true ∨
      ∃ item ∈ description.takeWhile (·.key.isSome), item.key = some (ofString "storage_type") ∧
        env.reading.uintOf item.data = storageTypeDatabase)
  | [], rawDb => by simp [storageItems]
  | item :: description, rawDb => by
    cases hkey : item.key with
    | none => simp [storageItems, hkey]
    | some key =>
      obtain ⟨hstores, hflag⟩ := storageItems_spec description rawDb
      by_cases hstorage : key = ofString "storage_type"
      · by_cases hnotify : env.reading.uintOf item.data = storageTypeNotification
        · have hother : storageTypeNotification ≠ storageTypeDatabase := by decide
          simp only [storageItems, hkey, hstorage, hnotify, if_true, mem_append, not_or]
          refine ⟨fun database inputList =>
            ⟨store_notMem_generateNotifierEvent env ecd database inputList,
              hstores database inputList⟩, ?_⟩
          simp [hflag, hkey, hnotify, hother]
        · obtain ⟨hstores', hflag'⟩ := storageItems_spec description
            (rawDb || decide (env.reading.uintOf item.data = storageTypeDatabase))
          simp only [storageItems, hkey, hstorage, hnotify, if_true, if_false]
          refine ⟨hstores', ?_⟩
          simp [hflag', hkey, hstorage, or_assoc]
      · simp only [storageItems, hkey, hstorage, if_false]
        refine ⟨hstores, ?_⟩
        simp [hflag, hkey, hstorage]

variable (counts : ℤ → ℤ)

/-- One list is stored. -/
theorem exists_store_mem_convertAndLog (ecd : RasEvent τ)
    (inputList : List (EventValue τ)) :
    (∃ database, Effect.store database inputList ∈ (convertAndLogDataToDb env counts ecd).1) ↔
      inputList = (convertEventDataToList ecd).1 := by
  simp only [convertAndLogDataToDb, generateDatabaseEvent]
  split_ifs <;> simp

/-- The second list lacks the items of the event. -/
theorem not_complete_emptied {ecd : RasEvent τ} (h : ecd.description ≠ []) :
    ¬ Complete ecd (convertEventDataToList (emptied ecd)).1 := by
  intro hcomplete
  have hlength := hcomplete.length_le
  have hpos := List.length_pos_iff.mpr h
  simp only [convertEventDataToList, emptied, List.append_nil, length_cons,
    length_append, length_nil] at hlength
  omega

/-- **What is stored**: the list of the event if it asks for it, and the list of what is left if it
is exceptional. -/
theorem exists_store_mem_generateStorageEvents (ecd : RasEvent τ)
    (inputList : List (EventValue τ)) : (∃ database,
        Effect.store database inputList ∈ (generateStorageEvents env counts ecd).1) ↔
      AsksForDatabase env ecd ∧ inputList = (convertEventDataToList ecd).1 ∨
      (Exceptional ecd ∧ env.storeEventData = true) ∧
        (AsksForDatabase env ecd ∧ inputList = (convertEventDataToList (emptied ecd)).1 ∨
          ¬ AsksForDatabase env ecd ∧ inputList = (convertEventDataToList ecd).1) := by
  obtain ⟨hnotices, hflag⟩ := storageItems_spec env ecd ecd.description false
  rw [generateStorageEvents]
  generalize storageItems env ecd ecd.description false = items at hnotices hflag ⊢
  obtain ⟨rawDb, notices⟩ := items
  have hasks : rawDb = true ↔ AsksForDatabase env ecd := by
    rw [hflag, AsksForDatabase]
    simp
  rw [← hasks]
  have hnotice (database) : Effect.store database inputList ∉ notices := hnotices _ _
  have hlog := exists_store_mem_convertAndLog env counts ecd inputList
  have hlog' := exists_store_mem_convertAndLog env (convertAndLogDataToDb env counts ecd).2.1
    (emptied ecd) inputList
  have hleft : (convertAndLogDataToDb env counts ecd).2.2 = emptied ecd := rfl
  have hsame : (emptied ecd).type = ecd.type := rfl
  unfold Exceptional
  by_cases htype : ecd.type = rasEventException ∨ ecd.type = rasEventChassisIdLed
  · cases hstore : env.storeEventData with
    | false => cases rawDb <;> simp [hnotice, hlog]
    | true => cases rawDb <;> simp [htype, hnotice, hlog, hleft, hsame, hlog', exists_or]
  · cases rawDb <;> simp [htype, hnotice, hlog, hleft, hsame]

/-- **Everything that is stored is complete.** -/
def ListsComplete (counts : ℤ → ℤ) (ecd : RasEvent τ) : Prop :=
  ∀ database inputList,
    Effect.store database inputList ∈ (generateStorageEvents env counts ecd).1 →
      Complete ecd inputList

/-- **The lists are complete unless the event is handed over twice.** -/
theorem lists_complete_iff (counts : ℤ → ℤ) (ecd : RasEvent τ) : ListsComplete env counts ecd ↔
      ¬ (AsksForDatabase env ecd ∧ Exceptional ecd ∧ env.storeEventData = true) := by
  constructor
  · rintro hcomplete ⟨hasks, hexceptional⟩
    have hne : ecd.description ≠ [] := by
      intro hnil
      obtain ⟨item, hitem, -⟩ := hasks
      simp [hnil] at hitem
    obtain ⟨database, hmem⟩ := (exists_store_mem_generateStorageEvents env counts ecd _).mpr
      (.inr ⟨hexceptional, .inl ⟨hasks, rfl⟩⟩)
    exact not_complete_emptied hne (hcomplete database _ hmem)
  · intro honce database inputList hmem
    rcases (exists_store_mem_generateStorageEvents env counts ecd _).mp ⟨database, hmem⟩ with
      ⟨-, rfl⟩ | ⟨hexceptional, ⟨hasks, -⟩ | ⟨-, rfl⟩⟩
    · exact complete_convert ecd
    · exact absurd ⟨hasks, hexceptional⟩ honce
    · exact complete_convert ecd

/-- An exception for the database, with `store_event_data` set: the second list has three items. -/
theorem second_list_is_empty : let reading : Reading Unit := ⟨fun _ => none, fun _ => 0⟩
    let env : Env Unit := ⟨reading, true, 1, fun _ _ => 0⟩
    let ecd : RasEvent Unit :=
      { reporter := [⟨some (ofString "hostname"), .string (some (ofString "node1")), none⟩]
        type := rasEventException
        timestamp := 100
        severity := 3
        description := [⟨some (ofString "storage_type"), .uint storageTypeDatabase, none⟩]
        data := [⟨some (ofString "temp"), .uint 90, some (ofString "C")⟩] }
    Effect.store .event [typeItem ecd, severityItem ecd, timeItem ecd] ∈
        (generateStorageEvents env (fun _ => 0) ecd).1 ∧
      ¬ ListsComplete env (fun _ => 0) ecd := by
  intro reading env ecd
  have hmem : Effect.store .event [typeItem ecd, severityItem ecd, timeItem ecd] ∈
      (generateStorageEvents env (fun _ => 0) ecd).1 := by decide +kernel
  refine ⟨hmem, fun hcomplete => ?_⟩
  have hlength := (hcomplete _ _ hmem).length_le
  exact absurd hlength (by decide)

end Sensys.Orcm.Dispatch
