/-
# The file with the last record ids

`orcm/mca/sensor/ipmi/persist_sel_record_id.cpp`: for every host the id of the last record of its
event log that was read, in a text file with lines `host=id`.  An object is for one host; it loads
the id of the host from the file, it may be given a new one, and it saves that by copying the file.

The file is read with a buffer of 80 characters and a loop that looks at `eof()` only
(`Istream.eachLine`).  So both functions may not end; a function here takes `fuel`, and `none` means
that it is not enough.  Loading may also end with an exception: `substr` throws when the value of the
host has no digit.

A file that is there can be opened, and what is written gets into the file; temporary and backup
files are not modelled.
-/
import Mathlib.Data.List.DropRight
import Sensys.Lib.Istream

namespace Sensys.Orcm.PersistSel

open CString

/-! ## 1. Lines -/

/-- `MAX_LINE_SIZE`. -/
def maxLineSize : ℕ := 80

/-- The blanks of `str_trim`. -/
def isBlank (c : UInt8) : Bool := [10, 13, 12, 11, 9, 32].contains c

/-- `str_trim`. -/
def strTrim (str : Str) : Str := (str.dropWhile isBlank).rdropWhile isBlank

/-- What `get_stream_line` makes of the buffer. -/
def streamLine (buffer : Str) : Str := strTrim (buffer.takeWhile (· != 0))

/-- `str_equals_split`. -/
def strEqualsSplit (inStr : Str) : Str × Str :=
  if inStr.contains 61 then
    (strTrim (inStr.takeWhile (· != 61)), strTrim (inStr.dropWhile (· != 61)).tail)
  else ([], [])

/-- `set_record_id_from_str`; `none` is the exception of `substr`. -/
def recordIdOfStr (val : Str) : Option ℕ :=
  if val.any isDigit then
    let number := (val.dropWhile fun c => !isDigit c).rdropWhile fun c => !isDigit c
    some ((strtol number).1 % 2 ^ 16).toNat
  else none

/-- A line of the file. -/
def entry (hostname : Str) (recordId : ℕ) : Str := hostname ++ 61 :: decimal recordId

/-! ## 2. Loading and saving -/

/-- `persist_sel_record_id`, which has been given the name of a file. -/
structure PersistSelRecordId where
  hostname : Str
  recordId : ℕ
  modified : Bool
  deriving DecidableEq, Repr

namespace PersistSelRecordId

/-- The constructor. -/
def new (hostname : Str) : PersistSelRecordId := ⟨hostname, 0, false⟩

/-- The loop of `load_last_record_id`: it is left with the value of the host. -/
def loadLine (hostname : Str) (_ : Unit) (buffer : Str) : Unit ⊕ Str :=
  let line := streamLine buffer
  if line.isEmpty then .inl ()
  else
    let (name, val) := strEqualsSplit line
    if name = hostname then .inr val else .inl ()

/-- `load_last_record_id`; a file that is not there has no id. -/
def loadLastRecordId (fuel : ℕ) (file : Option Str) (obj : PersistSelRecordId) :
    Option (Option PersistSelRecordId) :=
  match file with
  | none => some (some obj)
  | some content =>
    (Istream.eachLine (maxLineSize - 1) (loadLine obj.hostname) fuel ()
      (Istream.ofContent content)).map fun
        | .inl _ => some obj
        | .inr val => (recordIdOfStr val).map fun recordId => { obj with recordId := recordId }

/-- `set_record_id`. -/
def setRecordId (recordId : ℕ) (obj : PersistSelRecordId) : PersistSelRecordId :=
  if recordId ≠ obj.recordId then { obj with recordId := recordId, modified := true } else obj

/-- The loop of `copy_with_replace`: has the entry been written, and what has. -/
def copyLine (hostname : Str) (recordId : ℕ) (state : Bool × Str) (buffer : Str) :
    (Bool × Str) ⊕ Empty :=
  let line := streamLine buffer
  if line.isEmpty then .inl state
  else
    let (name, val) := strEqualsSplit line
    if name = hostname then .inl (true, state.2 ++ entry hostname recordId ++ [10])
    else if !name.isEmpty && !val.isEmpty then
      .inl (state.1, state.2 ++ (name ++ 61 :: val) ++ [10])
    else .inl state

/-- `copy_with_replace`. -/
def copyWithReplace (fuel : ℕ) (obj : PersistSelRecordId) (content : Str) : Option Str :=
  (Istream.eachLine (maxLineSize - 1) (copyLine obj.hostname obj.recordId) fuel (false, [])
    (Istream.ofContent content)).bind fun
      | .inl (updated, out) =>
        some (if updated then out else out ++ entry obj.hostname obj.recordId ++ [10])
      | .inr e => e.elim

/-- `save_latest_record_id`. -/
def saveLatestRecordId (fuel : ℕ) (file : Option Str) (obj : PersistSelRecordId) :
    Option (Option Str × PersistSelRecordId) :=
  if obj.modified then
    match file with
    | none => some (some (entry obj.hostname obj.recordId ++ [10]), { obj with modified := false })
    | some content =>
      (copyWithReplace fuel obj content).map fun content =>
        (some content, { obj with modified := false })
  else some (file, obj)

end PersistSelRecordId

/-! ## 3. What it means that a call returns -/

/-- A new object for the host loads the file, and becomes `obj`. -/
def Loads (file : Option Str) (hostname : Str) (obj : PersistSelRecordId) : Prop :=
  ∃ fuel, (PersistSelRecordId.new hostname).loadLastRecordId fuel file = some (some obj)

/-- An object saves its id, and the file becomes `file'`. -/
def Saves (file : Option Str) (obj : PersistSelRecordId) (file' : Option Str) : Prop :=
  ∃ fuel obj', obj.saveLatestRecordId fuel file = some (file', obj')

/-- **A fresh load for the host yields the id.** -/
def Yields (file : Option Str) (hostname : Str) (recordId : ℕ) : Prop :=
  ∃ obj, Loads file hostname obj ∧ obj.recordId = recordId

end Sensys.Orcm.PersistSel
