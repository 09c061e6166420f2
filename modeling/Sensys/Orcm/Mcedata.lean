/-
# Collecting machine checks from a log file

`orcm/mca/sensor/mcedata/sensor_mcedata.c`: the records that `mcelog` writes into a log file are
read and packed.  A record is several lines, in the order of a template, with other lines among
them.  A collection takes the size of the file, reads from the position where the last collection
ended, one record after the other, until it is beyond that size or at the end of the file, and then
saves the SIZE as its position.

The file may grow at any moment.  So a run is a sequence of steps: something is appended, a
collection starts, or the collection that is going on calls `getline`, which sees the file as it is
then.  `started` is a history variable: the log when the last collection started.

The log is the list of what was appended: records (`LogRecord`, which carries what makes its lines
one) and other lines.
-/
import Sensys.Lib.Run
import Sensys.Lib.Stdio
import Sensys.Lib.Strtoull

namespace Sensys.Orcm.Mcedata

open CString Stdio List

/-! ## 1. The template -/

/-- `mcelogTag`. -/
inductive Tag where
  | cpu | bank | misc | addr | status | mcgstatus | time | socketid | mcgcap
  deriving DecidableEq, Repr

/-- The order of the template. -/
def Tag.all : List Tag :=
  [.cpu, .bank, .misc, .addr, .status, .mcgstatus, .time, .socketid, .mcgcap]

/-- `log_line_token`. -/
def logLineToken : Tag → Str
  | .cpu => ofString " CPU "
  | .bank => ofString " BANK "
  | .misc => ofString " MISC "
  | .addr => ofString " ADDR "
  | .status => ofString " STATUS "
  | .mcgstatus => ofString " MCGSTATUS "
  | .time => ofString " TIME "
  | .socketid => ofString " SOCKETID "
  | .mcgcap => ofString " MCGCAP "

/-- The line as a C string. -/
def cString (line : Str) : Str := line.takeWhile (· != 0)

/-- The test of `get_log_lines` on a line. -/
def takes (tag : Tag) (line : Str) : Bool :=
  (strstr (cString line) (ofString "mcelog")).isSome &&
    (strstr (cString line) (logLineToken tag)).isSome

/-- One round of the loop in `get_log_lines`: the lines that have been taken for the record, in the
order of the template.  Their number is `nextTag`. -/
def getLogLine (logLines : List Str) (line : Str) : List Str :=
  match Tag.all[logLines.length]? with
  | some nextTag => if takes nextTag line then logLines ++ [line] else logLines
  | none => logLines

/-! ## 2. The registers -/

/-- What `collect_mcedata_sample` skips before it reads a number. -/
def Tag.skip : Tag → Str
  | .cpu => ofString " CPU"
  | .bank => ofString " BANK"
  | .misc => ofString " MISC"
  | .addr => ofString " ADDR"
  | .status => ofString " STATUS 0x"
  | .mcgstatus => ofString " MCGSTATUS 0x"
  | .time => ofString " TIME"
  | .socketid => ofString " SOCKETID"
  | .mcgcap => ofString " MCGCAP"

/-- The base in which it reads the number. -/
def Tag.base : Tag → ℕ
  | .cpu => 16
  | .bank => 16
  | .misc => 0
  | .addr => 0
  | .status => 16
  | .mcgstatus => 0
  | .time => 0
  | .socketid => 0
  | .mcgcap => 0

/-- `strtoull(loc+strlen(...), NULL, ...)`. -/
def parse (tag : Tag) (line : Str) : ℕ :=
  let loc := (strstr (cString line) (logLineToken tag)).getD []
  strtoull tag.base (loc.drop tag.skip.length)

/-- What is packed of a record: `mce_reg`, and the two ids as `OPAL_UINT`. -/
structure Packed where
  mceReg : List ℕ
  cpu : ℕ
  socket : ℕ
  deriving DecidableEq, Repr

/-- The lines of the registers, in the order of `mce_reg`. -/
def registerTags : List Tag := [.mcgstatus, .mcgcap, .status, .addr, .misc]

/-- The packing in `collect_mcedata_sample`. -/
def packRecord (logLines : List Str) : Packed :=
  let line (tag : Tag) := logLines.getD (Tag.all.idxOf tag) []
  { mceReg := registerTags.map fun tag => parse tag (line tag)
    cpu := parse .cpu (line .cpu) % 2 ^ 32
    socket := parse .socketid (line .socketid) % 2 ^ 32 }

/-! ## 3. What is in the log -/

/-- A line that is no line of a record. -/
structure Unrelated (line : Str) : Prop where
  isLine : IsLine line
  takes_eq_false : ∀ tag, takes tag line = false

/-- The line has a hexadecimal number of 64 bits behind the token. -/
structure Logged (tag : Tag) (line digits : Str) : Prop where
  ne_nil : digits ≠ []
  hex : ∀ c ∈ digits, isDigitIn 16 c = true
  fits : valueIn 16 digits ≤ ullongMax
  text : ∃ rest, strstr (cString line) (logLineToken tag) =
      some (logLineToken tag ++ ofString "0x" ++ (digits ++ rest)) ∧
    ∀ c, rest.head? = some c → digitValue c = 36

/-- A whole record: its lines, the unrelated lines before each of them, and the numbers of the
registers. -/
structure LogRecord where
  noise : Tag → List Str
  line : Tag → Str
  digits : Tag → Str
  unrelated : ∀ tag, ∀ l ∈ noise tag, Unrelated l
  isLine : ∀ tag, IsLine (line tag)
  takes_line : ∀ tag, takes tag (line tag) = true
  logged : ∀ tag ∈ registerTags, Logged tag (line tag) (digits tag)

/-- The lines as they stand in the log. -/
def LogRecord.lines (r : LogRecord) : List Str :=
  Tag.all.flatMap fun tag => r.noise tag ++ [r.line tag]

/-- **The numbers that are logged for the registers.** -/
def LogRecord.registers (r : LogRecord) : List ℕ :=
  registerTags.map fun tag => valueIn 16 (r.digits tag)

/-- What is appended to the log. -/
inductive Entry where
  | chatter (line : Str) (h : Unrelated line)
  | record (r : LogRecord)

def Entry.lines : Entry → List Str
  | .chatter line _ => [line]
  | .record r => r.lines

def Entry.record? : Entry → Option LogRecord
  | .chatter _ _ => none
  | .record r => some r

/-- The records of a log. -/
def records (log : List Entry) : List LogRecord := log.filterMap Entry.record?

/-- What is in the file. -/
def text (log : List Entry) : Str := (log.flatMap Entry.lines).flatten

/-- The last thing in the log is a record. -/
def endsWithRecord (log : List Entry) : Bool :=
  (log.getLast?.bind Entry.record?).isSome

/-! ## 4. Runs -/

/-- A collection that is going on: `tot_bytes`, the position in the file, and `log_lines`. -/
structure Reading where
  totBytes : ℕ
  pos : ℕ
  logLines : List Str

structure State where
  log : List Entry
  logFilePos : ℕ
  packed : List Packed
  reading : Option Reading
  started : List Entry

/-- `update_log_file_size`: the size, and the position, which is reset if the file is shorter. -/
def updateLogFileSize (content : Str) (logFilePos : ℕ) : ℕ × ℕ :=
  (content.length, if content.length < logFilePos then 0 else logFilePos)

/-- `while (ftell(fp) < tot_bytes)`, and what is done at the end. -/
def whileHead (s : State) (totBytes pos : ℕ) : State :=
  if pos < totBytes then { s with reading := some ⟨totBytes, pos, []⟩ }
  else { s with logFilePos := totBytes, reading := none }

inductive Label where
  | append (entry : Entry)
  | collect
  | getline

/-- One step of `collect_mcedata_sample`, or of the log. -/
def step (s : State) : Label → Option State
  | .append entry => some { s with log := s.log ++ [entry] }
  | .collect =>
    match s.reading with
    | some _ => none
    | none =>
      let (totBytes, logFilePos) := updateLogFileSize (text s.log) s.logFilePos
      some (whileHead { s with logFilePos := logFilePos, started := s.log } totBytes logFilePos)
  | .getline =>
    match s.reading with
    | none => none
    | some ⟨totBytes, pos, logLines⟩ =>
      match Stdio.getline (text s.log) pos with
      -- a record that is not complete is dropped, and the loop is left
      | none => some { s with logFilePos := totBytes, reading := none }
      | some (line, pos) =>
        let logLines := getLogLine logLines line
        if logLines.length < Tag.all.length then
          some { s with reading := some ⟨totBytes, pos, logLines⟩ }
        else
          some (whileHead { s with packed := s.packed ++ [packRecord logLines] } totBytes pos)

/-- An empty log. -/
def Start (s : State) : Prop := s = ⟨[], 0, [], none, []⟩

/-- The number for `MCGSTATUS` is one that is read right: a digit, or zeros and an octal digit. -/
def ExactStatus (r : LogRecord) : Prop :=
  valueIn 16 (r.digits .mcgstatus) < if (r.digits .mcgstatus).head? = some 48 then 8 else 10

instance (r : LogRecord) : Decidable (ExactStatus r) := inferInstanceAs (Decidable (_ < _))

/-- **The condition.**  `MCGSTATUS` is read right; and a record is appended during a collection only
if the log ended with a record when that started. -/
def Careful (s : State) : Label → Prop
  | .append (.record r) =>
    ExactStatus r ∧ (s.reading.isSome = true → endsWithRecord s.started = true)
  | .append (.chatter _ _) => True
  | .collect => True
  | .getline => True

instance (s : State) : (label : Label) → Decidable (Careful s label)
  | .append (.record _) => inferInstanceAs (Decidable (_ ∧ (_ → _)))
  | .append (.chatter _ _) => isTrue trivial
  | .collect => isTrue trivial
  | .getline => isTrue trivial

/-! ## 5. What is packed of a record -/

section Parse

variable {tag : Tag} {line digits : Str}

/-- The numbers that are read with their `0x`. -/
theorem parse_zero_hex (h : Logged tag line digits) (hbase : tag.base = 0)
    (hskip : logLineToken tag ++ ofString "0x" = tag.skip ++ [32, 48, 120]) :
    parse tag line = valueIn 16 digits := by
  obtain ⟨rest, htext, hrest⟩ := h.text
  rw [parse, htext, hskip, hbase, Option.getD_some, List.append_assoc, drop_left]
  exact strtoull_zero_hex h.ne_nil h.hex hrest h.fits

/-- The number that is read behind its `0x` in base 16. -/
theorem parse_hex (h : Logged tag line digits) (hbase : tag.base = 16)
    (hskip : logLineToken tag ++ ofString "0x" = tag.skip) :
    parse tag line = valueIn 16 digits := by
  obtain ⟨rest, htext, hrest⟩ := h.text
  rw [parse, htext, hskip, hbase, Option.getD_some, drop_left]
  exact strtoull_hex h.ne_nil h.hex hrest h.fits

/-- **The number that is read behind its `0x` in base 0.** -/
theorem parse_zero_iff (h : Logged tag line digits) (hbase : tag.base = 0)
    (hskip : logLineToken tag ++ ofString "0x" = tag.skip) : parse tag line = valueIn 16 digits ↔
      valueIn 16 digits < if digits.head? = some 48 then 8 else 10 := by
  obtain ⟨rest, htext, hrest⟩ := h.text
  rw [parse, htext, hskip, hbase, Option.getD_some, drop_left]
  exact strtoull_zero_iff h.ne_nil h.hex hrest h.fits

end Parse

/-- The line of a tag, among the lines of the record. -/
theorem getD_map_all (f : Tag → Str) (tag : Tag) :
    (Tag.all.map f).getD (Tag.all.idxOf tag) [] = f tag := by
  cases tag <;> rfl

/-- **The registers are packed as they were logged** exactly if `MCGSTATUS` is read right. -/
theorem mceReg_packRecord_iff (r : LogRecord) :
    (packRecord (Tag.all.map r.line)).mceReg = r.registers ↔ ExactStatus r := by
  have hmisc := parse_zero_hex (r.logged .misc (by decide)) rfl (by decide)
  have haddr := parse_zero_hex (r.logged .addr (by decide)) rfl (by decide)
  have hmcgcap := parse_zero_hex (r.logged .mcgcap (by decide)) rfl (by decide)
  have hstatus := parse_hex (r.logged .status (by decide)) rfl (by decide)
  have hmcgstatus := parse_zero_iff (r.logged .mcgstatus (by decide)) rfl (by decide)
  simp only [packRecord, getD_map_all, LogRecord.registers, registerTags, map_cons,
    map_nil, hmisc, haddr, hmcgcap, hstatus, List.cons.injEq, and_true, ExactStatus]
  exact hmcgstatus

end Sensys.Orcm.Mcedata
