/-
# Samples of syslog messages

`orcm/mca/sensor/syslog/sensor_syslog.c`: `collect_syslog_sample` packs the messages of a queue into
a sample, `syslog_log` unpacks the sample and sends one analytics value after the other.

A message is taken from the queue if the pattern `<([0-9]+)>(.*)` matches in it.  The number is its
priority: a severity in the lowest three bits, and a facility in the five bits above.  A number that
has none of the known facilities ends the function, and nothing is sent of what was packed before.

The sample says how many messages there WERE in the queue, and which of the two labels `severity`
and `log_message` are enabled; but the strings of both labels are packed always.
-/
import Sensys.Orcm.ErrcountsInventory

namespace Sensys.Orcm.Syslog

open CString Opal Opal.Dss Failing ErrcountsInventory EdacCollector

/-! ## 1. Messages -/

/-- The pattern at the beginning of a string: the digits, and what is behind. -/
def matchHere : Str → Option (Str × Str)
  | 60 :: s =>
    match s.takeWhile isDigit, s.dropWhile isDigit with
    | c :: digits, 62 :: text => some (c :: digits, text)
    | _, _ => none
  | _ => none

/-- `regexec` with the pattern `<([0-9]+)>(.*)`: the leftmost match and its two groups. -/
def regexec : Str → Option (Str × Str)
  | [] => none
  | c :: s =>
    match matchHere (c :: s) with
    | some groups => some groups
    | none => regexec s

/-- `priority_names`. -/
def priorityNames : List Str :=
  ["emerg", "alert", "crit", "error", "warn", "notice", "info", "debug"].map ofString

/-- `facility_msg`. -/
def facilityMsg : List Str :=
  ["KERNEL MESSAGES", "USER-LEVEL MESSAGES", "MAIL SYSTEM", "SYSTEM DAEMONS",
    "SECURITY/AUTHORIZATION MESSAGES", "MESSAGES GENERATED INTERNALLY BY SYSLOGD",
    "LINE PRINTER SUBSYSTEM", "NETWORK NEWS SUBSYSTEM", "UUCP SUBSYSTEM", "CLOCK DAEMON",
    "SECURITY/AUTHORIZATION MESSAGES", "FTP DAEMON", "NTP SUBSYSTEM", "LOG AUDIT", "LOG ALERT",
    "CLOCK DAEMON", "LOCAL USE 0", "LOCAL USE 1", "LOCAL USE 2", "LOCAL USE 3", "LOCAL USE 4",
    "LOCAL USE 5", "LOCAL USE 6", "LOCAL USE 7"].map ofString

/-- `syslog_get_severity`. -/
def syslogGetSeverity (prival : ℤ) : Option Str :=
  if prival < 0 then none else priorityNames[prival.toNat &&& 0x07]?

/-- `syslog_get_facility`: `NULL` beyond `NUM_FACILITIES`. -/
def syslogGetFacility (prival : ℤ) : Option Str :=
  if prival < 0 then none else facilityMsg[(prival.toNat &&& 0xF8) >>> 3]?

/-- What is packed of a message. -/
structure Report where
  severity : Str
  logMsg : Str
  deriving DecidableEq, Repr

/-- `"%s: %s"`. -/
def logMsg (facility message : Str) : Str := facility ++ ofString ": " ++ message

/-- From the groups of a match to what is packed. -/
def report (groups : Str × Str) : Option Report := do
  let prival := atoi groups.1
  let severity ← syslogGetSeverity prival
  let facility ← syslogGetFacility prival
  some ⟨severity, logMsg facility groups.2⟩

/-! ## 2. Writing a sample -/

/-- The queue in a loop over it: what the loop has left in, and what it has not come to. -/
structure MsgQueue where
  stayed : List Str
  rest : List Str

/-- The next message stays. -/
def MsgQueue.next (q : MsgQueue) : MsgQueue := ⟨q.stayed ++ q.rest.take 1, q.rest.tail⟩

/-- `opal_list_remove_item`, of the next message. -/
def MsgQueue.remove (q : MsgQueue) : MsgQueue := ⟨q.stayed, q.rest.tail⟩

/-- One round of the loop; the result is `packed`. -/
def packMessage (packed : Bool) (log : Str) : Handler MsgQueue Bool :=
  match regexec log with
  | none => do
    change MsgQueue.next
    pure packed
  | some groups =>
    match report groups with
    | none => throw (.rc .errOutOfResource)
    | some report => do
      lift (packString report.severity)
      lift (packString report.logMsg)
      change MsgQueue.remove
      pure true

/-- The loop. -/
def packMessages : Bool → List Str → Handler MsgQueue Bool
  | packed, [] => pure packed
  | packed, log :: logs => do
    let packed ← packMessage packed log
    packMessages packed logs

/-- `orcm_sensor_base_runtime_metrics_do_collect`, for the group and the two labels. -/
structure Metrics where
  all : Bool
  severity : Bool
  logMessage : Bool

/-- `bits`. -/
def Metrics.bits (metrics : Metrics) : UInt8 :=
  (if metrics.severity then 0x01 else 0) ||| if metrics.logMessage then 0x02 else 0

/-- What stands in front of the messages. -/
def packHeader (metrics : Metrics) (hostTagValue : Str) (currentTime : Timeval) (nmsg : Int32) :
    Dss Unit := do
  packString (ofString "syslog")
  packString hostTagValue
  packCall Dss.int32 nmsg
  packCall Dss.timeval currentTime
  packCall uint8 metrics.bits

/-- `collect_syslog_sample`, from an empty buffer: the sample, if there is one. -/
def collectSyslogSample (metrics : Metrics) (hostTagValue : Str) (currentTime : Timeval)
    (msgQueue : List Str) : Handler MsgQueue (Option Buffer) :=
  let nmsg := Int32.ofInt msgQueue.length
  if !metrics.all then pure none
  else if nmsg = 0 then pure none
  else do
    match ← attempt (do
      lift (packHeader metrics hostTagValue currentTime nmsg)
      packMessages false msgQueue) with
    | .ok true => do
      let s ← get
      pure (some s.buffer)
    | _ => pure none

/-! ## 3. Reading a sample -/

/-- `orcm_value_t`, of an analytics value. -/
inductive Item where
  | string (key : Str) (value units : Option Str)
  | timeval (key : Str) (value : Timeval)
  deriving DecidableEq, Repr

/-- `orcm_analytics_value_t`. -/
structure AnalyticsValue where
  key : List Item
  nonComputeData : List Item
  computeData : List Item
  deriving DecidableEq, Repr

/-- The value of one message: the string of each label, if it has one. -/
def analyticsValue (hostname : Str) (sampletime : Timeval) (severity log : Option (Option Str)) :
    AnalyticsValue where
  key := [.string (ofString "hostname") (some hostname) none,
    .string (ofString "data_group") (some (ofString "syslog")) none]
  nonComputeData := [.timeval (ofString "ctime") sampletime]
  computeData :=
    (severity.toList.map fun value => .string (ofString "severity") value (some (ofString "sev"))) ++
      log.toList.map fun value => .string (ofString "log_message") value (some (ofString "log"))

/-- A string that may be `NULL`, as it is copied into an item. -/
def loadString : CharPtr → Dss (Option Str)
  | none => pure none
  | some memory => some <$> strdup (some memory)

/-- The string of a label, if its flag is set. -/
def unpackLabel (use : Bool) : Dss (Option (Option Str)) :=
  if use then do
    let answer ← unpack string 1
    some <$> loadString answer.2.head?.join
  else pure none

/-- The loop of `syslog_log`, and what is sent. -/
def sendMessages (hostname : Str) (sampletime : Timeval) (flags : UInt8) :
    ℕ → Handler (List AnalyticsValue) Unit
  | 0 => pure ()
  | n + 1 => do
    let severity ← lift (unpackLabel (flags &&& 0x01 == 0x01))
    let log ← lift (unpackLabel (flags &&& 0x02 == 0x02))
    change (· ++ [analyticsValue hostname sampletime severity log])
    sendMessages hostname sampletime flags n

/-- The body of `syslog_log`. -/
def unpackSample : Handler (List AnalyticsValue) Unit := do
  let hostname ← lift unpackString
  let nmsg ← lift (unpackCall Dss.int32)
  let sampletime ← lift (unpackCall Dss.timeval)
  let flags ← lift (unpack uint8 1)
  sendMessages hostname sampletime (flags.2.head?.getD 0) nmsg.toInt.toNat

/-- `syslog_log`, after the name of the component was unpacked.  A failure ends it. -/
def syslogLog : Handler (List AnalyticsValue) Unit := do
  let _ ← lift unpackString
  let _ ← attempt unpackSample
  pure ()

/-! ## 4. What is to be sent -/

/-- **A well-formed message** is `<n>text` with a facility `n / 8` that is known. -/
def wellFormed (log : Str) : Option Report := do
  let groups ← matchHere log
  let severity ← priorityNames[value groups.1 % 8]?
  let facility ← facilityMsg[value groups.1 / 8]?
  some ⟨severity, logMsg facility groups.2⟩

/-- **One value for each well-formed message**, with the labels that are enabled. -/
def expected (metrics : Metrics) (hostname : Str) (sampletime : Timeval) (msgQueue : List Str) :
    List AnalyticsValue :=
  (msgQueue.filterMap wellFormed).map fun report =>
    analyticsValue hostname sampletime (if metrics.severity then some (some report.severity) else none)
      (if metrics.logMessage then some (some report.logMsg) else none)

/-- **Every sample that is written is read as it should be.** -/
def Agrees (type : BufferType) (metrics : Metrics) (hostname : Str) (currentTime : Timeval)
    (msgQueue : List Str) : Prop :=
  ∀ sample s, collectSyslogSample metrics hostname currentTime msgQueue
    ⟨Buffer.construct type, ⟨[], msgQueue⟩⟩ = (.ok (some sample), s) →
      ∃ b, syslogLog ⟨sample, []⟩ = (.ok (), ⟨b, expected metrics hostname currentTime msgQueue⟩)

end Sensys.Orcm.Syslog
