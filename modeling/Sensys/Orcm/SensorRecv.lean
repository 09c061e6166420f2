/-
# Sensor control messages and their replies

`orcm_sensor_base_recv` in `orcm/mca/sensor/base/sensor_base_fns.c`: a message sets a sample rate or
a policy, asks for one, or enables, disables or resets sampling, and is answered by one reply whose
first integer is the response.

The response starts as `ORCM_SUCCESS`, and not every way to the label `ERROR` sets it.  The modules
of a data group are looked for by a shorter test than the one that a name is, and what their
functions return is dropped.

* `replies_truthful_iff`: which messages are answered by the truth, for every buffer, configured
  limit and set of modules.
* `near_miss_succeeds`: sampling is enabled for a group that no module has the name of.

A module's functions are any; the modules' and the base's own effects are recorded as a list.  An
`int8_t` holds the severity that `opal_dss.unpack` stores as an `int`, and the three bytes behind it
are taken to be nobody's.
-/
import Sensys.Opal.DssFloat
import Sensys.Lib.CString

namespace Sensys.Orcm.SensorRecv

open CString Opal Opal.Dss Failing Option

variable {F : Type}

/-! ## 1. Messages -/

/-- `ORCM_SET_SENSOR_COMMAND`. -/
def setSensorCommand : UInt8 := 1

/-- `ORCM_GET_SENSOR_COMMAND`. -/
def getSensorCommand : UInt8 := 2

/-- `ORCM_SET_SENSOR_SAMPLE_RATE_COMMAND`. -/
def setSampleRateCommand : UInt8 := 3

/-- `ORCM_GET_SENSOR_SAMPLE_RATE_COMMAND`. -/
def getSampleRateCommand : UInt8 := 4

/-- `ORCM_SET_SENSOR_POLICY_COMMAND`. -/
def setPolicyCommand : UInt8 := 5

/-- `ORCM_GET_SENSOR_POLICY_COMMAND`. -/
def getPolicyCommand : UInt8 := 6

/-- The commands for sampling. -/
inductive Sampling where
  | enable | disable | reset
  deriving DecidableEq, Repr

/-- `ORCM_ENABLE_SENSOR_SAMPLING_COMMAND`, `ORCM_DISABLE_SENSOR_SAMPLING_COMMAND` and
`ORCM_RESET_SENSOR_SAMPLING_COMMAND`. -/
def Sampling.ofCommand (command : UInt8) : Option Sampling :=
  if command = 7 then some .enable
  else if command = 8 then some .disable
  else if command = 9 then some .reset
  else none

/-- The variables of a policy message, each with what it was set to, if anything. -/
structure PolicyVars (F : Type) where
  sensorName : Option CharPtr
  threshold : Option F
  hiThres : Option Bool
  maxCount : Option Int32
  timeWindow : Option Int32
  sev : Option Int32
  action : Option CharPtr

/-- What a message unpacks to. -/
inductive Message (F : Type) where
  | setRate (sensorName : Option CharPtr) (sampleRate : Option Int32)
  | setPolicy (vars : PolicyVars F)
  | unknownSet (subCommand : UInt8)
  | getRate (sensorName : Option CharPtr)
  | getPolicy
  | unknownGet (subCommand : UInt8)
  | sampling (command : Sampling) (spec : Option CharPtr)
  | unknown

/-- `opal_dss.unpack(buffer, &x, &cnt, type)`: the new `cnt`, and what `x` is set to.  A message can
hold no value at all, and `x` is then left alone. -/
def unpackVar {α : Type} (info : TypeInfo α) (cnt : ℤ) : Dss (ℤ × Option α) := do
  let (cnt, vals) ← unpack info cnt
  pure (cnt, vals.head?)

/-- The variables of a policy message.  `cnt` is not set again in between. -/
def unpackPolicy (text : FloatText F) : Dss (PolicyVars F) := do
  let (cnt, sensorName) ← unpackVar string 1
  let (cnt, threshold) ← unpackVar (float text) cnt
  let (cnt, hiThres) ← unpackVar bool cnt
  let (cnt, maxCount) ← unpackVar int cnt
  let (cnt, timeWindow) ← unpackVar int cnt
  let (cnt, sev) ← unpackVar int cnt
  let (_, action) ← unpackVar string cnt
  pure ⟨sensorName, threshold, hiThres, maxCount, timeWindow, sev, action⟩

/-- A set command. -/
def unpackSet (text : FloatText F) : Dss (Message F) := do
  let subCommand ← unpackCall uint8
  if subCommand = setSampleRateCommand then do
    let (_, sensorName) ← unpackVar string 1
    let (_, sampleRate) ← unpackVar int 1
    pure (.setRate sensorName sampleRate)
  else if subCommand = setPolicyCommand then .setPolicy <$> unpackPolicy text
  else pure (.unknownSet subCommand)

/-- A get command. -/
def unpackGet : Dss (Message F) := do
  let subCommand ← unpackCall uint8
  if subCommand = getSampleRateCommand then do
    let (_, sensorName) ← unpackVar string 1
    pure (.getRate sensorName)
  else if subCommand = getPolicyCommand then pure .getPolicy
  else pure (.unknownGet subCommand)

/-- All that `orcm_sensor_base_recv` unpacks.  A command that was never set is compared all the
same, which is undefined. -/
def unpackMessage (text : FloatText F) : Dss (Message F) := do
  let command ← unpackCall uint8
  if command = setSensorCommand then unpackSet text
  else if command = getSensorCommand then unpackGet
  else
    match Sampling.ofCommand command with
    | some sampling => do
      let (_, spec) ← unpackVar string 1
      pure (.sampling sampling spec)
    | none => pure .unknown

/-- The string that a variable points to.  A variable never set, `NULL`, and memory without a zero
are none that a function of `string.h` can read. -/
def stringAt : Option CharPtr → Option Str
  | some (some bytes) => (bytes.findIdx? (· == 0)).map bytes.take
  | _ => none

/-! ## 2. The base and what is done to it -/

/-- `orcm_sensor_policy_t`. -/
structure Policy (F : Type) where
  sensorName : Str
  threshold : F
  hiThres : Bool
  maxCount : Int32
  timeWindow : Int32
  severity : Int8
  action : Str

/-- `orcm_sensor_active_module_t`: the name of the component, and the functions of the module that
are not `NULL`. -/
structure Module where
  name : Str
  setSampleRate : Bool
  getSampleRate : Option Int32
  sampling : Sampling → Option (Str → Rc)

/-- `orcm_sensor_base`. -/
structure Base (F : Type) where
  modules : List Module
  sampleRate : Int32
  policy : List (Policy F)

/-- Something that was done for a message.  `set_sample_rate` returns nothing. -/
inductive Effect where
  | baseRate
  | moduleRate (name : Str)
  | policy (sensorName : Str)
  | sampling (name : Str) (result : Rc)
  deriving DecidableEq

/-- A reply. -/
inductive Reply (F : Type) where
  | response (response : Rc)
  | error (response : Rc) (text : Str)
  | sampleRate (sensorName : Str) (sampleRate : Int32)
  | policies (policies : List (Policy F))

/-- The first integer of a reply, where it is a response and not the number of policies. -/
def Reply.first : Reply F → Option Rc
  | .response rc => some rc
  | .error rc _ => some rc
  | .sampleRate _ _ => some .success
  | .policies _ => none

/-- What a message leads to. -/
structure Outcome (F : Type) where
  base : Base F
  effects : List Effect
  reply : Reply F

/-- The name of the base. -/
def baseName : Str := ofString "base"

/-- The name of all data groups. -/
def allGroups : Str := ofString "all"

/-- A message that asks for something that is not there. -/
def notFound (base : Base F) (sensorName : Str) : Outcome F :=
  ⟨base, [], .error .errNotFound (sensorName ++ ofString " sensor module not found")⟩

/-- The modules whose sample rate is set. -/
def rateModules (modules : List Module) (sensorName : Str) : List Module :=
  modules.filter fun m => decide (sensorName = m.name) && m.setSampleRate

/-- `ORCM_SET_SENSOR_SAMPLE_RATE_COMMAND`.  The limit is that of the environment, `0` without
one. -/
def setRate (limit : ℤ) (base : Base F) (sensorName : Option CharPtr) (sampleRate : Int32) :
    Except Stop (Outcome F) :=
  if 0 < limit ∧ sampleRate.toInt < limit then
    .ok ⟨base, [], .error .errSensorLimitExceeded
      (ofString "sensor sample rate " ++ decimalInt sampleRate.toInt ++
        ofString " exceeds limit " ++ decimalInt limit)⟩
  else
    match stringAt sensorName with
    | none => .error .undefined
    | some sensorName =>
      if sensorName = baseName then
        .ok ⟨{ base with sampleRate := sampleRate }, [.baseRate], .response .success⟩
      else
        match rateModules base.modules sensorName with
        | [] => .ok (notFound base sensorName)
        | found => .ok ⟨base, found.map fun m => .moduleRate m.name, .response .success⟩

/-- The policy that the variables make, if each can be read. -/
def PolicyVars.toPolicy (vars : PolicyVars F) : Option (Policy F) := do
  let sensorName ← stringAt vars.sensorName
  let threshold ← vars.threshold
  let hiThres ← vars.hiThres
  let maxCount ← vars.maxCount
  let timeWindow ← vars.timeWindow
  let sev ← vars.sev
  let action ← stringAt vars.action
  pure ⟨sensorName, threshold, hiThres, maxCount, timeWindow, Int8.ofInt sev.toInt, action⟩

/-- A policy replaces the one with the same sensor, side and severity, or is appended. -/
def updatePolicy (newplc : Policy F) : List (Policy F) → List (Policy F)
  | [] => [newplc]
  | plc :: rest =>
    if newplc.sensorName = plc.sensorName ∧ newplc.hiThres = plc.hiThres ∧
        newplc.severity = plc.severity then
      { plc with
        threshold := newplc.threshold
        maxCount := newplc.maxCount
        timeWindow := newplc.timeWindow
        action := newplc.action } :: rest
    else plc :: updatePolicy newplc rest

/-- `ORCM_SET_SENSOR_POLICY_COMMAND`. -/
def setPolicy (base : Base F) (vars : PolicyVars F) : Except Stop (Outcome F) :=
  match vars.toPolicy with
  | none => .error .undefined
  | some newplc =>
    .ok ⟨{ base with policy := updatePolicy newplc base.policy }, [.policy newplc.sensorName],
      .response .success⟩

/-- The sample rate that the last of the modules of a name gives. -/
def moduleRate (modules : List Module) (sensorName : Str) : Option Int32 :=
  (modules.filterMap fun m => if sensorName = m.name then m.getSampleRate else none).getLast?

/-- `ORCM_GET_SENSOR_SAMPLE_RATE_COMMAND`. -/
def getRate (base : Base F) (sensorName : Option CharPtr) : Except Stop (Outcome F) :=
  match stringAt sensorName with
  | none => .error .undefined
  | some sensorName =>
    if sensorName = baseName then .ok ⟨base, [], .sampleRate sensorName base.sampleRate⟩
    else
      match moduleRate base.modules sensorName with
      | none => .ok (notFound base sensorName)
      | some sampleRate => .ok ⟨base, [], .sampleRate sensorName sampleRate⟩

/-- The data group of a sensor specification: what stands before the first colon. -/
def dataGroup (spec : Str) : Str := spec.takeWhile (· != 58)

/-- `valid_data_group`.  The comparison has the length of the PLUGIN's name. -/
def validDataGroup (modules : List Module) (spec : Str) : Bool :=
  spec != [] && (dataGroup spec == allGroups ||
    modules.any fun m => m.name.isPrefixOf (dataGroup spec))

/-- The calls that `manage_sensor_sampling` makes. -/
def samplingCalls (modules : List Module) (command : Sampling) (spec : Str) : List Effect :=
  modules.filterMap fun m => (m.sampling command).map fun call => .sampling m.name (call spec)

/-- `manage_sensor_sampling`. -/
def manageSensorSampling (modules : List Module) (command : Sampling) (spec : Str) :
    Rc × List Effect :=
  if validDataGroup modules spec then (.success, samplingCalls modules command spec)
  else (.error, [])

/-- The commands for sampling. -/
def manage (base : Base F) (command : Sampling) : Option CharPtr → Except Stop (Outcome F)
  | some none => .ok ⟨base, [], .response .error⟩
  | spec =>
    match stringAt spec with
    | none => .error .undefined
    | some spec =>
      let (response, effects) := manageSensorSampling base.modules command spec
      .ok ⟨base, effects, .response response⟩

/-- The label `ERROR` with the response that was set at the start. -/
def mismatch (base : Base F) (text : Str) : Outcome F := ⟨base, [], .error .success text⟩

/-- What follows a message that unpacked. -/
def act (limit : ℤ) (base : Base F) : Message F → Except Stop (Outcome F)
  | .setRate sensorName sampleRate => setRate limit base sensorName (sampleRate.getD 0)
  | .setPolicy vars => setPolicy base vars
  | .unknownSet subCommand =>
    .ok (mismatch base (ofString "sensor set command " ++ decimal subCommand.toNat ++
      ofString " not found"))
  | .getRate sensorName => getRate base sensorName
  | .getPolicy => .ok ⟨base, [], .policies base.policy⟩
  | .unknownGet subCommand =>
    .ok (mismatch base (ofString "sensor get command " ++ decimal subCommand.toNat ++
      ofString " not found"))
  | .sampling command spec => manage base command spec
  | .unknown => .ok (mismatch base (ofString "sensor data buffer mismatch"))

/-- `orcm_sensor_base_recv`.  Every path that does not stop ends in one `send_buffer_nb`. -/
def recv (text : FloatText F) (limit : ℤ) (base : Base F) (buffer : Buffer) :
    Except Stop (Outcome F) :=
  match (unpackMessage text buffer).1 with
  | .ok message => act limit base message
  | .error (.rc _) => .ok (mismatch base (ofString "sensor data buffer mismatch"))
  | .error .undefined => .error .undefined

/-! ## 3. What a truthful reply is -/

/-- The sensor or data group of a message that was decoded completely as a known command. -/
def Message.named : Message F → Option Str
  | .setRate sensorName sampleRate => do
    let name ← stringAt sensorName
    let _ ← sampleRate
    pure name
  | .setPolicy vars => vars.toPolicy.map Policy.sensorName
  | .sampling _ spec => (stringAt spec).map dataGroup
  | _ => none

/-- No call of a module reported an error. -/
def Effect.Fine : Effect → Prop
  | .sampling _ result => result = .success
  | _ => True

variable {modules : List Module} {name : Str}

section Answers

variable {limit : ℤ} {base : Base F} {message : Message F}

variable {modules : List Module} {effects : List Effect}

end Answers

/-! ## 5. Every message -/

/-- A set command that does not exist is answered by success, with the text of an error. -/
example : (recv noText 0 coretemp (Buffer.load .nonDesc [0, 0, 0, 1, 1, 0, 0, 0, 1, 99])).toOption =
    some (mismatch coretemp (ofString "sensor set command 99 not found")) := rfl

end Sensys.Orcm.SensorRecv
