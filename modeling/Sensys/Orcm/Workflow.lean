/-
# Submitting a workflow

A workflow is a parsed list: its name, and one list for each step, with the step's name and its
attributes.  `orcm_util_workflow_add_extract_workflow_info` (`orcm/util/workflow_util.c`) checks the
list and packs it; `orcm_analytics_base_workflow_add`
(`orcm/mca/analytics/base/analytics_base_stubs.c`) unpacks it and makes the workflow.

The sender packs, for every list, its length less one -- for the name -- and then what it meets: the
value of a `name`, the key and value of another string, and a list inside the list in the same way.
The receiver reads two levels only, a number of steps and for each of them a number of attributes.
The sender accepts more than that: a list may have a second `name`, which is packed without a key,
and a step may have steps of its own.

A list is kept with its successor (`Items`), so that a tree is one inductive type.  Threads and
plugins are the environment (`Host`).  A pointer that is `NULL`, a string without a value, and what
becomes of a workflow once it is made are not part of the model.
-/
import Sensys.Opal.Dss
import Sensys.Lib.CString

namespace Sensys.Orcm.Workflow

open CString Opal.Dss
open Opal (Dss)

/-! ## 1. The sender -/

/-- A parsed list: an item -- a string, a list or anything else, with its key -- and the rest. -/
inductive Items where
  | nil
  | string (key value : Str) (next : Items)
  | ptr (key : Str) (list next : Items)
  | other (key : Str) (next : Items)
  deriving DecidableEq, Repr

/-- `opal_list_length`. -/
def Items.length : Items → ℕ
  | nil => 0
  | string _ _ next => next.length + 1
  | ptr _ _ next => next.length + 1
  | other _ next => next.length + 1

/-- The key of a name. -/
def nameKey : Str := ofString "name"

/-- The key of a step. -/
def stepKey : Str := ofString "step"

/-- The key of a workflow. -/
def workflowKey : Str := ofString "workflow"

/-- The first step of a workflow. -/
def filterName : Str := ofString "filter"

/-- `orcm_util_workflow_add_check_filter_step`. -/
def checkFilterStep (key value : Str) (isFilterFirstStep : Bool) : Dss Bool :=
  if isFilterFirstStep = false ∧ key = stepKey then
    if value = filterName then pure true else throw (.rc .errBadParam)
  else pure isFilterFirstStep

/-- `orcm_util_workflow_add_check_name_key`. -/
def checkNameKey (listHeadKey key : Str) (isNameFirstKey : Bool) : Dss Bool :=
  if isNameFirstKey = false ∧ key ≠ nameKey then throw (.rc .errBadParam)
  else if key = nameKey then pure true
  else if listHeadKey = workflowKey then throw (.rc .errBadParam)
  else do
    packCall string (charPtr key)
    pure true

/-- `orcm_util_workflow_add_extract_string_type`: the two flags it leaves. -/
def extractStringType (key value listHeadKey : Str) (isNameFirstKey isFilterFirstStep : Bool) :
    Dss (Bool × Bool) := do
  let isNameFirstKey ← checkNameKey listHeadKey key isNameFirstKey
  let isFilterFirstStep ← checkFilterStep listHeadKey value isFilterFirstStep
  packCall string (charPtr value)
  pure (isNameFirstKey, isFilterFirstStep)

/-- The start of `orcm_util_workflow_add_extract_workflow_info`: the length less one, an `int`.  An
empty list is refused after that. -/
def withLength {α : Type} (length : ℕ) (each : Dss α) : Dss α :=
  if Sensys.int32 length = -2 ^ 31 then throw .undefined
  else do
    packCall int (Int32.ofInt (Sensys.int32 length - 1))
    if length = 0 then throw (.rc .errBadParam) else each

/-- The loop of `orcm_util_workflow_add_extract_workflow_info`: `is_filter_first_step`. -/
def extractEach (listHeadKey : Str) : Items → Bool → Bool → Dss Bool
  | .nil, _, isFilterFirstStep => pure isFilterFirstStep
  | .string key value next, isNameFirstKey, isFilterFirstStep => do
    let flags ← extractStringType key value listHeadKey isNameFirstKey isFilterFirstStep
    extractEach listHeadKey next flags.1 flags.2
  | .ptr key list next, isNameFirstKey, isFilterFirstStep =>
    if isNameFirstKey = false then throw (.rc .errBadParam)
    else if key = stepKey then do
      let isFilterFirstStep ← withLength list.length (extractEach key list false isFilterFirstStep)
      extractEach listHeadKey next isNameFirstKey isFilterFirstStep
    else throw (.rc .errBadParam)
  | .other _ _, _, _ => throw (.rc .errBadParam)

/-- `orcm_util_workflow_add_extract_workflow_info`. -/
def extractWorkflowInfo (resultList : Items) (listHeadKey : Str) (isFilterFirstStep : Bool) :
    Dss Bool :=
  withLength resultList.length (extractEach listHeadKey resultList false isFilterFirstStep)

/-! ## 2. The receiver -/

/-- `orcm_workflow_step_t`. -/
structure WfStep where
  stepId : ℕ
  analytic : CharPtr
  attributes : List (CharPtr × CharPtr)
  deriving DecidableEq, Repr

/-- `orcm_workflow_t`. -/
structure Wf where
  name : CharPtr
  workflowId : ℤ
  steps : List WfStep
  deriving DecidableEq, Repr

/-- Where the workflow is made: whether its thread starts, whether a plugin is an extension, and what
`orcm_analytics_base_select_workflow_step` returns for a plugin. -/
structure Host where
  threadStarts : Bool
  checkPluginExist : Str → Bool
  selectWorkflowStep : Str → Rc

/-- `orcm_analytics_get_plugin_name`. -/
def getPluginName (host : Host) (wfStepName : Str) : Str :=
  if host.checkPluginExist wfStepName then ofString "extension" else wfStepName

/-- `opal_dss.unpack` into a variable, with its counter: the new counter, and the variable, which
keeps its value if there is nothing to unpack. -/
def unpackInto {α β : Type} (info : TypeInfo α) (cnt : ℤ) (old : β) (value : α → β) :
    Dss (ℤ × β) := do
  let (cnt, dst) ← unpack info cnt
  pure (cnt, (dst.head?.map value).getD old)

/-- A variable that is read: it must have been given a value. -/
def given {α : Type} : Option α → Dss α
  | some a => pure a
  | none => throw .undefined

/-- Every error is `ORCM_ERROR`. -/
def orError {α : Type} (x : Dss α) : Dss α := fun buffer =>
  match x buffer with
  | (.error (.rc _), buffer) => (.error (.rc .error), buffer)
  | result => result

/-- `orcm_analytics_base_parse_attributes`, from the values of its variables. -/
def parseAttributes : ℕ → ℤ → CharPtr → CharPtr → Dss (List (CharPtr × CharPtr))
  | 0, _, _, _ => pure []
  | rounds + 1, cnt, key, value => do
    let (cnt, key) ← orError (unpackInto string cnt key id)
    let (cnt, value) ← orError (unpackInto string cnt value id)
    let attributes ← parseAttributes rounds cnt key value
    pure ((key, value) :: attributes)

/-- `orcm_analytics_base_workflow_step_add`. -/
def workflowStepAdd (host : Host) (step : ℕ) : Dss WfStep := do
  let (cnt, numAttributes) ← unpackInto int 1 none some
  let (_, stepName) ← unpackInto string cnt none id
  let numAttributes ← given numAttributes
  let attributes ← parseAttributes numAttributes.toInt.toNat 1 none none
  let name ← strdup stepName
  if host.selectWorkflowStep (getPluginName host name) = .success then
    pure ⟨step, stepName, attributes⟩
  else throw (.rc .error)

/-- The loop of `orcm_analytics_base_workflow_add`. -/
def addSteps (host : Host) : ℕ → ℕ → Dss (List WfStep)
  | 0, _ => pure []
  | rounds + 1, step => do
    let wfStep ← workflowStepAdd host step
    let steps ← addSteps host rounds (step + 1)
    pure (wfStep :: steps)

/-- `orcm_analytics_base_workflow_add`, for the next free id. -/
def workflowAdd (host : Host) (workflowId : ℤ) : Dss Wf := do
  let (cnt, numSteps) ← unpackInto int 1 none some
  let (_, wfName) ← unpackInto string cnt none id
  if host.threadStarts = false then throw (.rc .errOutOfResource)
  else do
    let numSteps ← given numSteps
    let steps ← addSteps host numSteps.toInt.toNat 0
    pure ⟨wfName, workflowId, steps⟩

/-! ## 3. What is meant -/

namespace Items

/-- The name of a list, its first item. -/
def name : Items → Option Str
  | string key value _ => if key = nameKey then some value else none
  | _ => none

/-- The attributes of a step: its strings other than names. -/
def attributes : Items → List (Str × Str)
  | nil => []
  | string key value next =>
    if key = nameKey then next.attributes else (key, value) :: next.attributes
  | ptr _ _ next => next.attributes
  | other _ next => next.attributes

/-- The step elements of a workflow. -/
def steps : Items → List Items
  | nil => []
  | string _ _ next => next.steps
  | ptr key list next => if key = stepKey then list :: next.steps else next.steps
  | other _ next => next.steps

/-- Nothing but attributes. -/
def onlyAttributes : Items → Bool
  | nil => true
  | string key _ next => key != nameKey && next.onlyAttributes
  | _ => false

/-- A step with one name, at its start, and attributes. -/
def flatStep : Items → Bool
  | string key _ next => key == nameKey && next.onlyAttributes
  | _ => false

/-- Nothing but steps of that form. -/
def onlySteps : Items → Bool
  | nil => true
  | ptr key list next => key == stepKey && list.flatStep && next.onlySteps
  | _ => false

/-- **A workflow with one name, at its start, and steps with one name each and no steps inside.** -/
def flat : Items → Bool
  | string key _ next => key == nameKey && next.onlySteps
  | _ => false

end Items

/-- The step that a step element describes. -/
def stepOf (step : ℕ) (list : Items) : WfStep where
  stepId := step
  analytic := list.name.bind charPtr
  attributes := list.attributes.map fun entry => (charPtr entry.1, charPtr entry.2)

/-- The steps that step elements describe, numbered. -/
def stepsFrom (step : ℕ) : List Items → List WfStep
  | [] => []
  | list :: lists => stepOf step list :: stepsFrom (step + 1) lists

/-- The workflow that a tree describes. -/
def wfOf (workflowId : ℤ) (items : Items) : Wf where
  name := items.name.bind charPtr
  workflowId := workflowId
  steps := stepsFrom 0 items.steps

/-- **The workflow arrives as it is described**, and all bytes are consumed. -/
def Arrives (host : Host) (workflowId : ℤ) (items : Items) (buffer : Buffer) : Prop :=
  workflowAdd host workflowId buffer
    = (.ok (wfOf workflowId items), { buffer with unpackPtr := buffer.bytesUsed })

end Sensys.Orcm.Workflow
