/-
# Comparing configuration objects

`orcm_compare_node` and `orcm_compare_scheduler` in `orcm/mca/cfgi/base/cfgi_dt_fns.c` compare field
by field, a `NULL` below everything else.  Lists are compared by their lengths, and then as TEXTS:
`opal_argv_join` puts them together with the delimiter `0`, and `strcmp` reads the result up to the
first zero -- which is the one behind the FIRST element.

So the order laws hold, but objects are "equal" that differ in later elements
(`compare_proper_iff`, `later_element_ignored`).
-/
import Mathlib.Data.UInt
import Sensys.Orcm.CfgiTypes

namespace Sensys.Orcm.CfgiCompare

open List
open Std (TransCmp OrientedCmp ReflCmp)

/-! ## 1. The functions -/

/-- A C string. -/
abbrev CStr := { s : Str // 0 ∉ s }

/-- `orcm_node_t`, with the fields that are compared. -/
structure Node where
  name : Option CStr
  daemon : ProcName
  mcaParams : Option (List CStr)
  env : Option (List CStr)
  port : Option CStr
  aggregator : Bool
  state : Int8
  scdState : Int8
  deriving DecidableEq

/-- `orcm_scheduler_t`. -/
structure Scheduler where
  controller : Node
  queues : Option (List CStr)
  deriving DecidableEq

/-- `strcmp`, on memory that holds a zero somewhere. -/
def strcmp (s t : Str) : Ordering := compare (s.takeWhile (· != 0)) (t.takeWhile (· != 0))

/-- `opal_argv_join`, for a list that is not `NULL`. -/
def argvJoin (argv : List CStr) (delimiter : UInt8) : Str :=
  [delimiter].intercalate (argv.map Subtype.val)

/-- The comparison of two pointers, with a `NULL` below everything else. -/
def comparePtr {α : Type} (cmp : α → α → Ordering) : Option α → Option α → Ordering
  | none, none => .eq
  | some _, none => .gt
  | none, some _ => .lt
  | some a, some b => cmp a b

/-- Two strings. -/
def compareStr : Option CStr → Option CStr → Ordering := comparePtr fun s t => strcmp s.val t.val

/-- Two lists. -/
def compareArgv : Option (List CStr) → Option (List CStr) → Ordering :=
  comparePtr fun argv argv' =>
    (compare argv.length argv'.length).then (strcmp (argvJoin argv 0) (argvJoin argv' 0))

/-- `orcm_compare_node`. -/
def compareNode (a b : Node) : Ordering :=
  (compareStr a.name b.name).then <|
  (compare a.daemon.jobid b.daemon.jobid).then <|
  (compare a.daemon.vpid b.daemon.vpid).then <|
  (compareArgv a.mcaParams b.mcaParams).then <|
  (compareArgv a.env b.env).then <|
  (compareStr a.port b.port).then <|
  (compare a.aggregator b.aggregator).then <|
  (compare a.state b.state).then <| compare a.scdState b.scdState

/-- `orcm_compare_scheduler`. -/
def compareScheduler (a b : Scheduler) : Ordering :=
  (compareNode a.controller b.controller).then (compareArgv a.queues b.queues)

/-! ## 2. What is compared -/

/-- What is compared of a list. -/
def outline (argv : Option (List CStr)) : Option ℕ × Option Str :=
  (argv.map List.length, argv.map fun argv => (argv.map Subtype.val).headD [])

theorem takeWhile_text (s : CStr) (t : Str) : (s.val ++ 0 :: t).takeWhile (· != 0) = s.val := by
  rw [takeWhile_append_of_pos fun c hc => by simpa using fun h : c = 0 => s.2 (h ▸ hc)]
  simp

theorem takeWhile_val (s : CStr) : s.val.takeWhile (· != 0) = s.val :=
  takeWhile_eq_self_iff.mpr fun c hc => by simpa using fun h : c = 0 => s.2 (h ▸ hc)

/-- Of the joined text, the first element is read. -/
theorem takeWhile_argvJoin : ∀ argv : List CStr,
    (argvJoin argv 0).takeWhile (· != 0) = (argv.map Subtype.val).headD []
  | [] => rfl
  | [s] => by
    rw [argvJoin, map_singleton, intercalate_singleton, takeWhile_val]
    rfl
  | s :: t :: argv => takeWhile_text s _

theorem compareStr_eq (s t : Option CStr) :
    compareStr s t = compare (s.map Subtype.val) (t.map Subtype.val) := by
  cases s <;> cases t <;> simp only [compareStr, comparePtr, strcmp, takeWhile_val] <;> rfl

theorem compareArgv_eq (argv argv') : compareArgv argv argv' =
    (compare (outline argv).1 (outline argv').1).then
      (compare (outline argv).2 (outline argv').2) := by
  cases argv <;> cases argv' <;>
    simp only [compareArgv, comparePtr, strcmp, takeWhile_argvJoin] <;> rfl

/-- Objects that differ at most in elements behind the first ones of lists as long as each other. -/
def Node.SameOutline (a b : Node) : Prop :=
  { a with mcaParams := b.mcaParams, env := b.env } = b ∧
    outline a.mcaParams = outline b.mcaParams ∧ outline a.env = outline b.env

def Scheduler.SameOutline (a b : Scheduler) : Prop :=
  a.controller.SameOutline b.controller ∧ outline a.queues = outline b.queues

theorem compareArgv_eq_eq {argv argv'} :
    compareArgv argv argv' = .eq ↔ outline argv = outline argv' := by
  rw [compareArgv_eq, Ordering.then_eq_eq, Std.compare_eq_iff_eq, Std.compare_eq_iff_eq,
    Prod.ext_iff]

theorem compareStr_eq_eq {s t} : compareStr s t = .eq ↔ s = t := by
  rw [compareStr_eq, Std.compare_eq_iff_eq, (Option.map_injective Subtype.val_injective).eq_iff]

theorem compareNode_eq_eq {a b} : compareNode a b = .eq ↔ a.SameOutline b := by
  obtain ⟨name', daemon', mcaParams', env', port', aggregator', state', scdState'⟩ := b
  simp only [compareNode, Node.SameOutline, Ordering.then_eq_eq, compareStr_eq_eq, compareArgv_eq_eq,
    Std.compare_eq_iff_eq, Node.mk.injEq, ProcName.eq_iff]
  tauto

theorem compareScheduler_eq_eq {a b} : compareScheduler a b = .eq ↔ a.SameOutline b := by
  rw [compareScheduler, Ordering.then_eq_eq, compareNode_eq_eq, compareArgv_eq_eq,
    Scheduler.SameOutline]

/-! ## 3. The order -/

/-- **The laws of an order**, at three objects. -/
structure OrderedAt {α : Type} (cmp : α → α → Ordering) (a b c : α) : Prop where
  eq_iff : cmp a b = .eq ↔ a = b
  swap : cmp b a = (cmp a b).swap
  trans : cmp a b = .gt → cmp b c = .gt → cmp a c = .gt

theorem transCmp_comap {α β : Type} {cmp} (h : TransCmp cmp) (f : α → β) :
    TransCmp fun a b => cmp (f a) (f b) where
  eq_swap := h.eq_swap
  isLE_trans := h.isLE_trans

theorem transCmp_compareStr : TransCmp compareStr := by
  rw [funext₂ compareStr_eq]
  exact inferInstanceAs (TransCmp (compareOn (Option.map Subtype.val)))

theorem transCmp_compareArgv : TransCmp compareArgv := by
  rw [funext₂ compareArgv_eq]
  exact inferInstanceAs (TransCmp (compareLex (compareOn fun argv => (outline argv).1)
    (compareOn fun argv => (outline argv).2)))

theorem transCmp_compareNode : TransCmp compareNode := by
  have := transCmp_comap transCmp_compareStr Node.name
  have := transCmp_comap transCmp_compareStr Node.port
  have := transCmp_comap transCmp_compareArgv Node.mcaParams
  have := transCmp_comap transCmp_compareArgv Node.env
  exact inferInstanceAs (TransCmp (compareLex (fun a b : Node => compareStr a.name b.name) <|
    compareLex (compareOn fun a => a.daemon.jobid) <|
    compareLex (compareOn fun a => a.daemon.vpid) <|
    compareLex (fun a b => compareArgv a.mcaParams b.mcaParams) <|
    compareLex (fun a b => compareArgv a.env b.env) <|
    compareLex (fun a b => compareStr a.port b.port) <|
    compareLex (compareOn Node.aggregator) <|
    compareLex (compareOn Node.state) (compareOn Node.scdState)))

theorem transCmp_compareScheduler : TransCmp compareScheduler := by
  have := transCmp_comap transCmp_compareNode Scheduler.controller
  have := transCmp_comap transCmp_compareArgv Scheduler.queues
  exact inferInstanceAs (TransCmp (compareLex
    (fun a b : Scheduler => compareNode a.controller b.controller)
    fun a b => compareArgv a.queues b.queues))

/-- Two objects are compared right if they do not differ in later elements only. -/
theorem orderedAt_iff {α : Type} {cmp} (h : TransCmp cmp) {same : α → α → Prop}
    (heq : ∀ {a b}, cmp a b = .eq ↔ same a b) (a b c : α) :
    OrderedAt cmp a b c ↔ (same a b → a = b) := by
  constructor
  · intro hordered hsame
    exact hordered.eq_iff.mp (heq.mpr hsame)
  · intro hsame
    refine ⟨⟨fun h => hsame (heq.mp h), ?_⟩, OrientedCmp.eq_swap, TransCmp.gt_trans⟩
    rintro rfl
    exact ReflCmp.compare_self

/-- **The comparisons are proper orders exactly on objects that do not differ in later elements of
their lists only.** -/
theorem compare_proper_iff (a b c : Node) (s t u : Scheduler) :
    (OrderedAt compareNode a b c ↔ (a.SameOutline b → a = b)) ∧
      (OrderedAt compareScheduler s t u ↔ (s.SameOutline t → s = t)) :=
  ⟨orderedAt_iff transCmp_compareNode compareNode_eq_eq a b c,
    orderedAt_iff transCmp_compareScheduler compareScheduler_eq_eq s t u⟩

/-- Two nodes whose environments differ in the second variable. -/
theorem later_element_ignored : let a : CStr := ⟨CString.ofString "A=1", by decide⟩
    let b : CStr := ⟨CString.ofString "B=1", by decide⟩
    let node : Node := ⟨none, ⟨0, 0⟩, none, some [a, a], none, false, 0, 0⟩
    compareNode node { node with env := some [a, b] } = .eq := by
  decide +kernel

end Sensys.Orcm.CfgiCompare
