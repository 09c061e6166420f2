/-
# The queues of the scheduler

`orcm_scd_base_construct_queues` of `orcm/mca/scd/base/scd_base_fns.c`.  The queues `running`,
`hold` and `default` are there first, of priority 0.  Then every specification
`name:priority:rest` of the configuration is split, and its queue goes in front of the first one
with a LOWER priority.  The loop that looks for it has no branch for the end of the list ("we know
the default queue will always be at the bottom"), so a queue that is above none is dropped.

* `queues_kept_iff`: all queues are kept, in order, exactly if their priorities are positive and
  fit an `int32_t`.
* `low_queue_lost`: a queue that is dropped.
-/
import Sensys.Constants
import Sensys.Lib.CString

namespace Sensys.Orcm.ScdQueues

open CString List

/-! ## 1. The code -/

/-- `orcm_queue_t`, with what is set here. -/
structure Queue where
  name : Str
  priority : ℤ
  deriving DecidableEq

/-- `opal_argv_split` at the colons, which leaves out what is empty. -/
def argvSplit (s : Str) : List Str := (s.splitOn 58).filter (· ≠ [])

/-- The loop that puts a queue in front of the first one with a lower priority. -/
def insertPos (q : Queue) : List Queue → List Queue
  | [] => []
  | q2 :: queues =>
    if q.priority > q2.priority then q :: q2 :: queues else q2 :: insertPos q queues

/-- The loop over the specifications, which ends at one that has not three entries. -/
def addQueues : List Queue → List Str → List Queue
  | queues, [] => queues
  | queues, spec :: specs =>
    match argvSplit spec with
    | [name, priority, _] =>
      addQueues (insertPos ⟨name, int32 (strtol priority).1⟩ queues) specs
    | _ => queues

/-- The queues that are always there. -/
def standing : List Queue :=
  [⟨ofString "running", 0⟩, ⟨ofString "hold", 0⟩, ⟨ofString "default", 0⟩]

/-- `orcm_scd_base_construct_queues`, for the queues of the scheduler's configuration. -/
def constructQueues (queues : List Queue) (specs : List Str) : List Queue :=
  addQueues (queues ++ standing) specs

/-! ## 2. Putting queues in order -/

/-- From the highest priority to the lowest. -/
def Ordered (queues : List Queue) : Prop :=
  queues.Pairwise fun earlier later => later.priority ≤ earlier.priority

theorem insertPos_perm {q} : ∀ {queues},
    (∃ q2 ∈ queues, q2.priority < q.priority) → (insertPos q queues).Perm (q :: queues)
  | [], ⟨_, hmem, _⟩ => absurd hmem not_mem_nil
  | q2 :: queues, h => by
    rw [insertPos]
    split
    · exact Perm.refl _
    · rename_i hle
      have hrest : ∃ q2 ∈ queues, q2.priority < q.priority := by simpa [hle] using h
      exact ((insertPos_perm hrest).cons q2).trans (Perm.swap q q2 queues)

theorem insertPos_of_le {q} : ∀ {queues},
    (∀ q2 ∈ queues, q.priority ≤ q2.priority) → insertPos q queues = queues
  | [], _ => rfl
  | q2 :: queues, h => by
    obtain ⟨hle, hrest⟩ := forall_mem_cons.mp h
    rw [insertPos, if_neg (not_lt.mpr hle), insertPos_of_le hrest]

theorem Ordered.insertPos {q} : ∀ {queues}, Ordered queues →
    Ordered (insertPos q queues)
  | [], h => h
  | q2 :: queues, h => by
    obtain ⟨hlater, hrest⟩ := pairwise_cons.mp h
    rw [ScdQueues.insertPos]
    split
    · rename_i hlt
      refine pairwise_cons.mpr ⟨forall_mem_cons.mpr ⟨hlt.le, fun q' hq' => ?_⟩, h⟩
      exact (hlater q' hq').trans hlt.le
    · rename_i hle
      refine pairwise_cons.mpr ⟨fun q' hq' => ?_, Ordered.insertPos hrest⟩
      by_cases hlow : ∃ q2 ∈ queues, q2.priority < q.priority
      · rcases mem_cons.mp ((insertPos_perm hlow).mem_iff.mp hq') with rfl | hmem
        · exact not_lt.mp hle
        · exact hlater q' hmem
      · rw [insertPos_of_le (by simpa using hlow)] at hq'
        exact hlater q' hq'

/-- **What becomes of a list of queues**: the lowest priority stays 0, so the queues above it are
put in, and the others are dropped. -/
theorem foldl_insertPos : ∀ (qs queues : List Queue), Ordered queues →
    (∀ q ∈ queues, 0 ≤ q.priority) → (∃ q ∈ queues, q.priority = 0) →
    (qs.foldl (fun queues q => insertPos q queues) queues).Perm
      (queues ++ qs.filter (0 < ·.priority)) ∧
    Ordered (qs.foldl (fun queues q => insertPos q queues) queues)
  | [], queues, hord, _, _ => ⟨by simp, hord⟩
  | q :: qs, queues, hord, hpos, ⟨low, hlow, hzero⟩ => by
    rw [foldl_cons, filter_cons]
    by_cases hq : 0 < q.priority
    · have hperm := insertPos_perm ⟨low, hlow, hzero ▸ hq⟩
      obtain ⟨hres, hres'⟩ := foldl_insertPos qs (insertPos q queues) hord.insertPos
        (fun q' hq' => (mem_cons.mp (hperm.mem_iff.mp hq')).elim (fun h => h ▸ hq.le) (hpos q'))
        ⟨low, hperm.mem_iff.mpr (mem_cons_of_mem q hlow), hzero⟩
      rw [if_pos (decide_eq_true hq)]
      exact ⟨hres.trans ((hperm.append_right _).trans perm_middle.symm), hres'⟩
    · rw [insertPos_of_le fun q' hq' => (not_lt.mp hq).trans (hpos q' hq'),
        if_neg (by simpa using hq)]
      exact foldl_insertPos qs queues hord hpos ⟨low, hlow, hzero⟩

/-! ## 3. Specifications -/

/-- A well-formed specification `name:priority:rest`. -/
structure QueueSpec where
  name : Str
  sign : Str
  digits : Str
  rest : Str
  name_ne : name ≠ []
  name_colon : 58 ∉ name
  sign_mem : sign ∈ [[], [43], [45]]
  digits_ne : digits ≠ []
  isDigit_digits : ∀ c ∈ digits, isDigit c = true
  rest_ne : rest ≠ []
  rest_colon : 58 ∉ rest

namespace QueueSpec

variable (spec : QueueSpec)

/-- The text. -/
def text : Str := spec.name ++ 58 :: ((spec.sign ++ spec.digits) ++ 58 :: spec.rest)

/-- The queue it asks for. -/
def queue : Queue :=
  ⟨spec.name, if spec.sign = [45] then -(value spec.digits : ℤ) else value spec.digits⟩

/-- The queue that is made of it. -/
def stored : Queue := ⟨spec.name, int32 (strtol (spec.sign ++ spec.digits)).1⟩

theorem argvSplit_text :
    argvSplit spec.text = [spec.name, spec.sign ++ spec.digits, spec.rest] := by
  have hcolon : 58 ∉ spec.sign ++ spec.digits := by
    intro hmem
    rcases mem_append.mp hmem with hsign | hdigit
    · have hmem := spec.sign_mem
      revert hsign
      generalize spec.sign = sign at hmem
      revert sign
      decide
    · exact absurd (spec.isDigit_digits 58 hdigit) (by decide)
  rw [argvSplit, text, splitOn_append_cons_self_of_not_mem spec.name_colon,
    splitOn_append_cons_self_of_not_mem hcolon, splitOn_eq_singleton spec.rest_colon]
  simp [spec.name_ne, spec.digits_ne, spec.rest_ne]

/-- A positive priority of 32 bits is stored as it is. -/
theorem stored_eq (h : 0 < spec.queue.priority) (hfit : spec.queue.priority < 2 ^ 31) :
    spec.stored = spec.queue := by
  have hneg : spec.sign ≠ [45] := by
    intro hsign
    simp only [queue, if_pos hsign] at h
    omega
  have hpriority : spec.queue.priority = value spec.digits := if_neg hneg
  rw [hpriority] at h hfit
  have hlong : value spec.digits ≤ longMax := by
    rw [longMax]
    omega
  have hread : (strtol (spec.sign ++ spec.digits)).1 = value spec.digits := by
    have hmem := spec.sign_mem
    simp only [mem_cons, not_mem_nil, or_false, hneg] at hmem
    rcases hmem with hsign | hsign
    · have hdigits : strtol (spec.digits ++ []) = ((value spec.digits : ℤ), false, []) :=
        strtol_digits spec.digits_ne spec.isDigit_digits (by simp) hlong
      rw [hsign, nil_append, ← List.append_nil spec.digits, hdigits, List.append_nil]
    · simp [hsign, strtol, isSpace, takeWhile_eq_self_iff.mpr spec.isDigit_digits, spec.digits_ne,
        not_lt.mpr hlong]
  rw [stored, hread, int32_eq h.le hfit, ← hpriority]
  rfl

end QueueSpec

theorem addQueues_text : ∀ (specs : List QueueSpec) (queues : List Queue),
    addQueues queues (specs.map QueueSpec.text) =
      (specs.map QueueSpec.stored).foldl (fun queues q => insertPos q queues) queues
  | [], _ => rfl
  | spec :: specs, queues => by
    rw [map_cons, addQueues, spec.argvSplit_text]
    exact addQueues_text specs _

/-- **Queues are kept**, and in order, if and only if every priority is positive and fits an
`int32_t`. -/
theorem queues_kept_iff (specs : List QueueSpec) :
    ((constructQueues [] (specs.map QueueSpec.text)).Perm (standing ++ specs.map QueueSpec.queue) ∧
      Ordered (constructQueues [] (specs.map QueueSpec.text))) ↔
    ∀ spec ∈ specs, 0 < spec.queue.priority ∧ spec.queue.priority < 2 ^ 31 := by
  have hrun := foldl_insertPos (specs.map QueueSpec.stored) standing
    (by simp [Ordered, standing]) (by decide) (by decide)
  rw [constructQueues, nil_append, addQueues_text]
  generalize (specs.map QueueSpec.stored).foldl _ standing = result at hrun
  obtain ⟨hperm, hord⟩ := hrun
  constructor
  · rintro ⟨hkept, -⟩ spec hspec
    have hmem := (perm_append_left_iff standing).mp (hkept.symm.trans hperm) |>.mem_iff.mp
      (mem_map_of_mem hspec)
    obtain ⟨hmem, hpos⟩ := mem_filter.mp hmem
    obtain ⟨other, -, heq⟩ := mem_map.mp hmem
    refine ⟨of_decide_eq_true hpos, ?_⟩
    rw [← heq]
    exact Int.bmod_lt (by decide)
  · intro h
    have hstored : specs.map QueueSpec.stored = specs.map QueueSpec.queue :=
      map_congr_left fun spec hspec => spec.stored_eq (h spec hspec).1 (h spec hspec).2
    rw [hstored, filter_eq_self.mpr] at hperm
    · exact ⟨hperm, hord⟩
    · intro q hq
      obtain ⟨spec, hspec, rfl⟩ := mem_map.mp hq
      exact decide_eq_true (h spec hspec).1

/-- **A queue of priority 0 is dropped.** -/
theorem low_queue_lost : constructQueues [] [ofString "night:0:node1"] = standing ∧
    ⟨ofString "night", 0⟩ ∉ standing := by
  decide +kernel

end Sensys.Orcm.ScdQueues
