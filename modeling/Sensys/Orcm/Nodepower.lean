/-
# The power of a node

`collect_nodepower_sample` (`orcm/mca/sensor/nodepower/sensor_nodepower.c`) reads two counters of
each of the two power supplies, and divides what the first has grown by by what the second has.
A reading that is out of order is repeated, as long as there were not too many calls.  The loops of
the two supplies are copies of each other: they count their calls together, and they share the
variables `val1` and `val2`, which are only SET by a counter that has not fallen.

So supply B starts with what supply A has left there:

* `power_independent_iff`: its power does not depend on supply A exactly if one of its readings is
  in order, or the power is zero anyway.
* `power_leaks`: a supply whose counters were reset shows the power of the other one.

Counters are only subtracted from larger ones, so they are numbers here; quotients are exact.  The
interval that the function computes is not used, and the sample is packed elsewhere.
-/
import Mathlib.Algebra.Order.Field.Rat
import Mathlib.Data.List.Range
import Mathlib.Tactic.FieldSimp
import Mathlib.Tactic.Linarith
import Mathlib.Tactic.NormNum

namespace Sensys.Orcm.Nodepower

open List

/-! ## 1. The collection -/

/-- What a supply has counted: `readein_a_accu` and `readein_a_cnt`. -/
structure Ein where
  accu : ℕ
  cnt : ℕ
  deriving DecidableEq, Repr

/-- The variables that the loops share. -/
structure Vals where
  val1 : ℕ
  val2 : ℕ
  deriving DecidableEq, Repr

/-- `power_a.cur`.  More than 1000 Watts are taken for an error. -/
def power (vals : Vals) : ℚ :=
  if (vals.val1 / vals.val2 : ℚ) > 1000 then -1 else vals.val1 / vals.val2

/-- From "detect overflow" on: the variables, and whether there is an error. -/
def measure (prev curr : Ein) (vals : Vals) : Vals × Bool :=
  let error := decide (curr.accu < prev.accu)
  let val1 := if error then vals.val1 else curr.accu - prev.accu
  let error := error || decide (curr.cnt < prev.cnt)
  let val2 := if error then vals.val2 else curr.cnt - prev.cnt
  if val2 = 0 then (⟨val1, 1⟩, true) else (⟨val1, val2⟩, error)

/-- What a loop leaves: the counters for the next collection, the variables, the power, and how
often the supply was read. -/
structure Supply where
  prev : Ein
  vals : Vals
  cur : ℚ
  calls : ℕ

/-- `retry_a` and `retry_b`, with the number of retries that are left and what `call_readein`
gives: a reading that fails repeats the counters. -/
def readSupply : ℕ → Ein → Vals → (ℕ → Option Ein) → Supply
  | 0, prev, vals, readings =>
    let curr := (readings 0).getD prev
    let vals := (measure prev curr vals).1
    ⟨curr, vals, power vals, 1⟩
  | left + 1, prev, vals, readings =>
    let curr := (readings 0).getD prev
    let (vals, error) := measure prev curr vals
    if error then
      let supply := readSupply left curr vals fun i => readings (i + 1)
      { supply with calls := supply.calls + 1 }
    else ⟨curr, vals, power vals, 1⟩

/-- What is collected. -/
structure Sample where
  a : Supply
  b : Supply
  nodePower : ℚ

/-- `collect_nodepower_sample`.  Supply A is read again up to 6 calls, supply B up to 7. -/
def collectNodepowerSample (prevA prevB : Ein) (readingsA readingsB : ℕ → Option Ein) : Sample :=
  let a := readSupply 6 prevA ⟨0, 0⟩ readingsA
  let b := readSupply (7 - a.calls) prevB a.vals readingsB
  ⟨a, b, a.cur + b.cur⟩

/-! ## 2. Readings in order -/

/-- The counters before and after each of the first readings. -/
def history (prev : Ein) (readings : ℕ → Option Ein) : ℕ → List (Ein × Ein)
  | 0 => []
  | n + 1 =>
    let curr := (readings 0).getD prev
    (prev, curr) :: history curr (fun i => readings (i + 1)) n

/-- Neither counter is below the value that it had. -/
def InOrder (reading : Ein × Ein) : Prop :=
  reading.1.accu ≤ reading.2.accu ∧ reading.1.cnt ≤ reading.2.cnt

/-- By how much the first counter has grown, where it has not fallen. -/
def rises (readings : List (Ein × Ein)) : List ℕ :=
  readings.filterMap fun (prev, curr) =>
    if prev.accu ≤ curr.accu then some (curr.accu - prev.accu) else none

variable {prev curr : Ein} {readings : ℕ → Option Ein} {vals vals' : Vals} {left k : ℕ}

theorem rises_cons (reading : Ein × Ein) (readings : List (Ein × Ein)) :
    rises (reading :: readings) = rises [reading] ++ rises readings :=
  filterMap_append (l := [reading])

/-- A reading in order sets both variables. -/
theorem measure_of_inOrder (h : InOrder (prev, curr)) (vals vals' : Vals) :
    measure prev curr vals = measure prev curr vals' := by
  simp only [measure, decide_eq_false (Nat.not_lt.mpr h.1), decide_eq_false (Nat.not_lt.mpr h.2)]
  rfl

/-- Any other one keeps the second. -/
theorem measure_of_not_inOrder (h : ¬ InOrder (prev, curr)) (hvals : vals.val2 ≠ 0) :
    measure prev curr vals =
      (⟨(rises [(prev, curr)]).getLast?.getD vals.val1, vals.val2⟩, true) := by
  rw [InOrder, not_and_or, Nat.not_le, Nat.not_le] at h
  by_cases haccu : prev.accu ≤ curr.accu
  · simp [measure, rises, h.resolve_left (Nat.not_lt.mpr haccu), haccu, Nat.not_lt.mpr haccu, hvals]
  · simp [measure, rises, haccu, Nat.lt_of_not_le haccu, hvals]

theorem measure_ne_zero (prev curr : Ein) (vals : Vals) :
    (measure prev curr vals).1.val2 ≠ 0 := by
  unfold measure
  extract_lets
  split
  · exact Nat.one_ne_zero
  · assumption

/-! ## 3. What supply B takes over -/

theorem readSupply_ne_zero (left : ℕ) (prev : Ein) (vals : Vals) (readings : ℕ → Option Ein) :
    (readSupply left prev vals readings).vals.val2 ≠ 0 := by
  induction left generalizing prev vals readings with
  | zero => exact measure_ne_zero _ _ _
  | succ left ih =>
    simp only [readSupply]
    split
    · exact ih _ _ _
    · exact measure_ne_zero _ _ _

/-- Whether a reading is repeated does not depend on what the variables were. -/
theorem measure_error (hvals : vals.val2 ≠ 0) (hvals' : vals'.val2 ≠ 0) :
    (measure prev curr vals).2 = (measure prev curr vals').2 := by
  by_cases horder : InOrder (prev, curr)
  · rw [measure_of_inOrder horder vals vals']
  · rw [measure_of_not_inOrder horder hvals, measure_of_not_inOrder horder hvals']

theorem calls_congr (hvals : vals.val2 ≠ 0) (hvals' : vals'.val2 ≠ 0) :
    (readSupply left prev vals readings).calls = (readSupply left prev vals' readings).calls := by
  induction left generalizing prev vals vals' readings with
  | zero => rfl
  | succ left ih =>
    simp only [readSupply, measure_error hvals hvals']
    split
    · exact congrArg (· + 1) (ih (measure_ne_zero _ _ _) (measure_ne_zero _ _ _))
    · rfl

/-- With a reading in order, what the variables were before is forgotten. -/
theorem cur_of_inOrder (h : ∃ reading ∈ history prev readings (left + 1), InOrder reading)
    (hvals : vals.val2 ≠ 0) (hvals' : vals'.val2 ≠ 0) :
    (readSupply left prev vals readings).cur = (readSupply left prev vals' readings).cur := by
  induction left generalizing prev vals vals' readings with
  | zero =>
    obtain ⟨_, hmem, horder⟩ := h
    rw [mem_singleton.mp hmem] at horder
    simp only [readSupply, measure_of_inOrder horder vals vals']
  | succ left ih =>
    by_cases hfirst : InOrder (prev, (readings 0).getD prev)
    · simp only [readSupply, measure_of_inOrder hfirst vals vals']
    · obtain ⟨reading, hmem, horder⟩ := h
      obtain rfl | hrest := mem_cons.mp hmem
      · exact absurd horder hfirst
      · simp only [readSupply, measure_of_not_inOrder hfirst hvals,
          measure_of_not_inOrder hfirst hvals', if_true]
        exact ih ⟨reading, hrest, horder⟩ hvals hvals'

/-- Without one, the second variable stays, and the first is what the counter has last grown by. -/
theorem cur_of_not_inOrder (vals : Vals) (hvals : vals.val2 ≠ 0)
    (h : ∀ reading ∈ history prev readings (left + 1), ¬ InOrder reading) :
    (readSupply left prev vals readings).cur =
      power ⟨(rises (history prev readings (left + 1))).getLast?.getD vals.val1, vals.val2⟩ := by
  induction left generalizing prev vals readings with
  | zero =>
    simp only [readSupply, measure_of_not_inOrder (h _ mem_cons_self) hvals]
    rfl
  | succ left ih =>
    obtain ⟨hfirst, hrest⟩ := forall_mem_cons.mp h
    simp only [readSupply, measure_of_not_inOrder hfirst hvals, if_true]
    refine (ih _ ?_ hrest).trans ?_
    · exact hvals
    conv_rhs => rw [history, rises_cons, getLast?_append, Option.getD_or]

/-- Supply A can leave anything after any number of readings. -/
theorem exists_readings (vals : Vals) (hvals : vals.val2 ≠ 0) (left n : ℕ) (hn : n ≤ left)
    (start : Vals) :
    ∃ readings, (readSupply left ⟨0, 0⟩ start readings).calls = n + 1 ∧
      (readSupply left ⟨0, 0⟩ start readings).vals = vals := by
  induction n generalizing left start with
  | zero =>
    refine ⟨fun _ => some ⟨vals.val1, vals.val2⟩, ?_⟩
    cases left <;> simp [readSupply, measure, hvals]
  | succ n ih =>
    obtain ⟨left, rfl⟩ := Nat.exists_eq_succ_of_ne_zero (Nat.ne_zero_of_lt hn)
    obtain ⟨readings, hcalls, hleft⟩ := ih left (Nat.le_of_succ_le_succ hn) ⟨0, 1⟩
    -- a reading that fails is repeated
    refine ⟨fun | 0 => none | i + 1 => readings i, ?_, ?_⟩ <;> simp [readSupply, measure, *]

/-- The quotient of a number that is not zero depends on the divisor. -/
theorem power_ne {d : ℕ} (hd : d ≠ 0) : power ⟨d, 1⟩ ≠ power ⟨d, 2 * d⟩ := by
  have hhalf : (d / (2 * d : ℕ) : ℚ) = 1 / 2 := by
    push_cast
    field_simp
  have hsmall : power ⟨d, 2 * d⟩ = 1 / 2 := by
    simp only [power, hhalf]
    exact if_neg (by norm_num)
  rw [hsmall, power, Nat.cast_one, div_one]
  split
  · norm_num
  · intro h
    have htwice : 2 * d = 1 := by exact_mod_cast (by linarith : (2 * d : ℚ) = 1)
    omega

/-- Whatever supply A has shown in `k` readings, if supply B is read equally often its power is the
same. -/
def Independent (k : ℕ) (prevB : Ein) (readingsB : ℕ → Option Ein) : Prop :=
  ∀ prevA prevA' readingsA readingsA',
    let sample := collectNodepowerSample prevA prevB readingsA readingsB
    let sample' := collectNodepowerSample prevA' prevB readingsA' readingsB
    sample.a.calls = k → sample'.a.calls = k → sample.b.calls = sample'.b.calls →
      sample.b.cur = sample'.b.cur

/-- Which means: whatever the variables are that its loop starts with. -/
theorem independent_iff (hk : 1 ≤ k ∧ k ≤ 7) : Independent k prev readings ↔
    ∀ vals vals' : Vals, vals.val2 ≠ 0 → vals'.val2 ≠ 0 →
      (readSupply (7 - k) prev vals readings).cur =
        (readSupply (7 - k) prev vals' readings).cur := by
  constructor
  · intro h vals vals' hvals hvals'
    obtain ⟨a, hcalls, rfl⟩ := exists_readings vals hvals 6 (k - 1) (by omega) ⟨0, 0⟩
    obtain ⟨a', hcalls', rfl⟩ := exists_readings vals' hvals' 6 (k - 1) (by omega) ⟨0, 0⟩
    rw [Nat.sub_add_cancel hk.1] at hcalls hcalls'
    have hcur := h ⟨0, 0⟩ ⟨0, 0⟩ a a' hcalls hcalls'
    simp only [collectNodepowerSample, hcalls, hcalls'] at hcur
    exact hcur (calls_congr hvals hvals')
  · intro h prevA prevA' a a' sample sample' hcalls hcalls' _
    simp only [sample, sample', collectNodepowerSample] at hcalls hcalls' ⊢
    rw [hcalls, hcalls']
    exact h _ _ (readSupply_ne_zero _ _ _ _) (readSupply_ne_zero _ _ _ _)

/-- **The power of supply B is its own exactly if** one of its readings is in order, or its first
counter, where it was last seen not to fall, had not grown. -/
theorem power_independent_iff (k : ℕ) (hk : 1 ≤ k ∧ k ≤ 7) (prevB : Ein)
    (readingsB : ℕ → Option Ein) :
    Independent k prevB readingsB ↔
      (∃ reading ∈ history prevB readingsB (8 - k), InOrder reading) ∨
        (rises (history prevB readingsB (8 - k))).getLast? = some 0 := by
  rw [independent_iff hk, show 8 - k = 7 - k + 1 by omega]
  by_cases horder : ∃ reading ∈ history prevB readingsB (7 - k + 1), InOrder reading
  · exact iff_of_true (fun _ _ => cur_of_inOrder horder) (Or.inl horder)
  · rw [or_iff_right horder]
    have hcur := fun vals hvals =>
      cur_of_not_inOrder vals hvals fun reading hr ho => horder ⟨reading, hr, ho⟩
    cases hlast : (rises (history prevB readingsB (7 - k + 1))).getLast? with
    | none =>
      refine iff_of_false (fun h => ?_) (Option.some_ne_none 0).symm
      have hone := h ⟨1, 1⟩ ⟨2, 1⟩ one_ne_zero one_ne_zero
      rw [hcur _ one_ne_zero, hcur _ one_ne_zero, hlast] at hone
      norm_num [power] at hone
    | some d =>
      simp only [hlast, Option.getD_some] at hcur
      rw [Option.some_inj]
      refine ⟨fun h => ?_, ?_⟩
      · by_contra hne
        have htwice : 2 * d ≠ 0 := by omega
        have hsame := h ⟨0, 1⟩ ⟨0, 2 * d⟩ one_ne_zero htwice
        rw [hcur _ one_ne_zero, hcur _ htwice] at hsame
        exact power_ne hne hsame
      · rintro rfl vals vals' hvals hvals'
        rw [hcur _ hvals, hcur _ hvals']
        simp [power]

/-- The ordinary case: the counters of supply B have grown. -/
theorem power_independent_iff_grown : Independent 1 ⟨0, 0⟩ fun _ => some ⟨10, 1⟩ :=
  (power_independent_iff 1 (by decide) _ _).mpr
    (Or.inl ⟨(⟨0, 0⟩, ⟨10, 1⟩), mem_cons_self, by simp [InOrder]⟩)

/-- **The only reading of supply B is zero**, which is what a response with an error code counts
as: what is reported is the 10 or 20 Watts of supply A. -/
theorem power_leaks : ¬ Independent 7 ⟨100, 100⟩ fun _ => some ⟨0, 0⟩ := by
  intro h
  have hsame := h ⟨0, 0⟩ ⟨0, 0⟩ (fun i => if i = 6 then some ⟨10, 1⟩ else none)
    (fun i => if i = 6 then some ⟨20, 1⟩ else none) rfl rfl rfl
  norm_num [collectNodepowerSample, readSupply, measure, power] at hsame

end Sensys.Orcm.Nodepower
