/-
# The aggregate plugin

`orcm/mca/analytics/aggregate/analytics_aggregate.c`.  The plugin keeps an average with the number of
values it is of, a minimum and a maximum, and gives the one that the step asks for after each sample.

What it gives is right in every run (`running_statistics`), the average as long as fewer than
`2 ^ 32` values came before the sample: their number is an `unsigned int`, and a later sample is
weighed against too FEW of them (`average_forgets`).
-/
import Sensys.Orcm.SpatialRounds

namespace Sensys.Orcm.Aggregates

open CString Analytics Spatial List

/-! ## 1. The plugin -/

/-- `orcm_analytics_aggregate`. -/
structure Aggregate (F : Type) where
  average : F
  min : F
  max : F
  numSample : ℕ

/-- The value that a call gives. -/
structure AggValue (F : Type) where
  key : Str
  number : F
  units : Option Str

section Model

variable {F : Type} (D : Doubles F) (op dataKey : Str)

/-- `orcm_analytics_aggregate_con`. -/
def aggregateCon : Aggregate F := ⟨D.zero, D.dblMax, D.sub D.zero D.dblMax, 0⟩

/-- `compute_average`.  The sum of the count and the size of a list is a `size_t`, which it fits. -/
def computeAverage (aggregate : Aggregate F) (compute : List (OrcmValue F)) : F × Aggregate F :=
  let sum := compute.foldl (fun sum item => D.add sum item.number) D.zero
  let average := D.div (D.add (D.mul aggregate.average (D.ofNat aggregate.numSample)) sum)
    (D.ofNat (aggregate.numSample + compute.length))
  (average, { aggregate with
    average := average
    numSample := (aggregate.numSample + compute.length) % 2 ^ 32 })

/-- `compute_min`. -/
def computeMin (aggregate : Aggregate F) (compute : List (OrcmValue F)) : F × Aggregate F :=
  let min := compute.foldl (fun min item => if D.lt item.number min then item.number else min)
    aggregate.min
  (min, { aggregate with min := min })

/-- `compute_max`. -/
def computeMax (aggregate : Aggregate F) (compute : List (OrcmValue F)) : F × Aggregate F :=
  let max := compute.foldl (fun max item => if D.lt max item.number then item.number else max)
    aggregate.max
  (max, { aggregate with max := max })

/-- `compute_agg`, which `analyze` does not call without values.  The operation may be cut short. -/
def computeAgg (compute : List (OrcmValue F)) (aggregate : Aggregate F) :
    Option (AggValue F) × Aggregate F :=
  let load (r : F × Aggregate F) : Option (AggValue F) × Aggregate F :=
    (some ⟨dataKey, r.1, compute.head?.bind OrcmValue.units⟩, r.2)
  if op.isPrefixOf (ofString "average") then load (computeAverage D aggregate compute)
  else if op.isPrefixOf (ofString "min") then load (computeMin D aggregate compute)
  else if op.isPrefixOf (ofString "max") then load (computeMax D aggregate compute)
  else (none, aggregate)

/-- What is kept after some samples. -/
def after (past : List (List (OrcmValue F))) : Aggregate F :=
  past.foldl (fun aggregate compute => (computeAgg D op dataKey compute aggregate).2)
    (aggregateCon D)

/-- The number that is given for a sample after others. -/
def returned (past : List (List (OrcmValue F))) (compute : List (OrcmValue F)) : Option F :=
  (computeAgg D op dataKey compute (after D op dataKey past)).1.map AggValue.number

end Model

/-- The name of an operation. -/
def opName : ComputeType → Str
  | .min => ofString "min"
  | .max => ofString "max"
  | _ => ofString "average"

/-- The numbers of some samples. -/
def numbers {F : Type} (samples : List (List (OrcmValue F))) : List F :=
  samples.flatten.map OrcmValue.number

/-! ## 2. What is kept -/

section Exact

variable {D : Doubles ℚ} {dataKey : Str} {past : List (List (OrcmValue ℚ))}
  {compute : List (OrcmValue ℚ)}

theorem numbers_concat : numbers (past ++ [compute]) = numbers past ++ numbers [compute] := by
  simp [numbers]

theorem after_concat (op : Str) : after D op dataKey (past ++ [compute]) =
    (computeAgg D op dataKey compute (after D op dataKey past)).2 := by
  simp [after]

/-- The extreme that is kept. -/
def kept (type : ComputeType) (aggregate : Aggregate ℚ) : ℚ :=
  if type = .min then aggregate.min else aggregate.max

/-- **An extreme is taken over all the values.** -/
theorem returned_extreme {type} (htype : type = .min ∨ type = .max) :
    returned D (opName type) dataKey past compute =
      some ((numbers (past ++ [compute])).foldl (doOperation D type)
        (kept type (aggregateCon D))) := by
  have hcall : ∀ compute aggregate,
      (computeAgg D (opName type) dataKey compute aggregate).1.map AggValue.number =
        some ((numbers [compute]).foldl (doOperation D type) (kept type aggregate)) ∧
      kept type (computeAgg D (opName type) dataKey compute aggregate).2 =
        (numbers [compute]).foldl (doOperation D type) (kept type aggregate) := by
    intro compute aggregate
    rw [numbers, flatten_singleton, foldl_map]
    rcases htype with rfl | rfl <;> exact ⟨rfl, rfl⟩
  have hkept : kept type (after D (opName type) dataKey past) =
      (numbers past).foldl (doOperation D type) (kept type (aggregateCon D)) := by
    induction past using List.reverseRecOn with
    | nil => rfl
    | append_singleton past compute ih =>
      rw [after_concat, (hcall _ _).2, ih, numbers_concat, foldl_append]
  rw [returned, (hcall _ _).1, hkept, numbers_concat, foldl_append]

section Average

variable (hD : Exact D) (hmul : ∀ a b, D.mul a b = a * b)

include hD hmul

theorem computeAgg_average (aggregate : Aggregate ℚ) :
    computeAgg D (opName .average) dataKey compute aggregate =
      (some ⟨dataKey, (aggregate.average * aggregate.numSample + (numbers [compute]).sum) /
          (aggregate.numSample + compute.length : ℕ), compute.head?.bind OrcmValue.units⟩,
        { aggregate with
          average := (aggregate.average * aggregate.numSample + (numbers [compute]).sum) /
            (aggregate.numSample + compute.length : ℕ)
          numSample := (aggregate.numSample + compute.length) % 2 ^ 32 }) := by
  have hsum : compute.foldl (fun sum item => D.add sum item.number) 0 = (numbers [compute]).sum := by
    rw [← zero_add (numbers [compute]).sum, ← foldl_doOperation_average hD, numbers,
      flatten_singleton, foldl_map]
    rfl
  rw [computeAgg, if_pos (by decide), computeAverage, hD.zero, hsum, hmul, hD.add, hD.div, hD.ofNat,
    hD.ofNat]

/-- **The average and the number of values give the sum**, as long as they can be counted. -/
theorem average_after (hfew : (numbers past).length < 2 ^ 32) :
    (after D (opName .average) dataKey past).numSample = (numbers past).length ∧
      (after D (opName .average) dataKey past).average * (numbers past).length =
        (numbers past).sum := by
  induction past using List.reverseRecOn with
  | nil => exact ⟨rfl, mul_zero _⟩
  | append_singleton past compute ih =>
    have hlen : (numbers [compute]).length = compute.length := by simp [numbers]
    rw [numbers_concat, length_append, hlen] at hfew ⊢
    obtain ⟨hcount, hsum⟩ := ih (by omega)
    rw [after_concat, computeAgg_average hD hmul, hcount, hsum, sum_append, Nat.mod_eq_of_lt hfew]
    refine ⟨rfl, ?_⟩
    by_cases hzero : (numbers past).length + compute.length = 0
    · rw [Nat.add_eq_zero_iff, ← hlen, length_eq_zero_iff, length_eq_zero_iff] at hzero
      simp [hzero]
    · exact div_mul_cancel₀ _ (Nat.cast_ne_zero.mpr hzero)

end Average

end Exact

/-! ## 3. Runs -/

/-- **What is given for a sample is right**: it is the average, the minimum or the maximum of all the
values so far. -/
theorem running_statistics {D : Doubles ℚ} (hD : Exact D) (hmul : ∀ a b, D.mul a b = a * b)
    {type : ComputeType} (hplain : Plain type) (dataKey : Str)
    (past : List (List (OrcmValue ℚ))) {compute : List (OrcmValue ℚ)} (hne : compute ≠ [])
    (hmax : ∀ v ∈ numbers (past ++ [compute]), -D.dblMax ≤ v ∧ v ≤ D.dblMax)
    (hfew : type = .average → (numbers past).length < 2 ^ 32) :
    returned D (opName type) dataKey past compute =
      aggregate type (numbers (past ++ [compute])) := by
  have hall : numbers (past ++ [compute]) ≠ [] := by simpa [numbers] using fun _ => hne
  obtain ⟨v, hv⟩ := exists_mem_of_ne_nil _ hall
  rcases hplain with rfl | rfl | rfl
  · obtain ⟨hcount, hsum⟩ := @average_after D dataKey past hD hmul (hfew rfl)
    have hlen : (numbers [compute]).length = compute.length := by simp [numbers]
    rw [returned, computeAgg_average hD hmul, hcount, hsum, aggregate, if_neg hall, numbers_concat,
      sum_append, length_append, hlen]
    all_goals simp
  · rw [returned_extreme (.inl rfl), foldl_doOperation_min hD]
    exact (foldl_min_eq ⟨v, hv, (hmax v hv).2⟩).symm
  · rw [returned_extreme (.inr rfl), foldl_doOperation_max hD]
    refine (foldl_max_eq ⟨v, hv, ?_⟩).symm
    simpa [kept, aggregateCon, hD.sub, hD.zero] using (hmax v hv).1

/-- A value without a key. -/
def valueOf (number : ℚ) : OrcmValue ℚ := ⟨none, ⟨0, 0⟩, number, none⟩

theorem running_statistics_average : (numbers [[valueOf 2, valueOf 4]]).length < 2 ^ 32 ∧
      returned rationals (opName .average) [] [[valueOf 2, valueOf 4]] [valueOf 6] =
        aggregate .average [2, 4, 6] :=
  ⟨by decide, running_statistics exact_rationals (fun _ _ => rfl) (.inl rfl) []
    [[valueOf 2, valueOf 4]] (cons_ne_nil _ _) (by decide +kernel) (fun _ => by decide)⟩

/-- **After `2 ^ 32` zeros a one is taken for the first value**, and the average is 1. -/
theorem average_forgets : ∃ past, (∀ compute ∈ past, compute ≠ []) ∧
    (∀ v ∈ numbers (past ++ [[valueOf 1]]), -rationals.dblMax ≤ v ∧ v ≤ rationals.dblMax) ∧
    returned rationals (opName .average) [] past [valueOf 1] = some 1 ∧
    aggregate .average (numbers (past ++ [[valueOf 1]])) = some (1 / (2 ^ 32 + 1)) := by
  obtain ⟨n, hn⟩ : ∃ n : ℕ, n = 2 ^ 32 := ⟨_, rfl⟩
  have hpos : n ≠ 0 := by omega
  have hmod : n % 4294967296 = 0 := by omega
  have hcast : (n : ℚ) = 2 ^ 32 := by rw [hn]; norm_cast
  have hnumbers : numbers [replicate n (valueOf 0)] = replicate n 0 := by simp [numbers, valueOf]
  refine ⟨[replicate n (valueOf 0)], by simp [hpos], ?_, ?_, ?_⟩
  · intro v hv
    rw [numbers_concat, hnumbers, mem_append, mem_replicate] at hv
    rcases hv with ⟨-, rfl⟩ | hv
    · decide +kernel
    · simp only [numbers, valueOf, flatten_singleton, map_singleton, mem_singleton] at hv
      rw [hv]
      decide +kernel
  · have hafter := @after_concat rationals [] [] (replicate n (valueOf 0)) (opName .average)
    rw [nil_append, computeAgg_average exact_rationals (fun _ _ => rfl), hnumbers] at hafter
    rw [returned, computeAgg_average exact_rationals (fun _ _ => rfl), hafter]
    simp [after, aggregateCon, rationals, numbers, valueOf, hmod]
  · rw [numbers_concat, hnumbers, aggregate, if_neg (by simp [numbers])]
    · simp [numbers, valueOf, hcast]
    all_goals simp

end Sensys.Orcm.Aggregates
