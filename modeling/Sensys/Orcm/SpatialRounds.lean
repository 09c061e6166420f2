/-
# Rounds of the spatial plugin

What the plugin is for, said without its state (`Round`): a round collects the reports of the nodes,
the latest one of a node counts, and a result is due when every node has reported or when the timer
fires.  If sending it fails, the round goes on.

In exact arithmetic the plugin does this in every run (`rounds_are_right`) in which

* no attempt to send a result fails: the sum, the minimum or the maximum and the number of values
  are only reset when a result was sent, so a second attempt counts the values AGAIN, and goes on
  from an average as if it were a sum;
* every sample has a value that the start of the accumulation does not hide: `reset_statistics`
  starts a maximum with `DBL_MIN`, which is the smallest POSITIVE number, so the maximum of negative
  values is wrong;
* a round has fewer values than a 64-bit counter can count.

An expression that names a node twice is no problem: the expansion of the node list drops repeated
names (`LogicalGroup.parseArrayString_nodup`).
-/
import Mathlib.Algebra.Order.BigOperators.Group.List
import Mathlib.Algebra.Order.Field.Rat
import Sensys.Orcm.LogicalGroupExpand
import Sensys.Orcm.Spatial

namespace Sensys.Orcm.Spatial

open CString Opal Analytics List Option
open Window (Sending)

/-! ## 1. What a round is -/

/-- The operations compute exactly.  Nothing is said of the largest and the smallest double: they are
where an accumulation starts, and `Shows` is about them. -/
structure Exact (D : Doubles ℚ) : Prop where
  zero : D.zero = 0
  add : ∀ a b, D.add a b = a + b
  sub : ∀ a b, D.sub a b = a - b
  div : ∀ a b, D.div a b = a / b
  lt : ∀ a b, D.lt a b = decide (a < b)
  le : ∀ a b, D.le a b = decide (a ≤ b)
  ofNat : ∀ n, D.ofNat n = n

/-- A time in seconds. -/
def exactSeconds (time : Timeval) : ℚ := time.sec + time.usec / 1000000

/-- The result over some values.  There is none without a value. -/
def aggregate (type : ComputeType) (values : List ℚ) : Option ℚ :=
  match type with
  | .min => values.min?
  | .max => values.max?
  | _ => if values = [] then none else some (values.sum / values.length)

/-- The host name of a sample: the first item with that key counts, and an item without a key ends the
search. -/
def hostname : List StepAttribute → Option Str
  | [] => none
  | ⟨none, _⟩ :: _ => none
  | ⟨some key, string⟩ :: items => if key = ofString "hostname" then string else hostname items

/-- A round: when the last one ended, and the reports since this one began, the latest first. -/
structure Round where
  ended : Option Timeval
  reports : List (Str × List ℚ)

namespace Round

variable (nodes : List Str) (type : ComputeType) (interval : ℕ)

/-- The values of the latest sample of each node that has reported. -/
def values (round : Round) : List ℚ :=
  nodes.dedup.flatMap fun node => (round.reports.lookup node).getD []

/-- Every node has reported. -/
def Complete (round : Round) : Prop := ∀ node ∈ nodes, (round.reports.lookup node).isSome = true

instance (round : Round) : Decidable (round.Complete nodes) :=
  inferInstanceAs (Decidable (∀ node ∈ nodes, (round.reports.lookup node).isSome = true))

/-- A round begins `interval` seconds after the end of the last one. -/
def begun (round : Round) (now : Timeval) : Bool :=
  round.ended.all fun last => decide ((interval : ℚ) ≤ exactSeconds now - exactSeconds last)

/-- A result is due: the round ends with it, or goes on if it cannot be sent.  In a round that goes on
nothing is lost: the reports are all there for the next attempt. -/
def due (round : Round) (env : Env) : Round × Option ℚ :=
  if env.sending = .sent then (⟨some env.now, []⟩, aggregate type (round.values nodes))
  else (round, none)

/-- A node reports.  What comes before the round has begun is dropped. -/
def report (round : Round) (node : Str) (data : List ℚ) (env : Env) : Round × Option ℚ :=
  if round.begun interval env.now then
    let round := { round with reports := (node, data) :: round.reports }
    if round.Complete nodes then round.due nodes type env else (round, none)
  else (round, none)

/-- The node that a sample is from, if it is a report: it has all its parts, at least one value, and
its host is one of the nodes. -/
def reporter (key : Option (List StepAttribute)) (nonComputeData : Option (List (OrcmValue ℚ)))
    (computeData : List (OrcmValue ℚ)) : Option Str :=
  (key.bind hostname).filter fun host =>
    nodes.contains host && nonComputeData.isSome && !computeData.isEmpty

/-- What happens in a round, and the result that is sent. -/
def step (round : Round) : Label ℚ → Round × Option ℚ
  | .sample key nonComputeData computeData env =>
    match reporter nodes key nonComputeData computeData with
    | none => (round, none)
    | some node => round.report nodes type interval node (computeData.map OrcmValue.number) env
  | .timeout env => if round.reports = [] then (round, none) else round.due nodes type env

/-- The results of a sequence. -/
def results : Round → List (Label ℚ) → List (Option ℚ)
  | _, [] => []
  | round, label :: labels =>
    (round.step nodes type interval label).2 ::
      results (round.step nodes type interval label).1 labels

end Round

/-! ## 2. Accumulating exactly -/

/-- The start of the accumulation does not hide the result: a minimum starts with `DBL_MAX` and a
maximum with `DBL_MIN`, and some value has to be on the right side of that. -/
def Shows (D : Doubles ℚ) (type : ComputeType) (data : List ℚ) : Prop :=
  (type = .min → ∃ v ∈ data, v ≤ D.dblMax) ∧ (type = .max → ∃ v ∈ data, D.dblMin ≤ v)

section Exact

variable {D : Doubles ℚ} (hD : Exact D)

include hD

theorem seconds_exact (time : Timeval) : seconds D time = exactSeconds time := by
  have hlong : ∀ n : ℤ, ofLong D n = n := by
    intro n
    rw [ofLong]
    split
    · rename_i hn
      rw [hD.ofNat]
      exact_mod_cast Int.toNat_of_nonneg hn
    · rw [hD.sub, hD.zero, hD.ofNat]
      have : ((-n).toNat : ℤ) = -n := Int.toNat_of_nonneg (by omega)
      have : ((-n).toNat : ℚ) = -n := by exact_mod_cast this
      rw [this]
      ring
  rw [seconds, hD.add, hD.div, hlong, hlong, hD.ofNat, exactSeconds]
  norm_num

variable (start : ℚ) (values : List ℚ)

theorem foldl_doOperation_min :
    values.foldl (doOperation D .min) start = values.foldl min start := by
  congr 1
  funext r v
  rw [doOperation, if_neg (by decide), if_pos rfl, hD.lt, min_comm, min_def_lt]
  simp only [decide_eq_true_eq]

theorem foldl_doOperation_max :
    values.foldl (doOperation D .max) start = values.foldl max start := by
  congr 1
  funext r v
  rw [doOperation, if_neg (by decide), if_neg (by decide), hD.lt, max_def_lt]
  simp only [decide_eq_true_eq]

theorem foldl_doOperation_average :
    values.foldl (doOperation D .average) start = start + values.sum := by
  induction values generalizing start with
  | nil => simp
  | cons v values ih =>
    rw [foldl_cons, ih, doOperation, if_pos (by decide), hD.add, sum_cons, add_assoc]

end Exact

/-- A minimum that starts no lower than some value is the minimum of the values. -/
theorem foldl_min_eq {α : Type} [LinearOrder α] {start} {values : List α}
    (h : ∃ v ∈ values, v ≤ start) : values.min? = some (values.foldl min start) := by
  obtain ⟨v, hv, hle⟩ := h
  obtain ⟨m, hm⟩ : ∃ m, values.min? = some m :=
    isSome_iff_exists.mp (isSome_min?_of_mem hv)
  have hfold : values.foldl min start = min start m := by
    cases values with
    | nil => cases hv
    | cons x values =>
      rw [min?_cons', some.injEq] at hm
      rw [foldl_cons, ← hm, foldl_assoc]
  have hmle : m ≤ v := ((min?_eq_some_iff).mp hm).2 v hv
  rw [hm, hfold, min_eq_right (hmle.trans hle)]

/-- A maximum that starts no higher than some value is the maximum of the values. -/
theorem foldl_max_eq {start} {values : List ℚ} (h : ∃ v ∈ values, start ≤ v) :
    values.max? = some (values.foldl max start) :=
  @foldl_min_eq ℚᵒᵈ _ start values h

/-! ## 3. The table -/

/-- The table holds the latest reports, under the names of nodes.  It is compared with the reports by
lookups only, so that the order of the slots does not come in. -/
def Stores (nodes : List Str) (buckets : HashTable Str (List (OrcmValue ℚ)))
    (reports : List (Str × List ℚ)) : Prop :=
  ∃ m : Finmap fun _ : Str => List (OrcmValue ℚ), Refines hashKeyPtr buckets m ∧
    (∀ node, (m.lookup (nodeKey node)).map (List.map OrcmValue.number) = reports.lookup node) ∧
    ∀ key ∈ m.keys, ∃ node ∈ nodes, key = nodeKey node

theorem nodeKey_injective : Function.Injective nodeKey := append_left_injective [0]

theorem stores_nil {nodes buckets} (h : Refines hashKeyPtr buckets ∅) : Stores nodes buckets [] :=
  ⟨∅, h, fun _ => by simp, by simp⟩

section Stores

variable {nodes : List Str} {buckets : HashTable Str (List (OrcmValue ℚ))}
  {reports : List (Str × List ℚ)} (h : Stores nodes buckets reports)

include h

theorem Stores.removeAll : Stores nodes buckets.removeAll.2 [] := by
  obtain ⟨m, hrefines, -⟩ := h
  exact stores_nil (removeAll_spec hrefines).2

variable {node : Str}

/-- A new sample replaces the one that is there. -/
theorem Stores.setValue (hnode : node ∈ nodes) (data : List (OrcmValue ℚ)) :
    ∃ buckets', buckets.setValue hashKeyPtr (nodeKey node) data = some (.success, buckets') ∧
      Stores nodes buckets' ((node, data.map OrcmValue.number) :: reports) := by
  obtain ⟨m, hrefines, hlookup, hkeys⟩ := h
  obtain ⟨buckets', hset, hrefines'⟩ := setValue_spec hrefines (nodeKey node) data
  refine ⟨buckets', hset, m.insert (nodeKey node) data, hrefines', ?_, ?_⟩
  · intro other
    by_cases hother : other = node
    · subst hother
      rw [Finmap.lookup_insert, lookup_cons, beq_self_eq_true]
      rfl
    · have hne : nodeKey other ≠ nodeKey node := fun heq => hother (nodeKey_injective heq)
      rw [Finmap.lookup_insert_of_ne m hne, hlookup, lookup_cons,
        beq_eq_false_iff_ne.mpr hother]
  · intro key hkey
    rw [Finmap.mem_keys, Finmap.mem_insert] at hkey
    rcases hkey with rfl | hkey
    · exact ⟨node, hnode, rfl⟩
    · exact hkeys key (Finmap.mem_keys.mpr hkey)

theorem Stores.getValue (node : Str) : ∃ found,
    buckets.getValue hashKeyPtr (nodeKey node) = some found ∧
      reports.lookup node = found.toOption.map (List.map OrcmValue.number) := by
  obtain ⟨m, hrefines, hlookup, -⟩ := h
  refine ⟨_, getValue_spec hrefines (nodeKey node), ?_⟩
  rw [← hlookup]
  cases m.lookup (nodeKey node) <;> rfl

/-- **The table is full when every node has reported**, if no name is listed twice.  The plugin compares
two NUMBERS, the length of the list and the size of the table.  The keys of the table are among the
names, so that equal numbers mean equal sets. -/
theorem Stores.full_iff (hnodup : nodes.Nodup) :
    nodes.length = buckets.getSize ↔ ∀ node ∈ nodes, (reports.lookup node).isSome = true := by
  obtain ⟨m, hrefines, hlookup, hkeys⟩ := h
  have hcard : (nodes.map nodeKey).toFinset.card = nodes.length := by
    rw [toFinset_card_of_nodup (hnodup.map nodeKey_injective), length_map]
  have hsub : m.keys ⊆ (nodes.map nodeKey).toFinset := by
    intro key hkey
    obtain ⟨node, hnode, rfl⟩ := hkeys key hkey
    exact mem_toFinset.mpr (mem_map_of_mem hnode)
  have hmem : ∀ node, nodeKey node ∈ m.keys ↔ (reports.lookup node).isSome = true := by
    intro node
    rw [Finmap.mem_keys, ← Finmap.lookup_isSome, ← hlookup, isSome_map]
  rw [hrefines.size_eq_card]
  constructor
  · intro hsize node hnode
    have heq : m.keys = (nodes.map nodeKey).toFinset :=
      Finset.eq_of_subset_of_card_le hsub (by omega)
    rw [← hmem, heq]
    exact mem_toFinset.mpr (mem_map_of_mem hnode)
  · intro hall
    have heq : m.keys = (nodes.map nodeKey).toFinset := by
      refine hsub.antisymm fun key hkey => ?_
      obtain ⟨node, hnode, rfl⟩ := mem_map.mp (mem_toFinset.mp hkey)
      exact (hmem node).mpr (hall node hnode)
    rw [heq, hcard]

end Stores

/-! ## 4. Computing -/

/-- The loop of `do_compute` takes up the values of the nodes in turn, and passes over nodes without a
sample.  The number of values is counted modulo `2 ^ 64`. -/
theorem computeEach_eq {D nodes reports st} (h : Stores nodes st.buckets reports) :
    ∀ part {acc}, acc.2.1 < 2 ^ 64 →
      ∃ units, computeEach D st part acc = some
        ((part.flatMap fun node => (reports.lookup node).getD []).foldl
            (doOperation D st.computeType) acc.1, (acc.2.1 +
            (part.flatMap fun node => (reports.lookup node).getD []).length) % 2 ^ 64, units)
  | [], acc, hacc => by
    refine ⟨acc.2.2, ?_⟩
    rw [computeEach, flatMap_nil, length_nil, Nat.add_zero, Nat.mod_eq_of_lt hacc]
    rfl
  | node :: part, acc, hacc => by
    obtain ⟨found, hfound, hlookup⟩ := h.getValue node
    rw [computeEach, bucketOf, hfound, bind_some, flatMap_cons, hlookup]
    cases found with
    | error rc => exact computeEach_eq h part hacc
    | ok data =>
      have hbucket : (addBucket D st.computeType data acc).2.1 < 2 ^ 64 :=
        Nat.mod_lt _ (by decide)
      obtain ⟨units, hrest⟩ := computeEach_eq (D := D) h part hbucket
      refine ⟨units, hrest.trans ?_⟩
      simp only [addBucket, Except.toOption, map_some, getD_some, foldl_append, foldl_map, length_append,
        length_map, Nat.mod_add_mod, Nat.add_assoc]

/-- The compute types of a round. -/
def Plain (type : ComputeType) : Prop := type = .average ∨ type = .min ∨ type = .max

/-- **What is accumulated from the start gives the result of the values.**  One case per type: a fold
of `min` or `max` from a start that does not matter, or a sum that starts with zero. -/
theorem aggregate_eq {D} (hD : Exact D) {type : ComputeType} (hplain : Plain type) {values}
    (hne : values ≠ []) (hshows : Shows D type values) : aggregate type values = some (
      let result := values.foldl (doOperation D type) (startResult D type)
      if type = .average then D.div result (D.ofNat values.length) else result) := by
  rcases hplain with rfl | rfl | rfl
  · rw [aggregate, if_neg hne, foldl_doOperation_average hD]
    · simp [startResult, hD.zero, hD.div, hD.ofNat]
    · simp
    · simp
  · rw [foldl_doOperation_min hD]
    exact foldl_min_eq (hshows.1 rfl)
  · rw [foldl_doOperation_max hD]
    exact foldl_max_eq (hshows.2 rfl)

/-- **The result of a computation from the start is that of the values.**  `hresult` and `hcount` say
that it is the start: after a failed attempt they do not hold any more, and nothing resets them. -/
theorem doCompute_eq {D} (hD : Exact D) {nodes} (hnodup : nodes.Nodup) {round : Round} {st}
    (h : Stores nodes st.buckets round.reports) (hnodes : st.nodelist = nodes)
    (hresult : st.result = startResult D st.computeType) (hcount : st.numDataPoint = 0)
    (hplain : Plain st.computeType) (hne : round.values nodes ≠ [])
    (hfew : (round.values nodes).length < 2 ^ 64)
    (hshows : Shows D st.computeType (round.values nodes)) : ∃ result units, doCompute D st =
        some (.success, { st with result := result, numDataPoint := (round.values nodes).length },
          units) ∧
      aggregate st.computeType (round.values nodes) = some result := by
  have hvalues : (nodes.flatMap fun node => (round.reports.lookup node).getD []) =
      round.values nodes := by
    rw [Round.values, hnodup.dedup]
  have hstart : (st.result, st.numDataPoint, (none : Option Str)).2.1 < 2 ^ 64 := by simp [hcount]
  obtain ⟨units, heach⟩ := computeEach_eq (D := D) h nodes hstart
  rw [hvalues] at heach
  simp only [hcount, Nat.zero_add, Nat.mod_eq_of_lt hfew] at heach
  have hpos : (round.values nodes).length ≠ 0 := by simpa using hne
  rw [doCompute, hnodes, hcount, heach, bind_some]
  simp only [if_neg hpos]
  refine ⟨_, units, ?_, aggregate_eq hD hplain hne hshows⟩
  rw [hresult]
  rcases hplain with htype | htype | htype <;> simp [htype, findSd]

/-! ## 5. The invariant -/

/-- The data of a report is fit to be counted.  `few` bounds each report by its share, so that all nodes
together stay below the counter. -/
structure DataOk (D : Doubles ℚ) (type : ComputeType) (nodes : List Str) (data : List ℚ) : Prop where
  ne : data ≠ []
  few : data.length * nodes.length < 2 ^ 64
  shows : Shows D type data

/-- **The invariant**: the statistics are those of the round, and the accumulation is at its start.
The timer can only fire in a round that has a report, and what it brings is no sample. -/
structure Tracks (D : Doubles ℚ) (nodes : List Str) (type : ComputeType) (interval : ℕ)
    (round : Round) (st : SpatialStatistics ℚ) : Prop where
  size : st.size = nodes.length
  nodelist : st.nodelist = nodes
  computeType : st.computeType = type
  interval : st.interval = interval
  ended : st.lastRoundTime = round.ended
  result : st.result = startResult D type
  numDataPoint : st.numDataPoint = 0
  stores : Stores nodes st.buckets round.reports
  reports : ∀ report ∈ round.reports, report.1 ∈ nodes ∧ DataOk D type nodes report.2
  timer : ∀ event, st.timeoutEvent = some event →
    event.value.computeData = none ∧ (event.pending = true → round.reports ≠ [])

theorem lookup_mem {reports : List (Str × List ℚ)} {data} (h : reports.lookup node = some data) :
    (node, data) ∈ reports := by
  obtain ⟨before, after, rfl, -⟩ := lookup_eq_some_iff.mp h
  simp

section Values

variable {D : Doubles ℚ} {nodes : List Str} {type : ComputeType} {round : Round}
  (hreports : ∀ report ∈ round.reports, report.1 ∈ nodes ∧ DataOk D type nodes report.2)

include hreports

/-- The values of the reports are among the values of the round. -/
theorem exists_values (hne : round.reports ≠ []) :
    ∃ data, DataOk D type nodes data ∧ data ⊆ round.values nodes := by
  obtain ⟨report, reports, hcons⟩ := exists_cons_of_ne_nil hne
  have hmem : report ∈ round.reports := hcons ▸ mem_cons_self
  obtain ⟨hnode, -⟩ := hreports report hmem
  have hlookup : round.reports.lookup report.1 = some report.2 := by
    rw [hcons, lookup_cons, beq_self_eq_true]
  refine ⟨report.2, (hreports report hmem).2, fun v hv => ?_⟩
  rw [Round.values, mem_flatMap]
  exact ⟨report.1, List.mem_dedup.mpr hnode, by rwa [hlookup]⟩

/-- There are few enough values to count them. -/
theorem length_values_lt : (round.values nodes).length < 2 ^ 64 := by
  have hlong : ∀ node, ((round.reports.lookup node).getD []).length * nodes.length < 2 ^ 64 := by
    intro node
    cases hlookup : round.reports.lookup node with
    | none => simp
    | some data => exact (hreports _ (lookup_mem hlookup)).2.few
  rcases Nat.eq_zero_or_pos nodes.length with hzero | hpos
  · rw [Round.values, length_eq_zero_iff.mp hzero]
    simp
  · have hvalues : (round.values nodes).length ≤ nodes.length * ((2 ^ 64 - 1) / nodes.length) := by
      rw [Round.values, length_flatMap]
      refine (sum_le_card_nsmul _ _ fun n hn => ?_).trans
        (Nat.mul_le_mul_right _ ((length_map _).trans_le (dedup_sublist nodes).length_le))
      obtain ⟨node, -, rfl⟩ := mem_map.mp hn
      exact (Nat.le_div_iff_mul_le hpos).mpr (Nat.le_pred_of_lt (hlong node))
    exact Nat.lt_of_le_of_lt (hvalues.trans (Nat.mul_div_le _ _)) (by decide)

theorem shows_values (hne : round.reports ≠ []) : Shows D type (round.values nodes) := by
  obtain ⟨data, hok, hsub⟩ := exists_values hreports hne
  exact ⟨fun htype => (hok.shows.1 htype).imp fun _ hv => ⟨hsub hv.1, hv.2⟩,
    fun htype => (hok.shows.2 htype).imp fun _ hv => ⟨hsub hv.1, hv.2⟩⟩

theorem values_ne_nil (hne : round.reports ≠ []) : round.values nodes ≠ [] := by
  obtain ⟨data, hok, hsub⟩ := exists_values hreports hne
  intro hnil
  rw [hnil, subset_nil] at hsub
  exact hok.ne hsub

end Values

/-- The condition on what happens: sending succeeds, and a sample that reports is fit to be
counted. -/
def LabelOk (D : Doubles ℚ) (type : ComputeType) (nodes : List Str) : Label ℚ → Prop
  | .sample _ _ computeData env => env.sending = .sent ∧
      (computeData ≠ [] → DataOk D type nodes (computeData.map OrcmValue.number))
  | .timeout env => env.sending = .sent

section Steps

variable {D : Doubles ℚ} {nodes : List Str} {type : ComputeType} {interval : ℕ} {round : Round}
  {st : SpatialStatistics ℚ}

/-- A call does what happens in the round: it returns, sends the result of the round, and the invariant
holds of the round behind it. -/
def Follows (D : Doubles ℚ) (nodes : List Str) (type : ComputeType) (interval : ℕ)
    (call : Option (Outcome ℚ)) (next : Round × Option ℚ) : Prop :=
  ∃ outcome, call = some outcome ∧ outcome.emitted.map Emission.result = next.2 ∧
    Tracks D nodes type interval next.1 outcome.stats

section Tracks

variable (h : Tracks D nodes type interval round st)

include h

/-- A report is kept. -/
theorem Tracks.keep (hnode : node ∈ nodes) {data} (hdata : DataOk D type nodes data) {buckets}
    (hstores : Stores nodes buckets ((node, data) :: round.reports)) :
    Tracks D nodes type interval { round with reports := (node, data) :: round.reports }
      { st with buckets := buckets } :=
  { h with
    stores := hstores
    reports := forall_mem_cons.mpr ⟨⟨hnode, hdata⟩, h.reports⟩
    timer := fun event hevent => ⟨(h.timer event hevent).1, by simp⟩ }

/-- The timer may be set, and fires, when there is a report. -/
theorem Tracks.withTimer (event : TimeoutEvent ℚ) (hvalue : event.value.computeData = none)
    (hpending : event.pending = true → round.reports ≠ []) :
    Tracks D nodes type interval round { st with timeoutEvent := some event } :=
  { h with
    timer := by
      rintro _ ⟨⟩
      exact ⟨hvalue, hpending⟩ }

/-- The timer is set with the first report of a round.  If it cannot be made the round goes on without
one. -/
theorem Tracks.setTimer (hne : round.reports ≠ []) (env : Env) (value : SampleValue ℚ) :
    Tracks D nodes type interval round (insertTimeoutEvent env st value).2 := by
  rw [insertTimeoutEvent]
  cases env.arming with
  | notMade rc => exact h
  | _ => exact h.withTimer _ rfl fun _ => hne

theorem Tracks.size_ne (hne : nodes ≠ []) : st.size ≠ 0 := by
  rw [h.size]
  exact mt length_eq_zero_iff.mp hne

theorem Tracks.roundBegun_eq (hD : Exact D) (now : Timeval) :
    roundBegun D st now = round.begun interval now := by
  rw [roundBegun, Round.begun, h.ended, h.interval]
  congr 1
  funext last
  rw [timeDiff, hD.le, hD.sub, hD.ofNat, seconds_exact hD, seconds_exact hD]

end Tracks

/-! ## 6. Samples -/

theorem isFrom_spec (node : Str) : ∀ items : List StepAttribute,
    (∀ host, hostname items = some host → isFrom node items = .ok (decide (node = host))) ∧
      (hostname items = none → isFrom node items ≠ .ok true)
  | [] => by simp [isFrom, hostname]
  | ⟨none, _⟩ :: _ => by simp [isFrom, hostname]
  | ⟨some key, string⟩ :: items => by
    simp only [isFrom, hostname]
    split
    · cases string <;> simp
    · exact isFrom_spec node items

/-- `fill_bucket` finds the host of the sample, if it is on the list. -/
theorem findNode_eq_ok {items} : ∀ {nodes},
    findNode items nodes = .ok node ↔ hostname items = some node ∧ node ∈ nodes
  | [] => by simp [findNode]
  | first :: nodes => by
    have hrest : findNode items nodes = .ok node ↔ _ := findNode_eq_ok
    obtain ⟨hfrom, hnone⟩ := isFrom_spec first items
    rw [findNode]
    cases hhost : hostname items with
    | none =>
      split <;> simp_all
    | some host =>
      rw [hfrom host hhost]
      rw [hhost] at hrest
      by_cases heq : first = host
      · simp only [decide_eq_true heq]
        simp_all
      · simp only [decide_eq_false heq]
        rw [hrest, mem_cons]
        refine and_congr_right fun hnode => (or_iff_right ?_).symm
        rintro rfl
        exact heq (some.inj hnode.symm)

variable {computeData : List (OrcmValue ℚ)}

/-- A report is a sample with all its parts, from a node that is found. -/
theorem reporter_iff {key nonComputeData} :
    Round.reporter nodes key nonComputeData computeData = some node ↔
      wellFormed ⟨key, nonComputeData, some computeData⟩ = true ∧
        findNode (key.getD []) nodes = .ok node := by
  rcases key with _ | _ | ⟨item, items⟩
  · simp [Round.reporter, wellFormed]
  · simp [Round.reporter, wellFormed, hostname]
  · rw [getD_some, findNode_eq_ok, Round.reporter, bind_some, filter_eq_some_iff]
    simp only [wellFormed, Bool.and_eq_true, contains_iff_mem, any_some, isEmpty_cons]
    tauto

variable (hD : Exact D) (hnodup : nodes.Nodup) (hplain : Plain type) {env : Env}
  (hsent : env.sending = .sent) (h : Tracks D nodes type interval round st)

include hD hnodup hplain hsent h

/-- **A result that is due is computed, sent and everything reset**: the end of `collect_sample`
and of a call by the timer.  This is the one place that needs the values to be fit; all of `Tracks` but
the configuration is restored by the reset. -/
theorem follows_due (hne : round.reports ≠ []) (value : SampleValue ℚ) :
    Follows D nodes type interval ((handleFullBucket D env st value).map fun outcome =>
        if outcome.emitted.isSome then
          { outcome with stats := resetStatistics D outcome.stats (some env.now) }
        else outcome)
      (round.due nodes type env) := by
  obtain ⟨result, units, hcompute, haggregate⟩ := doCompute_eq hD hnodup h.stores h.nodelist
    (by rw [h.result, h.computeType]) h.numDataPoint (by rwa [h.computeType])
    (values_ne_nil h.reports hne) (length_values_lt h.reports)
    (by rw [h.computeType]; exact shows_values h.reports hne)
  rw [h.computeType] at haggregate
  rw [handleFullBucket, hcompute, Round.due, if_pos hsent]
  refine ⟨_, rfl, ?_⟩
  simp only [hsent]
  refine ⟨by simpa using haggregate.symm, ?_⟩
  exact
    { h with
      ended := rfl
      result := by rw [← h.computeType]; rfl
      numDataPoint := rfl
      stores := h.stores.removeAll
      reports := by simp
      timer := nofun }

/-- The sample of a node that is in the table now. -/
theorem bucketFilled_follows (hne : round.reports ≠ []) (value : SampleValue ℚ) :
    Follows D nodes type interval ((bucketFilled D env st value).map fun outcome =>
        if outcome.emitted.isSome then
          { outcome with stats := resetStatistics D outcome.stats (some env.now) }
        else outcome)
      (if round.Complete nodes then round.due nodes type env else (round, none)) := by
  have hfull : st.size = st.buckets.getSize ↔ round.Complete nodes := by
    rw [h.size]
    exact h.stores.full_iff hnodup
  rw [bucketFilled]
  by_cases hcomplete : round.Complete nodes
  · rw [if_pos (hfull.mpr hcomplete), if_pos hcomplete]
    exact follows_due hD hnodup hplain hsent h hne value
  · rw [if_neg (mt hfull.mp hcomplete), if_neg hcomplete]
    split_ifs with htimer
    · exact ⟨⟨_, (insertTimeoutEvent env st value).2, none⟩, rfl, rfl, h.setTimer hne env value⟩
    · exact ⟨⟨_, st, none⟩, rfl, rfl, h⟩

variable (config : Step) (hne : nodes ≠ [])

include hne

/-- **A sample does what it does in the round.**  The cases are those of the code, in its order: parts
that are missing, a round that has not begun, a host that is not found, and a report. -/
theorem step_sample_follows (key : Option (List StepAttribute))
    (nonComputeData : Option (List (OrcmValue ℚ)))
    (hdata : computeData ≠ [] → DataOk D type nodes (computeData.map OrcmValue.number)) :
    Follows D nodes type interval (step D config st (.sample key nonComputeData computeData env))
      (round.step nodes type interval (.sample key nonComputeData computeData env)) := by
  have hkeep : ∀ rc, Follows D nodes type interval (some ⟨rc, st, none⟩) (round, none) :=
    fun rc => ⟨_, rfl, rfl, h⟩
  rw [step, analyze, if_neg (h.size_ne hne), analyzeValue]
  dsimp only
  rw [collectSample, fillBucket, h.roundBegun_eq hD, Round.step]
  by_cases hwell : wellFormed (⟨key, nonComputeData, some computeData⟩ : SampleValue ℚ) = true
  · rw [if_neg (by simp [hwell])]
    -- the code looks at the time first; a host that is not found is no report either way
    cases hfind : findNode (key.getD []) st.nodelist with
    | error rc =>
      have hreporter : Round.reporter nodes key nonComputeData computeData = none := by
        refine eq_none_iff_forall_ne_some.mpr fun node hsome => ?_
        rw [h.nodelist, (reporter_iff.mp hsome).2] at hfind
        cases hfind
      rw [hreporter]
      split <;> exact hkeep _
    | ok node =>
      rw [h.nodelist] at hfind
      rw [reporter_iff.mpr ⟨hwell, hfind⟩]
      dsimp only
      rw [Round.report]
      split
      · obtain ⟨-, hmem⟩ := findNode_eq_ok.mp hfind
        obtain ⟨buckets, hset, hstores⟩ := h.stores.setValue hmem computeData
        have hcompute : computeData ≠ [] := by
          rintro rfl
          simp [wellFormed] at hwell
        rw [getD_some, hset]
        exact bucketFilled_follows hD hnodup hplain hsent (h.keep hmem (hdata hcompute) hstores)
          (by simp) _
      · exact hkeep _
  · have hreporter : Round.reporter nodes key nonComputeData computeData = none :=
      eq_none_iff_forall_ne_some.mpr fun node hsome => hwell (reporter_iff.mp hsome).1
    rw [if_pos (by simpa using hwell), hreporter]
    exact hkeep _

/-- **So does the timer**, when it fires. -/
theorem step_timeout_follows {outcome} (hstep : step D config st (.timeout env) = some outcome) :
    Follows D nodes type interval (some outcome)
      (round.step nodes type interval (.timeout env)) := by
  obtain ⟨event, hevent, hfire⟩ := bind_eq_some_iff.mp hstep
  obtain ⟨hvalue, hreports⟩ := h.timer event hevent
  split at hfire
  · rename_i hpending
    have hfired := h.withTimer { event with pending := false } hvalue (by simp)
    rw [analyze, if_neg (h.size_ne hne), analyzeValue, hvalue] at hfire
    rw [Round.step, if_neg (hreports hpending), ← hfire]
    exact follows_due hD hnodup hplain hsent hfired (hreports hpending) event.value
  · cases hfire

end Steps

/-! ## 7. Runs -/

/-- **Every run follows the rounds**, by induction on it: the step lemmas keep the invariant. -/
theorem run_follows {D} (hD : Exact D) {nodes} (hnodup : nodes.Nodup) (hne : nodes ≠ []) {type}
    (hplain : Plain type) {interval} (config : Step) :
    ∀ {labels round st st' emitted}, Tracks D nodes type interval round st →
        (∀ label ∈ labels, LabelOk D type nodes label) →
          run D config st labels = some (emitted, st') →
            emitted.map (Option.map Emission.result) = round.results nodes type interval labels ∧
              ∃ round', Tracks D nodes type interval round' st'
  | [], round, st, st', emitted, h, _, hrun => by
    cases hrun
    exact ⟨rfl, round, h⟩
  | label :: labels, round, st, st', emitted, h, hok, hrun => by
    obtain ⟨outcome, hstep, hrest⟩ := bind_eq_some_iff.mp hrun
    obtain ⟨⟨rest, st₁⟩, hrun, hpair⟩ := map_eq_some_iff.mp hrest
    cases hpair
    rw [forall_mem_cons] at hok
    have hfollows : Follows D nodes type interval (some outcome)
        (round.step nodes type interval label) := by
      cases label with
      | sample key nonComputeData computeData env =>
        rw [← hstep]
        exact step_sample_follows hD hnodup hplain hok.1.1 h config hne key nonComputeData hok.1.2
      | timeout env => exact step_timeout_follows hD hnodup hplain hok.1 h config hne hstep
    obtain ⟨outcome', houtcome, hemitted, htracks⟩ := hfollows
    cases houtcome
    obtain ⟨hresults, hlast⟩ := run_follows hD hnodup hne hplain config htracks hok.2 hrun
    exact ⟨by rw [map_cons, hemitted, hresults, Round.results], hlast⟩

/-- The attributes may come in any order and more than once.  The list is only ever written by the
expansion, which drops repeated names; this is where the plugin gets its distinct nodes from. -/
theorem initEach_spec {F : Type} {config} : ∀ {attributes : List StepAttribute}
    {st st' : SpatialStatistics F} {rc : Rc}, initEach config attributes st = some (rc, st') →
      st.nodelist.Nodup → st'.nodelist.Nodup ∧ st'.lastRoundTime = st.lastRoundTime
  | [], st, st', rc, h, hnd => by
    cases h
    exact ⟨hnd, rfl⟩
  | ⟨some key, some string⟩ :: attributes, st, st', rc, h, hnd => by
    rw [initEach] at h
    split_ifs at h
    · obtain ⟨⟨rc₁, nodelist⟩, hparse, h⟩ := bind_eq_some_iff.mp h
      cases rc₁ with
      | success => exact (initEach_spec h (LogicalGroup.parseArrayString_nodup hparse) :)
      | _ =>
        cases h
        exact ⟨hnd, rfl⟩
    all_goals exact (initEach_spec h hnd :)
  | ⟨none, _⟩ :: _, st, st', rc, h, hnd => by
    cases h
    exact ⟨hnd, rfl⟩
  | ⟨some _, none⟩ :: _, st, st', rc, h, hnd => by
    cases h
    exact ⟨hnd, rfl⟩

section Start

variable {D : Doubles ℚ} {config : Step} {st₀ : SpatialStatistics ℚ}
  (hinit : initSpatialStatistics D config (spatialStatisticsCon D) = some (.success, st₀))

include hinit

/-- The first call of the plugin starts the first round. -/
theorem tracks_start : st₀.nodelist.Nodup ∧ st₀.nodelist ≠ [] ∧ st₀.timeoutEvent = none ∧
    Tracks D st₀.nodelist st₀.computeType st₀.interval ⟨none, []⟩ st₀ := by
  obtain ⟨⟨rc, st⟩, heach, hfill⟩ := map_eq_some_iff.mp hinit
  obtain ⟨hnodup, hlast⟩ := initEach_spec heach nodup_nil
  cases rc with
  | success =>
    dsimp only at hfill
    rw [fillSpatialStatistics] at hfill
    dsimp only at hfill
    split_ifs at hfill with hunknown hsize hinterval htimeout
    all_goals cases hfill
    refine ⟨hnodup, mt length_eq_zero_iff.mpr hsize, rfl, ?_⟩
    exact
      { size := rfl
        nodelist := rfl
        computeType := rfl
        interval := rfl
        ended := hlast
        result := rfl
        numDataPoint := rfl
        stores := stores_nil (init_spec hashKeyPtr _)
        reports := by simp
        timer := nofun }
  | _ => cases hfill

/-- It does what a call with the statistics initialised does; a timer is not set before. -/
theorem step_con (label : Label ℚ) :
    step D config (spatialStatisticsCon D) label = step D config st₀ label := by
  obtain ⟨-, hne, htimer, htracks⟩ := tracks_start hinit
  have hsize := htracks.size_ne hne
  have hzero : (spatialStatisticsCon D).size = 0 := rfl
  cases label with
  | sample key nonComputeData computeData env =>
    rw [step, step, analyze, analyze, if_pos hzero, if_neg hsize, hinit]
    rfl
  | timeout env =>
    rw [step, step, htimer]
    rfl

/-- **The rounds of the plugin are right** in every run in which sending does not fail and the
samples are fit to be counted; and a sample is never left without an answer. -/
theorem rounds_are_right (hD : Exact D) (hplain : Plain st₀.computeType) {labels : List (Label ℚ)}
    (hok : ∀ label ∈ labels, LabelOk D st₀.computeType st₀.nodelist label)
    {emitted : List (Option (Emission ℚ))} {st : SpatialStatistics ℚ}
    (hrun : run D config (spatialStatisticsCon D) labels = some (emitted, st)) :
    emitted.map (Option.map Emission.result) =
        Round.results st₀.nodelist st₀.computeType st₀.interval ⟨none, []⟩ labels ∧
      ∀ key nonComputeData computeData env,
        LabelOk D st₀.computeType st₀.nodelist (.sample key nonComputeData computeData env) →
          (step D config st (.sample key nonComputeData computeData env)).isSome = true := by
  obtain ⟨hnodup, hne, -, htracks⟩ := tracks_start hinit
  have hanswer : ∀ {round : Round} {st : SpatialStatistics ℚ},
      Tracks D st₀.nodelist st₀.computeType st₀.interval round st →
        ∀ key nonComputeData computeData env,
          LabelOk D st₀.computeType st₀.nodelist (.sample key nonComputeData computeData env) →
            (step D config st (.sample key nonComputeData computeData env)).isSome = true := by
    intro round st h key nonComputeData computeData env hlabel
    obtain ⟨outcome, hstep, -⟩ :=
      step_sample_follows hD hnodup hplain hlabel.1 h config hne key nonComputeData hlabel.2
    rw [hstep]
    rfl
  cases labels with
  | nil =>
    cases hrun
    refine ⟨rfl, fun key nonComputeData computeData env hlabel => ?_⟩
    rw [step_con hinit]
    exact hanswer htracks key nonComputeData computeData env hlabel
  | cons label labels =>
    have hrun' : run D config st₀ (label :: labels) = some (emitted, st) := by
      rw [run, step_con hinit] at hrun
      exact hrun
    obtain ⟨hresults, round, hlast⟩ := run_follows hD hnodup hne hplain config htracks hok hrun'
    exact ⟨hresults, hanswer hlast⟩

end Start

/-! ## 8. Some runs -/

/-- Exact operations with the constants of `float.h`; a square root is not needed here. -/
def rationals : Doubles ℚ where
  zero := 0
  dblMax := (2 ^ 53 - 1) * 2 ^ 971
  dblMin := 1 / 2 ^ 1022
  add a b := a + b
  sub a b := a - b
  mul a b := a * b
  div a b := a / b
  square a := a * a
  sqrt a := a
  lt a b := decide (a < b)
  le a b := decide (a ≤ b)
  ofNat n := n

theorem exact_rationals : Exact rationals :=
  ⟨rfl, fun _ _ => rfl, fun _ _ => rfl, fun _ _ => rfl, fun _ _ => rfl, fun _ _ => rfl,
    fun _ => rfl⟩

/-- A step of the plugin for these nodes. -/
def stepFor (nodelist compute : String) : Step where
  attributes := [⟨some (ofString "nodelist"), some (ofString nodelist)⟩,
    ⟨some (ofString "compute"), some (ofString compute)⟩]
  groups := HashTable.init 1
  erange := false
  fuel := 1

/-- A sample of a host with one value. -/
def sampleOf (host : String) (number : ℚ) (sending : Sending) : Label ℚ :=
  .sample (some [⟨some (ofString "hostname"), some (ofString host)⟩]) (some [])
    [⟨none, ⟨0, 0⟩, number, none⟩] ⟨⟨100, 0⟩, sending, .added⟩

/-- The results of a run from the start. -/
def resultsOf (config : Step) (labels : List (Label ℚ)) : Option (List (Option ℚ)) :=
  (run rationals config (spatialStatisticsCon rationals) labels).map fun (emitted, _) =>
    emitted.map (Option.map Emission.result)

/-- What the plugin has read from the attributes. -/
def configOf (config : Step) : Option (Rc × List Str × ComputeType × ℕ) :=
  (initSpatialStatistics rationals config (spatialStatisticsCon rationals)).map fun (rc, st) =>
    (rc, st.nodelist, st.computeType, st.interval)

/-- Two nodes, one of them named twice, and their average. -/
theorem rounds_are_right_average :
    resultsOf (stepFor "a,b,a" "average") [sampleOf "a" 2 .sent, sampleOf "b" 4 .sent] =
      some [none, some 3] := by
  have hconfig : configOf (stepFor "a,b,a" "average") =
      some (.success, [ofString "a", ofString "b"], .average, 60) := by decide +kernel
  have hruns : (run rationals (stepFor "a,b,a" "average") (spatialStatisticsCon rationals)
      [sampleOf "a" 2 .sent, sampleOf "b" 4 .sent]).isSome = true := by decide +kernel
  obtain ⟨⟨emitted, st⟩, hrun⟩ := isSome_iff_exists.mp hruns
  obtain ⟨⟨rc, st₀⟩, hinit, hst₀⟩ := map_eq_some_iff.mp hconfig
  simp only [Prod.mk.injEq] at hst₀
  obtain ⟨rfl, hnodes, htype, hinterval⟩ := hst₀
  have hok : ∀ label ∈ [sampleOf "a" 2 .sent, sampleOf "b" 4 .sent],
      LabelOk rationals st₀.computeType st₀.nodelist label := by
    have hdata : ∀ v : ℚ, DataOk rationals st₀.computeType st₀.nodelist [v] := fun v =>
      ⟨by simp, by simp [hnodes], by simp [Shows, htype]⟩
    simp only [mem_cons, not_mem_nil, or_false, forall_eq_or_imp, forall_eq]
    exact ⟨⟨rfl, fun _ => hdata 2⟩, ⟨rfl, fun _ => hdata 4⟩⟩
  have hresults := (rounds_are_right hinit exact_rationals (.inl htype) hok hrun).1
  rw [hnodes, htype, hinterval] at hresults
  rw [resultsOf, hrun, map_some]
  dsimp only
  rw [hresults]
  decide +kernel

/-- **Two ways to a wrong result.**  When sending the average of 2 and 4 fails, the next attempt is
the sum of that average and of both values again, divided by four.  And the maximum of `-1` is the
smallest positive number. -/
theorem rounds_go_wrong : resultsOf (stepFor "a,b" "average")
        [sampleOf "a" 2 .sent, sampleOf "b" 4 (.failed .error), sampleOf "b" 4 .sent] =
      some [none, none, some (9 / 4)] ∧
    Round.results [ofString "a", ofString "b"] .average 60 ⟨none, []⟩
        [sampleOf "a" 2 .sent, sampleOf "b" 4 (.failed .error), sampleOf "b" 4 .sent] =
      [none, none, some 3] ∧
    resultsOf (stepFor "a" "max") [sampleOf "a" (-1) .sent] = some [some (1 / 2 ^ 1022)] ∧
    Round.results [ofString "a"] .max 60 ⟨none, []⟩ [sampleOf "a" (-1) .sent] = [some (-1)] := by
  refine ⟨?_, ?_, ?_, ?_⟩ <;> decide +kernel

end Sensys.Orcm.Spatial
