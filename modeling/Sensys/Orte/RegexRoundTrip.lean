/-
# When a node list survives encoding and decoding

`orte_regex_create` followed by `orte_regex_extract_node_names` is meant to be the identity on
lists of node names, up to order.  It is not, and this file says exactly when it is
(`roundTrips_iff`).  A single name always survives; a longer list survives exactly when

* no compressible name starts with a digit: the decoder refuses a bracket without a base;
* every compressible name has ONE digit run: the encoder counts all digits of a name but prints
  only the first run, padded to that count, so a name with a second run comes back longer;
* a name numbered 0 is followed, among the names of its class, by the one numbered 1, or is the
  last name of the class that appears last: otherwise the encoder ends a range in 0, `log10(0)`
  sets `errno`, and the next `strtol` is taken for an overflow;
* no compressible name has 2^31 digits or more, which the encoder counts in an `int`.

The first two and the last are read off the node ids (`items`); the third is `flags` of the
decoder, carried from ranges to numbers (`flags_runs`) and from node ids to classes
(`items_classes`).
-/
import Sensys.Orte.RegexDecode
import Mathlib.Data.List.Nodup
import Mathlib.Algebra.Order.BigOperators.Group.List

namespace Sensys.Orte

open CString List Item

/-! ## 1. Node names -/

/-- The maximal digit runs of a string (and empty strings between its other characters). -/
def digitRuns (x : Str) : List Str := x.splitOnP fun c => !isDigit c

/-- The names node lists are made of: letters, digits, `-` and `.`, with fewer than fifty leading
letters and digit runs that fit an `int`. -/
structure NodeName (x : Str) : Prop where
  ne_nil : x ≠ []
  chars : ∀ c ∈ x, isAlpha c = true ∨ isDigit c = true ∨ c = 45 ∨ c = 46
  letters : (x.takeWhile isAlpha).length < 50
  fits : ∀ run ∈ digitRuns x, value run ≤ 2147483647

instance (x : Str) : Decidable (NodeName x) :=
  decidable_of_iff (x ≠ [] ∧ x.all (fun c => isAlpha c || isDigit c || c == 45 || c == 46) = true ∧
      (x.takeWhile isAlpha).length < 50 ∧ ∀ run ∈ digitRuns x, value run ≤ 2147483647)
    ⟨fun h => ⟨h.1, by simpa [or_assoc] using h.2.1, h.2.2.1, h.2.2.2⟩,
      fun h => ⟨h.1, by simpa [or_assoc] using h.2, h.3, h.4⟩⟩

variable {x y : Str} {c : Cls} {names : List Str}

theorem NodeName.endsBase_eq_false (h : NodeName x) {c} (hc : c ∈ x) : endsBase c = false := by
  rw [Bool.eq_false_iff]
  intro hend
  have hchar := h.chars c hc
  simp only [endsBase, Bool.or_eq_true, beq_iff_eq] at hend
  rcases hend with (rfl | rfl) | rfl <;> revert hchar <;> decide

theorem NodeName.comma_notMem (h : NodeName x) : comma ∉ x := by
  intro hc
  have := h.endsBase_eq_false hc
  revert this
  decide

/-- Letters in front of a string only add empty runs. -/
theorem digitRuns_letters (pre rest : Str) (hpre : ∀ c ∈ pre, isAlpha c = true) {run}
    (h : run ∈ digitRuns rest) : run ∈ digitRuns (pre ++ rest) := by
  induction pre with
  | nil => exact h
  | cons c pre ih =>
    have hc := isDigit_eq_false_of_isAlpha (hpre c mem_cons_self)
    have htail := ih fun d hd => hpre d (mem_cons_of_mem _ hd)
    rw [digitRuns, cons_append, splitOnP_cons_eq_if_modifyHead]
    simp only [hc, Bool.not_false, if_true]
    exact mem_cons_of_mem _ htail

theorem digitsOf_mem_digitRuns (x : Str) : digitsOf x ∈ digitRuns x := by
  have hdig : ∀ c ∈ digitsOf x, (!isDigit c) = false := by
    intro c hc
    rw [isDigit_of_mem_digitsOf hc]
    rfl
  have hmid : digitsOf x ∈ digitRuns (digitsOf x ++ (clsOf x).suffix) := by
    cases hsfx : (clsOf x).suffix with
    | nil =>
      rw [List.append_nil, digitRuns, splitOnP_eq_singleton (by simpa using hdig)]
      exact mem_cons_self
    | cons c s =>
      have hc : isDigit c = false := suffix_head (by rw [hsfx]; rfl)
      rw [digitRuns, splitOnP_append_cons _ _ (by simp [hc]),
        splitOnP_eq_singleton (by simpa using hdig)]
      exact mem_cons_self
  have := digitRuns_letters (clsOf x).pre _ (fun c hc => isAlpha_of_mem_pre hc) hmid
  rwa [parts_append] at this

theorem NodeName.number_le (h : NodeName x) : numberOf x ≤ 2147483647 :=
  h.fits _ (digitsOf_mem_digitRuns x)

/-! ## 2. The node ids by class -/

/-- The classes of a list of names, in the order in which they first appear. -/
def classes (names : List Str) : List Cls := ((names.filter compressible).map clsOf).eraseDups

/-- The numbers of the names of one class, in order. -/
def numbersIn (c : Cls) (names : List Str) : List ℕ :=
  (names.filter fun x => compressible x && decide (clsOf x = c)).map numberOf

/-- The class and the numbers of a compressed node id. -/
def Item.asCls : Item → Option (Cls × List ℕ)
  | .whole _ => none
  | .cls c ns => some (c, ns)

theorem items_concat (names : List Str) (x : Str) :
    items (names ++ [x]) = addItem (items names) x := by
  simp [items]

theorem mem_classes : c ∈ classes names ↔ ∃ x ∈ names, compressible x = true ∧ clsOf x = c := by
  simp [classes, and_assoc]

theorem classes_concat (names : List Str) (x : Str) : classes (names ++ [x]) =
      if compressible x = true ∧ clsOf x ∉ classes names then classes names ++ [clsOf x]
      else classes names := by
  by_cases hx : compressible x = true
  · have hmem : clsOf x ∈ classes names ↔ clsOf x ∈ (names.filter compressible).map clsOf := by
      simp [classes]
    rw [classes, filter_append, map_append, eraseDups_append]
    by_cases hc : clsOf x ∈ classes names
    · simp [hx, List.removeAll, hmem.mp hc, classes]
    · have hc' := hc
      rw [hmem] at hc'
      simp [hx, List.removeAll, hc', classes, eraseDups_cons]
  · simp [classes, hx]

theorem numbersIn_concat (c : Cls) (names : List Str) (x : Str) :
    numbersIn c (names ++ [x]) = numbersIn c names ++
      if compressible x = true ∧ clsOf x = c then [numberOf x] else [] := by
  by_cases hx : compressible x = true <;> by_cases hc : clsOf x = c <;>
    simp [numbersIn, hx, hc]

theorem numbersIn_eq_nil (h : c ∉ classes names) : numbersIn c names = [] := by
  rw [numbersIn, map_eq_nil_iff, filter_eq_nil_iff]
  intro x hx hc
  simp only [Bool.and_eq_true, decide_eq_true_eq] at hc
  exact h (mem_classes.mpr ⟨x, hx, hc⟩)

theorem nodup_classes (names : List Str) : (classes names).Nodup := by
  induction names using List.reverseRecOn with
  | nil => exact nodup_nil
  | append_singleton names x ih =>
    rw [classes_concat]
    split
    · rename_i h
      have := List.Nodup.concat h.2 ih
      rwa [concat_eq_append] at this
    · exact ih

theorem numbersIn_ne_nil (h : c ∈ classes names) : numbersIn c names ≠ [] := by
  obtain ⟨x, hx, hcx⟩ := mem_classes.mp h
  intro hnil
  rw [numbersIn, map_eq_nil_iff, filter_eq_nil_iff] at hnil
  exact hnil x hx (by simpa using hcx)

/-- Recording a number under its class, in a list of node ids whose compressed ones are the
classes `cs` with the numbers `f`. -/
theorem asCls_addNum (c : Cls) (n : ℕ) (f : Cls → List ℕ) : ∀ (is : List Item) (cs : List Cls),
    cs.Nodup → is.filterMap asCls = cs.map (fun d => (d, f d)) →
    (addNum c n is).filterMap asCls =
      if c ∈ cs then cs.map (fun d => (d, f d ++ if d = c then [n] else []))
      else cs.map (fun d => (d, f d)) ++ [(c, [n])]
  | [], cs, _, h => by
    have hcs : cs = [] := by simpa using h.symm
    subst hcs
    simp [addNum, asCls]
  | .whole name :: is, cs, hnd, h => by
    have hrest : is.filterMap asCls = cs.map (fun d => (d, f d)) := by
      rwa [filterMap_cons_none rfl] at h
    exact asCls_addNum c n f is cs hnd hrest
  | .cls d ns :: is, [], _, h => by simp [asCls] at h
  | .cls d ns :: is, d' :: cs, hnd, h => by
    simp only [filterMap_cons, asCls, map_cons, List.cons.injEq,
      Prod.mk.injEq] at h
    obtain ⟨⟨rfl, rfl⟩, hrest⟩ := h
    rw [nodup_cons] at hnd
    by_cases hd : d = c
    · subst hd
      have hsame : cs.map (fun e => (e, f e ++ if e = d then [n] else []))
          = cs.map (fun e => (e, f e)) := by
        refine map_congr_left ?_
        intro e he
        have : e ≠ d := by
          rintro rfl
          exact hnd.1 he
        simp [this]
      simp [addNum, asCls, hrest, hsame]
    · have ih := asCls_addNum c n f is cs hnd.2 hrest
      simp only [addNum, if_neg hd, filterMap_cons, asCls, ih, mem_cons,
        Ne.symm hd, false_or]
      split <;> simp [hd]

variable (names)

/-- **The compressed node ids are the classes**, in order of appearance, each with its numbers. -/
theorem items_classes :
    (items names).filterMap asCls = (classes names).map fun c => (c, numbersIn c names) := by
  induction names using List.reverseRecOn with
  | nil => rfl
  | append_singleton names x ih =>
    rw [items_concat, classes_concat, addItem]
    by_cases hx : compressible x = true
    · rw [if_pos hx, asCls_addNum _ _ _ _ _ (nodup_classes names) ih]
      by_cases hc : clsOf x ∈ classes names
      · rw [if_pos hc, if_neg (by tauto)]
        refine map_congr_left ?_
        intro d _
        simp [numbersIn_concat, hx, eq_comm]
      · rw [if_neg hc, if_pos ⟨hx, hc⟩, map_append]
        congr 1
        · refine map_congr_left ?_
          intro d hd
          have : clsOf x ≠ d := by
            rintro rfl
            exact hc hd
          simp [numbersIn_concat, this]
        · simp [numbersIn_concat, hx, numbersIn_eq_nil hc]
    · rw [if_neg hx, if_neg (by tauto), filterMap_append, ih]
      simp [asCls, numbersIn_concat, hx]

theorem ranges_eq (its : List Item) :
    its.flatMap Item.ranges = (its.filterMap asCls).flatMap fun p => runs p.2 := by
  induction its with
  | nil => rfl
  | cons it its ih =>
    cases it with
    | whole name =>
      rw [flatMap_cons, filterMap_cons_none rfl, ih]
      rfl
    | cls c ns => simp [Item.ranges, asCls, ih]

/-- The ranges in the order in which the decoder reads them. -/
theorem items_ranges : (items names).flatMap Item.ranges
      = (classes names).flatMap fun c => runs (numbersIn c names) := by
  rw [ranges_eq, items_classes, flatMap_map]

/-! ## 3. Zeros -/

/-- Every 0 that is not the last number is followed by 1. -/
def zerosContinued : List ℕ → Bool
  | m :: n :: ns => (m != 0 || n == 1) && zerosContinued (n :: ns)
  | _ => true

theorem flags_true_runs {ns} (h : ns ≠ []) : flags (runs ns) true = none := by
  obtain ⟨r, rs, hr⟩ := exists_cons_of_ne_nil (runs_ne_nil h)
  rw [hr]
  rfl

/-- **The decoder's memory over the ranges of a class**: it trips over a 0 that is followed by
anything but 1, and otherwise keeps whether the last number is 0. -/
theorem flags_runsFrom (ns : List ℕ) : ∀ r : Range, r.Ok → flags (runsFrom r ns) false =
      if zerosContinued (r.stop.toNat :: ns) then
        some (decide ((r.stop.toNat :: ns).getLast? = some 0)) else none := by
  induction ns with
  | nil =>
    intro r hr
    have h1 := hr.1
    have h2 := hr.2
    have hz : decide (r.stop = 0) = decide (r.stop.toNat = 0) := by
      rw [decide_eq_decide, Range.stop]
      omega
    simp [runsFrom, flags, zerosContinued, hz]
  | cons n ns ih =>
    intro r hr
    have h1 := hr.1
    have h2 := hr.2
    rw [runsFrom]
    by_cases hn : (n : ℤ) = r.start + r.cnt
    · have hstop : ({ r with cnt := r.cnt + 1 } : Range).stop.toNat = n := by
        show (r.start + (r.cnt + 1) - 1).toNat = n
        omega
      have hprev : r.stop.toNat + 1 = n := by
        rw [Range.stop]
        omega
      have hcont : (r.stop.toNat != 0 || n == 1) = true := by
        simp only [Bool.or_eq_true, bne_iff_ne, ne_eq, beq_iff_eq]
        omega
      rw [if_pos hn, ih _ hr.longer, hstop, zerosContinued, hcont, Bool.true_and, getLast?_cons_cons]
    · rw [if_neg hn, flags]
      have hstop : (⟨n, 1⟩ : Range).stop.toNat = n := by simp [Range.stop]
      by_cases hz : r.stop = 0
      · -- the range ends in 0, so it is the number 0 alone, and `n` is not 1
        have hn1 : n ≠ 1 := by
          rintro rfl
          rw [Range.stop] at hz
          omega
        simp [hz, ← runs_cons, flags_true_runs, zerosContinued, hn1]
      · have hz' : r.stop.toNat ≠ 0 := by
          rw [Range.stop] at hz ⊢
          omega
        simp only [hz, decide_false]
        rw [ih _ (Range.ok_single n), hstop, zerosContinued, getLast?_cons_cons]
        simp [hz']

theorem flags_runs {ns} (hne : ns ≠ []) : flags (runs ns) false =
      if zerosContinued ns then some (decide (ns.getLast? = some 0)) else none := by
  obtain ⟨n, ns, rfl⟩ := exists_cons_of_ne_nil hne
  have hstop : (⟨n, 1⟩ : Range).stop.toNat = n := by simp [Range.stop]
  rw [runs_cons, flags_runsFrom ns _ (Range.ok_single n), hstop]

/-- **The decoder's memory over all classes.** -/
theorem flags_classes (f : Cls → List ℕ) : ∀ cs : List Cls, (∀ c ∈ cs, f c ≠ []) →
    ((∃ e, flags (cs.flatMap fun c => runs (f c)) false = some e) ↔
      (∀ c ∈ cs, zerosContinued (f c) = true) ∧ ∀ c ∈ cs.dropLast, (f c).getLast? ≠ some 0)
  | [], _ => by simp [flags]
  | [c], hne => by
    simp only [flatMap_cons, flatMap_nil, List.append_nil]
    rw [flags_runs (hne c mem_cons_self)]
    cases hz : zerosContinued (f c) <;> simp [hz]
  | c :: d :: cs, hne => by
    have ih := flags_classes f (d :: cs) fun x hx => hne x (mem_cons_of_mem _ hx)
    rw [flatMap_cons, flags_append, flags_runs (hne c mem_cons_self)]
    by_cases hz : zerosContinued (f c) = true
    · rw [if_pos hz, Option.bind_some]
      by_cases hlast : (f c).getLast? = some 0
      · -- the class ends in 0 and another one follows
        have hstuck : flags ((d :: cs).flatMap fun c => runs (f c)) true = none := by
          rw [flatMap_cons, flags_append, flags_true_runs (hne d (by simp))]
          rfl
        simp only [hlast, decide_true, hstuck]
        simp [hlast, List.dropLast]
      · simp only [hlast, decide_false]
        rw [ih]
        simp [hz, hlast, List.dropLast]
    · simp [hz]

/-! ## 4. The names that come back -/

/-- What comes back for a name, if anything does. -/
def render (x : Str) : Str := if compressible x then (clsOf x).name (numberOf x) else x

theorem names_addNum (c : Cls) (n : ℕ) : ∀ is : List Item,
    ((addNum c n is).flatMap Item.names).Perm (is.flatMap Item.names ++ [c.name n])
  | [] => by simp [addNum, Item.names]
  | .whole name :: is => by
    have := names_addNum c n is
    simpa [addNum, Item.names] using this
  | .cls d ns :: is => by
    rw [addNum]
    by_cases hd : d = c
    · subst hd
      simp only [if_true, flatMap_cons, Item.names, map_append, map_cons,
        map_nil, List.append_assoc]
      exact Perm.append_left _ perm_append_comm
    · simp only [if_neg hd, flatMap_cons, List.append_assoc]
      exact Perm.append_left _ (names_addNum c n is)

/-- **The node ids stand for the rendered names.** -/
theorem items_names : ((items names).flatMap Item.names).Perm (names.map render) := by
  induction names using List.reverseRecOn with
  | nil => exact List.Perm.refl _
  | append_singleton names x ih =>
    rw [items_concat, map_append, addItem]
    by_cases hx : compressible x = true
    · rw [if_pos hx]
      refine (names_addNum _ _ _).trans ?_
      simpa [render, hx] using ih.append_right [(clsOf x).name (numberOf x)]
    · simpa [render, hx, Item.names] using ih.append_right [x]

theorem length_render (x : Str) : (render x).length = x.length +
      if compressible x then (clsOf x).suffix.countP isDigit else 0 := by
  by_cases hx : compressible x = true
  · have hlen := congrArg List.length (parts_append x)
    have hnum := numDigits_eq x
    simp only [render, hx, if_true, Cls.name, length_append, length_pad] at hlen ⊢
    omega
  · simp [render, hx]

/-- A compressible name with one digit run comes back as it was. -/
theorem render_eq
    (h : compressible x = true → (clsOf x).suffix.countP isDigit = 0) : render x = x := by
  by_cases hx : compressible x = true
  · have hnum := numDigits_eq x
    rw [h hx, Nat.add_zero] at hnum
    rw [render, if_pos hx, Cls.name, hnum, numberOf,
      pad_value _ fun c hc => isDigit_of_mem_digitsOf hc, List.append_assoc, parts_append]
  · simp [render, hx]

/-- **The names come back up to order exactly when each comes back as it was**: a name that
changes gets longer, and no other gets shorter. -/
theorem map_render_perm_iff : (names.map render).Perm names ↔
      ∀ x ∈ names, compressible x = true → (clsOf x).suffix.countP isDigit = 0 := by
  constructor
  · intro hperm x hx hc
    by_contra hdig
    have hsum : (names.map fun y => (render y).length).sum = (names.map List.length).sum := by
      rw [← (hperm.map List.length).sum_eq, map_map]
      rfl
    have hle : ∀ y ∈ names, y.length ≤ (render y).length := by
      intro y _
      rw [length_render]
      omega
    have hlt : x.length < (render x).length := by
      rw [length_render, if_pos hc]
      omega
    have hmore := sum_lt_sum List.length (fun y => (render y).length) hle ⟨x, hx, hlt⟩
    exact absurd hsum (ne_of_gt hmore)
  · intro h
    have : names.map render = names := by
      conv_rhs => rw [← map_id names]
      exact map_congr_left fun x hx => render_eq (h x hx)
    rw [this]

variable {names}

/-! ## 5. The node ids of good names -/

/-- The names the encoder can take. -/
structure Encodable (names : List Str) : Prop where
  node : ∀ x ∈ names, NodeName x
  digits : ∀ x ∈ names, compressible x = true → (clsOf x).numDigits < 2 ^ 31

theorem good_cls (h : NodeName x) (hc : compressible x = true)
    (hd : (clsOf x).numDigits < 2 ^ 31) : (cls (clsOf x) [numberOf x]).Good := by
  have hnum := numDigits_eq x
  have hpos : 0 < (digitsOf x).length := List.length_pos_iff.mpr (digitsOf_ne_nil hc)
  refine ⟨by simp, fun c hc => isAlpha_of_mem_pre hc, ?_, by omega, hd, ?_⟩
  · intro c hcs
    exact (compressible_iff.mp hc).1 c (mem_of_mem_suffix hcs)
  · intro n hn
    rw [List.mem_singleton] at hn
    subst hn
    refine ⟨h.number_le, ?_⟩
    have hlt := value_lt_pow (digitsOf x) fun c hc => isDigit_of_mem_digitsOf hc
    exact lt_of_lt_of_le hlt (Nat.pow_le_pow_right (by omega) (by omega))

theorem good_addNum {n} (hc : (cls c [n]).Good) :
    ∀ is : List Item, (∀ it ∈ is, it.Good) → ∀ it ∈ addNum c n is, it.Good
  | [], _, it, hit => by
    rw [addNum, List.mem_singleton] at hit
    exact hit ▸ hc
  | .whole name :: is, his, it, hit => by
    rcases mem_cons.mp hit with rfl | hit
    · exact his _ mem_cons_self
    · exact good_addNum hc is (fun x hx => his x (mem_cons_of_mem _ hx)) it hit
  | .cls d ns :: is, his, it, hit => by
    rw [addNum] at hit
    have hd := his _ mem_cons_self
    split at hit
    · rename_i hdc
      subst hdc
      rcases mem_cons.mp hit with rfl | hit
      · obtain ⟨-, hpre, hsfx, hpos, hlt, hnums⟩ := hd
        refine ⟨by simp, hpre, hsfx, hpos, hlt, ?_⟩
        intro m hm
        rcases mem_append.mp hm with hm | hm
        · exact hnums m hm
        · exact hc.2.2.2.2.2 m hm
      · exact his it (mem_cons_of_mem _ hit)
    · rcases mem_cons.mp hit with rfl | hit
      · exact hd
      · exact good_addNum hc is (fun x hx => his x (mem_cons_of_mem _ hx)) it hit

theorem good_items (h : Encodable names) : ∀ it ∈ items names, it.Good := by
  induction names using List.reverseRecOn with
  | nil => simp [items]
  | append_singleton names x ih =>
    have hx := h.node x (by simp)
    have hnames := ih ⟨fun y hy => h.node y (by simp [hy]), fun y hy => h.digits y (by simp [hy])⟩
    rw [items_concat, addItem]
    split
    · rename_i hc
      exact good_addNum (good_cls hx hc (h.digits x (by simp) hc)) _ hnames
    · intro it hit
      rcases mem_append.mp hit with hit | hit
      · exact hnames it hit
      · rw [List.mem_singleton] at hit
        subst hit
        exact ⟨hx.ne_nil, fun c hc => hx.endsBase_eq_false hc⟩

/-- The node ids have a base exactly when no compressible name starts with a digit. -/
theorem hasBase_items_iff (names : List Str) : (∀ it ∈ items names, it.HasBase) ↔
      ∀ x ∈ names, compressible x = true → (clsOf x).pre ≠ [] := by
  have hcls : (∀ it ∈ items names, it.HasBase) ↔ ∀ p ∈ (items names).filterMap asCls,
      p.1.pre ≠ [] := by
    simp only [mem_filterMap, forall_exists_index, and_imp]
    constructor
    · intro h p it hit hp
      cases it with
      | whole name => cases hp
      | cls c ns =>
        cases hp
        exact h _ hit
    · intro h it hit
      cases it with
      | whole name => trivial
      | cls c ns => exact h (c, ns) _ hit rfl
  rw [hcls, items_classes]
  constructor
  · intro h x hx hc
    exact h _ (mem_map_of_mem (mem_classes.mpr ⟨x, hx, hc, rfl⟩))
  · intro h p hp
    obtain ⟨c, hc, rfl⟩ := mem_map.mp hp
    obtain ⟨x, hx, hcx, rfl⟩ := mem_classes.mp hc
    exact h x hx hcx

theorem items_ne_nil (h : names ≠ []) : items names ≠ [] := by
  intro hnil
  have := (items_names names).length_eq
  rw [hnil, length_map] at this
  exact h (length_eq_zero_iff.mp this.symm)

/-! ## 6. The round trip -/

/-- A node list. -/
def nodeList (names : List Str) : Str := [comma].intercalate names

/-- **The list survives**: the encoder succeeds on it, and the decoder, started without `ERANGE`,
succeeds on the result and returns the same names as often, in whatever order. -/
def RoundTrips (names : List Str) : Prop :=
  ∀ erange, ∃ regexp erange', create (nodeList names) erange = some (.success, regexp, erange') ∧
    ∃ names' erange'', extractNodeNames (some regexp) false = some (.ok names', erange'') ∧
      names'.Perm names

/-- The round trip, evaluated. -/
def roundTrip (names : List Str) (erange : Bool) : Bool :=
  match create (nodeList names) erange with
  | some (.success, regexp, _) =>
    match extractNodeNames (some regexp) false with
    | some (.ok names', _) => names'.isPerm names
    | _ => false
  | _ => false

theorem roundTrip_iff (names erange) : roundTrip names erange = true ↔
    ∃ regexp erange', create (nodeList names) erange = some (.success, regexp, erange') ∧
      ∃ names' erange'', extractNodeNames (some regexp) false = some (.ok names', erange'') ∧
        names'.Perm names := by
  rw [roundTrip]
  constructor
  · intro h
    split at h
    · rename_i regexp erange' hcreate
      split at h
      · rename_i names' erange'' hext
        exact ⟨regexp, erange', hcreate, names', erange'', hext, List.isPerm_iff.mp h⟩
      · cases h
    · cases h
  · rintro ⟨regexp, erange', hcreate, names', erange'', hext, hperm⟩
    simp only [hcreate, hext]
    exact List.isPerm_iff.mpr hperm

instance (names : List Str) : Decidable (RoundTrips names) :=
  decidable_of_iff (roundTrip names false = true ∧ roundTrip names true = true) <| by
    rw [RoundTrips, Bool.forall_bool, roundTrip_iff, roundTrip_iff]

/-- What a list of two or more names must satisfy to survive. -/
structure Survives (names : List Str) : Prop where
  letterFirst : ∀ x ∈ names, compressible x = true → (clsOf x).pre ≠ []
  oneRun : ∀ x ∈ names, compressible x = true → (clsOf x).suffix.countP isDigit = 0
  zeros : ∀ c ∈ classes names, zerosContinued (numbersIn c names) = true
  lastZero : ∀ c ∈ (classes names).dropLast, (numbersIn c names).getLast? ≠ some 0
  digits : ∀ x ∈ names, compressible x = true → (clsOf x).numDigits < 2 ^ 31

theorem nodesOf_nodeList (hne : names ≠ []) (hn : ∀ x ∈ names, NodeName x) :
    nodesOf (nodeList names) = names := by
  have hpieces : pieces (nodeList names) = names :=
    splitOn_intercalate comma (fun x hx => (hn x hx).comma_notMem) hne
  rw [nodesOf, hpieces, if_neg]
  intro hlast
  exact (hn [] (mem_of_getLast? hlast)).ne_nil rfl

theorem comma_mem_nodeList : comma ∈ nodeList (x :: y :: names) := by
  rw [nodeList, intercalate_cons_cons]
  simp

theorem filterMap_ndregText {its : List Item} (h : ∀ it ∈ its, it.Good) :
    (its.map toNdreg).filterMap ndregText = its.map text := by
  induction its with
  | nil => rfl
  | cons it its ih =>
    have hit := ndregText_item (h it mem_cons_self)
    rw [map_cons, filterMap_cons_some hit, map_cons,
      ih fun x hx => h x (mem_cons_of_mem _ hx)]

/-- **The encoder on a list of two or more names** writes the texts of its node ids. -/
theorem create_eq (h : Encodable (x :: y :: names)) (erange : Bool) :
    create (nodeList (x :: y :: names)) erange
      = some (.success, [comma].intercalate ((items (x :: y :: names)).map text), erange) := by
  have hloop := addNames_eq (x :: y :: names) [] erange (fun z hz => (h.node z hz).letters)
    (fun z hz _ => (h.node z hz).number_le) h.digits
  rw [map_nil] at hloop
  have hcomma : (nodeList (x :: y :: names)).contains comma = true := by
    simpa using comma_mem_nodeList
  rw [create, hcomma, nodesOf_nodeList (by simp) h.node, hloop]
  rw [← filterMap_ndregText (good_items h)]
  rfl

theorem create_single (h : NodeName x) (erange : Bool) :
    create (nodeList [x]) erange = some (.success, x, erange) := by
  have hcomma : (nodeList [x]).contains comma = false := by
    simpa [nodeList] using h.comma_notMem
  rw [create, hcomma]
  simp [nodeList]

/-- A single name survives. -/
theorem roundTrips_single (h : NodeName x) : RoundTrips [x] := by
  intro erange
  refine ⟨x, erange, create_single h erange, [x], false, ?_, List.Perm.refl _⟩
  have hgood : ∀ it ∈ [whole x], it.Good := by
    intro it hit
    rw [List.mem_singleton] at hit
    subst hit
    exact ⟨h.ne_nil, fun c hc => h.endsBase_eq_false hc⟩
  have hread := (@extract_items [whole x] (by simp) hgood false false [x]).mpr
    ⟨by simp [Item.HasBase], rfl, by simp [names]⟩
  simpa [text] using hread

/-- **Which lists survive.** -/
theorem survives_iff (hn : ∀ z ∈ x :: y :: names, NodeName z) :
    RoundTrips (x :: y :: names) ↔ Survives (x :: y :: names) := by
  by_cases hdig : ∀ z ∈ x :: y :: names, compressible z = true → (clsOf z).numDigits < 2 ^ 31
  · have henc : Encodable (x :: y :: names) := ⟨hn, hdig⟩
    have hne : items (x :: y :: names) ≠ [] := items_ne_nil (by simp)
    have hflags := flags_classes (fun c => numbersIn c (x :: y :: names))
      (classes (x :: y :: names)) fun c hc => numbersIn_ne_nil hc
    rw [← items_ranges] at hflags
    have hperm := map_render_perm_iff (x :: y :: names)
    have hnames := items_names (x :: y :: names)
    constructor
    · intro hrt
      obtain ⟨regexp, e', hcreate, names', e, hextract, hp⟩ := hrt false
      rw [create_eq henc] at hcreate
      obtain ⟨rfl, rfl⟩ := hcreate
      obtain ⟨hbase, hfl, rfl⟩ := (extract_items hne (good_items henc)).mp hextract
      obtain ⟨hz, hl⟩ := hflags.mp ⟨e, hfl⟩
      exact ⟨(hasBase_items_iff _).mp hbase, hperm.mp (hnames.symm.trans hp), hz, hl, hdig⟩
    · intro hs erange
      obtain ⟨e, hfl⟩ := hflags.mpr ⟨hs.zeros, hs.lastZero⟩
      refine ⟨_, erange, create_eq henc erange, _, e,
        (extract_items hne (good_items henc)).mpr ⟨(hasBase_items_iff _).mpr hs.letterFirst, hfl,
          rfl⟩, hnames.trans (hperm.mpr hs.oneRun)⟩
  · constructor
    · intro hrt
      obtain ⟨z, hz⟩ := not_forall.mp hdig
      simp only [Classical.not_imp, not_lt] at hz
      obtain ⟨hmem, hc, hbig⟩ := hz
      obtain ⟨regexp, e', hcreate, -⟩ := hrt false
      have hcomma : (nodeList (x :: y :: names)).contains comma = true := by
        simpa using comma_mem_nodeList
      rw [create, hcomma, nodesOf_nodeList (by simp) hn,
        addNames_eq_none hc hbig _ _ hmem] at hcreate
      cases hcreate
    · intro hs
      exact absurd hs.digits hdig

/-- **The node-list round trip, exactly.**  A list of node names survives encoding and decoding
if and only if it has one name, or `Survives`. -/
theorem roundTrips_iff {names : List Str} (hne : names ≠ []) (hn : ∀ x ∈ names, NodeName x) :
    RoundTrips names ↔ names.length = 1 ∨ Survives names := by
  match names, hne, hn with
  | [x], _, hn =>
    have := roundTrips_single (hn x mem_cons_self)
    simp [this]
  | x :: y :: names, _, hn =>
    rw [survives_iff hn]
    simp

/-- The ordinary case: `n1,n2,n10,login` survives. -/
theorem roundTrips_n1_n2_n10_login :
    RoundTrips [ofString "n1", ofString "n2", ofString "n10", ofString "login"] :=
  (roundTrips_iff (by decide) (by decide)).mpr
    (.inr ⟨by decide, by decide, by decide, by decide, by decide⟩)

/-- **Two ordinary node names that do not survive.**  `n0,n2` becomes `n[1:0,2]`, and the 2 is
read with the `ERANGE` of `log10(0)`. -/
theorem not_roundTrips_n0_n2 : (∀ x ∈ [ofString "n0", ofString "n2"], NodeName x) ∧
      create (nodeList [ofString "n0", ofString "n2"]) false
        = some (.success, ofString "n[1:0,2]", false) ∧
      extractNodeNames (some (ofString "n[1:0,2]")) false = some (.error .errBadParam, true) ∧
      ¬ RoundTrips [ofString "n0", ofString "n2"] := by
  refine ⟨by decide, by decide, by rfl, ?_⟩
  intro h
  have hs := (survives_iff (by decide)).mp h
  exact absurd hs.zeros (by decide)

end Sensys.Orte
