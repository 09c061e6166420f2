/-
# What the decoder reads

`orte_regex_extract_node_names` on an expression the encoder wrote.  The text of each node id is
taken apart again (`extractLoop_item`), range by range (`parseNodeRange_text`), and the decoder's
only memory between ranges is `errno`: `log10(0)` leaves `ERANGE` behind a range that ends in 0,
and the next `strtol` -- of the next range, or of the digit count of the next node id -- is then
taken for an overflow.  `flags` is that memory.

`extract_items` is the result: the decoder succeeds exactly when every class has a prefix and the
ranges pass `flags`, and then it returns the names the node ids stand for.
-/
import Sensys.Orte.RegexEncode
import Sensys.Orte.RegexRead

namespace Sensys.Orte

open CString List Range

/-! ## 1. Ranges -/

/-- The last number of a range. -/
def Range.stop (r : Range) : ℤ := r.start + r.cnt - 1

/-- A range of numbers that are not negative. -/
def Range.Ok (r : Range) : Prop := 0 ≤ r.start ∧ 1 ≤ r.cnt

/-- The numbers of a range. -/
def Range.numbers (r : Range) : List ℕ := List.range' r.start.toNat r.cnt.toNat

/-- The ranges of a list of numbers, from the front: `r` is the range that is being extended. -/
def runsFrom (r : Range) : List ℕ → List Range
  | [] => [r]
  | n :: ns =>
    if (n : ℤ) = r.start + r.cnt then runsFrom { r with cnt := r.cnt + 1 } ns
    else r :: runsFrom ⟨n, 1⟩ ns

variable (ns : List ℕ)

/-- The encoder only ever touches the last range. -/
theorem foldl_addNumber : ∀ done r,
    ns.foldl (fun ranges (n : ℕ) => addNumber ranges n) (done ++ [r]) = done ++ runsFrom r ns := by
  induction ns with
  | nil => intro done r; rfl
  | cons n ns ih =>
    intro done r
    rw [foldl_cons, runsFrom]
    by_cases hn : (n : ℤ) = r.start + r.cnt
    · have hstep : addNumber (done ++ [r]) n = done ++ [{ r with cnt := r.cnt + 1 }] := by
        simp [addNumber, hn]
      rw [hstep, ih, if_pos hn]
    · have hstep : addNumber (done ++ [r]) n = (done ++ [r]) ++ [⟨n, 1⟩] := by
        simp [addNumber, hn]
      rw [hstep, ih, if_neg hn]
      simp

theorem runs_cons (n : ℕ) (ns : List ℕ) : runs (n :: ns) = runsFrom ⟨n, 1⟩ ns := by
  have := foldl_addNumber ns [] ⟨n, 1⟩
  simpa [runs, addNumber] using this

theorem Range.ok_single (n : ℕ) : Range.Ok ⟨n, 1⟩ := ⟨Int.natCast_nonneg n, Int.le_refl 1⟩

variable {r : Range}

theorem Range.Ok.longer (h : r.Ok) : Range.Ok { r with cnt := r.cnt + 1 } :=
  ⟨h.1, Int.le_trans h.2 (Int.le_add_one (Int.le_refl _))⟩

/-- **The ranges list the numbers**, in order. -/
theorem runsFrom_spec : ∀ r : Range, r.Ok → (∀ x ∈ runsFrom r ns, x.Ok) ∧
    (runsFrom r ns).flatMap numbers = r.numbers ++ ns := by
  induction ns with
  | nil =>
    intro r hr
    simpa [runsFrom] using hr
  | cons n ns ih =>
    intro r hr
    rw [runsFrom]
    split
    · have hnext : ({ r with cnt := r.cnt + 1 } : Range).numbers = r.numbers ++ [n] := by
        obtain ⟨hstart, hcnt⟩ := hr
        have hto : (r.cnt + 1).toNat = r.cnt.toNat + 1 := by omega
        have hlast : r.start.toNat + r.cnt.toNat = n := by omega
        rw [numbers, numbers, hto, range'_concat, Nat.one_mul, hlast]
      simpa [hnext] using ih _ hr.longer
    · obtain ⟨hok, hnumbers⟩ := ih _ (ok_single n)
      exact ⟨forall_mem_cons.mpr ⟨hr, hok⟩, by simp [hnumbers, numbers]⟩

theorem runs_spec : (∀ r ∈ runs ns, r.Ok) ∧ (runs ns).flatMap numbers = ns := by
  cases ns with
  | nil => simp [runs]
  | cons n ns => simpa [runs_cons, numbers] using runsFrom_spec ns _ (ok_single n)

theorem runs_ne_nil {ns} (h : ns ≠ []) : runs ns ≠ [] := by
  intro hnil
  have hnumbers := (runs_spec ns).2
  rw [hnil] at hnumbers
  exact h hnumbers.symm

/-- The last number of a range is one of its numbers. -/
theorem stop_mem_numbers (hr : r.Ok) : r.stop.toNat ∈ r.numbers := by
  have h2 := hr.2
  rw [numbers, mem_range'_1, stop]
  omega

theorem stop_mem_of_mem_runs {ns} (hr : r ∈ runs ns) : r.stop.toNat ∈ ns := by
  rw [← (runs_spec ns).2, mem_flatMap]
  exact ⟨r, hr, stop_mem_numbers ((runs_spec ns).1 r hr)⟩

/-! ## 2. One range -/

/-- A name of a class: prefix, zero-padded number, suffix. -/
def Cls.name (c : Cls) (n : ℕ) : Str := c.pre ++ pad c.numDigits n ++ c.suffix

/-- A range as the encoder prints it. -/
def Range.spec (r : Range) : RangeSpec :=
  ⟨decimal r.start.toNat, if r.cnt = 1 then none else some (decimal r.stop.toNat)⟩

theorem isNumber_decimal (n : ℕ) : IsNumber (decimal n) :=
  ⟨decimal_ne_nil n, fun _ hc => isDigit_of_mem_decimal hc⟩

theorem ok_spec (r : Range) : r.spec.Ok := by
  refine ⟨isNumber_decimal _, fun s hs => ?_⟩
  rw [spec] at hs
  split at hs
  · cases hs
  · cases hs
    exact isNumber_decimal _

theorem rangeText_eq (hr : r.Ok) : rangeText r = r.spec.text := by
  obtain ⟨h1, h2⟩ := hr
  have hint : ∀ {n : ℤ}, 0 ≤ n → decimalInt n = decimal n.toNat := by
    intro n h
    obtain ⟨m, rfl⟩ := Int.eq_ofNat_of_zero_le h
    rfl
  rw [rangeText, RangeSpec.text, spec, hint h1, hint (by omega)]
  split <;> simp [stop]

theorem stop_spec (r : Range) : r.spec.stop = r.stop.toNat := by
  rw [RangeSpec.stop, spec]
  split <;> simp_all [value_decimal, stop]

theorem numbers_spec (hr : r.Ok) : r.spec.numbers = r.numbers := by
  have h1 := hr.1
  have h2 := hr.2
  rw [RangeSpec.numbers, stop_spec, numbers, spec, value_decimal, stop]
  congr 1
  omega

/-! ## 3. The ranges of a node id -/

/-- **The decoder's memory**: the first argument is the ranges in the order in which they are
read.  `none` means that a range is read with `ERANGE` left over from the one before. -/
def flags : List Range → Bool → Option Bool
  | [], erange => some erange
  | r :: rs, erange => if erange then none else flags rs (decide (r.stop = 0))

theorem flags_append (rs rs' : List Range) (e : Bool) :
    flags (rs ++ rs') e = (flags rs e).bind (flags rs') := by
  induction rs generalizing e with
  | nil => rfl
  | cons r rs ih =>
    cases e with
    | true => rfl
    | false => exact ih _

/-- A range the decoder accepts, for names with `w` digits. -/
structure Range.Fits (w : ℕ) (r : Range) : Prop where
  ok : r.Ok
  stop_le : r.stop.toNat ≤ longMax
  width_le : width r.stop.toNat ≤ w

/-- **The decoder reads a printed range.**  `ERANGE` from before makes it fail; otherwise it
gives the names of the range, and leaves `ERANGE` when the range ends in 0. -/
theorem Range.Fits.read_eq_ok {base suffix w} (hr : r.Fits w) {erange e names} :
    r.spec.read base suffix w erange = some (.ok names, e) ↔ erange = false ∧
      names = (r.numbers.map fun n => base ++ pad w n ++ suffix) ∧ e = decide (r.stop = 0) := by
  obtain ⟨hok, hle, hwidth⟩ := hr
  have h1 := hok.1
  have h2 := hok.2
  have hstart : value r.spec.first = r.start.toNat := value_decimal _
  have hstop : r.start.toNat ≤ r.stop.toNat := by rw [stop]; omega
  have hzero : decide (r.stop.toNat = 0) = decide (r.stop = 0) :=
    decide_eq_decide.mpr (by rw [stop]; omega)
  have hlong : (decide (longMax < r.start.toNat) || decide (longMax < r.stop.toNat)) = false := by
    simp
    omega
  have hnumbers := numbers_spec hok
  rw [RangeSpec.numbers, hstart, stop_spec] at hnumbers
  have hpos : 0 < width r.stop.toNat := Nat.succ_pos _
  rw [RangeSpec.read, Bool.or_assoc, hstart, stop_spec, hlong, Bool.or_false]
  cases erange with
  | true => simp
  | false =>
    rw [if_neg (by decide), rangeNames_eq_ok (by omega), hnumbers, hzero]
    simp [hstop, hwidth]

/-- **The ranges of a node id are read one after the other.** -/
theorem each_ranges_iff {base suffix w} : ∀ {rs : List Range},
    (∀ r ∈ rs, r.Fits w) → ∀ {erange e : Bool} {names : List Str},
      Parsed.each (RangeSpec.read base suffix w) (rs.map spec) erange = some (.ok names, e) ↔
        flags rs erange = some e ∧
          names = (rs.flatMap numbers).map fun n => base ++ pad w n ++ suffix
  | [], _, erange, e, names => by simp [Parsed.each, flags, eq_comm, and_comm]
  | r :: rs, hrs, erange, e, names => by
    obtain ⟨hr, hrs⟩ := forall_mem_cons.mp hrs
    simp only [map_cons, Parsed.each, Parsed.andThen_eq_ok, hr.read_eq_ok, flatMap_cons, map_append]
    constructor
    · rintro ⟨first, e₁, more, ⟨rfl, rfl, rfl⟩, hmore, rfl⟩
      obtain ⟨hflags, rfl⟩ := (each_ranges_iff hrs).mp hmore
      exact ⟨hflags, rfl⟩
    · rintro ⟨hflags, rfl⟩
      cases erange with
      | true => cases hflags
      | false =>
        exact ⟨_, _, _, ⟨rfl, rfl, rfl⟩, (each_ranges_iff hrs).mpr ⟨hflags, rfl⟩, rfl⟩

/-! ## 4. One node id -/

/-- The text of a node id. -/
def Item.text : Item → Str
  | .whole name => name
  | .cls c ns => c.pre ++ [lbracket] ++ decimal c.numDigits ++ [colon] ++
      [comma].intercalate ((runs ns).map rangeText) ++ [rbracket] ++ c.suffix

/-- What holds of the node ids of good names: see `good_items`. -/
def Item.Good : Item → Prop
  | .whole name => name ≠ [] ∧ ∀ c ∈ name, endsBase c = false
  | .cls c ns => ns ≠ [] ∧ (∀ x ∈ c.pre, isAlpha x = true) ∧
      (∀ x ∈ c.suffix, isAlpha x = true ∨ isDigit x = true) ∧ 0 < c.numDigits ∧
      c.numDigits < 2 ^ 31 ∧ ∀ n ∈ ns, n ≤ 2147483647 ∧ n < 10 ^ c.numDigits

/-- The names a node id stands for. -/
def Item.names : Item → List Str
  | .whole name => [name]
  | .cls c ns => ns.map c.name

/-- The ranges of a node id. -/
def Item.ranges : Item → List Range
  | .whole _ => []
  | .cls _ ns => runs ns

/-- The decoder needs a base in front of a bracket. -/
def Item.HasBase : Item → Prop
  | .whole _ => True
  | .cls c _ => c.pre ≠ []

/-- The node id as the decoder sees it. -/
def Item.spec : Item → NodeSpec
  | .whole name => .plain name
  | .cls c ns => .range c.pre (decimal c.numDigits) ((runs ns).map Range.spec) c.suffix

theorem ndregText_item {it : Item} (h : it.Good) : ndregText it.toNdreg = some it.text := by
  cases it with
  | whole name => rfl
  | cls c ns =>
    have hne := runs_ne_nil h.1
    simp only [Item.toNdreg, ndregText, Item.text]
    by_cases hp : c.pre = []
    · simp [hp, hne]
    · simp [hp, hne]

theorem endsBase_of_alnum {c} (h : isAlpha c = true ∨ isDigit c = true) : endsBase c = false := by
  rw [Bool.eq_false_iff]
  intro hc
  simp only [endsBase, Bool.or_eq_true, beq_iff_eq] at hc
  rcases hc with (rfl | rfl) | rfl <;> revert h <;> decide

theorem text_spec (it : Item) : it.spec.text = it.text := by
  cases it with
  | whole name => rfl
  | cls c ns =>
    have hranges : ((runs ns).map spec).map RangeSpec.text = (runs ns).map rangeText := by
      rw [map_map]
      exact map_congr_left fun r hr => (rangeText_eq ((runs_spec ns).1 r hr)).symm
    simp [Item.spec, NodeSpec.text, Item.text, hranges]

theorem Item.Good.wellFormed {it : Item} (h : it.Good) : it.spec.WellFormed := by
  cases it with
  | whole name => exact h
  | cls c ns =>
    obtain ⟨hne, hpre, hsuffix, -⟩ := h
    refine ⟨fun x hx => endsBase_of_alnum (.inl (hpre x hx)), isNumber_decimal _,
      by simpa using runs_ne_nil hne, fun r hr => ?_, fun x hx => endsBase_of_alnum (hsuffix x hx)⟩
    obtain ⟨r, hr, rfl⟩ := mem_map.mp hr
    exact ok_spec r

/-- **The decoder reads one node id**: it needs a base and no `ERANGE` left over, and returns the
names the node id stands for. -/
theorem Item.Good.read_eq_ok {it : Item} (h : it.Good) {erange e names} :
    it.spec.read erange = some (.ok names, e) ↔
      it.HasBase ∧ flags it.ranges erange = some e ∧ names = it.names := by
  cases it with
  | whole name => simp [Item.spec, NodeSpec.read, Item.HasBase, Item.ranges, flags, Item.names, eq_comm, and_comm]
  | cls c ns =>
    obtain ⟨hne, -, -, hpos, hlt, hnums⟩ := h
    have hfits : ∀ r ∈ runs ns, r.Fits c.numDigits := by
      intro r hr
      obtain ⟨hle, hlt⟩ := hnums _ (stop_mem_of_mem_runs hr)
      exact ⟨(runs_spec ns).1 r hr, by rw [longMax]; omega, width_le hpos hlt⟩
    have hlong : ¬ longMax < c.numDigits := by
      rw [longMax]
      omega
    simp only [Item.spec, NodeSpec.read, value_decimal, hlong, decide_false, Bool.or_false,
      toInt_of_le (Nat.le_of_lt_succ hlt), Item.HasBase, Item.ranges, Item.names]
    by_cases hp : c.pre = []
    · simp [hp]
    · cases erange with
      | true =>
        obtain ⟨r, rs, hrs⟩ := exists_cons_of_ne_nil (runs_ne_nil hne)
        simp [hp, hrs, flags]
      | false =>
        simp only [hp, if_false, Bool.false_eq_true, each_ranges_iff hfits, (runs_spec ns).2, ne_eq,
          not_false_eq_true, true_and]
        rfl

/-! ## 5. The expression -/

theorem each_items_iff : ∀ {its : List Item}, (∀ it ∈ its, it.Good) →
    ∀ {erange e : Bool} {names : List Str},
      Parsed.each NodeSpec.read (its.map Item.spec) erange = some (.ok names, e) ↔
        (∀ it ∈ its, it.HasBase) ∧ flags (its.flatMap Item.ranges) erange = some e ∧
          names = its.flatMap Item.names
  | [], _, erange, e, names => by simp [Parsed.each, flags, eq_comm, and_comm]
  | it :: its, h, erange, e, names => by
    obtain ⟨hit, hits⟩ := forall_mem_cons.mp h
    simp only [map_cons, Parsed.each, Parsed.andThen_eq_ok, hit.read_eq_ok, each_items_iff hits,
      forall_mem_cons, flatMap_cons, flags_append, Option.bind_eq_some_iff]
    constructor
    · rintro ⟨first, e₁, more, ⟨hb, hf, rfl⟩, ⟨hbs, hfs, rfl⟩, rfl⟩
      exact ⟨⟨hb, hbs⟩, ⟨e₁, hf, hfs⟩, rfl⟩
    · rintro ⟨⟨hb, hbs⟩, ⟨e₁, hf, hfs⟩, rfl⟩
      exact ⟨_, e₁, _, ⟨hb, hf, rfl⟩, ⟨hbs, hfs, rfl⟩, rfl⟩

/-- **The decoder on the expression of a list of node ids.** -/
theorem extract_items {its : List Item} (hne : its ≠ []) (hgood : ∀ it ∈ its, it.Good)
    {erange e names} :
    extractNodeNames (some ([comma].intercalate (its.map Item.text))) erange = some (.ok names, e) ↔
      (∀ it ∈ its, it.HasBase) ∧ flags (its.flatMap Item.ranges) erange = some e ∧
        names = its.flatMap Item.names := by
  have htext : its.map Item.text = (its.map Item.spec).map NodeSpec.text := by
    rw [map_map]
    exact map_congr_left fun it _ => (text_spec it).symm
  rw [htext, extract_specs (by simpa using hne) (by simpa using fun it hit => (hgood it hit).wellFormed)]
  exact each_items_iff hgood

end Sensys.Orte
