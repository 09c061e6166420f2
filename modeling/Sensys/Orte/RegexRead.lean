/-
# Reading an expression

`orte_regex_extract_node_names` on the text of a list of ITEMS: plain names, and names with a bracket
such as `node[3:1-16,020]x`.  The decoder tells the commas inside brackets, between items and behind
a suffix apart by their position only.  `extract_specs` says that it takes the text apart as it was
put together: what is left is to read the items one after the other, and in each of them the ranges
(`NodeSpec.read`).

From it, `expansion_exact_iff`: the names are those that the items stand for, if the numbers of digits fit
an `int`.  A larger one is cut down to an `int`, and the names get another number of digits or none.
-/
import Sensys.Orte.Regex

namespace Sensys.Orte

open CString List Parsed

/-! ## 1. Items -/

/-- Digits, at least one. -/
def IsNumber (s : Str) : Prop := s ≠ [] ∧ ∀ c ∈ s, isDigit c = true

/-- A range as it is written: a number, or two with a dash between them. -/
structure RangeSpec where
  first : Str
  last : Option Str

namespace RangeSpec

def text (r : RangeSpec) : Str := r.first ++ (r.last.map (dash :: ·)).getD []

/-- The last number. -/
def stop (r : RangeSpec) : ℕ := value (r.last.getD r.first)

/-- The numbers of a range. -/
def numbers (r : RangeSpec) : List ℕ := List.range' (value r.first) (r.stop + 1 - value r.first)

structure Ok (r : RangeSpec) : Prop where
  first : IsNumber r.first
  last : ∀ s ∈ r.last, IsNumber s

end RangeSpec

/-- An item of an expression. -/
inductive NodeSpec where
  | plain (name : Str)
  | range (base digits : Str) (ranges : List RangeSpec) (suffix : Str)

/-- The text of an item. -/
def NodeSpec.text : NodeSpec → Str
  | plain name => name
  | range base digits ranges suffix => base ++ lbracket :: (digits ++ colon ::
      ([comma].intercalate (ranges.map RangeSpec.text) ++ rbracket :: suffix))

/-- Brackets and commas stand where they belong. -/
def NodeSpec.WellFormed : NodeSpec → Prop
  | plain name => name ≠ [] ∧ ∀ c ∈ name, endsBase c = false
  | range base digits ranges suffix => (∀ c ∈ base, endsBase c = false) ∧ IsNumber digits ∧
      ranges ≠ [] ∧ (∀ r ∈ ranges, r.Ok) ∧ ∀ c ∈ suffix, endsBase c = false

/-! ## 2. What is read -/

/-- One thing after the other. -/
def Parsed.each {α : Type} (read : α → Bool → Parsed) : List α → Bool → Parsed
  | [], erange => some (.ok [], erange)
  | x :: xs, erange => Parsed.andThen (read x erange) (each read xs)

/-- A range: `ERANGE` from before is taken for an overflow. -/
def RangeSpec.read (base suffix : Str) (numDigits : ℤ) (r : RangeSpec) (erange : Bool) : Parsed :=
  if erange || decide (longMax < value r.first) || decide (longMax < r.stop) then
    some (.error .errBadParam, true)
  else rangeNames base suffix numDigits (value r.first) r.stop false

/-- An item. -/
def NodeSpec.read : NodeSpec → Bool → Parsed
  | plain name, erange => some (.ok [name], erange)
  | range base digits ranges suffix, erange =>
    if base = [] then some (.error .errBadParam, erange)
    else if erange || decide (longMax < value digits) then some (.error .errBadParam, true)
    else Parsed.each (RangeSpec.read base suffix (toInt (value digits))) ranges false

theorem Parsed.andThen_nil (p : Parsed) :
    andThen p (fun erange => some (.ok [], erange)) = p := by
  rcases p with _ | ⟨_ | names, erange⟩ <;> simp [andThen]

theorem Parsed.each_singleton {α : Type} (read : α → Bool → Parsed) (x : α) (erange : Bool) :
    each read [x] erange = read x erange :=
  andThen_nil _

/-- A parse that succeeds is two parses that succeed. -/
theorem Parsed.andThen_eq_ok {p next names e} : andThen p next = some (.ok names, e) ↔
      ∃ first e₁ more, p = some (.ok first, e₁) ∧ next e₁ = some (.ok more, e) ∧
        names = first ++ more := by
  constructor
  · intro h
    match p, h with
    | some (.ok first, e₁), h =>
      rw [andThen] at h
      match hn : next e₁, h with
      | some (.ok more, e₂), h =>
        simp only [Option.some.injEq, Prod.mk.injEq, Except.ok.injEq] at h
        exact ⟨first, e₁, more, rfl, by rw [hn, h.2], h.1.symm⟩
  · rintro ⟨first, e₁, more, rfl, hn, rfl⟩
    simp [andThen, hn]

/-! ## 3. Ranges -/

theorem ne_of_isDigit {c b} (h : isDigit c = true) (hb : isDigit b = false) : c ≠ b := by
  rintro rfl
  rw [h] at hb
  cases hb

variable {r : RangeSpec}

/-- `regex_parse_node_range` on a range. -/
theorem parseNodeRange_text (base suffix : Str) (w : ℤ) (h : r.Ok) (erange : Bool) :
    parseNodeRange base r.text w suffix erange = r.read base suffix w erange := by
  obtain ⟨first, last⟩ := r
  obtain ⟨⟨hne, hfirst⟩, hlast⟩ := h
  have hstop : ∀ c, ((last.map (dash :: ·)).getD []).head? = some c → isDigit c = false := by
    cases last <;> simp
    decide
  have hread := strtol_run hne hfirst hstop
  have hrest := dropWhile_stop hfirst hstop
  obtain ⟨d, ds, rfl⟩ := exists_cons_of_ne_nil hne
  have htext : RangeSpec.text ⟨d :: ds, last⟩ = d :: (ds ++ (last.map (dash :: ·)).getD []) := rfl
  have hstart : (d :: (ds ++ (last.map (dash :: ·)).getD [])).dropWhile (fun c => !isDigit c) =
      d :: (ds ++ (last.map (dash :: ·)).getD []) := by simp [hfirst d mem_cons_self]
  rw [cons_append] at hread hrest
  simp only [parseNodeRange, htext, hstart, hread, hrest, RangeSpec.read]
  cases last with
  | none => by_cases hfit : longMax < value (d :: ds) <;> cases erange <;> simp [hfit, RangeSpec.stop]
  | some last =>
    obtain ⟨hne', hlast⟩ := hlast last rfl
    have hread' := @strtol_run last [] hne' hlast (by simp)
    rw [List.append_nil] at hread'
    obtain ⟨d', ds', rfl⟩ := exists_cons_of_ne_nil hne'
    have hsecond : (dash :: d' :: ds').dropWhile (fun c => !isDigit c) = d' :: ds' := by
      have hdash : isDigit dash = false := by decide
      simp [hdash, hlast d' mem_cons_self]
    simp only [Option.map_some, Option.getD_some, hsecond, hread', RangeSpec.stop]
    by_cases hfit : longMax < value (d :: ds) <;> by_cases hfit' : longMax < value (d' :: ds') <;>
      cases erange <;> simp [hfit, hfit']

theorem parseNodeRanges_text (base suffix : Str) (w : ℤ) : ∀ {ranges},
    (∀ r ∈ ranges, r.Ok) → ∀ erange,
      parseNodeRanges base w suffix (ranges.map RangeSpec.text) erange =
        each (RangeSpec.read base suffix w) ranges erange
  | [], _, _ => rfl
  | [r], h, erange => by
    have hr := h r mem_cons_self
    have hne : r.text ≠ [] := by simp [RangeSpec.text, hr.first.1]
    rw [map_singleton, parseNodeRanges, if_neg hne, parseNodeRange_text base suffix w hr,
      each_singleton]
  | r :: r' :: ranges, h, erange => by
    rw [map_cons, map_cons, parseNodeRanges, parseNodeRange_text base suffix w (h r mem_cons_self),
      each]
    · congr 1
      funext erange
      exact parseNodeRanges_text base suffix w (fun x hx => h x (mem_cons_of_mem _ hx)) erange
    · simp

/-- The characters of a range. -/
theorem notMem_text (h : r.Ok) {c} (hc : isDigit c = false) (hdash : c ≠ dash) : c ∉ r.text := by
  obtain ⟨first, last⟩ := r
  have hno : ∀ {s : Str}, IsNumber s → c ∉ s := fun hs hmem => ne_of_isDigit (hs.2 c hmem) hc rfl
  cases last with
  | none => simpa [RangeSpec.text] using hno h.first
  | some last => simpa [RangeSpec.text, hdash] using ⟨hno h.first, hno (h.last last rfl)⟩

/-! ## 4. Items in a text -/

theorem intercalate_cons (s : Str) (ss : List Str) :
    [comma].intercalate (s :: ss) = s ++ if ss = [] then [] else comma :: [comma].intercalate ss := by
  cases ss with
  | nil => simp
  | cons t ss => simp [intercalate_cons_cons]

theorem mem_intercalate {c} (hc : c ≠ comma) : ∀ {ss},
    (∀ s ∈ ss, c ∉ s) → c ∉ [comma].intercalate ss
  | [], _ => by simp
  | s :: ss, h => by
    have ih := mem_intercalate hc fun t ht => h t (mem_cons_of_mem _ ht)
    rw [intercalate_cons]
    split_ifs <;> simp [h s mem_cons_self, hc, ih]

/-- What may follow the text of an item: the end, or a comma. -/
def Ends (rest : Str) : Prop := ∀ c, rest.head? = some c → c = comma

/-- A bracket is taken apart as it was put together. -/
theorem bracket_text {digits ranges suffix rest} (hdigits : IsNumber digits)
    (hranges : rbracket ∉ ranges) (hsuffix : ∀ c ∈ suffix, endsBase c = false) (hrest : Ends rest)
    (erange : Bool) : bracket (digits ++ colon :: (ranges ++ rbracket :: (suffix ++ rest))) erange =
      if erange || decide (longMax < value digits) then .bad true
      else .range (toInt (value digits)) ranges suffix rest false := by
  have hcolon : ∀ c ∈ digits, decide (c ≠ colon) = true := fun c hc =>
    decide_eq_true (ne_of_isDigit (hdigits.2 c hc) (by decide))
  have hclose : ∀ c ∈ ranges, decide (c ≠ rbracket) = true := fun c hc =>
    decide_eq_true fun h => hranges (h ▸ hc)
  have hcomma : ∀ c ∈ suffix, decide (c ≠ comma) = true := fun c hc =>
    decide_eq_true fun h => absurd (hsuffix c hc) (h ▸ by decide)
  have hstop : ∀ {b : UInt8} {s : Str}, ∀ c, (b :: s).head? = some c → decide (c ≠ b) = false := by
    simp
  have hend : ∀ c, rest.head? = some c → decide (c ≠ comma) = false := fun c hc =>
    decide_eq_false (not_not.mpr (hrest c hc))
  have hopen : (suffix ++ rest).head? ≠ some lbracket := by
    intro h
    cases suffix with
    | nil => exact absurd (hrest lbracket h) (by decide)
    | cons c suffix =>
      cases h
      exact absurd (hsuffix lbracket mem_cons_self) (by decide)
  have hnum := @strtol_run digits [] hdigits.1 hdigits.2 (by simp)
  rw [List.append_nil] at hnum
  simp only [bracket, takeWhile_stop hcolon hstop, dropWhile_stop hcolon hstop, hnum,
    takeWhile_stop hclose hstop, dropWhile_stop hclose hstop, takeWhile_stop hcomma hend,
    dropWhile_stop hcomma hend, if_neg hopen]
  by_cases hfit : longMax < value digits <;> cases erange <;> simp [hfit]

/-- The rest of the loop behind an item. -/
def extractRest (fuel : ℕ) (rest : Str) (erange : Bool) : Parsed :=
  match rest with
  | [] => some (.ok [], erange)
  | _ :: base => extractLoop fuel base erange

/-- **The decoder reads one item.** -/
theorem extractLoop_spec {it : NodeSpec} (h : it.WellFormed) {rest} (hrest : Ends rest) (fuel : ℕ)
    (erange : Bool) : extractLoop (fuel + 1) (it.text ++ rest) erange =
      andThen (it.read erange) (extractRest fuel rest) := by
  have hbase : ∀ {s : Str}, (∀ c ∈ s, endsBase c = false) → ∀ c ∈ s, (!endsBase c) = true :=
    fun hs c hc => by rw [hs c hc]; rfl
  cases it with
  | plain name =>
    have hstop : ∀ c, rest.head? = some c → (!endsBase c) = false := fun c hc => by
      rw [hrest c hc]
      decide
    rw [NodeSpec.text, extractLoop, takeWhile_stop (hbase h.2) hstop,
      dropWhile_stop (hbase h.2) hstop, if_neg h.1]
    cases rest with
    | nil => rfl
    | cons c base =>
      have hc : c = comma := hrest c rfl
      subst hc
      rfl
  | range base digits ranges suffix =>
    obtain ⟨hpre, hdigits, hne, hranges, hsuffix⟩ := h
    have hshape : (NodeSpec.range base digits ranges suffix).text ++ rest = base ++ lbracket ::
        (digits ++ colon :: ([comma].intercalate (ranges.map RangeSpec.text) ++
          rbracket :: (suffix ++ rest))) := by simp [NodeSpec.text]
    have hstop : ∀ {s : Str} c, (lbracket :: s).head? = some c → (!endsBase c) = false := by
      rintro s c ⟨⟩
      decide
    have hclose : rbracket ∉ [comma].intercalate (ranges.map RangeSpec.text) :=
      mem_intercalate (by decide) fun s hs => by
        obtain ⟨r, hr, rfl⟩ := mem_map.mp hs
        exact notMem_text (hranges r hr) (by decide) (by decide)
    have hpieces : pieces ([comma].intercalate (ranges.map RangeSpec.text)) =
        ranges.map RangeSpec.text := by
      refine splitOn_intercalate comma (fun s hs => ?_) (by simpa using hne)
      obtain ⟨r, hr, rfl⟩ := mem_map.mp hs
      exact notMem_text (hranges r hr) (by decide) (by decide)
    rw [hshape, extractLoop, takeWhile_stop (hbase hpre) hstop, dropWhile_stop (hbase hpre) hstop]
    simp only [if_true, bracket_text hdigits hclose hsuffix hrest, NodeSpec.read]
    split_ifs
    · rfl
    · rfl
    · simp only [hpieces, parseNodeRanges_text base suffix _ hranges]
      rfl

/-- **The loop reads the items one after the other.** -/
theorem extractLoop_specs : ∀ {its}, its ≠ [] → (∀ it ∈ its, it.WellFormed) →
    ∀ {fuel}, its.length ≤ fuel → ∀ erange,
      extractLoop fuel ([comma].intercalate (its.map NodeSpec.text)) erange =
        each NodeSpec.read its erange
  | [], hne, _, _, _, _ => absurd rfl hne
  | it :: its, _, h, 0, hfuel, _ => by simp at hfuel
  | it :: its, _, h, fuel + 1, hfuel, erange => by
    obtain ⟨hit, hits⟩ := forall_mem_cons.mp h
    have hends : Ends (if its.map NodeSpec.text = [] then []
        else comma :: [comma].intercalate (its.map NodeSpec.text)) := by
      intro c hc
      split at hc
      · cases hc
      · exact (Option.some.inj hc).symm
    rw [map_cons, intercalate_cons, extractLoop_spec hit hends, each]
    congr 1
    funext erange
    by_cases hnil : its = []
    · simp [hnil, extractRest, each]
    · simp only [map_eq_nil_iff, hnil, if_false, extractRest]
      exact extractLoop_specs hnil hits (by simpa using hfuel) erange

theorem length_le_intercalate : ∀ ss : List Str, ss.length ≤ ([comma].intercalate ss).length + 1
  | [] => by simp
  | s :: ss => by
    have ih := length_le_intercalate ss
    rw [intercalate_cons]
    split_ifs with hnil
    · simp [hnil]
    · simp
      omega

/-- **The decoder on the text of a list of items.** -/
theorem extract_specs {its} (hne : its ≠ []) (h : ∀ it ∈ its, it.WellFormed) (erange : Bool) :
    extractNodeNames (some ([comma].intercalate (its.map NodeSpec.text))) erange =
      each NodeSpec.read its erange := by
  refine extractLoop_specs hne h ?_ erange
  simpa using length_le_intercalate (its.map NodeSpec.text)

/-! ## 5. The names of items -/

/-- Writing the digits over the end of the zeros pads the number. -/
theorem nodeName_eq (base suffix : Str) {w n} (hw : width n ≤ w) :
    nodeName base suffix w n = base ++ pad w n ++ suffix := by
  have hlen : (decimal n).length = width n := length_pad _ _
  have hpad : pad w n = List.replicate (w - width n) zero ++ decimal n := by
    have := pad_add (width n) (w - width n) n (lt_pow_width n)
    rw [Nat.sub_add_cancel hw] at this
    exact this
  have htake : (base ++ List.replicate w zero).take
      ((base ++ List.replicate w zero).length - (decimal n).length) =
      base ++ List.replicate (w - width n) zero := by
    rw [take_append, hlen, length_append, length_replicate, take_of_length_le (by omega),
      take_replicate]
    congr 2
    omega
  simp only [nodeName, htake, hpad, List.append_assoc]

/-- The names that an item stands for. -/
def NodeSpec.names : NodeSpec → List Str
  | plain name => [name]
  | range base digits ranges suffix =>
    (ranges.flatMap RangeSpec.numbers).map fun n => base ++ pad (value digits) n ++ suffix

/-- An item whose numbers are in order and have no more digits than it says. -/
structure RangeSpec.Valid (digits : ℕ) (r : RangeSpec) : Prop where
  ok : r.Ok
  le : value r.first ≤ r.stop
  pos : 0 < r.stop
  lt : r.stop < 10 ^ 9
  fits : width r.stop ≤ digits

def NodeSpec.Valid : NodeSpec → Prop
  | plain name => name ≠ [] ∧ ∀ c ∈ name, endsBase c = false
  | range base digits ranges suffix => base ≠ [] ∧ (∀ c ∈ base, endsBase c = false) ∧
      IsNumber digits ∧ 0 < value digits ∧ ranges ≠ [] ∧
      (∀ r ∈ ranges, r.Valid (value digits)) ∧ ∀ c ∈ suffix, endsBase c = false

/-- The number of digits is an `int`. -/
def NodeSpec.DigitsFit : NodeSpec → Prop
  | plain _ => True
  | range _ digits _ _ => value digits < 2 ^ 31

variable {base suffix : Str} {w : ℤ} {digits : ℕ} {names : List Str} {e : Bool}

/-- The checks of `regex_parse_node_range` let a range pass that is in order and has few enough
digits. -/
theorem rangeNames_eq_ok {start stop} (hw : stop = 0 → 0 < w) :
    rangeNames base suffix w start stop false = some (.ok names, e) ↔
      start ≤ stop ∧ (width stop : ℤ) ≤ w ∧ names = ((List.range' start (stop + 1 - start)).map
        fun n => base ++ pad w.toNat n ++ suffix) ∧ e = decide (stop = 0) := by
  have hzero : width 0 = 1 := by decide
  rw [rangeNames]
  by_cases hle : start ≤ stop
  · by_cases hwidth : (width stop : ℤ) ≤ w
    · have hnames : (List.range' start (stop + 1 - start)).map (nodeName base suffix w.toNat) =
          (List.range' start (stop + 1 - start)).map fun n => base ++ pad w.toNat n ++ suffix := by
        refine map_congr_left fun n hn => nodeName_eq base suffix ?_
        have hn : n ≤ stop := by
          rw [mem_range'_1] at hn
          omega
        have hmono : width n ≤ width stop := Nat.succ_le_succ (Nat.log_mono_right hn)
        omega
      rw [if_neg (by omega), if_neg (by omega), if_neg (by omega), hnames]
      simp [hle, hwidth, eq_comm]
    · have hstop : stop ≠ 0 := by
        rintro rfl
        omega
      rw [if_neg (by omega), if_pos ⟨hstop, by omega⟩]
      simp [hwidth]
  · rw [if_pos (by omega)]
    simp [hle]

/-- A range with positive end: it is read if its end has few enough digits. -/
theorem RangeSpec.Valid.read_eq_ok (h : r.Valid digits) :
    r.read base suffix w false = some (.ok names, e) ↔ (width r.stop : ℤ) ≤ w ∧
      names = (r.numbers.map fun n => base ++ pad w.toNat n ++ suffix) ∧ e = false := by
  obtain ⟨-, hle, hpos, hlt, -⟩ := h
  have hlong : longMax = 9223372036854775807 := rfl
  have hfits : (false || decide (longMax < value r.first) || decide (longMax < r.stop)) = false := by
    simp
    omega
  rw [RangeSpec.read, hfits, if_neg (by decide), rangeNames_eq_ok (by omega), decide_eq_false hpos.ne']
  simp [hle, RangeSpec.numbers]

theorem each_ranges_eq_ok : ∀ {ranges names},
    (∀ r ∈ ranges, r.Valid digits) →
    (each (RangeSpec.read base suffix w) ranges false = some (.ok names, e) ↔
      (∀ r ∈ ranges, (width r.stop : ℤ) ≤ w) ∧
        names = ((ranges.flatMap RangeSpec.numbers).map fun n => base ++ pad w.toNat n ++ suffix) ∧
        e = false)
  | [], names, _ => by simp [each, eq_comm]
  | r :: ranges, names, h => by
    obtain ⟨hr, hranges⟩ := forall_mem_cons.mp h
    simp only [each, andThen_eq_ok, hr.read_eq_ok, forall_mem_cons, flatMap_cons,
      map_append]
    constructor
    · rintro ⟨first, e₁, more, ⟨hw, rfl, rfl⟩, hmore, rfl⟩
      obtain ⟨hws, rfl, he⟩ := (each_ranges_eq_ok hranges).mp hmore
      exact ⟨⟨hw, hws⟩, rfl, he⟩
    · rintro ⟨⟨hw, hws⟩, rfl, he⟩
      exact ⟨_, _, _, ⟨hw, rfl, rfl⟩, (each_ranges_eq_ok hranges).mpr ⟨hws, rfl, he⟩, rfl⟩

/-- What an item gives has as many names as it stands for, and they are the right ones exactly if
the number of digits fits. -/
theorem NodeSpec.Valid.read_ok {it : NodeSpec} (h : it.Valid) :
    (it.read false = some (.ok names, e) → e = false ∧ names.length = it.names.length) ∧
      (it.read false = some (.ok it.names, false) ↔ it.DigitsFit) := by
  cases it with
  | plain name =>
    refine ⟨fun hread => ?_, by simp [NodeSpec.read, NodeSpec.names, NodeSpec.DigitsFit]⟩
    cases hread
    exact ⟨rfl, rfl⟩
  | range base digits ranges suffix =>
    obtain ⟨hbase, -, hdigits, hpos, hne, hranges, -⟩ := h
    simp only [NodeSpec.read, if_neg hbase, Bool.false_or]
    by_cases hlong : longMax < value digits
    · have hfit : 2147483648 ≤ value digits := by
        rw [longMax] at hlong
        omega
      simp [hlong, NodeSpec.DigitsFit, hfit]
    simp only [hlong, decide_false, Bool.false_eq_true, if_false, each_ranges_eq_ok hranges]
    refine ⟨fun ⟨_, hnames, he⟩ => ⟨he, by simp [hnames, NodeSpec.names]⟩, ?_⟩
    rw [NodeSpec.names, map_inj_left, NodeSpec.DigitsFit]
    constructor
    · rintro ⟨-, hsame, -⟩
      obtain ⟨r, rs, rfl⟩ := exists_cons_of_ne_nil hne
      have hmem : value r.first ∈ (r :: rs).flatMap RangeSpec.numbers := by
        have hle := (hranges r mem_cons_self).le
        rw [flatMap_cons, mem_append, RangeSpec.numbers, mem_range'_1]
        omega
      have hlength := congrArg length (hsame _ hmem)
      simp only [length_append, length_pad] at hlength
      rw [toInt] at hlength
      omega
    · intro hfit
      have hint : toInt (value digits) = value digits := by
        rw [toInt]
        omega
      rw [hint]
      exact ⟨fun r hr => by exact_mod_cast (hranges r hr).fits, fun n _ => rfl, trivial⟩

/-- Every name of a list of items is right, for the items that are read before it. -/
theorem each_specs_eq_ok : ∀ {its}, (∀ it ∈ its, it.Valid) →
    ((∃ e, each NodeSpec.read its false = some (.ok (its.flatMap NodeSpec.names), e)) ↔
      ∀ it ∈ its, it.DigitsFit)
  | [], _ => by simp [each]
  | it :: its, h => by
    obtain ⟨hit, hits⟩ := forall_mem_cons.mp h
    simp only [each, andThen_eq_ok, forall_mem_cons, flatMap_cons,
      ← each_specs_eq_ok hits, ← (@NodeSpec.Valid.read_ok [] false it hit).2]
    constructor
    · rintro ⟨e, first, e₁, more, hread, hmore, heq⟩
      obtain ⟨rfl, hlength⟩ := hit.read_ok.1 hread
      obtain ⟨rfl, rfl⟩ := append_inj heq hlength.symm
      exact ⟨hread, e, hmore⟩
    · rintro ⟨hread, e, hmore⟩
      exact ⟨e, _, _, _, hread, hmore, rfl⟩

theorem NodeSpec.Valid.wellFormed {it : NodeSpec} (h : it.Valid) : it.WellFormed := by
  cases it with
  | plain name => exact h
  | range base digits ranges suffix =>
    obtain ⟨-, hbase, hdigits, -, hne, hranges, hsuffix⟩ := h
    exact ⟨hbase, hdigits, hne, fun r hr => (hranges r hr).ok, hsuffix⟩

/-- **The expansion is exact**, if the numbers of digits are `int`s. -/
theorem expansion_exact_iff {its : List NodeSpec} (hne : its ≠ []) (h : ∀ it ∈ its, it.Valid) :
    (∃ e, extractNodeNames (some ([comma].intercalate (its.map NodeSpec.text))) false =
      some (.ok (its.flatMap NodeSpec.names), e)) ↔ ∀ it ∈ its, it.DigitsFit := by
  rw [extract_specs hne fun it hit => (h it hit).wellFormed]
  exact each_specs_eq_ok h

/-- The items of `login,n[3:1,008-10]x`. -/
def someSpecs : List NodeSpec :=
  [.plain (ofString "login"), .range (ofString "n") (ofString "3")
    [⟨ofString "1", none⟩, ⟨ofString "008", some (ofString "10")⟩] (ofString "x")]

theorem expansion_exact_iff_two : ∃ e,
    extractNodeNames (some (ofString "login,n[3:1,008-10]x")) false =
      some (.ok [ofString "login", ofString "n001x", ofString "n008x", ofString "n009x",
        ofString "n010x"], e) := by
  have hvalid : ∀ it ∈ someSpecs, it.Valid := by
    have hone : RangeSpec.Valid 3 ⟨ofString "1", none⟩ := by
      refine ⟨⟨⟨?_, ?_⟩, by simp⟩, ?_, ?_, ?_, ?_⟩ <;> decide +kernel
    have htwo : RangeSpec.Valid 3 ⟨ofString "008", some (ofString "10")⟩ := by
      refine ⟨⟨⟨?_, ?_⟩, by simp [IsNumber]; decide +kernel⟩, ?_, ?_, ?_, ?_⟩ <;> decide +kernel
    simp only [someSpecs, forall_mem_cons]
    refine ⟨⟨?_, ?_⟩, ⟨?_, ?_, ⟨?_, ?_⟩, ?_, by simp, by simpa using ⟨hone, htwo⟩, ?_⟩, by simp⟩ <;>
      decide +kernel
  exact (expansion_exact_iff (by simp [someSpecs]) hvalid).mpr
    (by simp [someSpecs, NodeSpec.DigitsFit]; decide +kernel)

/-- **A number of digits that is no `int`** loses all but its last 32 bits. -/
theorem digits_are_cut :
    extractNodeNames (some (ofString "n[4294967297:1]")) false = some (.ok [ofString "n1"], false) ∧
      ∀ name ∈ (NodeSpec.range (ofString "n") (ofString "4294967297") [⟨ofString "1", none⟩] []).names,
        name.length = 4294967298 := by
  refine ⟨by decide +kernel, ?_⟩
  have hvalue : value (ofString "4294967297") = 4294967297 := by decide
  intro name hname
  obtain ⟨n, -, rfl⟩ := mem_map.mp hname
  rw [length_append, length_append, length_pad, hvalue]
  simp [ofString]

end Sensys.Orte
