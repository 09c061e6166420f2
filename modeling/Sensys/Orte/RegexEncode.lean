/-
# What the encoder builds

`orte_regex_create` walks over the names and keeps a list of node ids with ranges.  This file
says what that list is, without ranges and pointers: each name that cannot be compressed stands
alone, and the others are grouped by CLASS -- leading letters, what follows the first digit run,
and the total number of digits -- in the order in which the classes first appear, each class with
the numbers of its names in order (`Item`, `items`).

`addNames_eq` is the connection: on names with fewer than fifty leading letters and digit runs
that fit an `int`, the loop of the encoder computes exactly the node ids of `items`.
-/
import Sensys.Orte.Regex

namespace Sensys.Orte

open CString List Option

/-! ## 1. The parts of a name -/

/-- The names `orte_regex_create` compresses: letters and digits only, with a digit. -/
def compressible (node : Str) : Bool :=
  node.all (fun c => isAlpha c || isDigit c) && node.any isDigit

/-- What the names of one node id have in common. -/
structure Cls where
  pre : Str
  suffix : Str
  numDigits : ℕ
  deriving DecidableEq, Repr

/-- The first digit run of a compressible name. -/
def digitsOf (node : Str) : Str := (node.dropWhile isAlpha).takeWhile isDigit

/-- The class of a compressible name. -/
def clsOf (node : Str) : Cls where
  pre := node.takeWhile isAlpha
  suffix := (node.dropWhile isAlpha).dropWhile isDigit
  numDigits := node.countP isDigit

/-- The number of a compressible name. -/
def numberOf (node : Str) : ℕ := value (digitsOf node)

theorem parts_append (node : Str) :
    (clsOf node).pre ++ (digitsOf node ++ (clsOf node).suffix) = node := by
  simp [clsOf, digitsOf, takeWhile_append_dropWhile]

variable {node : Str} {c : UInt8}

theorem isAlpha_of_mem_pre (h : c ∈ (clsOf node).pre) : isAlpha c = true := mem_takeWhile_imp h

theorem isDigit_of_mem_digitsOf (h : c ∈ digitsOf node) : isDigit c = true := mem_takeWhile_imp h

theorem suffix_head (h : (clsOf node).suffix.head? = some c) : isDigit c = false := by
  have := head?_dropWhile_not isDigit (node.dropWhile isAlpha)
  simp only [clsOf] at h
  rw [h] at this
  simpa using this

theorem mem_of_mem_suffix (h : c ∈ (clsOf node).suffix) : c ∈ node := by
  rw [← parts_append node]
  simp [h]

theorem compressible_iff : compressible node = true ↔
    (∀ c ∈ node, isAlpha c = true ∨ isDigit c = true) ∧ ∃ c ∈ node, isDigit c = true := by
  simp [compressible]

/-- The digits of a compressible name begin right behind its letters. -/
theorem digitsOf_ne_nil (h : compressible node = true) : digitsOf node ≠ [] := by
  obtain ⟨hall, d, hd, hdig⟩ := compressible_iff.mp h
  intro hnil
  -- what follows the letters starts with a character that is neither letter nor digit
  cases hrest : node.dropWhile isAlpha with
  | nil =>
    have hall' := dropWhile_eq_nil_iff.mp hrest
    have := isDigit_eq_false_of_isAlpha (hall' d hd)
    rw [hdig] at this
    cases this
  | cons c rest =>
    have hc : isAlpha c = false := by
      have := head?_dropWhile_not isAlpha node
      rw [hrest] at this
      simpa using this
    have hmem : c ∈ node := by
      rw [← takeWhile_append_dropWhile (p := isAlpha) (l := node), hrest]
      simp
    have hcd : isDigit c = true := by
      rcases hall c hmem with ha | hd
      · rw [hc] at ha
        cases ha
      · exact hd
    rw [digitsOf, hrest] at hnil
    simp [hcd] at hnil

theorem numDigits_eq (node : Str) :
    (clsOf node).numDigits = (digitsOf node).length + (clsOf node).suffix.countP isDigit := by
  have hpre : (clsOf node).pre.countP isDigit = 0 := by
    rw [countP_eq_zero]
    intro c hc
    rw [isDigit_eq_false_of_isAlpha (isAlpha_of_mem_pre hc)]
    decide
  have hdig : (digitsOf node).countP isDigit = (digitsOf node).length := by
    rw [countP_eq_length]
    intro c hc
    exact isDigit_of_mem_digitsOf hc
  have hcount : (clsOf node).numDigits = node.countP isDigit := rfl
  rw [hcount]
  conv_lhs => rw [← parts_append node]
  rw [countP_append, countP_append, hpre, hdig, Nat.zero_add]

/-! ## 2. The scan -/

/-- The characters the scan passes over. -/
def alnum (c : UInt8) : Bool := isAlpha c || isDigit c

/-- **What the scan finds.**  It stops at the first character that is neither letter nor digit. -/
theorem scanName_eq : ∀ t i sc, scanName t i sc =
    { fullname := sc.fullname || !t.all alnum
      startnum := sc.startnum.or (((t.takeWhile alnum).findIdx? isDigit).map (i + ·))
      pre := if sc.startnum.isNone then sc.pre ++ t.takeWhile isAlpha else sc.pre
      numdigits := sc.numdigits + (t.takeWhile alnum).countP isDigit }
  | [], _, sc => by simp [scanName]
  | c :: t, i, sc => by
    rw [scanName]
    by_cases ha : isAlpha c = true
    · have hd := isDigit_eq_false_of_isAlpha ha
      have hnext : ∀ j, i + 1 + j = i + (j + 1) := by omega
      cases hs : sc.startnum <;>
        simp [ha, hd, hs, alnum, scanName_eq t, findIdx?_cons, Function.comp_def, hnext]
    · by_cases hd : isDigit c = true
      · have hcount : ∀ j, sc.numdigits + 1 + j = sc.numdigits + (j + 1) := by omega
        cases sc.startnum <;> simp [ha, hd, alnum, scanName_eq t, findIdx?_cons, hcount]
      · simp [ha, hd, alnum]

/-- The first digit is behind the leading letters. -/
theorem findIdx?_isDigit (h : compressible node = true) :
    node.findIdx? isDigit = some (clsOf node).pre.length := by
  obtain ⟨d, ds, hds⟩ := exists_cons_of_ne_nil (digitsOf_ne_nil h)
  have hd : isDigit d = true := isDigit_of_mem_digitsOf (by rw [hds]; exact mem_cons_self)
  have hpre : (clsOf node).pre.findIdx? isDigit = none := findIdx?_eq_none_iff.mpr fun c hc =>
    isDigit_eq_false_of_isAlpha (isAlpha_of_mem_pre hc)
  conv_lhs => rw [← parts_append node, hds]
  simp [findIdx?_append, findIdx?_cons, hpre, hd]

/-- The scan of a compressible name. -/
theorem scanName_compressible (h : compressible node = true) : scanName node 0 ⟨false, none, [], 0⟩
      = ⟨false, some (clsOf node).pre.length, (clsOf node).pre, (clsOf node).numDigits⟩ := by
  have hall : node.all alnum = true := (Bool.and_eq_true_iff.mp h).1
  have htake : node.takeWhile alnum = node := takeWhile_eq_self_iff.mpr (all_eq_true.mp hall)
  rw [scanName_eq, htake, findIdx?_isDigit h, hall]
  simp [clsOf]

/-- The scan leaves a name that is not compressible alone. -/
theorem scan_not_compressible (h : compressible node = false) :
    (scanName node 0 ⟨false, none, [], 0⟩).fullname = true ∨
      (scanName node 0 ⟨false, none, [], 0⟩).startnum = none := by
  rw [scanName_eq]
  cases hall : node.all alnum with
  | false => exact .inl rfl
  | true =>
    have hnone : (node.all alnum && node.any isDigit) = false := h
    rw [hall, Bool.true_and, List.any_eq_false] at hnone
    have hfind : (node.takeWhile alnum).findIdx? isDigit = none :=
      findIdx?_eq_none_iff.mpr fun c hc => by simpa using hnone c ((List.takeWhile_prefix _).mem hc)
    exact .inr (by simp [hfind])

/-! ## 3. The node ids -/

/-- A node id of the encoder, by what it stands for. -/
inductive Item where
  /-- A name that is not compressed. -/
  | whole (name : Str)
  /-- A class with the numbers of its names, in order. -/
  | cls (c : Cls) (numbers : List ℕ)
  deriving DecidableEq, Repr

/-- The ranges the encoder builds from the numbers of a class. -/
def runs (numbers : List ℕ) : List Range :=
  numbers.foldl (fun ranges (n : ℕ) => addNumber ranges n) []

/-- The node id as `orte_regex_create` stores it. -/
def Item.toNdreg : Item → Ndreg
  | .whole name => { pre := some name, suffix := none, numDigits := 0, ranges := [] }
  | .cls c numbers =>
    { pre := if c.pre = [] then none else some c.pre, suffix := some c.suffix,
      numDigits := c.numDigits, ranges := runs numbers }

/-- Record a number under its class. -/
def addNum (c : Cls) (n : ℕ) : List Item → List Item
  | [] => [.cls c [n]]
  | .whole name :: is => .whole name :: addNum c n is
  | .cls d ns :: is => if d = c then .cls d (ns ++ [n]) :: is else .cls d ns :: addNum c n is

/-- Record a name. -/
def addItem (is : List Item) (node : Str) : List Item :=
  if compressible node then addNum (clsOf node) (numberOf node) is else is ++ [.whole node]

/-- The node ids of a list of names. -/
def items (names : List Str) : List Item := names.foldl addItem []

/-- A class is recognised by its prefix, suffix and number of digits. -/
theorem sameId_cls (c d : Cls) (numbers : List ℕ) :
    (Item.cls d numbers).toNdreg.sameId c.pre c.suffix c.numDigits = decide (d = c) := by
  obtain ⟨p, s, w⟩ := c
  obtain ⟨p', s', w'⟩ := d
  by_cases hp' : p' = []
  · by_cases hp : p = []
    · simp [Item.toNdreg, Ndreg.sameId, hp, hp', eq_comm]
    · simp [Item.toNdreg, Ndreg.sameId, hp, hp', Ne.symm hp]
  · by_cases hp : p = []
    · simp [Item.toNdreg, Ndreg.sameId, hp, hp']
    · simp [Item.toNdreg, Ndreg.sameId, hp, hp', eq_comm, Bool.and_assoc]

theorem addNode_items (c : Cls) (n : ℕ) : ∀ is : List Item,
    addNode c.pre c.suffix c.numDigits n (is.map Item.toNdreg) = (addNum c n is).map Item.toNdreg
  | [] => by simp [addNode, addNum, Item.toNdreg, runs, addNumber]
  | .whole name :: is => by
    rw [map_cons, addNode, addNum, map_cons, addNode_items c n is]
    simp [Item.toNdreg, Ndreg.sameId]
  | .cls d ns :: is => by
    rw [map_cons, addNode, sameId_cls, addNum]
    by_cases hd : d = c
    · simp [hd, Item.toNdreg, runs]
    · simp only [hd, decide_false, Bool.false_eq_true, if_false, map_cons]
      rw [addNode_items c n is]

/-! ## 4. The loop of the encoder -/

theorem toInt_of_le {n : ℕ} (h : n ≤ 2147483647) : toInt n = n := by
  rw [toInt]
  omega

/-- `strtol` at the first digit of a compressible name. -/
theorem strtol_number (h : compressible node = true) (hfit : numberOf node ≤ 2147483647) :
    strtol (node.drop (clsOf node).pre.length)
      = ((numberOf node : ℤ), false, (clsOf node).suffix) := by
  have hdrop : node.drop (clsOf node).pre.length = digitsOf node ++ (clsOf node).suffix := by
    have := congrArg (List.drop (clsOf node).pre.length) (parts_append node)
    rw [drop_left] at this
    exact this.symm
  rw [hdrop]
  refine strtol_digits (digitsOf_ne_nil h) (fun c hc => isDigit_of_mem_digitsOf hc)
    (fun c hc => suffix_head hc) ?_
  rw [longMax]
  have : value (digitsOf node) ≤ 2147483647 := hfit
  omega

/-- **One round of the encoder**, on a name it does not choke on. -/
theorem addName_eq (is : List Item) (erange : Bool)
    (hletters : (node.takeWhile isAlpha).length < 50)
    (hfit : compressible node = true → numberOf node ≤ 2147483647)
    (hdigits : compressible node = true → (clsOf node).numDigits < 2 ^ 31) :
    addName (is.map Item.toNdreg, erange) node
      = some ((addItem is node).map Item.toNdreg, erange) := by
  have hpre : (scanName node 0 ⟨false, none, [], 0⟩).pre = node.takeWhile isAlpha := by
    rw [scanName_eq]
    rfl
  have hover : ¬ maxNodePrefix < (scanName node 0 ⟨false, none, [], 0⟩).pre.length := by
    rw [hpre, maxNodePrefix]
    omega
  rw [addName]
  simp only [if_neg hover]
  by_cases hc : compressible node = true
  · have hlen : (clsOf node).pre.length < 50 := hletters
    have hdig := hdigits hc
    rw [scanName_compressible hc]
    simp only
    rw [if_neg (by rw [maxNodePrefix]; omega), strtol_number hc (hfit hc)]
    simp only [toInt_of_le (hfit hc), addNode_items, Bool.or_false, addItem, hc, if_true]
  · simp only [Bool.not_eq_true] at hc
    rcases scan_not_compressible hc with hfull | hnone
    · rw [hfull]
      simp [addItem, hc, Item.toNdreg]
    · rw [hnone]
      cases (scanName node 0 ⟨false, none, [], 0⟩).fullname <;>
        simp [addItem, hc, Item.toNdreg]

/-- A compressible name with more digits than an `int` counts stops the encoder. -/
theorem addName_eq_none (st : List Ndreg × Bool) (hc : compressible node = true)
    (hdigits : 2 ^ 31 ≤ (clsOf node).numDigits) : addName st node = none := by
  rw [addName, scanName_compressible hc]
  simp only
  rw [if_pos (Or.inr hdigits), ite_self]

/-- **The loop of the encoder builds the node ids of the names.** -/
theorem addNames_eq : ∀ names is erange,
    (∀ x ∈ names, (x.takeWhile isAlpha).length < 50) →
    (∀ x ∈ names, compressible x = true → numberOf x ≤ 2147483647) →
    (∀ x ∈ names, compressible x = true → (clsOf x).numDigits < 2 ^ 31) →
    addNames names (is.map Item.toNdreg, erange)
      = some ((names.foldl addItem is).map Item.toNdreg, erange)
  | [], _, _, _, _, _ => rfl
  | x :: names, is, erange, hletters, hfit, hdigits => by
    rw [addNames, addName_eq is erange (hletters x mem_cons_self) (hfit x mem_cons_self)
      (hdigits x mem_cons_self), bind_some, foldl_cons]
    exact addNames_eq names _ erange (fun y hy => hletters y (mem_cons_of_mem _ hy))
      (fun y hy => hfit y (mem_cons_of_mem _ hy))
      (fun y hy => hdigits y (mem_cons_of_mem _ hy))

theorem addNames_eq_none {x} (hc : compressible x = true) (hdigits : 2 ^ 31 ≤ (clsOf x).numDigits) :
    ∀ names st, x ∈ names → addNames names st = none
  | [], _, hx => by simp at hx
  | y :: names, st, hx => by
    rw [addNames]
    rcases mem_cons.mp hx with rfl | hx
    · rw [addName_eq_none st hc hdigits, bind_none]
    · cases addName st y with
      | none => rfl
      | some st' => exact addNames_eq_none hc hdigits names st' hx

end Sensys.Orte
