/-
# Node-list regular expressions

The model of `orte/util/regex.c`: `orte_regex_create` compresses a comma-separated list of node
names to an expression like `node[3:1-16,20]x,login`, and `orte_regex_extract_node_names` expands
such an expression again.

The decoder checks `errno == ERANGE` after each `strtol` without ever clearing `errno`, so `errno`
is an input and an output of both functions.  They only ask whether it IS `ERANGE`, which is the
`Bool` passed around here.  Besides `strtol` itself, `log10(0)` sets it (a pole error).

A result `none` stands for undefined behaviour: in the encoder a prefix that runs out of its
buffer, or a name with more digits than an `int` counts; in the decoder a negative number of
digits, whose padding loop runs through the whole address space.

Idealisations: memory is not exhausted, string indices do not overflow, and
`(int)log10((double)end) + 1` is the exact number of decimal digits (the rounding of `double` can
only be seen from `10^14` on).
-/
import Sensys.Constants
import Sensys.Lib.CString

namespace Sensys.Orte

open CString

/-! ## 1. Characters -/

abbrev comma : UInt8 := 44
abbrev dash : UInt8 := 45
abbrev zero : UInt8 := 48
abbrev colon : UInt8 := 58
abbrev lbracket : UInt8 := 91
abbrev rbracket : UInt8 := 93

/-- Conversion to `int`. -/
def toInt (n : ℤ) : ℤ := (n + 2 ^ 31) % 2 ^ 32 - 2 ^ 31

/-- The pieces of a string between commas. -/
def pieces (s : Str) : List Str := s.splitOn comma

/-! ## 2. The encoder -/

/-- `orte_regex_range_t`. -/
structure Range where
  start : ℤ
  cnt : ℤ
  deriving DecidableEq, Repr

/-- `orte_regex_node_t`; `NULL` is `none`. -/
structure Ndreg where
  pre : Option Str
  suffix : Option Str
  numDigits : ℕ
  ranges : List Range
  deriving DecidableEq, Repr

/-- The variables of the scan over one name. -/
structure Scan where
  fullname : Bool
  startnum : Option ℕ
  pre : Str
  numdigits : ℕ
  deriving DecidableEq, Repr

/-- The scan for the prefix of a name, from the character at `i` on. -/
def scanName : Str → ℕ → Scan → Scan
  | [], _, sc => sc
  | c :: node, i, sc =>
    if !isAlpha c then
      -- anything but a digit: the entire name is used
      if !isDigit c then { sc with fullname := true }
      else
        scanName node (i + 1)
          { sc with numdigits := sc.numdigits + 1, startnum := sc.startnum.or (some i) }
    else if sc.startnum.isNone then scanName node (i + 1) { sc with pre := sc.pre ++ [c] }
    else scanName node (i + 1) sc

/-- `ORTE_MAX_NODE_PREFIX`. -/
def maxNodePrefix : ℕ := 50

/-- A number joins the last range of its node id when it is the next one, and starts a new range
otherwise. -/
def addNumber (ranges : List Range) (nodenum : ℤ) : List Range :=
  match ranges.getLast? with
  | none => [⟨nodenum, 1⟩]
  | some range =>
    if nodenum ≠ range.start + range.cnt then ranges ++ [⟨nodenum, 1⟩]
    else ranges.dropLast ++ [{ range with cnt := range.cnt + 1 }]

/-- The comparisons that decide whether a name belongs to a node id of the list. -/
def Ndreg.sameId (ndreg : Ndreg) (pre suffix : Str) (numdigits : ℕ) : Bool :=
  (match ndreg.pre with
    | none => decide (pre = [])
    | some p => decide (pre ≠ []) && decide (pre = p)) &&
  (match ndreg.suffix with
    | none => false
    | some s => decide (suffix = s)) &&
  decide (numdigits = ndreg.numDigits)

/-- Record a number under its node id: the first that matches, or a new one at the end. -/
def addNode (pre suffix : Str) (numdigits : ℕ) (nodenum : ℤ) : List Ndreg → List Ndreg
  | [] =>
    [{ pre := if pre = [] then none else some pre, suffix := some suffix, numDigits := numdigits,
       ranges := [⟨nodenum, 1⟩] }]
  | ndreg :: nodeids =>
    if ndreg.sameId pre suffix numdigits then
      { ndreg with ranges := addNumber ndreg.ranges nodenum } :: nodeids
    else ndreg :: addNode pre suffix numdigits nodenum nodeids

/-- One round of the loop over the names; `errno` is threaded through. -/
def addName (st : List Ndreg × Bool) (node : Str) : Option (List Ndreg × Bool) :=
  let sc := scanName node 0 ⟨false, none, [], 0⟩
  -- the buffer of the prefix is overrun
  if maxNodePrefix < sc.pre.length then none
  else match sc.fullname, sc.startnum with
    | false, some startnum =>
      -- without its terminating zero the prefix is read past its end; `numdigits` is an `int`
      if maxNodePrefix = sc.pre.length ∨ 2 ^ 31 ≤ sc.numdigits then none
      else
        let (num, erange, sfx) := strtol (node.drop startnum)
        some (addNode sc.pre sfx sc.numdigits (toInt num) st.1, st.2 || erange)
    | _, _ =>
      -- this name cannot be compressed
      some (st.1 ++ [{ pre := some node, suffix := none, numDigits := 0, ranges := [] }], st.2)

/-- The loop over the names. -/
def addNames : List Str → List Ndreg × Bool → Option (List Ndreg × Bool)
  | [], st => some st
  | node :: nodes, st => (addName st node).bind (addNames nodes)

/-- The text of a range, without the comma that follows it. -/
def rangeText (range : Range) : Str :=
  if range.cnt = 1 then decimalInt range.start
  else decimalInt range.start ++ [dash] ++ decimalInt (range.start + range.cnt - 1)

/-- The text of a node id; a node id without ranges is a solitary name. -/
def ndregText (ndreg : Ndreg) : Option Str :=
  if ndreg.ranges = [] then ndreg.pre
  else some (ndreg.pre.getD [] ++ [lbracket] ++ decimal ndreg.numDigits ++ [colon] ++
    [comma].intercalate (ndreg.ranges.map rangeText) ++ [rbracket] ++ ndreg.suffix.getD [])

/-- The names of a node list: the loop stops at an empty rest, so a trailing comma counts for
nothing. -/
def nodesOf (nodelist : Str) : List Str :=
  if (pieces nodelist).getLast? = some [] then (pieces nodelist).dropLast else pieces nodelist

/-- `orte_regex_create`: the return code, `*regexp` and `errno`. -/
def create (nodelist : Str) (erange : Bool) : Option (Rc × Str × Bool) :=
  if !nodelist.contains comma then
    -- if there is only one node, don't bother
    some (.success, nodelist, erange)
  else
    (addNames (nodesOf nodelist) ([], erange)).map fun st =>
      (.success, [comma].intercalate (st.1.filterMap ndregText), st.2)

/-! ## 3. The decoder -/

/-- What the parsing functions return: the names they append to `*names` or an error, and
`errno`. -/
abbrev Parsed := Option (Except Rc (List Str) × Bool)

/-- Continue after a successful parse, with its names in front. -/
def Parsed.andThen (p : Parsed) (next : Bool → Parsed) : Parsed :=
  match p with
  | none => none
  | some (.error rc, erange) => some (.error rc, erange)
  | some (.ok names, erange) =>
    match next erange with
    | none => none
    | some (.error rc, erange) => some (.error rc, erange)
    | some (.ok more, erange) => some (.ok (names ++ more), erange)

/-- The name of node number `i`: zeros behind the base, the digits of `i` written over their
end, then the suffix. -/
def nodeName (base suffix : Str) (numDigits i : ℕ) : Str :=
  let str := base ++ List.replicate numDigits zero
  str.take (str.length - (decimal i).length) ++ decimal i ++ suffix

/-- The end of `regex_parse_node_range`, when both numbers are known: the checks and the names. -/
def rangeNames (base suffix : Str) (numDigits : ℤ) (start stop : ℕ) (erange : Bool) : Parsed :=
  if start > stop then some (.error .errBadParam, erange)
  else
    -- `log10(0)` is a pole error and converts to a negative number of digits
    let erange := erange || decide (stop = 0)
    if stop ≠ 0 ∧ (width stop : ℤ) > numDigits then some (.error .errBadParam, erange)
    else if numDigits < 0 then none
    else
      some (.ok ((List.range' start (stop + 1 - start)).map
        (nodeName base suffix numDigits.toNat)), erange)

/-- `regex_parse_node_range`. -/
def parseNodeRange (base range : Str) (numDigits : ℤ) (suffix : Str) (erange : Bool) : Parsed :=
  match range.dropWhile (fun c => !isDigit c) with
  | [] => some (.error .errNotFound, erange)
  | first =>
    let (start, overflow, _) := strtol first
    let erange := erange || overflow
    if erange then some (.error .errBadParam, erange)
    else match first.dropWhile isDigit with
      | [] => rangeNames base suffix numDigits start.toNat start.toNat erange
      | rest =>
        match rest.dropWhile (fun c => !isDigit c) with
        | [] => some (.error .errNotFound, erange)
        | second =>
          let (stop, overflow, _) := strtol second
          let erange := erange || overflow
          if erange then some (.error .errBadParam, erange)
          else rangeNames base suffix numDigits start.toNat stop.toNat erange

/-- `regex_parse_node_ranges`, over the ranges between the commas.  An empty last one is left
out. -/
def parseNodeRanges (base : Str) (numDigits : ℤ) (suffix : Str) : List Str → Bool → Parsed
  | [], erange => some (.ok [], erange)
  | [range], erange =>
    if range = [] then some (.ok [], erange)
    else parseNodeRange base range numDigits suffix erange
  | range :: ranges, erange =>
    Parsed.andThen (parseNodeRange base range numDigits suffix erange)
      (parseNodeRanges base numDigits suffix ranges)

/-- The character at which the search for the end of a base stops. -/
def endsBase (c : UInt8) : Bool := c == lbracket || c == comma || c == rbracket

/-- What a round of the loop finds behind a `[`. -/
inductive Bracket where
  /-- One of the messages `num-digits-missing`, `value-out-of-range`,
  `consecutive-rightleft-brackets` or `end-range-missing`. -/
  | bad (erange : Bool)
  /-- The number of digits, the ranges, the suffix and what follows it. -/
  | range (numDigits : ℤ) (ranges suffix rest : Str) (erange : Bool)

/-- The part of the loop body that takes a bracket apart. -/
def bracket (s : Str) (erange : Bool) : Bracket :=
  match s.dropWhile (· ≠ colon) with
  | [] => .bad erange
  | _ :: afterColon =>
    let (num, overflow, _) := strtol (s.takeWhile (· ≠ colon))
    let erange := erange || overflow
    if erange then .bad erange
    else match afterColon.dropWhile (· ≠ rbracket) with
      | [] => .bad erange
      | _ :: afterBracket =>
        if afterBracket.head? = some lbracket then .bad erange
        else .range (toInt num) (afterColon.takeWhile (· ≠ rbracket))
          (afterBracket.takeWhile (· ≠ comma)) (afterBracket.dropWhile (· ≠ comma)) erange

/-- The loop of `orte_regex_extract_node_names`.  A round consumes at least one character of the
base, so a fuel above the length of the string is enough. -/
def extractLoop : ℕ → Str → Bool → Parsed
  | 0, _, _ => none
  | fuel + 1, base, erange =>
    let name := base.takeWhile (fun c => !endsBase c)
    if name = [] then some (.error .errBadParam, erange)
    else match base.dropWhile (fun c => !endsBase c) with
      | [] => some (.ok [name], erange)
      | c :: rest =>
        if c = lbracket then
          match bracket rest erange with
          | .bad erange => some (.error .errBadParam, erange)
          | .range numDigits ranges suffix rest erange =>
            Parsed.andThen (parseNodeRanges name numDigits suffix (pieces ranges) erange)
              fun erange =>
                match rest with
                | [] => some (.ok [], erange)
                | _ :: base => extractLoop fuel base erange
        else if c = comma then
          Parsed.andThen (some (.ok [name], erange)) (extractLoop fuel rest)
        else some (.error .errBadParam, erange)

/-- `orte_regex_extract_node_names`; `NULL` gives no names. -/
def extractNodeNames (regexp : Option Str) (erange : Bool) : Parsed :=
  match regexp with
  | none => some (.ok [], erange)
  | some regexp => extractLoop (regexp.length + 1) regexp erange

end Sensys.Orte
