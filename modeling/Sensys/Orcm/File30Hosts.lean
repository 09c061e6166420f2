/-
# The check of hosts and ports

`cfgi30_check_configure_hosts_ports` (`cfgi_file30_helpers.c`) walks over the junctions of a
configuration and collects the host and the port of every controller; a pair that is there already,
up to letter case, makes it fail.  On the way it expands the names of the junctions: `@` stands for
the name of the junction around, and a part like `node[3:1-16]` for all its names
(`orte_regex_extract_node_names`).  A controller whose host is `@` has the name of its junction.

The parts of a name are found by the regular expression

    (([^[,[:space:]]*\[[[:digit:]]+:[[:digit:]]+-[[:digit:]]+\][^,[:space:]]*)|([^,[:space:]]+)),?

of which the longest of the leftmost matches is a run without commas and blanks, with a comma if
there is one; its second group is set if the first bracket of the run is a range.

`errno` is part of the state, since `orte_regex_extract_node_names` looks at it.  Besides reading a
list where there is a string or the other way round, a result `undefined` stands for a port that is
no `int`, and for a replacement of `@` that never ends.
-/
import Sensys.Orcm.File30
import Sensys.Orte.Regex

namespace Sensys.Orcm.File30

open CString
open Opal.Dss (Stop)
open Workflow (Items)
open Orte (comma colon dash lbracket rbracket)

/-! ## 1. Names -/

/-- A computation that may change `errno`: whether it is `ERANGE`. -/
abbrev Errno := Failing Stop Bool

abbrev atSign : UInt8 := 64

/-- `"@"`. -/
def atName : Str := [atSign]

/-- `"localhost"`. -/
def localhost : Str := ofString "localhost"

/-- `orte_regex_extract_node_names`. -/
def extractNodeNames (regexp : Str) : Errno (List Str) := fun erange =>
  match Orte.extractNodeNames (some regexp) erange with
  | none => (.error .undefined, erange)
  | some (.error rc, erange) => (.error (.rc rc), erange)
  | some (.ok names, erange) => (.ok names, erange)

/-- Every `@` of a name, replaced. -/
def replaceAt (parent name : Str) : Str := name.flatMap fun c => if c = atSign then parent else [c]

/-- `cfgi30_expand_name_at`.  An `@` in the replacement is replaced again, for ever. -/
def expandNameAt (name : Str) (lastName : Option Str) : Errno Str :=
  if !name.contains atSign then pure name
  else match lastName with
    | none => badParam
    | some lastName =>
      if lastName.contains atSign then throw .undefined else pure (replaceAt lastName name)

/-- The characters between the parts of a name. -/
def isSeparator (c : UInt8) : Bool := c == comma || isSpace c

/-- `[[:digit:]]+` and then the character `stop`: what follows. -/
def digitsThen (stop : UInt8) (s : Str) : Option Str :=
  if s.takeWhile isDigit = [] then none
  else match s.dropWhile isDigit with
    | [] => none
    | c :: rest => if c = stop then some rest else none

/-- The second group of the regular expression: the first bracket of a run is a range. -/
def isRange (run : Str) : Bool :=
  match run.dropWhile (· ≠ lbracket) with
  | [] => false
  | _ :: s => (((digitsThen colon s).bind (digitsThen dash)).bind (digitsThen rbracket)).isSome

/-- A match of the regular expression: the run, whether it has a range, and `rm_eo`. -/
structure NameMatch where
  run : Str
  range : Bool
  eo : ℕ
  deriving DecidableEq, Repr

/-- All matches, each behind the one before.  A match is not empty, so that the length of the name
is enough fuel. -/
def nameMatches : ℕ → Str → List NameMatch
  | 0, _ => []
  | fuel + 1, s =>
    let start := s.dropWhile isSeparator
    if start = [] then []
    else
      let run := start.takeWhile fun c => !isSeparator c
      let rest := start.dropWhile fun c => !isSeparator c
      let rest := if rest.head? = some comma then rest.tail else rest
      ⟨run, isRange run, s.length - rest.length⟩ :: nameMatches fuel rest

/-! ## 2. Hosts and ports -/

/-- `hosts` and `ports`. -/
abbrev HostPorts := List (Str × ℤ)

/-- `cfgi30_exists_host_port`. -/
def existsHostPort (pairs : HostPorts) (host : Str) (port : ℤ) : Bool :=
  pairs.any fun pair => caseEq host pair.1 && decide (port = pair.2)

/-- `cfgi30_add_uniq_host_port`. -/
def addUniqHostPort (pairs : HostPorts) (host : Str) (port : ℤ) : Errno HostPorts :=
  if !existsHostPort pairs host port then pure (pairs ++ [(host, port)]) else badParam

/-- `atoi`, if the number is an `int`. -/
def atoi (s : Str) : Option ℤ :=
  let (number, _, _) := strtol s
  if -2 ^ 31 ≤ number ∧ number < 2 ^ 31 then some number else none

/-- The loop of `cfgi30_check_controller_hosts_ports`: `*host` and `*port`. -/
def controllerHostPort : Items → Option Str → ℤ → Errno (Option Str × ℤ)
  | .nil, host, port => pure (host, port)
  | .string tag value next, host, port =>
    if caseEq txHost tag || caseEq txShost tag then controllerHostPort next (some value) port
    else if caseEq txPort tag then
      match atoi value with
      | some port => controllerHostPort next host port
      | none => throw .undefined
    else controllerHostPort next host port
  | .ptr tag _ next, host, port | .other tag next, host, port =>
    if caseEq txHost tag || caseEq txShost tag || caseEq txPort tag then throw .undefined
    else controllerHostPort next host port

/-- `cfgi30_check_controller_hosts_ports`. -/
def checkControllerHostsPorts (controller : Items) (host : Option Str) (port : ℤ) :
    Errno (Option Str × ℤ) := do
  let (host, port) ← controllerHostPort controller host port
  if host = none ∨ port = -1 then badParam
  pure (host, port)

/-- `cfgi30_check_scheduler_hosts_ports`. -/
def checkSchedulerHostsPorts (scheduler : Items) (pairs : HostPorts) : Errno HostPorts := do
  let (host, port) ← checkControllerHostsPorts scheduler none (-1)
  match host with
  | some host => addUniqHostPort pairs host port
  | none => badParam

/-- `cfgi30_add_valid_noregex_host_port`. -/
def addValidNoregexHostPort (host : Option Str) (port : ℤ) (newNames : List Str) (isNode : Bool)
    (pairs : HostPorts) : Errno HostPorts :=
  match host with
  | none => pure pairs
  | some host =>
    if isNode && !caseEq (newNames.headD []) host && !caseEq host atName &&
        !caseEq host localhost then badParam
    else if !caseEq host atName then addUniqHostPort pairs host port
    else pure pairs

/-- The check of a junction, with the name of the junction around. -/
abbrev JunctionCheck := Option Str → HostPorts → Errno HostPorts

/-- The check of the junctions below one name. -/
def checkNextJunctions (lastName : Str) : List JunctionCheck → HostPorts → Errno HostPorts
  | [], pairs => pure pairs
  | check :: checks, pairs => do
    let pairs ← check (some lastName) pairs
    checkNextJunctions lastName checks pairs

/-- A controller `@` is added under the name of its junction. -/
def addNameHostPort (host : Option Str) (port : ℤ) (name : Str) (pairs : HostPorts) :
    Errno HostPorts :=
  if host.any fun host => caseEq host atName then addUniqHostPort pairs name port else pure pairs

/-- `cfgi30_add_valid_regex_hosts_ports`. -/
def addValidRegexHostsPorts (host : Option Str) (port : ℤ) (nextJunctions : List JunctionCheck) :
    List Str → HostPorts → Errno HostPorts
  | [], pairs => pure pairs
  | name :: newNames, pairs => do
    let pairs ← addNameHostPort host port name pairs
    let pairs ← checkNextJunctions name nextJunctions pairs
    addValidRegexHostsPorts host port nextJunctions newNames pairs

/-! ## 3. Junctions -/

/-- The variables of `cfgi30_check_junction_hosts_ports`; `is_node` is `none` for 2. -/
structure Junction where
  name : Option Str
  host : Option Str
  port : ℤ
  isNode : Option Bool
  nextJunctions : List JunctionCheck

/-- Their initial values. -/
def Junction.init : Junction := ⟨none, none, -1, none, []⟩

/-- The names of one match: `expanded` and `is_regex`.  Where the code looks for a comma behind the
match, it counts from the start of the whole name. -/
def expandMatch (name : Str) (found : NameMatch) (isRegex : Bool) : Errno (List Str × Bool) :=
  if found.range then do
    let names ← extractNodeNames found.run
    if names = [] then throw .undefined
    pure (names, true)
  else pure ([found.run], isRegex || decide (name[found.eo]? = some comma))

/-- The first call for a match: not for a controller `@` of a name that stands for several. -/
def addMatchHostPort (junction : Junction) (isNode : Bool) (expanded : List Str) (isRegex : Bool)
    (pairs : HostPorts) : Errno HostPorts :=
  if !isRegex || junction.host.any fun host => !caseEq host atName then
    addValidNoregexHostPort junction.host junction.port expanded isNode pairs
  else pure pairs

/-- The loop of `cfgi30_check_unique_hosts_ports` over the matches, with `is_regex`. -/
def checkUniqueEach (junction : Junction) (isNode : Bool) (name : Str) :
    List NameMatch → Bool → HostPorts → Errno HostPorts
  | [], _, pairs => pure pairs
  | found :: more, isRegex, pairs => do
    let (expanded, isRegex) ← expandMatch name found isRegex
    let pairs ← addMatchHostPort junction isNode expanded isRegex pairs
    let pairs ←
      addValidRegexHostsPorts junction.host junction.port junction.nextJunctions expanded pairs
    checkUniqueEach junction isNode name more isRegex pairs

/-- `cfgi30_check_unique_hosts_ports`. -/
def checkUniqueHostsPorts (junction : Junction) (name : Str) (isNode : Bool)
    (lastName : Option Str) (pairs : HostPorts) : Errno HostPorts := do
  let name ← expandNameAt name lastName
  checkUniqueEach junction isNode name (nameMatches (name.length + 1) name) false pairs

/-- `cfgi30_check_junction_hosts_ports` behind its loop. -/
def checkJunctionWith (scan : Errno Junction) : JunctionCheck := fun lastName pairs => do
  let junction ← scan
  match junction.name, junction.isNode with
  | some name, some isNode => checkUniqueHostsPorts junction name isNode lastName pairs
  | _, _ => badParam

/-- The loop of `cfgi30_check_junction_hosts_ports`.  The junctions inside are only collected. -/
def scanJunction : Items → Junction → Errno Junction
  | .nil, junction => pure junction
  | .string tag value next, junction =>
    if caseEq txJunction tag then
      scanJunction next { junction with
        nextJunctions := junction.nextJunctions ++ [fun _ _ => throw .undefined] }
    else if caseEq txControl tag then throw .undefined
    else if caseEq txName tag then scanJunction next { junction with name := some value }
    else if caseEq txType tag then
      scanJunction next { junction with isNode := some (caseEq fdNode value) }
    else scanJunction next junction
  | .ptr tag list next, junction =>
    if caseEq txJunction tag then
      scanJunction next { junction with
        nextJunctions := junction.nextJunctions ++
          [checkJunctionWith (scanJunction list Junction.init)] }
    else if caseEq txControl tag then do
      let (host, port) ← checkControllerHostsPorts list junction.host junction.port
      scanJunction next { junction with host := host, port := port }
    else if caseEq txName tag || caseEq txType tag then throw .undefined
    else scanJunction next junction
  | .other tag next, junction =>
    if caseEq txJunction tag then
      scanJunction next { junction with
        nextJunctions := junction.nextJunctions ++ [fun _ _ => throw .undefined] }
    else if caseEq txControl tag || caseEq txName tag || caseEq txType tag then throw .undefined
    else scanJunction next junction

/-- `cfgi30_check_junction_hosts_ports`. -/
def checkJunctionHostsPorts (junction : Items) : JunctionCheck :=
  checkJunctionWith (scanJunction junction Junction.init)

/-- The loop of `cfgi30_check_configure_hosts_ports`. -/
def checkConfigureEach : Items → HostPorts → Errno HostPorts
  | .nil, pairs => pure pairs
  | .ptr tag list next, pairs =>
    if caseEq txJunction tag then do
      let pairs ← checkJunctionHostsPorts list none pairs
      checkConfigureEach next pairs
    else if caseEq txScheduler tag then do
      let pairs ← checkSchedulerHostsPorts list pairs
      checkConfigureEach next pairs
    else checkConfigureEach next pairs
  | .string tag _ next, pairs | .other tag next, pairs =>
    if caseEq txJunction tag || caseEq txScheduler tag then throw .undefined
    else checkConfigureEach next pairs

/-- `cfgi30_check_configure_hosts_ports`, on the list of the first item: the pairs it has
collected. -/
def checkConfigureHostsPorts : Items → Errno HostPorts
  | .ptr _ list _ => checkConfigureEach list []
  | _ => throw .undefined

/-! ## 4. `read_config` -/

/-- Whatever a check returns but success, `read_config` returns `ORCM_ERR_SILENT`. -/
def silent {α : Type} : Except Stop α → Errno α
  | .ok a => pure a
  | .error (.rc _) => throw (.rc .errSilent)
  | .error .undefined => throw .undefined

/-- `read_config`, with the document that the parser has. -/
def readConfig (cfgi : Items) : Errno Xml := do
  silent (checkLexTagsAndField cfgi)
  silent (checkDuplicateSingleton cfgi)
  let erange ← get
  let (checked, erange) := checkConfigureHostsPorts cfgi erange
  set erange
  let _ ← silent checked
  silent (convertToXmlParserList cfgi)

end Sensys.Orcm.File30
