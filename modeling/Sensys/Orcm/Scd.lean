/-
# The scheduler

The model of the PMF scheduler (`orcm/mca/scd/pmf/scd_pmf.c`) with the resource manager it talks
to (`orcm/mca/scd/base/scd_base_rm.c`, `scd_base_rm_recv.c`) and the two session commands of
`scd_base_recv.c`.  A handler is a function on the state; the state holds the node table, the
three session queues, the allocations, and the events that have been activated and not yet run.
Pending events run in any order.

Sessions are named by the number of their request: the `n`-th requested session has the session id
`n % 2^32` (`sessionId`), as `last_session_id` is a `uint32_t` that starts at zero.

* `none` stands for a handler that does not return: `strcmp` on a `NULL` node list, or a node-list
  expression the extraction does not return from.
* The queues are intrusive lists.  `pmf_allocated` on its error path takes the FIRST session off
  `running` and links its own session into `default`; if that was not the same session, its own is
  then linked into two lists at once.  `intact` is cleared when this happens, and nothing is
  defined afterwards.
* The step daemons are not part of the scheduler.  They are assumed to return allocations they were
  sent (`Label.stepdComplete`).
* `errno` is set by every library call of the process; `Label.errno` stands for the ones that are
  not modelled.
-/
import Sensys.Orcm.CfgiTypes
import Sensys.Orte.Regex

namespace Sensys.Orcm.Scd

open Orte

/-! ## 1. The state -/

/-- `orcm_alloc_t`, with the fields the scheduler reads or writes. -/
structure Alloc where
  id : ℕ
  minNodes : ℤ
  nodes : Option Str
  queues : Option Str
  notes : Option Str
  hnpname : Option Str
  hnp : ProcName
  deriving DecidableEq, Repr

/-- The id of the `n`-th session: `last_session_id` after `n` increments. -/
def sessionId (session : ℕ) : ℕ := session % 2 ^ 32

/-- An activated state: the handler to run and the session of its caddy.  `TERMINATED` and
`CANCEL` come with a session object made for the message, of which only the allocation, or the id,
is read; `SCHEDULE` does not read its session. -/
inductive Event where
  | init (session : ℕ)
  | schedule
  | allocd (session : ℕ)
  | terminated (alloc : Alloc)
  | cancel (id : ℕ)
  | req (session : ℕ)
  | active (session : ℕ)
  | kill (session : ℕ)
  deriving DecidableEq, Repr

/-- The commands sent to the step daemons. -/
inductive RmCommand where
  | launchStepd | cancelStepd
  deriving DecidableEq, Repr

/-- A message to a step daemon. -/
structure Message where
  command : RmCommand
  alloc : Alloc
  target : ProcName
  deriving DecidableEq, Repr

/-- `orcm_alloc_tracker_t`. -/
structure Tracker where
  allocId : ℕ
  countCheckedIn : ℤ
  deriving DecidableEq, Repr

/-- `orcm_scd_base`, the allocations of the sessions, the pending events, and what was sent. -/
structure State where
  nodes : List (Option Node)
  running : List ℕ
  hold : List ℕ
  defaultQueue : List ℕ
  lastSession : ℕ
  alloc : ℕ → Alloc
  events : List Event
  tracking : List Tracker
  sent : List Message
  clusters : List (Cluster ProcName)
  erange : Bool
  intact : Bool

/-- `ORCM_ACTIVATE_SCD_STATE` and `ORCM_ACTIVATE_RM_STATE`. -/
def activate (e : Event) (st : State) : State := { st with events := st.events ++ [e] }

/-- An assignment through `session->alloc`. -/
def setAlloc (session : ℕ) (f : Alloc → Alloc) (st : State) : State :=
  { st with alloc := Function.update st.alloc session (f (st.alloc session)) }

/-! ## 2. The node table -/

/-- `nodes.size - nodes.number_free`. -/
def numNodes (nodes : List (Option Node)) : ℤ := nodes.countP Option.isSome

/-- A node that can be allocated. -/
def isFree (node : Node) : Bool := node.scdState == .unalloc && node.state == .up

/-- The count of free nodes in `pmf_schedule`. -/
def freeNodes (nodes : List (Option Node)) : ℕ := nodes.countP fun node => node.any isFree

/-- The nested loops of `pmf_allocated` and `pmf_terminated`: every node with one of the names. -/
def setScdState (value : ScdNodeState) : List Str → List (Option Node) → List (Option Node)
  | [], nodes => nodes
  | name :: names, nodes =>
    setScdState value names <| nodes.map <| Option.map fun node =>
      if node.name = name then { node with scdState := value } else node

/-- A change to the first node that meets a condition; the result says whether there is one. -/
def updateFirst (p : Node → Bool) (f : Node → Node) :
    List (Option Node) → Bool × List (Option Node)
  | [] => (false, [])
  | none :: nodes =>
    let (found, nodes) := updateFirst p f nodes
    (found, none :: nodes)
  | some node :: nodes =>
    if p node then (true, some (f node) :: nodes)
    else
      let (found, nodes) := updateFirst p f nodes
      (found, some node :: nodes)

/-- The scheduling state of a node that comes online: reset only if undefined or unknown. -/
def scdStateOnline (scdState : ScdNodeState) : ScdNodeState :=
  match scdState with
  | .undef => .unalloc
  | .unknown => .unalloc
  | other => other

/-- The body of `update_nodestate_byproc` and `update_nodestate_byname` on a node found.  `state`
is the state the message asks for, `newstate` the one stored: they differ for `RESUME`, which
therefore never resets the scheduling state. -/
def setNodeState (state newstate : NodeState) (node : Node) : Node :=
  { node with
    state := newstate
    scdState := if state = .up then scdStateOnline node.scdState else node.scdState }

/-- The loop over the names, the first matching node for each. -/
def updateEach {α : Type} (p : α → Node → Bool) (f : Node → Node) :
    List α → Bool × List (Option Node) → Bool × List (Option Node)
  | [], acc => acc
  | a :: as, (found, nodes) =>
    let (hit, nodes) := updateFirst (p a) f nodes
    updateEach p f as (found || hit, nodes)

/-- `update_nodestate_byproc`. -/
def updateNodestateByproc (state : NodeState) (nodelist : List ProcName)
    (nodes : List (Option Node)) : Rc × List (Option Node) :=
  let (found, nodes) := updateEach (fun name node => decide (node.daemon = name))
    (setNodeState state state) nodelist (false, nodes)
  (if found then .success else .errNotFound, nodes)

/-- `update_nodestate_byname`, with the extraction of the names done. -/
def updateNodestateByname (state : NodeState) (nodenames : List Str)
    (nodes : List (Option Node)) : Rc × List (Option Node) :=
  let newstate := if state = .resume then .up else state
  let (found, nodes) := updateEach (fun name node => decide (node.name = name))
    (setNodeState state newstate) nodenames (false, nodes)
  (if found then .success else .errNotFound, nodes)

/-! ## 3. The scheduler's handlers -/

/-- The note of a session that asks for too much. -/
def heldNote (notes : Option Str) : Str :=
  match notes with
  | some notes => notes ++ CString.ofString ", session request exceeds defined resources"
  | none => CString.ofString "session exceeds resources"

/-- `pmf_find_queue`. -/
def pmfFindQueue (session : ℕ) (st : State) : State :=
  if (st.alloc session).minNodes > numNodes st.nodes then
    activate .schedule <|
      setAlloc session (fun alloc =>
          { alloc with
            queues := some (CString.ofString "hold")
            notes := some (heldNote alloc.notes) })
        { st with hold := st.hold ++ [session] }
  else
    activate .schedule <|
      setAlloc session (fun alloc => { alloc with queues := some (CString.ofString "default") })
        { st with defaultQueue := st.defaultQueue ++ [session] }

/-- `pmf_schedule`: at most one session is taken off the queue. -/
def pmfSchedule (st : State) : State :=
  match st.defaultQueue with
  | [] => st
  | session :: sessions =>
    if (st.alloc session).minNodes ≤ freeNodes st.nodes then
      activate (.req session) { st with defaultQueue := sessions }
    else { st with defaultQueue := session :: sessions }

/-- The list `ERROR`. -/
def errorList : Str := CString.ofString "ERROR"

/-- The error exit of `pmf_allocated`.  `st` is the state before the session was appended to
`running`, with the events activated since. -/
def allocatedError (session : ℕ) (st : State) : State :=
  activate .schedule
    { st with
      running := (st.running ++ [session]).tail
      defaultQueue := session :: st.defaultQueue
      intact := st.running.isEmpty }

/-- `pmf_allocated`. -/
def pmfAllocated (session : ℕ) (st : State) : Option State :=
  let st := setAlloc session
    (fun alloc => { alloc with queues := some (CString.ofString "running") }) st
  match (st.alloc session).nodes with
  | none => none
  | some nodes =>
    if nodes = errorList then some (allocatedError session st)
    else
      -- activated before the list is looked at
      let st := activate (.active session) st
      (extractNodeNames (some nodes) st.erange).map fun
        | (.error _, erange) => allocatedError session { st with erange := erange }
        | (.ok nodenames, erange) =>
          if (nodenames.length : ℤ) ≠ (st.alloc session).minNodes then
            allocatedError session { st with erange := erange }
          else
            { st with
              running := st.running ++ [session]
              nodes := setScdState .alloc nodenames st.nodes
              erange := erange }

/-- The session has the id. -/
def hasId (id session : ℕ) : Bool := decide (sessionId session = id)

/-- `pmf_terminated`. -/
def pmfTerminated (alloc : Alloc) (st : State) : Option State :=
  (extractNodeNames alloc.nodes st.erange).map fun
    | (.error _, erange) => { st with erange := erange }
    | (.ok nodenames, erange) =>
      activate .schedule
        { st with
          running := st.running.filter fun session => !hasId alloc.id session
          nodes := setScdState .unalloc nodenames st.nodes
          erange := erange }

/-- `pmf_cancel` on the queue `running`: the first session with the id is to be killed. -/
def cancelRunning (id : ℕ) (st : State) : State :=
  match st.running.find? (hasId id) with
  | none => st
  | some session => activate (.kill session) st

/-- `pmf_cancel` on the queue `hold`: the first session with the id goes. -/
def cancelHold (id : ℕ) (st : State) : State :=
  if st.hold.any (hasId id) then
    activate .schedule { st with hold := st.hold.eraseP (hasId id) }
  else st

/-- `pmf_cancel` on the queue `default`. -/
def cancelDefault (id : ℕ) (st : State) : State :=
  if st.defaultQueue.any (hasId id) then
    activate .schedule { st with defaultQueue := st.defaultQueue.eraseP (hasId id) }
  else st

/-- `pmf_cancel`, queue by queue. -/
def pmfCancel (id : ℕ) (st : State) : State :=
  cancelDefault id (cancelHold id (cancelRunning id st))

/-! ## 4. The resource manager's handlers -/

/-- The two `asprintf` of `scd_base_rm_request`. -/
def addToList (nodelist : Option Str) (name : Str) : Str :=
  match nodelist with
  | some nodelist => nodelist ++ [comma] ++ name
  | none => name

/-- The loop of `scd_base_rm_request`: what is left of `num_nodes`, and the list. -/
def requestLoop : List (Option Node) → ℤ → Option Str → ℤ × Option Str
  | [], numNodes, nodelist => (numNodes, nodelist)
  | none :: nodes, numNodes, nodelist => requestLoop nodes numNodes nodelist
  | some node :: nodes, numNodes, nodelist =>
    if isFree node then
      if numNodes - 1 = 0 then (0, some (addToList nodelist node.name))
      else requestLoop nodes (numNodes - 1) (some (addToList nodelist node.name))
    else requestLoop nodes numNodes nodelist

/-- `scd_base_rm_request`.  A session that asks for no nodes is dropped; with too few free nodes
the list of the session stays what it was. -/
def rmRequest (session : ℕ) (st : State) : Option State :=
  let numNodes := (st.alloc session).minNodes
  if 0 < numNodes then
    let (numNodes, nodelist) := requestLoop st.nodes numNodes none
    if numNodes = 0 then
      (create (nodelist.getD []) st.erange).map fun (rc, noderegex, erange) =>
        let nodes := if rc = .success then noderegex else errorList
        activate (.allocd session) <|
          setAlloc session (fun alloc => { alloc with nodes := some nodes })
            { st with erange := erange }
    else some (activate (.allocd session) st)
  else some st

/-- One node of the table in the loops of `scd_base_rm_active` and `scd_base_rm_kill`: a node with
the name gets the message; the node of the first name is the session's head node at a launch. -/
def sendToNode (command : RmCommand) (session : ℕ) (index : ℕ) (name : Str) (st : State) :
    Option Node → State
  | none => st
  | some node =>
    if node.name = name then
      let st := if command = .launchStepd ∧ index = 0 then
        setAlloc session (fun alloc => { alloc with hnp := node.daemon }) st else st
      { st with sent := st.sent ++ [⟨command, st.alloc session, node.daemon⟩] }
    else st

/-- The loops themselves, for the indices from `index` on.  Reading behind the last name compares
a node's name with `NULL`. -/
def sendLoop (command : RmCommand) (session : ℕ) (nodenames : List Str) :
    ℕ → ℕ → State → Option State
  | 0, _, st => some st
  | count + 1, index, st =>
    match nodenames.drop index with
    | name :: _ =>
      sendLoop command session nodenames count (index + 1)
        (st.nodes.foldl (sendToNode command session index name) st)
    | [] =>
      if st.nodes.any Option.isSome then none
      else sendLoop command session nodenames count (index + 1) st

/-- `scd_base_rm_active`. -/
def rmActive (session : ℕ) (st : State) : Option State :=
  (extractNodeNames (st.alloc session).nodes st.erange).bind fun
    | (.error _, erange) => some { st with erange := erange }
    | (.ok [], erange) => some { st with erange := erange }
    | (.ok (hnpname :: nodenames), erange) =>
      sendLoop .launchStepd session (hnpname :: nodenames) (st.alloc session).minNodes.toNat 0 <|
        setAlloc session (fun alloc => { alloc with hnpname := some hnpname })
          { st with
            tracking := st.tracking ++ [⟨sessionId session, 0⟩]
            erange := erange }

/-- `scd_base_rm_kill`. -/
def rmKill (session : ℕ) (st : State) : Option State :=
  (extractNodeNames (st.alloc session).nodes st.erange).bind fun
    | (.error _, erange) => some { st with erange := erange }
    | (.ok [], erange) => some { st with erange := erange }
    | (.ok (nodename :: nodenames), erange) =>
      sendLoop .cancelStepd session (nodename :: nodenames) (st.alloc session).minNodes.toNat 0
        { st with erange := erange }

/-! ## 5. The messages -/

/-- `ORCM_SESSION_REQ_COMMAND`: a new session with the next id. -/
def recvSessionReq (alloc : Alloc) (st : State) : State :=
  let session := st.lastSession + 1
  activate (.init session)
    { st with
      lastSession := session
      alloc := Function.update st.alloc session { alloc with id := sessionId session } }

/-- `ORCM_NODE_STATE_DOWN`: the nodes below a controller, or the node itself. -/
def downNodes (node : ProcName) (clusters : List (Cluster ProcName)) : List ProcName :=
  match getDependents node clusters with
  | some (dependent :: dependents) => dependent :: dependents
  | _ => [node]

/-- `ORCM_NODE_STATE_DRAIN` and `ORCM_NODE_STATE_RESUME`. -/
def recvByname (state : NodeState) (regexp : Option Str) (st : State) : Option State :=
  (extractNodeNames regexp st.erange).map fun
    | (.error _, erange) => { st with erange := erange }
    | (.ok nodenames, erange) =>
      { st with
        nodes := (updateNodestateByname state nodenames st.nodes).2
        erange := erange }

/-- The search of `ORCM_STEPD_COMPLETE_COMMAND`: the first tracker of the allocation counts the
daemon, and goes when it was the last one. -/
def checkIn (alloc : Alloc) : List Tracker → Bool × List Tracker
  | [] => (false, [])
  | trk :: tracking =>
    if trk.allocId = alloc.id then
      if trk.countCheckedIn + 1 = alloc.minNodes then (true, tracking)
      else (false, { trk with countCheckedIn := trk.countCheckedIn + 1 } :: tracking)
    else
      let (last, tracking) := checkIn alloc tracking
      (last, trk :: tracking)

/-- `ORCM_STEPD_COMPLETE_COMMAND`. -/
def recvStepdComplete (alloc : Alloc) (st : State) : State :=
  match checkIn alloc st.tracking with
  | (true, tracking) => activate (.terminated alloc) { st with tracking := tracking }
  | (false, tracking) => { st with tracking := tracking }

/-! ## 6. The system -/

/-- What can happen next. -/
inductive Label where
  | sessionReq (alloc : Alloc)
  | sessionCancel (id : ℕ)
  | nodeUp (node : ProcName)
  | nodeDown (node : ProcName)
  | drain (regexp : Option Str)
  | resume (regexp : Option Str)
  | stepdComplete (alloc : Alloc)
  | errno (erange : Bool)
  | run (event : Event)

/-- The handler of an event. -/
def handle : Event → State → Option State
  | .init session, st => some (pmfFindQueue session st)
  | .schedule, st => some (pmfSchedule st)
  | .allocd session, st => pmfAllocated session st
  | .terminated alloc, st => pmfTerminated alloc st
  | .cancel id, st => some (pmfCancel id st)
  | .req session, st => rmRequest session st
  | .active session, st => rmActive session st
  | .kill session, st => rmKill session st

/-- What the scheduler does.  A pending event is taken off the list before its handler runs. -/
def react (st : State) : Label → Option State
  | .sessionReq alloc => some (recvSessionReq alloc st)
  | .sessionCancel id => some (activate (.cancel id) st)
  | .nodeUp node => some { st with nodes := (updateNodestateByproc .up [node] st.nodes).2 }
  | .nodeDown node =>
    some { st with
      nodes := (updateNodestateByproc .down (downNodes node st.clusters) st.nodes).2 }
  | .drain regexp => recvByname .drain regexp st
  | .resume regexp => recvByname .resume regexp st
  | .stepdComplete alloc =>
    if st.sent.any fun msg => msg.command == .launchStepd && msg.alloc == alloc then
      some (recvStepdComplete alloc st)
    else none
  | .errno erange => some { st with erange := erange }
  | .run event =>
    if event ∈ st.events then handle event { st with events := st.events.erase event } else none

/-- **One step of the scheduler.** -/
def step (st : State) (label : Label) : Option State := if st.intact then react st label else none

/-- The scheduler as it starts, on a node table of any content. -/
structure Initial (st : State) : Prop where
  running : st.running = []
  hold : st.hold = []
  defaultQueue : st.defaultQueue = []
  lastSession : st.lastSession = 0
  events : st.events = []
  tracking : st.tracking = []
  sent : st.sent = []
  intact : st.intact = true

/-- A node of which nothing is known yet.  The constructor of the source has the state `UNDEF` instead
of `UNKNOWN`; the scheduler only ever asks whether it is `UP`. -/
def newNode (name : Str) (daemon : ProcName) : Node := ⟨name, daemon, .unknown, .undef⟩

/-- An allocation as it is constructed, asking for nodes. -/
def newAlloc (minNodes : ℤ) : Alloc := ⟨0, minNodes, none, none, none, none, ⟨0, 0⟩⟩

/-- The scheduler as it starts on a list of nodes. -/
def start (nodes : List (Option Node)) : State :=
  { nodes := nodes
    running := []
    hold := []
    defaultQueue := []
    lastSession := 0
    alloc := fun _ => newAlloc 0
    events := []
    tracking := []
    sent := []
    clusters := []
    erange := false
    intact := true }

theorem initial_start (nodes : List (Option Node)) : Initial (start nodes) :=
  ⟨rfl, rfl, rfl, rfl, rfl, rfl, rfl, rfl⟩

end Sensys.Orcm.Scd
