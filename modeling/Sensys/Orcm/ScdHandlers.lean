/-
# What the scheduler's handlers do

One lemma per handler that can end in several ways, saying which ways there are and what the state
is after each (`pmfAllocated_cases`, `extracted_cases`, `rmRequest_cases`, `rmActive_cases`,
`rmKill_sends`), and the facts about the node table that the invariants use:
no handler renames a node, and how many nodes a message can set free.

`Quiet st st'` says that two states differ in bookkeeping only: head nodes, trackers, messages
and `errno`.

The last two sections turn this around.  `Handled` and `Messaged` say what a handler and a message
leave ALONE, with the few exceptions; an invariant that is about one of the exceptions only has to
look at the events named there, and all other steps are one case.
-/
import Sensys.Orcm.Scd
import Sensys.Orte.RegexRoundTrip

namespace Sensys.Orcm.Scd

open Orte List

/-! ## 1. Bookkeeping -/

/-- The two allocations ask for the same and name the same nodes.  What may differ is written by the
handlers as they go along: the name of the queue and the head node. -/
structure Alloc.Agrees (a b : Alloc) : Prop where
  id : b.id = a.id
  minNodes : b.minNodes = a.minNodes
  nodes : b.nodes = a.nodes

theorem Alloc.Agrees.refl (a : Alloc) : a.Agrees a := ⟨rfl, rfl, rfl⟩

theorem Alloc.Agrees.trans {a b c : Alloc} (h : a.Agrees b) (h' : b.Agrees c) : a.Agrees c :=
  ⟨h'.id.trans h.id, h'.minNodes.trans h.minNodes, h'.nodes.trans h.nodes⟩

/-- **The states differ in bookkeeping only.**  This is what the handlers do before they decide
anything, so that the cases below are stated from the state behind it on. -/
structure Quiet (st st' : State) : Prop where
  nodes : st'.nodes = st.nodes
  running : st'.running = st.running
  hold : st'.hold = st.hold
  defaultQueue : st'.defaultQueue = st.defaultQueue
  lastSession : st'.lastSession = st.lastSession
  events : st'.events = st.events
  intact : st'.intact = st.intact
  alloc : ∀ t, (st.alloc t).Agrees (st'.alloc t)

theorem Quiet.refl (st : State) : Quiet st st :=
  ⟨rfl, rfl, rfl, rfl, rfl, rfl, rfl, fun _ => .refl _⟩

variable {st st' st'' : State} {f : Alloc → Alloc} {session : ℕ} {event : Event}

theorem Quiet.trans (h : Quiet st st') (h' : Quiet st' st'') : Quiet st st'' :=
  ⟨h'.nodes.trans h.nodes, h'.running.trans h.running, h'.hold.trans h.hold,
    h'.defaultQueue.trans h.defaultQueue, h'.lastSession.trans h.lastSession,
    h'.events.trans h.events, h'.intact.trans h.intact, fun t => (h.alloc t).trans (h'.alloc t)⟩

/-- What the queues, the trackers and the messages have no part in is the same.  Weaker than `Quiet`:
a session may have moved from one queue to another, and events may have been activated. -/
structure Kept (st st' : State) : Prop where
  nodes : st'.nodes = st.nodes
  running : st'.running = st.running
  lastSession : st'.lastSession = st.lastSession
  intact : st'.intact = st.intact
  alloc : ∀ t, (st.alloc t).Agrees (st'.alloc t)

theorem Kept.refl (st : State) : Kept st st := ⟨rfl, rfl, rfl, rfl, fun _ => .refl _⟩

theorem Kept.of_alloc (hnodes : st'.nodes = st.nodes)
    (hrunning : st'.running = st.running) (hlast : st'.lastSession = st.lastSession)
    (hintact : st'.intact = st.intact) (halloc : st'.alloc = st.alloc) : Kept st st' :=
  ⟨hnodes, hrunning, hlast, hintact, fun _ => halloc ▸ .refl _⟩

theorem Quiet.kept (h : Quiet st st') : Kept st st' :=
  ⟨h.nodes, h.running, h.lastSession, h.intact, h.alloc⟩

/-- An allocation is a pointer: what is set for one session is set for no other. -/
theorem setAlloc_cases (session : ℕ) (f : Alloc → Alloc) (st : State) (t : ℕ) :
    (t = session ∧ (setAlloc session f st).alloc t = f (st.alloc t)) ∨
      (t ≠ session ∧ (setAlloc session f st).alloc t = st.alloc t) := by
  by_cases ht : t = session
  · subst ht
    exact .inl ⟨rfl, Function.update_self ..⟩
  · exact .inr ⟨ht, Function.update_of_ne ht ..⟩

theorem setAlloc_agrees (hf : ∀ a : Alloc, a.Agrees (f a)) (session : ℕ)
    (st : State) (t : ℕ) : (st.alloc t).Agrees ((setAlloc session f st).alloc t) := by
  rcases setAlloc_cases session f st t with ⟨-, heq⟩ | ⟨-, heq⟩ <;> rw [heq]
  · exact hf _
  · exact .refl _

/-- A session is put on a queue, which is noted in its allocation, and `SCHEDULE` is activated. -/
theorem Kept.queued (hnodes : st'.nodes = st.nodes)
    (hrunning : st'.running = st.running) (hlast : st'.lastSession = st.lastSession)
    (hintact : st'.intact = st.intact) (halloc : st'.alloc = st.alloc)
    (hf : ∀ a : Alloc, a.Agrees (f a)) : Kept st (activate .schedule (setAlloc session f st')) :=
  ⟨hnodes, hrunning, hlast, hintact, fun t => halloc ▸ setAlloc_agrees hf session st' t⟩

theorem setAlloc_quiet (hf : ∀ a : Alloc, a.Agrees (f a)) (session : ℕ)
    (st : State) : Quiet st (setAlloc session f st) :=
  ⟨rfl, rfl, rfl, rfl, rfl, rfl, rfl, setAlloc_agrees hf session st⟩

/-- The messages that were sent on the way from one state to another carry the session's
allocation.  They carry it as it is at that moment, head node included, which changes on the way;
`Agrees` is what all of them have in common. -/
structure Sends (command : RmCommand) (session : ℕ) (st st' : State) : Prop where
  quiet : Quiet st st'
  tracking : st'.tracking = st.tracking
  sent : ∀ msg ∈ st'.sent, msg ∈ st.sent ∨
    (msg.command = command ∧ (st.alloc session).Agrees msg.alloc)

variable (command : RmCommand)

theorem Sends.refl (session st) : Sends command session st st :=
  ⟨.refl st, rfl, fun _ h => .inl h⟩

theorem Sends.trans {command : RmCommand}
    (h : Sends command session st st') (h' : Sends command session st' st'') :
    Sends command session st st'' := by
  refine ⟨h.quiet.trans h'.quiet, h'.tracking.trans h.tracking, ?_⟩
  intro msg hmsg
  rcases h'.sent msg hmsg with hold | ⟨hcmd, hag⟩
  · exact h.sent msg hold
  · exact .inr ⟨hcmd, (h.quiet.alloc session).trans hag⟩

/-- One node: nothing is sent to one of another name.  The first name of a launch also sets the head
node, before the message is packed. -/
theorem sendToNode_sends (session index : ℕ) (name : Str) (st : State) (node : Option Node) :
    Sends command session st (sendToNode command session index name st node) := by
  cases node with
  | none => exact .refl _ _ _
  | some node =>
    rw [sendToNode]
    split
    · have hhead : Sends command session st
          (if command = .launchStepd ∧ index = 0 then
            setAlloc session (fun alloc => { alloc with hnp := node.daemon }) st else st) := by
        split
        · exact ⟨setAlloc_quiet (by exact fun _ => ⟨rfl, rfl, rfl⟩) session st, rfl,
            fun _ h => .inl h⟩
        · exact .refl _ _ _
      -- the message itself is packed from the state behind that
      refine hhead.trans ⟨⟨rfl, rfl, rfl, rfl, rfl, rfl, rfl, fun _ => .refl _⟩, rfl, ?_⟩
      intro msg hmsg
      rcases mem_append.mp hmsg with hold | hnew
      · exact .inl hold
      · rw [List.mem_singleton] at hnew
        subst hnew
        exact .inr ⟨rfl, .refl _⟩
    · exact .refl _ _ _

theorem sendToNodes_sends (session index : ℕ) (name : Str) (nodes : List (Option Node))
    (st : State) :
    Sends command session st (nodes.foldl (sendToNode command session index name) st) := by
  induction nodes generalizing st with
  | nil => exact .refl _ _ _
  | cons node nodes ih => exact (sendToNode_sends command session index name st node).trans (ih _)

/-- **The loops of `scd_base_rm_active` and `scd_base_rm_kill` only send.**  Induction on the number
of names that are left; for each of them the whole table is walked. -/
theorem sendLoop_sends {command nodenames count index}
    (h : sendLoop command session nodenames count index st = some st') :
    Sends command session st st' := by
  induction count generalizing index st with
  | zero =>
    cases h
    exact .refl _ _ _
  | succ count ih =>
    rw [sendLoop] at h
    split at h
    · exact (sendToNodes_sends command session index _ _ st).trans (ih h)
    · split at h
      · cases h
      · exact ih h

/-! ## 2. The handlers

A step is a label that the state can react to; `run` takes its event out of the list first, so that
the handlers below run on a state without the event they handle. -/

theorem react_of_step {label} (h : step st label = some st') : react st label = some st' := by
  rw [step] at h
  split at h
  · exact h
  · cases h

theorem intact_of_step {label} (h : step st label = some st') : st.intact = true := by
  rw [step] at h
  split at h
  · assumption
  · cases h

theorem react_run (h : react st (.run event) = some st') :
    event ∈ st.events ∧ handle event { st with events := st.events.erase event } = some st' := by
  rw [react] at h
  split at h
  · rename_i hmem
    exact ⟨hmem, h⟩
  · cases h

/-- The last step daemon that checks in activates `TERMINATED`, with the allocation of ITS message. -/
theorem recvStepdComplete_eq (alloc st) : recvStepdComplete alloc st = { st with
        tracking := (checkIn alloc st.tracking).2
        events := st.events ++
          if (checkIn alloc st.tracking).1 then [.terminated alloc] else [] } := by
  rw [recvStepdComplete]
  split <;> simp [activate, *]

theorem react_stepdComplete {alloc} (h : react st (.stepdComplete alloc) = some st') :
    (∃ msg ∈ st.sent, msg.command = .launchStepd ∧ msg.alloc = alloc) ∧
      st' = recvStepdComplete alloc st := by
  rw [react] at h
  split at h
  · rename_i hsent
    cases h
    exact ⟨by simpa using hsent, rfl⟩
  · cases h

/-- `pmf_allocated` takes its error exit: for the list `ERROR`, for one that cannot be extracted, and
for one with another number of names than were asked for.  It is a predicate on the state before, so
that conditions on runs can use it. -/
def takesError (session : ℕ) (st : State) : Bool :=
  match (st.alloc session).nodes with
  | none => false
  | some nodes =>
    decide (nodes = errorList) ||
      match extractNodeNames (some nodes) st.erange with
      | some (.ok nodenames, _) => decide ((nodenames.length : ℤ) ≠ (st.alloc session).minNodes)
      | some (.error _, _) => true
      | none => false

/-- **The ways `pmf_allocated` ends**: on its error exit, without or with an `ACTIVE` event
activated before; or with the nodes of the list set to `ALLOC`.

The `ACTIVE` event is activated before the list is extracted, and the error exit does not take it
back.  So after an error that is not the list `ERROR` itself the session is queued again AND about to
be launched; this is the second case. -/
theorem pmfAllocated_cases (h : pmfAllocated session st = some st') :
    ∃ nodes, (st.alloc session).nodes = some nodes ∧
      ((nodes = errorList ∧ takesError session st = true ∧
          ∃ st₁, Quiet st st₁ ∧ st₁.tracking = st.tracking ∧ st₁.sent = st.sent ∧
            st' = allocatedError session st₁) ∨ (nodes ≠ errorList ∧ takesError session st = true ∧
          ∃ st₁, Quiet st st₁ ∧ st₁.tracking = st.tracking ∧ st₁.sent = st.sent ∧
            st' = allocatedError session (activate (.active session) st₁)) ∨
        (nodes ≠ errorList ∧ takesError session st = false ∧
          ∃ st₁ nodenames erange, Quiet st st₁ ∧ st₁.tracking = st.tracking ∧ st₁.sent = st.sent ∧
            extractNodeNames (some nodes) st.erange = some (.ok nodenames, erange) ∧
            (nodenames.length : ℤ) = (st.alloc session).minNodes ∧ st' = activate (.active session)
              { st₁ with
                running := st.running ++ [session]
                nodes := setScdState .alloc nodenames st.nodes })) := by
  set st₁ := setAlloc session
    (fun alloc => { alloc with queues := some (CString.ofString "running") }) st with hst₁
  have hq : Quiet st st₁ := setAlloc_quiet (by exact fun _ => ⟨rfl, rfl, rfl⟩) session st
  have hnodes := (hq.alloc session).nodes
  have hmin := (hq.alloc session).minNodes
  rw [pmfAllocated] at h
  simp only [← hst₁, hnodes] at h
  cases hl : (st.alloc session).nodes with
  | none => simp [hl] at h
  | some nodes =>
    refine ⟨nodes, rfl, ?_⟩
    simp only [hl] at h
    -- the list `ERROR` is the only one that is looked at before the event is activated
    by_cases herr : nodes = errorList
    · rw [if_pos herr] at h
      cases h
      exact .inl ⟨herr, by simp [takesError, hl, herr], st₁, hq, rfl, rfl, rfl⟩
    · rw [if_neg herr] at h
      obtain ⟨⟨res, erange⟩, hext, hst'⟩ := Option.map_eq_some_iff.mp h
      have hext' : extractNodeNames (some nodes) st.erange = some (res, erange) := hext
      have herange : Quiet st { st₁ with erange := erange } := hq.trans
        ⟨rfl, rfl, rfl, rfl, rfl, rfl, rfl, fun _ => .refl _⟩
      right
      cases res with
      | error rc =>
        subst hst'
        exact .inl ⟨herr, by simp [takesError, hl, hext'], _, herange, rfl, rfl, rfl⟩
      | ok nodenames =>
        have hm : ((activate (.active session) st₁).alloc session).minNodes
            = (st.alloc session).minNodes := hmin
        simp only [hm] at hst'
        by_cases hlen : (nodenames.length : ℤ) = (st.alloc session).minNodes
        · rw [if_neg (not_not.mpr hlen)] at hst'
          subst hst'
          exact .inr ⟨herr, by simp [takesError, hl, hext', herr, hlen], _, nodenames, erange,
            herange, rfl, rfl, hext', hlen, rfl⟩
        · rw [if_pos hlen] at hst'
          subst hst'
          exact .inl ⟨herr, by simp [takesError, hl, hext', hlen], _, herange, rfl, rfl, rfl⟩

/-- `pmf_allocated` returns when there is a list and its extraction returns.  Without a list it reads
through a `NULL` pointer. -/
theorem pmfAllocated_returns (session : ℕ) (st : State) {nodes}
    (hlist : (st.alloc session).nodes = some nodes)
    (hext : (extractNodeNames (some nodes) st.erange).isSome = true) :
    ∃ st', pmfAllocated session st = some st' := by
  obtain ⟨r, hr⟩ := Option.isSome_iff_exists.mp hext
  rw [pmfAllocated]
  simp only [setAlloc, Function.update_self, hlist]
  split
  · exact ⟨_, rfl⟩
  · simp only [activate, hr, Option.map_some]
    exact ⟨_, rfl⟩

/-- **A handler that extracts a list**: an error changes `errno` only.  `pmf_terminated` and the
messages that name nodes have this shape. -/
theorem extracted_cases {regexp} {f : List Str → Bool → State}
    (h : (extractNodeNames regexp st.erange).map (fun
      | (.error _, erange) => { st with erange := erange }
      | (.ok nodenames, erange) => f nodenames erange) = some st') :
    (∃ rc erange, extractNodeNames regexp st.erange = some (.error rc, erange) ∧
      st' = { st with erange := erange }) ∨
    ∃ nodenames erange, extractNodeNames regexp st.erange = some (.ok nodenames, erange) ∧
      st' = f nodenames erange := by
  obtain ⟨⟨res, erange⟩, hext, hst'⟩ := Option.map_eq_some_iff.mp h
  cases res with
  | error rc => exact .inl ⟨rc, erange, hext, hst'.symm⟩
  | ok nodenames => exact .inr ⟨nodenames, erange, hext, hst'.symm⟩

/-- `scd_base_rm_kill` sends to the step daemons and changes nothing else: the session stays on its
queue until they have all answered. -/
theorem rmKill_sends (h : rmKill session st = some st') : Sends .cancelStepd session st st' := by
  obtain ⟨⟨res, erange⟩, -, hrun⟩ := Option.bind_eq_some_iff.mp h
  have hset : Sends .cancelStepd session st { st with erange := erange } :=
    ⟨⟨rfl, rfl, rfl, rfl, rfl, rfl, rfl, fun _ => .refl _⟩, rfl, fun _ h => .inl h⟩
  rcases res with rc | (_ | ⟨name, names⟩)
  iterate 2
    cases hrun
    exact hset
  · exact hset.trans (sendLoop_sends hrun)

/-- **The ways `scd_base_rm_active` ends**: without a trace, or with a tracker and launch messages
that carry the session's allocation.  The tracker comes first; it counts the daemons that have
answered and is found again by the id of the session, truncated to what the message has room for. -/
theorem rmActive_cases (h : rmActive session st = some st') : Quiet st st' ∧
      ((st'.tracking = st.tracking ∧ st'.sent = st.sent) ∨
        (st'.tracking = st.tracking ++ [⟨sessionId session, 0⟩] ∧
          ∀ msg ∈ st'.sent, msg ∈ st.sent ∨ (st.alloc session).Agrees msg.alloc)) := by
  obtain ⟨⟨res, erange⟩, -, hrun⟩ := Option.bind_eq_some_iff.mp h
  rcases res with rc | (_ | ⟨name, names⟩)
  iterate 2
    cases hrun
    exact ⟨⟨rfl, rfl, rfl, rfl, rfl, rfl, rfl, fun _ => .refl _⟩, .inl ⟨rfl, rfl⟩⟩
  · have htrk : Quiet st
        { st with tracking := st.tracking ++ [⟨sessionId session, 0⟩], erange := erange } :=
      ⟨rfl, rfl, rfl, rfl, rfl, rfl, rfl, fun _ => .refl _⟩
    have hset := htrk.trans (setAlloc_quiet
      (f := fun alloc => { alloc with hnpname := some name }) (fun _ => ⟨rfl, rfl, rfl⟩) session _)
    have hloop := sendLoop_sends hrun
    refine ⟨hset.trans hloop.quiet, .inr ⟨hloop.tracking, ?_⟩⟩
    intro msg hmsg
    rcases hloop.sent msg hmsg with hold | ⟨-, hag⟩
    · exact .inl hold
    · exact .inr ((hset.alloc session).trans hag)

/-! ## 3. Picking nodes -/

/-- The names of the free nodes, in table order. -/
def freeNames (nodes : List (Option Node)) : List Str :=
  nodes.filterMap fun node => node.bind fun node => if isFree node then some node.name else none

variable (nodes : List (Option Node))

theorem length_freeNames : (freeNames nodes).length = freeNodes nodes := by
  rw [freeNames, freeNodes, length_filterMap_eq_countP]
  refine countP_congr fun node _ => ?_
  cases node <;> simp

/-- The node list under construction: `NULL` before the first name, then the names with commas between
them.  The loop builds it from left to right, `nodeList` from right to left. -/
def listOf (picked : List Str) : Option Str := if picked = [] then none else some (nodeList picked)

theorem nodeList_append_singleton {picked} (hne : picked ≠ []) (name : Str) :
    nodeList (picked ++ [name]) = nodeList picked ++ [comma] ++ name := by
  induction picked with
  | nil => exact absurd rfl hne
  | cons x picked ih =>
    cases picked with
    | nil => simp [nodeList, List.intercalate]
    | cons y picked =>
      have hrest := ih (by simp)
      simp only [nodeList, cons_append, intercalate_cons_cons] at hrest ⊢
      rw [hrest]
      simp

theorem addToList_listOf (picked : List Str) (name : Str) :
    some (addToList (listOf picked) name) = listOf (picked ++ [name]) := by
  by_cases hne : picked = []
  · subst hne
    simp [addToList, listOf, nodeList, List.intercalate]
  · simp [addToList, listOf, hne, nodeList_append_singleton hne]

/-- **The loop of `scd_base_rm_request`** picks the first free nodes, if there are enough.  Induction
over the table, with what has been picked so far and the number still to pick.  The loop counts down
and is left at zero, so what it returns tells the two cases apart. -/
theorem requestLoop_eq (k : ℕ) (picked : List Str) :
    (k + 1 ≤ (freeNames nodes).length → requestLoop nodes (k + 1 : ℕ) (listOf picked)
        = (0, listOf (picked ++ (freeNames nodes).take (k + 1)))) ∧
    ((freeNames nodes).length < k + 1 → (requestLoop nodes (k + 1 : ℕ) (listOf picked)).1 ≠ 0) := by
  induction nodes generalizing k picked with
  | nil =>
    constructor
    · intro h
      simp [freeNames] at h
    · intro _
      rw [requestLoop]
      omega
  | cons node nodes ih =>
    rcases node with _ | node
    · exact ih k picked
    · by_cases hfree : isFree node = true
      · have hnames : freeNames (some node :: nodes) = node.name :: freeNames nodes := by
          simp [freeNames, hfree]
        have hone : ((k + 1 : ℕ) : ℤ) - 1 = k := by omega
        simp only [requestLoop, if_pos hfree, hnames, hone, addToList_listOf, length_cons]
        cases k with
        | zero => simp
        | succ k =>
          have hrest := ih k (picked ++ [node.name])
          rw [List.append_assoc, singleton_append] at hrest
          exact ⟨fun h => hrest.1 (by omega), fun h => hrest.2 (by omega)⟩
      · have hnames : freeNames (some node :: nodes) = freeNames nodes := by
          simp [freeNames, hfree]
        simp only [requestLoop, if_neg hfree, hnames]
        exact ih k picked

/-- The names `scd_base_rm_request` picks for a session. -/
def picked (session : ℕ) (st : State) : List Str :=
  (freeNames st.nodes).take (st.alloc session).minNodes.toNat

/-- **The ways `scd_base_rm_request` ends**: the session is dropped; or it gets the expression of
the picked names; or, with too few free nodes, it keeps the list it had.  `ALLOCD` is activated in
both of the last two.  The nodes are not marked in any of them: that is left to `pmf_allocated`. -/
theorem rmRequest_cases (h : rmRequest session st = some st') :
    ((st.alloc session).minNodes ≤ 0 ∧ st' = st) ∨
    (0 < (st.alloc session).minNodes ∧ (st.alloc session).minNodes ≤ freeNodes st.nodes ∧
      ∃ rc noderegex erange,
        create (nodeList (picked session st)) st.erange = some (rc, noderegex, erange) ∧
        st' = activate (.allocd session) (setAlloc session (fun alloc => { alloc with
              nodes := some (if rc = .success then noderegex else errorList) })
            { st with erange := erange })) ∨
    (0 < (st.alloc session).minNodes ∧ ¬ (st.alloc session).minNodes ≤ freeNodes st.nodes ∧
      st' = activate (.allocd session) st) := by
  rw [rmRequest] at h
  by_cases hpos : 0 < (st.alloc session).minNodes
  · right
    obtain ⟨k, hk⟩ : ∃ k : ℕ, (st.alloc session).minNodes = (k + 1 : ℕ) :=
      ⟨(st.alloc session).minNodes.toNat - 1, by omega⟩
    have hloop := requestLoop_eq st.nodes k []
    rw [nil_append, length_freeNames, show listOf [] = none from rfl] at hloop
    have hpick : picked session st = (freeNames st.nodes).take (k + 1) := by
      rw [picked, hk, Int.toNat_natCast]
    simp only [hk] at h ⊢
    rw [if_pos (by omega)] at h
    by_cases henough : k + 1 ≤ freeNodes st.nodes
    · left
      rw [hloop.1 henough] at h
      have hlist : (listOf ((freeNames st.nodes).take (k + 1))).getD []
          = nodeList (picked session st) := by
        have hne : (freeNames st.nodes).take (k + 1) ≠ [] := by
          intro hnil
          have := congrArg List.length hnil
          rw [length_take, length_freeNames, length_nil] at this
          omega
        rw [listOf, if_neg hne, hpick, Option.getD_some]
      simp only [if_true, hlist] at h
      obtain ⟨⟨rc, noderegex, erange⟩, hcreate, hst'⟩ := Option.map_eq_some_iff.mp h
      exact ⟨by omega, by exact_mod_cast henough, rc, noderegex, erange, hcreate, hst'.symm⟩
    · right
      have hleft := hloop.2 (by omega)
      simp only [if_neg hleft, Option.some.injEq] at h
      exact ⟨by omega, by exact_mod_cast henough, h.symm⟩
  · left
    rw [if_neg hpos] at h
    exact ⟨by omega, (Option.some.inj h).symm⟩

/-! ## 4. The node table -/

/-- The names in the table, in table order. -/
def nodeNames (nodes : List (Option Node)) : List Str :=
  nodes.filterMap fun node => node.map Node.name

theorem mem_nodeNames {nodes name} :
    name ∈ nodeNames nodes ↔ ∃ node, some node ∈ nodes ∧ node.name = name := by
  simp [nodeNames]

/-- So distinct names in the table are distinct names of free nodes. -/
theorem freeNames_sublist : (freeNames nodes).Sublist (nodeNames nodes) := by
  have hfree : freeNames nodes = nodeNames (nodes.filter (·.any isFree)) := by
    rw [nodeNames, filterMap_filter]
    refine filterMap_congr fun node _ => ?_
    cases node <;> simp
  rw [hfree]
  exact filter_sublist.filterMap _

/-- The loop over the names is one pass over the table: every node of such a name is set, not only the
first one. -/
theorem setScdState_eq (value names nodes) :
    setScdState value names nodes = nodes.map (Option.map fun node =>
      if node.name ∈ names then { node with scdState := value } else node) := by
  induction names generalizing nodes with
  | nil => simp [setScdState]
  | cons name names ih =>
    rw [setScdState, ih, map_map]
    refine map_congr_left fun node _ => ?_
    cases node with
    | none => rfl
    | some node =>
      by_cases h : node.name = name
      · simp [h]
      · by_cases h' : node.name ∈ names <;> simp [h, h']

theorem nodeNames_setScdState (value : ScdNodeState) (names : List Str)
    (nodes : List (Option Node)) : nodeNames (setScdState value names nodes) = nodeNames nodes := by
  rw [setScdState_eq, nodeNames, filterMap_map]
  refine filterMap_congr fun node _ => ?_
  cases node with
  | none => rfl
  | some node => by_cases h : node.name ∈ names <;> simp [h]

/-- **One change**: the table stays as it is, or one of its nodes is changed.  A message about a node
stops at the first node of the name. -/
theorem updateFirst_cases (p f nodes) :
    (updateFirst p f nodes).2 = nodes ∨ ∃ before node after, nodes = before ++ some node :: after ∧
      (updateFirst p f nodes).2 = before ++ some (f node) :: after := by
  induction nodes with
  | nil => exact .inl rfl
  | cons head nodes ih =>
    have hhead : (updateFirst p f (head :: nodes)).2 = head :: (updateFirst p f nodes).2 ∨
        ∃ node, head = some node ∧ (updateFirst p f (head :: nodes)).2 = some (f node) :: nodes := by
      rcases head with _ | node
      · exact .inl rfl
      · rw [updateFirst]
        split
        · exact .inr ⟨node, rfl, rfl⟩
        · exact .inl rfl
    rcases hhead with heq | ⟨node, rfl, heq⟩
    · rw [heq]
      rcases ih with hsame | ⟨before, node, after, hnodes, hchanged⟩
      · exact .inl (by rw [hsame])
      · exact .inr ⟨head :: before, node, after, congrArg _ hnodes, congrArg _ hchanged⟩
    · exact .inr ⟨[], node, nodes, rfl, heq⟩

/-- What every change of one node keeps is kept by the loop over the names: the induction of the
messages about nodes, for any reflexive and transitive relation of tables. -/
theorem updateEach_rel {α : Type} {p f} {R : List (Option Node) → List (Option Node) → Prop}
    (hrefl : ∀ nodes, R nodes nodes) (htrans : ∀ {a b c}, R a b → R b c → R a c)
    (hone : ∀ a nodes, R nodes (updateFirst (p a) f nodes).2) (as : List α)
    (acc : Bool × List (Option Node)) : R acc.2 (updateEach p f as acc).2 := by
  induction as generalizing acc with
  | nil => exact hrefl acc.2
  | cons a as ih =>
    exact htrans (hone a acc.2) (ih (acc.1 || (updateFirst (p a) f acc.2).1, _))

/-- One change frees at most one node, and none if the changed node is not free. -/
theorem freeNodes_updateFirst {f} (p : Node → Bool) (nodes : List (Option Node)) :
    freeNodes (updateFirst p f nodes).2 ≤ freeNodes nodes + 1 ∧ ((∀ node, isFree (f node) = false) →
        freeNodes (updateFirst p f nodes).2 ≤ freeNodes nodes) := by
  rcases updateFirst_cases p f nodes with heq | ⟨before, node, after, rfl, heq⟩
  · rw [heq]
    exact ⟨Nat.le_succ _, fun _ => le_rfl⟩
  · simp only [heq, freeNodes, countP_append, countP_cons, Option.any_some]
    constructor
    · split <;> split <;> omega
    · intro hf
      simp [hf node]

/-- A message about `k` names frees at most `k` nodes. -/
theorem freeNodes_updateEach {α : Type} {f} (p : α → Node → Bool) (as : List α)
    (acc : Bool × List (Option Node)) :
    freeNodes (updateEach p f as acc).2 ≤ freeNodes acc.2 + as.length ∧
      ((∀ node, isFree (f node) = false) →
        freeNodes (updateEach p f as acc).2 ≤ freeNodes acc.2) := by
  induction as generalizing acc with
  | nil => simp [updateEach]
  | cons a as ih =>
    obtain ⟨hone, hnone⟩ := freeNodes_updateFirst (f := f) (p a) acc.2
    obtain ⟨hrest, hkeep⟩ :=
      ih (acc.1 || (updateFirst (p a) f acc.2).1, (updateFirst (p a) f acc.2).2)
    refine ⟨?_, fun hf => (hkeep hf).trans (hnone hf)⟩
    calc freeNodes (updateEach p f (a :: as) acc).2
        ≤ freeNodes (updateFirst (p a) f acc.2).2 + as.length := hrest
      _ ≤ freeNodes acc.2 + 1 + as.length := Nat.add_le_add_right hone _
      _ = freeNodes acc.2 + (a :: as).length := by rw [length_cons]; omega

/-- No node stops being `ALLOC` or `UNALLOC`.  A node that comes up is set to `UNALLOC` only if it was
`UNDEF` or `UNKNOWN`, so that one that went down and comes up again keeps its session. -/
def ScdKept (nodes nodes' : List (Option Node)) : Prop :=
  ∀ node', some node' ∈ nodes' → ∃ node, some node ∈ nodes ∧ node'.name = node.name ∧
    (node.scdState = .alloc → node'.scdState = .alloc) ∧
    (node.scdState = .unalloc → node'.scdState = .unalloc)

theorem ScdKept.refl : ScdKept nodes nodes :=
  fun node' h => ⟨node', h, rfl, id, id⟩

theorem ScdKept.trans {nodes nodes' nodes''} (h : ScdKept nodes nodes')
    (h' : ScdKept nodes' nodes'') : ScdKept nodes nodes'' := by
  intro node'' hmem
  obtain ⟨node', hmem', hname', halloc', hunalloc'⟩ := h' node'' hmem
  obtain ⟨node, hmem, hname, halloc, hunalloc⟩ := h node' hmem'
  exact ⟨node, hmem, hname'.trans hname, halloc' ∘ halloc, hunalloc' ∘ hunalloc⟩

/-- **A message about nodes** renames none, and none stops being `ALLOC` or `UNALLOC`. -/
theorem updateEach_keeps {α : Type} (state newstate : NodeState) (p : α → Node → Bool)
    (as : List α) (nodes : List (Option Node)) :
    nodeNames (updateEach p (setNodeState state newstate) as (false, nodes)).2 = nodeNames nodes ∧
      ScdKept nodes (updateEach p (setNodeState state newstate) as (false, nodes)).2 := by
  refine updateEach_rel
    (R := fun nodes nodes' => nodeNames nodes' = nodeNames nodes ∧ ScdKept nodes nodes')
    (fun nodes => ⟨rfl, .refl nodes⟩) (fun h h' => ⟨h'.1.trans h.1, h.2.trans h'.2⟩)
    (fun a nodes => ?_) as (false, nodes)
  rcases updateFirst_cases (p a) (setNodeState state newstate) nodes with
    heq | ⟨before, node, after, rfl, heq⟩
  · rw [heq]
    exact ⟨rfl, .refl nodes⟩
  · rw [heq]
    refine ⟨by simp [nodeNames, setNodeState], fun node' hmem => ?_⟩
    have hchanged : node' = setNodeState state newstate node ∨
        some node' ∈ before ++ some node :: after := by
      simp only [mem_append, mem_cons, Option.some.injEq] at hmem ⊢
      tauto
    rcases hchanged with rfl | hold
    · refine ⟨node, by simp, rfl, ?_, ?_⟩ <;>
      · intro hstate
        simp only [setNodeState, hstate, scdStateOnline, ite_self]
    · exact ⟨node', hold, rfl, id, id⟩

/-! ## 5. What a handler leaves alone -/

variable {st st' : State}

/-- **Which event activates which.**  `schedule` picks a session from the default queue; `requeue` is
the error exit of `pmf_allocated`. -/
inductive Follows : Event → Event → Prop
  | init (session : ℕ) : Follows (.init session) .schedule
  | schedule (session : ℕ) : Follows .schedule (.req session)
  | req (session : ℕ) : Follows (.req session) (.allocd session)
  | active (session : ℕ) : Follows (.allocd session) (.active session)
  | requeue (session : ℕ) : Follows (.allocd session) .schedule
  | terminated (alloc : Alloc) : Follows (.terminated alloc) .schedule
  | kill (id session : ℕ) : Follows (.cancel id) (.kill session)
  | cancel (id : ℕ) : Follows (.cancel id) .schedule

/-- The events of `st'` are those of `st` and new ones that follow `event`. -/
def Adds (event : Event) (st st' : State) : Prop :=
  ∃ new, st'.events = st.events ++ new ∧ ∀ e ∈ new, Follows event e

theorem Adds.none (h : st'.events = st.events) : Adds event st st' :=
  ⟨[], by rw [h, List.append_nil], by simp⟩

theorem Adds.one {e} (h : st'.events = st.events ++ [e]) (he : Follows event e) :
    Adds event st st' :=
  ⟨[e], h, by simpa using he⟩

theorem Adds.trans (h : Adds event st st') (h' : Adds event st' st'') : Adds event st st'' := by
  obtain ⟨new, hnew, hf⟩ := h
  obtain ⟨new', hnew', hf'⟩ := h'
  refine ⟨new ++ new', by rw [hnew', hnew, List.append_assoc], ?_⟩
  intro e he
  rcases mem_append.mp he with he | he
  · exact hf e he
  · exact hf' e he

/-- **`pmf_cancel` at once.**  It looks on all three queues and does not stop at the first find; a
running session is not removed, only told to end. -/
theorem pmfCancel_eq (id st) : pmfCancel id st = { st with
      hold := st.hold.eraseP (hasId id)
      defaultQueue := st.defaultQueue.eraseP (hasId id)
      events := st.events ++ ((st.running.find? (hasId id)).map Event.kill).toList ++
        (if st.hold.any (hasId id) then [.schedule] else []) ++
        if st.defaultQueue.any (hasId id) then [.schedule] else [] } := by
  have hstays : ∀ {queue : List ℕ}, ¬ queue.any (hasId id) = true →
      queue.eraseP (hasId id) = queue := fun h => eraseP_of_forall_not (by simpa using h)
  have hrunning : cancelRunning id st = { st with
      events := st.events ++ ((st.running.find? (hasId id)).map Event.kill).toList } := by
    rw [cancelRunning]
    split <;> simp [activate, *]
  have hhold : ∀ st, cancelHold id st = { st with
      hold := st.hold.eraseP (hasId id)
      events := st.events ++ if st.hold.any (hasId id) then [.schedule] else [] } := by
    intro st
    rw [cancelHold]
    split
    · rfl
    · rw [hstays ‹_›, List.append_nil]
  rw [pmfCancel, hrunning, hhold, cancelDefault]
  by_cases hany : st.defaultQueue.any (hasId id) = true
  · simp only [hany, if_true, activate]
  · simp only [hany, hstays hany, Bool.false_eq_true, if_false, List.append_nil]

theorem pmfCancel_adds (id : ℕ) (st : State) : Adds (.cancel id) st (pmfCancel id st) := by
  rw [pmfCancel_eq]
  refine ⟨_, (List.append_assoc ..).trans (List.append_assoc ..), fun e he => ?_⟩
  rcases mem_append.mp he with he | he
  · obtain ⟨session, -, rfl⟩ := Option.map_eq_some_iff.mp (Option.mem_toList.mp he)
    exact .kill id session
  rcases mem_append.mp he with he | he
  all_goals
    split at he
    · exact List.mem_singleton.mp he ▸ .cancel id
    · cases he

/-- **What a handler does not do**, with the exceptions: only `ALLOCD` on its error exit can damage the
queues, only `REQ` writes a list of nodes, only `ALLOCD` and `TERMINATED` touch the running sessions
and the states of nodes, and only `ACTIVE` launches. -/
structure Handled (event : Event) (st st' : State) : Prop where
  lastSession : st'.lastSession = st.lastSession
  intact : st'.intact = st.intact ∨ ∃ session, event = .allocd session ∧
    takesError session st = true ∧ st'.intact = st.running.isEmpty
  adds : Adds event st st'
  id : ∀ t, (st'.alloc t).id = (st.alloc t).id
  minNodes : ∀ t, (st'.alloc t).minNodes = (st.alloc t).minNodes
  list : ∀ t, event ≠ .req t → (st'.alloc t).nodes = (st.alloc t).nodes
  nodeNames : Scd.nodeNames st'.nodes = Scd.nodeNames st.nodes
  rest : (∀ s, event ≠ .allocd s) → (∀ a, event ≠ .terminated a) →
    st'.running = st.running ∧ st'.nodes = st.nodes
  launches : (∀ s, event ≠ .active s) → st'.tracking = st.tracking ∧
    ∀ msg ∈ st'.sent, msg.command = .launchStepd → msg ∈ st.sent

theorem Handled.of_kept (h : Kept st st') (hadds : Adds event st st')
    (hlaunches : (∀ s, event ≠ .active s) → st'.tracking = st.tracking ∧
      ∀ msg ∈ st'.sent, msg.command = .launchStepd → msg ∈ st.sent) : Handled event st st' where
  lastSession := h.lastSession
  intact := .inl h.intact
  adds := hadds
  id t := (h.alloc t).id
  minNodes t := (h.alloc t).minNodes
  list t _ := (h.alloc t).nodes
  nodeNames := congrArg Scd.nodeNames h.nodes
  rest _ _ := ⟨h.running, h.nodes⟩
  launches := hlaunches

theorem Handled.of_still (h : Kept st st') (hadds : Adds event st st')
    (htracking : st'.tracking = st.tracking) (hsent : st'.sent = st.sent) : Handled event st st' :=
  .of_kept h hadds fun _ => ⟨htracking, fun _ hm _ => hsent ▸ hm⟩

/-- `pmf_allocated` and `pmf_terminated`, the two for which `rest` has nothing to say. -/
theorem Handled.of_agrees (hlast : st'.lastSession = st.lastSession)
    (hintact : st'.intact = st.intact ∨ ∃ session, event = .allocd session ∧
      takesError session st = true ∧ st'.intact = st.running.isEmpty)
    (hadds : Adds event st st') (halloc : ∀ t, (st.alloc t).Agrees (st'.alloc t))
    (hnames : Scd.nodeNames st'.nodes = Scd.nodeNames st.nodes)
    (hevent : (∃ s, event = .allocd s) ∨ ∃ a, event = .terminated a)
    (htracking : st'.tracking = st.tracking) (hsent : st'.sent = st.sent) :
    Handled event st st' where
  lastSession := hlast
  intact := hintact
  adds := hadds
  id t := (halloc t).id
  minNodes t := (halloc t).minNodes
  list t _ := (halloc t).nodes
  nodeNames := hnames
  rest h₁ h₂ := by
    obtain ⟨s, rfl⟩ | ⟨a, rfl⟩ := hevent
    · exact absurd rfl (h₁ s)
    · exact absurd rfl (h₂ a)
  launches _ := ⟨htracking, fun _ hm _ => hsent ▸ hm⟩

theorem handled_allocd (h : pmfAllocated session st = some st') :
    Handled (.allocd session) st st' := by
  obtain ⟨nodes, -, ⟨-, herr, st₁, hq, htrk, hsent, rfl⟩ | ⟨-, herr, st₁, hq, htrk, hsent, rfl⟩ |
    ⟨-, -, st₁, nodenames, erange, hq, htrk, hsent, -, -, rfl⟩⟩ := pmfAllocated_cases h
  · exact .of_agrees hq.lastSession
      (.inr ⟨session, rfl, herr, congrArg List.isEmpty hq.running⟩)
      (.one (congrArg (· ++ [Event.schedule]) hq.events) (.requeue session)) hq.alloc
      (congrArg nodeNames hq.nodes) (.inl ⟨session, rfl⟩) htrk hsent
  · have hactive : Adds (.allocd session) st (activate (.active session) st₁) :=
      .one (congrArg (· ++ [Event.active session]) hq.events) (.active session)
    exact .of_agrees hq.lastSession
      (.inr ⟨session, rfl, herr, congrArg List.isEmpty hq.running⟩)
      (hactive.trans (.one rfl (.requeue session))) hq.alloc
      (congrArg nodeNames hq.nodes) (.inl ⟨session, rfl⟩) htrk hsent
  · exact .of_agrees hq.lastSession (.inl hq.intact)
      (.one (congrArg (· ++ [Event.active session]) hq.events) (.active session)) hq.alloc
      (nodeNames_setScdState _ _ _) (.inl ⟨session, rfl⟩) htrk hsent

theorem handled_req (h : rmRequest session st = some st') : Handled (.req session) st st' := by
  rcases rmRequest_cases h with ⟨-, rfl⟩ | ⟨-, -, rc, noderegex, erange, -, rfl⟩ | ⟨-, -, rfl⟩
  · exact .of_still (.refl _) (.none rfl) rfl rfl
  · have halloc := fun t => setAlloc_cases session (fun alloc : Alloc => { alloc with
      nodes := some (if rc = .success then noderegex else errorList) }) { st with erange := erange } t
    exact ⟨rfl, .inl rfl, .one rfl (.req session),
      fun t => (halloc t).elim (fun h => h.2 ▸ rfl) fun h => h.2 ▸ rfl,
      fun t => (halloc t).elim (fun h => h.2 ▸ rfl) fun h => h.2 ▸ rfl,
      fun t hne => (halloc t).elim (fun h => absurd (h.1 ▸ rfl) hne) fun h => h.2 ▸ rfl,
      rfl, fun _ _ => ⟨rfl, rfl⟩, fun _ => ⟨rfl, fun _ hm _ => hm⟩⟩
  · exact .of_still (.of_alloc rfl rfl rfl rfl rfl) (.one rfl (.req session)) rfl rfl

/-- **Every handler** leaves alone what is said there: one case per event. -/
theorem handled (h : handle event st = some st') : Handled event st st' := by
  cases event with
  | init session =>
    cases h
    rw [pmfFindQueue]
    split <;> exact .of_still (.queued rfl rfl rfl rfl rfl fun _ => ⟨rfl, rfl, rfl⟩)
      (.one rfl (.init session)) rfl rfl
  | schedule =>
    cases h
    rw [pmfSchedule]
    split
    · exact .of_still (.refl _) (.none rfl) rfl rfl
    · split
      · exact .of_still (.of_alloc rfl rfl rfl rfl rfl) (.one rfl (.schedule _)) rfl rfl
      · exact .of_still (.of_alloc rfl rfl rfl rfl rfl) (.none rfl) rfl rfl
  | allocd session => exact handled_allocd h
  | terminated alloc =>
    rcases extracted_cases h with ⟨rc, erange, -, rfl⟩ | ⟨nodenames, erange, -, rfl⟩
    · exact .of_still (.of_alloc rfl rfl rfl rfl rfl) (.none rfl) rfl rfl
    · exact .of_agrees rfl (.inl rfl) (.one rfl (.terminated alloc)) (fun _ => .refl _)
        (nodeNames_setScdState _ _ _) (.inr ⟨alloc, rfl⟩) rfl rfl
  | cancel id =>
    cases h
    refine .of_still ?_ (pmfCancel_adds id st) ?_ ?_ <;> rw [pmfCancel_eq]
    exact .of_alloc rfl rfl rfl rfl rfl
  | req session => exact handled_req h
  | active session =>
    obtain ⟨hq, -⟩ := rmActive_cases h
    exact .of_kept hq.kept (.none hq.events) fun hne => absurd rfl (hne session)
  | kill session =>
    have hsends := rmKill_sends h
    refine .of_kept hsends.quiet.kept (.none hsends.quiet.events) fun _ =>
      ⟨hsends.tracking, fun msg hm hlaunch => ?_⟩
    rcases hsends.sent msg hm with hold | ⟨hcancel, -⟩
    · exact hold
    · rw [hcancel] at hlaunch
      cases hlaunch

/-! ## 6. A step -/

/-- The sessions a step creates. -/
def requested (st : State) : Label → List ℕ
  | .sessionReq _ => [st.lastSession + 1]
  | _ => []

theorem requested_cases (st label) :
    requested st label = [] ∨ requested st label = [st.lastSession + 1] := by
  cases label with
  | sessionReq alloc => exact .inr rfl
  | _ => exact .inl rfl

/-- Which label brings which event.  A new session has the next id; ids start at 1. -/
inductive Brings (st : State) : Label → Event → Prop
  | sessionReq (alloc : Alloc) : Brings st (.sessionReq alloc) (.init (st.lastSession + 1))
  | sessionCancel (id : ℕ) : Brings st (.sessionCancel id) (.cancel id)
  | stepdComplete (alloc : Alloc) : Brings st (.stepdComplete alloc) (.terminated alloc)
  | run {event e : Event} : Follows event e → Brings st (.run event) e

/-- **What a message does not do**, with the exceptions.  It leaves the allocations of all sessions
there are: a request is the only one that writes one, and that of a new id. -/
structure Messaged (st : State) (label : Label) (st' : State) : Prop where
  message : ∀ event, label ≠ .run event
  running : st'.running = st.running
  sent : st'.sent = st.sent
  intact : st'.intact = st.intact
  lastSession : st'.lastSession = st.lastSession + (requested st label).length
  alloc : ∀ t ≤ st.lastSession, st'.alloc t = st.alloc t
  nodeNames : Scd.nodeNames st'.nodes = Scd.nodeNames st.nodes
  scdKept : ScdKept st.nodes st'.nodes
  tracking : (∀ alloc, label ≠ .stepdComplete alloc) → st'.tracking = st.tracking
  events : ∃ new, st'.events = st.events ++ new ∧ ∀ e ∈ new, Brings st label e

section Step

variable {label : Label}

/-- The messages about nodes, and `errno`. -/
theorem Messaged.of_nodes {nodes erange} (hmessage : ∀ event, label ≠ .run event)
    (hrequested : requested st label = [])
    (h : Scd.nodeNames nodes = Scd.nodeNames st.nodes ∧ ScdKept st.nodes nodes) :
    Messaged st label { st with nodes := nodes, erange := erange } :=
  ⟨hmessage, rfl, rfl, rfl, by rw [hrequested]; rfl, fun _ _ => rfl, h.1, h.2, fun _ => rfl,
    [], (List.append_nil _).symm, by simp⟩

theorem Messaged.of_byname {state} {regexp : Option Str} (hmessage : ∀ event, label ≠ .run event)
    (hrequested : requested st label = []) (h : recvByname state regexp st = some st') :
    Messaged st label st' := by
  rcases extracted_cases h with ⟨rc, erange, -, rfl⟩ | ⟨names, erange, -, rfl⟩
  · exact .of_nodes hmessage hrequested ⟨rfl, .refl _⟩
  · exact .of_nodes hmessage hrequested (updateEach_keeps state _ _ names st.nodes)

section

variable (h : step st label = some st')
include h

/-- **A step is a message or the run of an event.**  Everything below, and every invariant of the
scheduler, is proved from these two cases. -/
theorem step_cases : Messaged st label st' ∨
    ∃ event, label = .run event ∧ event ∈ st.events ∧
      handle event { st with events := st.events.erase event } = some st' := by
  have hreact := react_of_step h
  cases label with
  | sessionReq alloc =>
    cases hreact
    refine .inl ⟨by simp, rfl, rfl, rfl, rfl, fun t ht => ?_, rfl, .refl _, fun _ => rfl, _, rfl,
      fun e he => ?_⟩
    · exact Function.update_of_ne (by omega) _ _
    · exact List.mem_singleton.mp he ▸ .sessionReq alloc
  | sessionCancel id =>
    cases hreact
    exact .inl ⟨by simp, rfl, rfl, rfl, rfl, fun _ _ => rfl, rfl, .refl _, fun _ => rfl, _, rfl,
      fun e he => List.mem_singleton.mp he ▸ .sessionCancel id⟩
  | nodeUp node =>
    cases hreact
    exact .inl (.of_nodes (by simp) rfl (updateEach_keeps .up .up
      (fun name node => decide (node.daemon = name)) [node] st.nodes))
  | nodeDown node =>
    cases hreact
    exact .inl (.of_nodes (by simp) rfl (updateEach_keeps .down .down _ _ st.nodes))
  | drain regexp | resume regexp => exact .inl (.of_byname (by simp) rfl hreact)
  | stepdComplete alloc =>
    obtain ⟨-, rfl⟩ := react_stepdComplete hreact
    rw [recvStepdComplete_eq]
    refine .inl ⟨by simp, rfl, rfl, rfl, rfl, fun _ _ => rfl, rfl, .refl _,
      fun hne => absurd rfl (hne alloc), _, rfl, fun e he => ?_⟩
    split at he
    · exact List.mem_singleton.mp he ▸ .stepdComplete alloc
    · cases he
  | errno erange =>
    cases hreact
    exact .inl (.of_nodes (by simp) rfl ⟨rfl, .refl _⟩)
  | run event => exact .inr ⟨event, rfl, react_run hreact⟩

/-- The events after a step: nothing comes from nowhere. -/
theorem step_event_cases {e} (he : e ∈ st'.events) : e ∈ st.events ∨ Brings st label e := by
  rcases step_cases h with hm | ⟨event, rfl, -, hhandle⟩
  · obtain ⟨new, hnew, hbrings⟩ := hm.events
    rw [hnew] at he
    exact (mem_append.mp he).imp_right (hbrings e)
  · obtain ⟨new, hnew, hf⟩ := (handled hhandle).adds
    rw [hnew] at he
    exact (mem_append.mp he).imp mem_of_mem_erase fun hadd => .run (hf e hadd)

/-- **No step renames a node.** -/
theorem step_nodeNames : nodeNames st'.nodes = nodeNames st.nodes := by
  rcases step_cases h with hm | ⟨event, rfl, -, hhandle⟩
  · exact hm.nodeNames
  · exact (handled hhandle).nodeNames

theorem step_lastSession : st'.lastSession = st.lastSession + (requested st label).length := by
  rcases step_cases h with hm | ⟨event, rfl, -, hhandle⟩
  · exact hm.lastSession
  · exact (handled hhandle).lastSession

/-- What a step does to the allocation of a session that exists. -/
theorem step_alloc {t} (ht : t ≤ st.lastSession) :
    (st'.alloc t).id = (st.alloc t).id ∧ (st'.alloc t).minNodes = (st.alloc t).minNodes ∧
      (label ≠ .run (.req t) → (st'.alloc t).nodes = (st.alloc t).nodes) := by
  rcases step_cases h with hm | ⟨event, rfl, -, hhandle⟩
  · rw [hm.alloc t ht]
    exact ⟨rfl, rfl, fun _ => rfl⟩
  · exact ⟨(handled hhandle).id t, (handled hhandle).minNodes t,
      fun hne => (handled hhandle).list t fun heq => hne (heq ▸ rfl)⟩

end

end Step

end Sensys.Orcm.Scd
