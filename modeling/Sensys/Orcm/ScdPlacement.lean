/-
# Where a session is

A session that has been requested is, at every moment, in exactly one PLACE: carried by its `INIT`
event, on one of the queues, carried by one `REQ` or `ALLOCD` event, or ended (taken off `running`
by `pmf_terminated`, or off `hold` or `default` by `pmf_cancel`).

`places` counts the occurrences in all of these but the last.  Every handler is a transfer: what it
takes from one place it puts in another (`handle_places`), with two exceptions that the source
has.  `scd_base_rm_request` DROPS a session that asks for no nodes, and `pmf_allocated` on its
error path takes the FIRST session off `running`, which need not be its own.  `Keeps` excludes the
two, and then the count is conserved (`places_conserved`).  Without any condition no session is
queued twice (`queued_at_most_once`).
-/
import Sensys.Orcm.ScdHandlers
import Sensys.Lib.Run

namespace Sensys.Orcm.Scd

open Orte List

/-! ## 1. Counting occurrences -/

/-- The occurrences of a session on the queues. -/
def queued (st : State) (session : ℕ) : ℕ :=
  st.running.count session + st.hold.count session + st.defaultQueue.count session

/-- The `REQ` and `ALLOCD` events that carry a session. -/
def carried (st : State) (session : ℕ) : ℕ :=
  st.events.count (.req session) + st.events.count (.allocd session)

/-- The `INIT` events that carry a session. -/
def unplaced (st : State) (session : ℕ) : ℕ := st.events.count (.init session)

/-- All occurrences of a session. -/
def places (st : State) (session : ℕ) : ℕ :=
  unplaced st session + queued st session + carried st session

/-- One occurrence, of `a`. -/
def one {α : Type} [DecidableEq α] (a b : α) : ℕ := if a = b then 1 else 0

variable {α : Type}

theorem count_append_singleton [DecidableEq α] (l : List α) (a b : α) :
    (l ++ [a]).count b = l.count b + one a b := by
  simp [one, count_singleton]

theorem count_cons_one [DecidableEq α] (l : List α) (a b : α) :
    (a :: l).count b = l.count b + one a b := by
  simp [one, count_cons]

/-- Taking an element off a list. -/
theorem count_erase_one [DecidableEq α] {l : List α} {a} (ha : a ∈ l) (b : α) :
    (l.erase a).count b + one a b = l.count b := by
  have hperm := (perm_cons_erase ha).count_eq b
  rw [hperm, count_cons_one]

theorem count_eraseP_find [DecidableEq α] (p : α → Bool) (l : List α) (b : α) :
    (l.eraseP p).count b + (l.find? p).toList.count b = l.count b := by
  induction l with
  | nil => rfl
  | cons a l ih =>
    cases ha : p a with
    | true => simp [ha, count_cons]
    | false =>
      simp only [eraseP_cons, find?_cons, ha, cond_false, count_cons] at ih ⊢
      omega

theorem count_filter_split [DecidableEq α] (p : α → Bool) (l : List α) (b : α) :
    (l.filter fun a => !p a).count b + (l.filter p).count b = l.count b := by
  have hperm := (filter_append_perm p l).count_eq b
  rw [count_append] at hperm
  omega

/-- How often an event carries a session that is not placed otherwise. -/
def weight (event : Event) (session : ℕ) : ℕ :=
  one event (.init session) + one event (.req session) + one event (.allocd session)

theorem weight_eq (event session) : weight event session = match event with
    | .init x | .req x | .allocd x => one x session
    | _ => 0 := by
  cases event <;> simp [weight, one]

theorem places_activate (event : Event) (st : State) (session : ℕ) :
    places (activate event st) session = places st session + weight event session := by
  simp only [places, unplaced, queued, carried, activate, count_append_singleton, weight]
  omega

variable {st st' : State} {label : Label} {s : ℕ}

theorem places_erase {event : Event} (h : event ∈ st.events) (session : ℕ) :
    places { st with events := st.events.erase event } session + weight event session
      = places st session := by
  have h₁ := count_erase_one h (.init session)
  have h₂ := count_erase_one h (.req session)
  have h₃ := count_erase_one h (.allocd session)
  simp only [places, unplaced, queued, carried, weight]
  omega

theorem Quiet.places (h : Quiet st st') (session : ℕ) :
    Scd.places st' session = Scd.places st session := by
  simp only [Scd.places, unplaced, queued, carried, h.events, h.running, h.hold, h.defaultQueue]

/-! ## 2. Every handler is a transfer -/

/-- The sessions a step ends: taken off `running` by `pmf_terminated`, or off `hold` or `default`
by `pmf_cancel`. -/
def takenOff (st : State) : Label → List ℕ
  | .run (.terminated alloc) =>
    match extractNodeNames alloc.nodes st.erange with
    | some (.ok _, _) => st.running.filter (hasId alloc.id)
    | _ => []
  | .run (.cancel id) =>
    (st.hold.find? (hasId id)).toList ++ (st.defaultQueue.find? (hasId id)).toList
  | _ => []

/-- The sessions a step drops: `scd_base_rm_request` on a session that asks for no nodes. -/
def dropped (st : State) : Label → List ℕ
  | .run (.req session) => if 0 < (st.alloc session).minNodes then [] else [session]
  | _ => []

section Transfer

variable {st st' : State} (s : ℕ)

theorem pmfFindQueue_places (session : ℕ) (st : State) :
    places (pmfFindQueue session st) s = places st s + one session s := by
  rw [pmfFindQueue]
  split <;>
  · rw [places_activate, weight_eq]
    simp only [places, unplaced, queued, carried, setAlloc, count_append_singleton]
    omega

theorem pmfSchedule_places (st : State) : places (pmfSchedule st) s = places st s := by
  rw [pmfSchedule]
  split
  · rfl
  · rename_i session sessions hqueue
    split
    · rw [places_activate, weight_eq]
      simp only [places, unplaced, queued, carried, hqueue, count_cons_one]
      omega
    · simp only [places, unplaced, queued, carried, hqueue]

theorem allocatedError_places (session : ℕ) {st} (hrunning : st.running = []) :
    places (allocatedError session st) s = places st s + one session s := by
  rw [allocatedError, places_activate, weight_eq]
  simp only [places, unplaced, queued, carried, hrunning, nil_append, tail_cons, count_cons_one]
  omega

theorem pmfAllocated_places {session} (h : pmfAllocated session st = some st')
    (hintact : st'.intact = true) : places st' s = places st s + one session s := by
  obtain ⟨nodes, -, ⟨-, -, st₁, hq, -, -, rfl⟩ | ⟨-, -, st₁, hq, -, -, rfl⟩ |
    ⟨-, -, st₁, nodenames, erange, hq, -, -, -, -, rfl⟩⟩ := pmfAllocated_cases h
  · have hrunning : st₁.running = [] := List.isEmpty_iff.mp hintact
    rw [allocatedError_places s session hrunning, hq.places]
  · have hrunning : (activate (.active session) st₁).running = [] := List.isEmpty_iff.mp hintact
    rw [allocatedError_places s session hrunning, places_activate, hq.places, weight_eq]
    rfl
  · rw [places_activate, weight_eq, ← hq.places]
    simp only [places, unplaced, queued, carried, hq.running, count_append_singleton]
    omega

theorem pmfTerminated_places {alloc} (h : pmfTerminated alloc st = some st') :
    places st' s + (takenOff st (.run (.terminated alloc))).count s = places st s := by
  rcases extracted_cases h with ⟨rc, erange, hext, rfl⟩ | ⟨nodenames, erange, hext, rfl⟩
  · simp only [takenOff, hext, count_nil]
    rfl
  · have hsplit := count_filter_split (hasId alloc.id) st.running s
    rw [places_activate, weight_eq]
    simp only [takenOff, hext, places, unplaced, queued, carried]
    omega

theorem pmfCancel_places (id : ℕ) (st : State) :
    places (pmfCancel id st) s + (takenOff st (.run (.cancel id))).count s = places st s := by
  have hhold := count_eraseP_find (hasId id) st.hold s
  have hdefault := count_eraseP_find (hasId id) st.defaultQueue s
  obtain ⟨new, hnew, hf⟩ := pmfCancel_adds id st
  have hcount : ∀ e, ¬ Follows (.cancel id) e →
      (pmfCancel id st).events.count e = st.events.count e := by
    intro e hno
    rw [hnew, count_append, count_eq_zero.mpr fun hmem => hno (hf e hmem), Nat.add_zero]
  rw [places, unplaced, carried, hcount _ (by nofun), hcount _ (by nofun), hcount _ (by nofun),
    pmfCancel_eq, takenOff, count_append]
  simp only [places, unplaced, queued, carried]
  omega

theorem rmRequest_places {session} (h : rmRequest session st = some st') :
    places st' s + (dropped st (.run (.req session))).count s = places st s + one session s := by
  rcases rmRequest_cases h with ⟨hle, rfl⟩ | ⟨hpos, -, rc, noderegex, erange, -, rfl⟩ |
    ⟨hpos, -, rfl⟩
  · rw [dropped, if_neg (by omega)]
    simp [one, count_singleton]
  all_goals
    rw [places_activate, weight_eq, dropped, if_pos hpos]
    rfl

/-- **A handler puts what its event carried, and what it takes, somewhere else.** -/
theorem handle_places {event} (h : handle event st = some st') (hintact : st'.intact = true) :
    places st' s + (takenOff st (.run event)).count s + (dropped st (.run event)).count s
      = places st s + weight event s := by
  rw [weight_eq]
  cases event with
  | init session =>
    cases h
    exact pmfFindQueue_places s session st
  | schedule =>
    cases h
    exact pmfSchedule_places s st
  | allocd session => exact pmfAllocated_places s h hintact
  | terminated alloc => exact pmfTerminated_places s h
  | cancel id =>
    cases h
    exact pmfCancel_places s id st
  | req session => exact rmRequest_places s h
  | active session => exact (rmActive_cases h).1.places s
  | kill session => exact (rmKill_sends h).quiet.places s

end Transfer

theorem recvStepdComplete_places (alloc : Alloc) (st : State) (s : ℕ) :
    places (recvStepdComplete alloc st) s = places st s := by
  rw [recvStepdComplete]
  split
  · rw [places_activate, weight_eq]
    rfl
  · rfl

theorem recvByname_places {state regexp} (h : recvByname state regexp st = some st') (s : ℕ) :
    places st' s = places st s := by
  rcases extracted_cases h with ⟨rc, erange, -, rfl⟩ | ⟨nodenames, erange, -, rfl⟩ <;> rfl

/-- **The balance of a step** that leaves the queues intact. -/
theorem step_places (h : step st label = some st') (hintact : st'.intact = true) (s : ℕ) :
    places st' s + (takenOff st label).count s + (dropped st label).count s
      = places st s + (requested st label).count s := by
  have hreact := react_of_step h
  cases label with
  | sessionReq alloc =>
    cases hreact
    rw [recvSessionReq, places_activate, weight_eq, requested, count_singleton]
    simp [takenOff, dropped, one, places, unplaced, queued, carried]
  | sessionCancel id =>
    cases hreact
    rw [places_activate, weight_eq]
    rfl
  | nodeUp node => cases hreact; rfl
  | nodeDown node => cases hreact; rfl
  | drain regexp => rw [recvByname_places hreact]; rfl
  | resume regexp => rw [recvByname_places hreact]; rfl
  | stepdComplete alloc =>
    obtain ⟨-, rfl⟩ := react_stepdComplete hreact
    rw [recvStepdComplete_places]
    rfl
  | errno erange => cases hreact; rfl
  | run event =>
    obtain ⟨hmem, hhandle⟩ := react_run hreact
    have hrun := handle_places s hhandle hintact
    have herase := places_erase hmem s
    have htaken : takenOff { st with events := st.events.erase event } (.run event)
        = takenOff st (.run event) := by cases event <;> rfl
    have hdropped : dropped { st with events := st.events.erase event } (.run event)
        = dropped st (.run event) := by cases event <;> rfl
    rw [htaken, hdropped] at hrun
    simp only [requested, count_nil]
    omega

theorem places_initial (h : Initial st) (s : ℕ) : places st s = 0 := by
  simp [places, unplaced, queued, carried, h.events, h.running, h.hold, h.defaultQueue]

/-- A requested session is the one that was not there before. -/
theorem requested_grows (st : State) (label : Label) (s : ℕ) :
    (if 1 ≤ s ∧ s ≤ st.lastSession + (requested st label).length then 1 else 0)
      = (if 1 ≤ s ∧ s ≤ st.lastSession then 1 else 0) + (requested st label).count s := by
  rcases requested_cases st label with hreq | hreq
  · rw [hreq]
    rfl
  · simp only [hreq, length_singleton, count_singleton, beq_iff_eq]
    split_ifs <;> omega

/-- Every session is in at most one place, and has been requested. -/
def Unique (st : State) : Prop :=
  ∀ s, places st s ≤ if 1 ≤ s ∧ s ≤ st.lastSession then 1 else 0

theorem Unique.bounds (h : Unique st) {s} (hs : 0 < places st s) : 1 ≤ s ∧ s ≤ st.lastSession := by
  have hle := h s
  by_contra hout
  rw [if_neg hout] at hle
  omega

theorem Unique.le_one (h : Unique st) (s : ℕ) : places st s ≤ 1 := by
  have hle := h s
  split at hle <;> omega

/-- **No session is in two places** as long as the queues are intact, in any run whatever. -/
theorem places_le {ok} (h : Reachable step Initial ok st) (hintact : st.intact = true) :
    Unique st := by
  revert hintact
  refine Reachable.invariant (P := fun st => st.intact = true → Unique st) ?_ ?_ h
  · intro st hinit _ s
    rw [places_initial hinit]
    exact Nat.zero_le _
  · intro st label st' hp _ hs hintact s
    have hbal := step_places hs hintact s
    have hbefore := hp (intact_of_step hs) s
    rw [step_lastSession hs]
    have hgrow := requested_grows st label s
    omega

theorem places_pos_of_default (h : s ∈ st.defaultQueue) : 0 < places st s := by
  have hcount : 0 < st.defaultQueue.count s := List.count_pos_iff.mpr h
  rw [places, queued]
  omega

theorem places_pos_of_running (h : s ∈ st.running) : 0 < places st s := by
  have hcount : 0 < st.running.count s := List.count_pos_iff.mpr h
  rw [places, queued]
  omega

theorem places_pos_of_allocd (h : .allocd s ∈ st.events) : 0 < places st s := by
  have hcount : 0 < st.events.count (.allocd s) := List.count_pos_iff.mpr h
  rw [places, carried]
  omega

/-! ## 3. The condition, and the conservation law -/

/-- **The condition on a step**: `REQ` is run on a session that asks for nodes, the error exit of
`pmf_allocated` is taken while no other session is running, and the session ids have not wrapped
around. -/
def Keeps (st : State) : Label → Prop
  | .sessionReq _ => st.lastSession + 1 < 2 ^ 32
  | .run (.req session) => 0 < (st.alloc session).minNodes
  | .run (.allocd session) => takesError session st = true → st.running = []
  | _ => True

instance (st : State) : (label : Label) → Decidable (Keeps st label)
  | .sessionReq _ => Nat.decLt _ _
  | .run (.req _) => Int.decLt _ _
  | .run (.allocd session) => inferInstanceAs (Decidable (takesError session st = true → _))
  | .sessionCancel _ | .nodeUp _ | .nodeDown _ | .drain _ | .resume _ | .stepdComplete _
  | .errno _ | .run (.init _) | .run .schedule | .run (.terminated _) | .run (.cancel _)
  | .run (.active _) | .run (.kill _) => instDecidableTrue

theorem Keeps.dropped_eq_nil (h : Keeps st label) : dropped st label = [] := by
  rcases label with _ | _ | _ | _ | _ | _ | _ | _ | event
  all_goals try rfl
  cases event
  case req session => exact if_pos h
  all_goals rfl

theorem Keeps.requeues (h : Keeps st label) (session : ℕ)
    (hl : label = .run (.allocd session)) (herr : takesError session st = true) :
    st.running = [] := by
  subst hl
  exact h herr

/-- The queues stay intact if the error exit of `pmf_allocated` is taken with none running. -/
theorem step_intact (hk : ∀ session, label = .run (.allocd session) → takesError session st = true →
      st.running = []) (h : step st label = some st') : st'.intact = true := by
  have hintact := intact_of_step h
  rcases step_cases h with hm | ⟨event, rfl, -, hhandle⟩
  · exact hm.intact.trans hintact
  · rcases (handled hhandle).intact with hsame | ⟨session, rfl, herr, hempty⟩
    · exact hsame.trans hintact
    · have hrunning : st.running = [] := hk session rfl herr
      rw [hempty, hrunning]
      rfl

/-- The runs of the scheduler under the condition, with the list of the sessions ended so far. -/
abbrev KeptRun : State × List ℕ → Prop :=
  Reachable (record step takenOff) (fun p => Initial p.1 ∧ p.2 = []) (fun p l => Keeps p.1 l)

/-- **The conservation law**: every requested session is in exactly one place, or has been ended
once. -/
theorem places_conserved {p} (h : KeptRun p) (s : ℕ) :
    places p.1 s + p.2.count s = if 1 ≤ s ∧ s ≤ p.1.lastSession then 1 else 0 := by
  revert s
  refine Reachable.invariant (P := fun p => ∀ s, places p.1 s + p.2.count s
    = if 1 ≤ s ∧ s ≤ p.1.lastSession then 1 else 0) ?_ ?_ h
  · rintro ⟨st, ended⟩ ⟨hinit, rfl⟩ s
    rw [places_initial hinit, hinit.lastSession, if_neg (by omega)]
    rfl
  · intro p label q hp hok hstep s
    obtain ⟨hs, hended⟩ := record_eq_some.mp hstep
    have hbal := step_places hs (step_intact hok.requeues hs) s
    have hlast := step_lastSession hs
    have hbefore := hp s
    rw [hok.dropped_eq_nil, count_nil] at hbal
    rw [hended, count_append, hlast, requested_grows]
    omega

/-! ## 4. The main result -/

/-- The session has been requested, and `pmf_find_queue` has run on it. -/
def Accepted (st : State) (session : ℕ) : Prop :=
  1 ≤ session ∧ session ≤ st.lastSession ∧ .init session ∉ st.events

/-- The session is held in exactly one place: once on one queue and carried by no event, or on no
queue and carried by exactly one `REQ` or `ALLOCD` event. -/
def HeldOnce (st : State) (session : ℕ) : Prop :=
  (queued st session = 1 ∧ carried st session = 0) ∨
    (queued st session = 0 ∧ carried st session = 1)

instance (st : State) (session : ℕ) : Decidable (Accepted st session) :=
  inferInstanceAs (Decidable (_ ∧ _ ∧ _))

instance (st : State) (session : ℕ) : Decidable (HeldOnce st session) :=
  inferInstanceAs (Decidable (_ ∨ _))

/-- The error exit, when no other session is running: the session of the event goes to the front
of `default`. -/
theorem takesError_requeues {session} (hk : Keeps st (.run (.allocd session)))
    (h : step st (.run (.allocd session)) = some st') (herr : takesError session st = true) :
    st'.defaultQueue = session :: st.defaultQueue ∧ st'.running = [] := by
  have hrunning : st.running = [] := hk herr
  obtain ⟨-, hhandle⟩ := react_run (react_of_step h)
  obtain ⟨nodes, -, ⟨-, -, st₁, hq, -, -, rfl⟩ | ⟨-, -, st₁, hq, -, -, rfl⟩ |
    ⟨-, hno, -⟩⟩ := pmfAllocated_cases hhandle
  iterate 2
    exact ⟨congrArg (session :: ·) hq.defaultQueue,
      by simp [allocatedError, activate, hq.running, hrunning]⟩
  · cases herr.symm.trans hno

/-- **Every accepted session is held in exactly one place until it is ended**, in every run whose
steps meet the condition; and when `pmf_allocated` takes its error exit, the session that goes
from `running` to the front of `default` is the one its event carries. -/
theorem accepted_session_held_once {p : State × List ℕ} (h : KeptRun p) :
    (∀ session, Accepted p.1 session → session ∉ p.2 → HeldOnce p.1 session) ∧
    (∀ session st', Keeps p.1 (.run (.allocd session)) →
      step p.1 (.run (.allocd session)) = some st' → takesError session p.1 = true →
      st'.defaultQueue = session :: p.1.defaultQueue ∧ session ∉ st'.running ∧
        ∀ t ∈ p.1.running, t ≠ session → t ∈ st'.running) := by
  constructor
  · rintro session ⟨hone, hlast, hinit⟩ hended
    have hlaw := places_conserved h session
    rw [if_pos ⟨hone, hlast⟩, count_eq_zero.mpr hended, places, unplaced,
      count_eq_zero.mpr hinit] at hlaw
    rw [HeldOnce]
    omega
  · intro session st' hk hs herr
    obtain ⟨hqueue, hrunning⟩ := takesError_requeues hk hs herr
    refine ⟨hqueue, by simp [hrunning], ?_⟩
    intro t ht
    rw [hk herr] at ht
    cases ht

theorem recorded_start (nodes : List (Option Node)) :
    (fun p : State × List ℕ => Initial p.1 ∧ p.2 = []) (start nodes, []) :=
  ⟨initial_start nodes, rfl⟩

/-- The nodes of the runs on fixed tables. -/
def node1 : Node := newNode (CString.ofString "n1") ⟨0, 1⟩
def node2 : Node := newNode (CString.ofString "n2") ⟨0, 2⟩

/-- A session that waits on `default`, after the scheduler has found too few nodes for it. -/
theorem accepted_session_held_once_waiting :
    ∃ p : State × List ℕ, (KeptRun p ∧ Accepted p.1 1 ∧ 1 ∉ p.2) ∧ HeldOnce p.1 1 := by
  obtain ⟨p, hrun, hacc, hnot⟩ : ∃ p, KeptRun p ∧ Accepted p.1 1 ∧ 1 ∉ p.2 :=
    exists_of_follow (recorded_start [some node1])
      [.sessionReq (newAlloc 1), .run (.init 1), .run .schedule] (by decide +kernel)
  exact ⟨p, ⟨hrun, hacc, hnot⟩, (accepted_session_held_once hrun).1 1 hacc hnot⟩

/-- All runs of the scheduler, with the list of the sessions ended so far. -/
abbrev AnyRun : State × List ℕ → Prop :=
  Reachable (record step takenOff) (fun p => Initial p.1 ∧ p.2 = []) always

/-- **Sessions are lost** otherwise.  A session that asks for no nodes is dropped by
`scd_base_rm_request`; and with session 1 running on `m`, the nodes `n0` and `n2` picked for
session 2 take `pmf_allocated` to its error exit, where session 1 is taken off `running`. -/
theorem accepted_session_lost : (∃ p, AnyRun p ∧ Accepted p.1 1 ∧ 1 ∉ p.2 ∧ ¬ HeldOnce p.1 1) ∧
    (∃ p, AnyRun p ∧ 1 ∈ p.1.running ∧ takesError 2 p.1 = true ∧
      (step p.1 (.run (.allocd 2))).any (fun st' => decide (1 ∉ st'.running)) = true) := by
  constructor
  · exact exists_of_follow (recorded_start [])
      [.sessionReq (newAlloc 0), .run (.init 1), .run .schedule, .run (.req 1)] (by decide +kernel)
  · exact exists_of_follow
      (recorded_start [some (newNode (CString.ofString "m") ⟨0, 1⟩),
        some (newNode (CString.ofString "n0") ⟨0, 2⟩),
        some (newNode (CString.ofString "n2") ⟨0, 3⟩)])
      [.nodeUp ⟨0, 1⟩, .nodeUp ⟨0, 2⟩, .nodeUp ⟨0, 3⟩, .sessionReq (newAlloc 1),
        .run (.init 1), .run .schedule, .run (.req 1), .run (.allocd 1), .sessionReq (newAlloc 2),
        .run (.init 2), .run .schedule, .run (.req 2)] (by decide +kernel)

/-! ## 5. Runs without any condition -/

/-- **No session is queued twice**, in any run whatever: as long as the queues are intact, a session
is on at most one of them, once, and then no event is about to put it on another. -/
theorem queued_at_most_once {st : State} (h : Reachable step Initial always st)
    (hintact : st.intact = true) :
    (st.running ++ st.hold ++ st.defaultQueue).Nodup ∧
      ∀ s ∈ st.running ++ st.hold ++ st.defaultQueue, (1 ≤ s ∧ s ≤ st.lastSession) ∧
        .init s ∉ st.events ∧ .req s ∉ st.events ∧ .allocd s ∉ st.events := by
  have hunique := places_le h hintact
  have hqueued : ∀ s, (st.running ++ st.hold ++ st.defaultQueue).count s = queued st s := by
    simp [queued, Nat.add_assoc]
  refine ⟨nodup_iff_count_le_one.mpr fun s => ?_, fun s hs => ?_⟩
  · have hle := hunique.le_one s
    rw [places] at hle
    rw [hqueued]
    omega
  · have hpos := hqueued s ▸ count_pos_iff.mpr hs
    have hle := hunique.le_one s
    rw [places, unplaced, carried] at hle
    simp only [← count_eq_zero]
    exact ⟨hunique.bounds (by rw [places]; omega), by omega, by omega, by omega⟩

/-- A session that runs, and one that waits for more nodes than there are. -/
theorem queued_at_most_once_hold : ∃ st : State, (st.running = [1] ∧ st.hold = [2]) ∧
    (st.running ++ st.hold ++ st.defaultQueue).Nodup := by
  obtain ⟨st, hrun, hqueues, hintact⟩ : ∃ st, Reachable step Initial always st ∧
      (st.running = [1] ∧ st.hold = [2]) ∧ st.intact = true :=
    exists_of_follow (initial_start [some node1, some node2])
      [.nodeUp ⟨0, 1⟩, .nodeUp ⟨0, 2⟩, .sessionReq (newAlloc 1), .sessionReq (newAlloc 3),
        .run (.init 1), .run (.init 2), .run .schedule, .run (.req 1), .run (.allocd 1)]
      (by decide +kernel)
  exact ⟨st, hqueues, (queued_at_most_once hrun hintact).1⟩

end Sensys.Orcm.Scd
