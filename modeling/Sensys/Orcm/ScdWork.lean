/-
# Work conservation

The scheduler is meant to come to rest only when the session at the front of `default` cannot be
served: it asks for more nodes than are free (`Short`).  The argument is a wake-up argument.
Whoever makes the front of the queue serviceable has to leave a `SCHEDULE` event behind, because
`pmf_schedule` is the only handler that looks at the queue, and it serves ONE session.

`pmf_find_queue`, `pmf_terminated`, `pmf_cancel` and the error exit of `pmf_allocated` do leave one
(`handle_wakes`).  Two things do not: a node that comes up or is resumed, and `pmf_schedule`
itself when it has served the front and the next session could be served too.  `Wakes` excludes
the two, and `work_conserving_at_rest` is the result.
-/
import Sensys.Orcm.ScdPlacement

namespace Sensys.Orcm.Scd

open Orte List

/-! ## 1. Free nodes -/

theorem freeNodes_setScdState_alloc (names : List Str) (nodes : List (Option Node)) :
    freeNodes (setScdState .alloc names nodes) ≤ freeNodes nodes := by
  rw [setScdState_eq, freeNodes, countP_map]
  refine countP_mono_left fun node _ => ?_
  cases node with
  | none => simp
  | some node =>
    by_cases hname : node.name ∈ names
    · simp [hname, isFree]
    · simp [hname]

/-- A node that goes down or is drained is not free. -/
theorem isFree_setNodeState {state newstate} (h : newstate ≠ .up) (node : Node) :
    isFree (setNodeState state newstate node) = false := by
  simp [isFree, setNodeState, h]

/-! ## 2. Who wakes the scheduler -/

/-- The session at the front of `default` could not be served with `more` further nodes free. -/
def Short (st : State) (more : ℕ) : Prop :=
  ∀ session ∈ st.defaultQueue.head?,
    ((freeNodes st.nodes + more : ℕ) : ℤ) < (st.alloc session).minNodes

/-- The step changes neither the queue nor what its sessions ask for, and frees at most `more`
nodes. -/
structure Leaves (st st' : State) (more : ℕ) : Prop where
  defaultQueue : st'.defaultQueue = st.defaultQueue
  freeNodes : Scd.freeNodes st'.nodes ≤ Scd.freeNodes st.nodes + more
  minNodes : ∀ s ∈ st.defaultQueue, (st'.alloc s).minNodes = (st.alloc s).minNodes

variable {st st' : State} {more : ℕ}

theorem Short.leaves (h : Short st more) (hl : Leaves st st' more) : Short st' 0 := by
  intro session hq
  rw [hl.defaultQueue] at hq
  have hfront := h session hq
  have hfree := hl.freeNodes
  rw [hl.minNodes session (mem_of_mem_head? hq)]
  omega

theorem Quiet.leaves (h : Quiet st st') : Leaves st st' 0 :=
  ⟨h.defaultQueue, by rw [h.nodes]; exact le_rfl, fun s _ => (h.alloc s).minNodes⟩

theorem schedule_mem_activate (st : State) : .schedule ∈ (activate .schedule st).events := by
  simp [activate]

theorem pmfCancel_wakes (id : ℕ) (st : State) :
    .schedule ∈ (pmfCancel id st).events ∨ Leaves st (pmfCancel id st) 0 := by
  rw [pmfCancel_eq]
  by_cases hany : st.defaultQueue.any (hasId id) = true
  · exact .inl (by simp [hany])
  · exact .inr ⟨eraseP_of_forall_not (by simpa using hany), le_rfl, fun _ _ => rfl⟩

/-- **Every handler but `pmf_schedule`** leaves a `SCHEDULE` event behind, or nothing to
schedule. -/
theorem handle_wakes {event} (hne : event ≠ .schedule) (h : handle event st = some st') :
    .schedule ∈ st'.events ∨ Leaves st st' 0 := by
  cases event with
  | init session =>
    cases h
    rw [pmfFindQueue]
    split <;> exact .inl (schedule_mem_activate _)
  | schedule => exact absurd rfl hne
  | allocd session =>
    obtain ⟨nodes, -, ⟨-, -, st₁, hq, -, -, rfl⟩ | ⟨-, -, st₁, hq, -, -, rfl⟩ |
      ⟨-, -, st₁, nodenames, erange, hq, -, -, -, -, rfl⟩⟩ := pmfAllocated_cases h
    · exact .inl (schedule_mem_activate _)
    · exact .inl (schedule_mem_activate _)
    · exact .inr ⟨hq.defaultQueue, freeNodes_setScdState_alloc nodenames st.nodes,
        fun s _ => (hq.alloc s).minNodes⟩
  | terminated alloc =>
    rcases extracted_cases h with ⟨rc, erange, -, rfl⟩ | ⟨nodenames, erange, -, rfl⟩
    · exact .inr ⟨rfl, le_rfl, fun _ _ => rfl⟩
    · exact .inl (schedule_mem_activate _)
  | cancel id =>
    cases h
    exact pmfCancel_wakes id st
  | req session =>
    right
    rcases rmRequest_cases h with ⟨-, rfl⟩ | ⟨-, -, rc, noderegex, erange, -, rfl⟩ | ⟨-, -, rfl⟩
    · exact ⟨rfl, le_rfl, fun _ _ => rfl⟩
    · exact ⟨rfl, le_rfl, fun s _ => (handled_req h).minNodes s⟩
    · exact ⟨rfl, le_rfl, fun _ _ => rfl⟩
  | active session => exact .inr (rmActive_cases h).1.leaves
  | kill session => exact .inr (rmKill_sends h).quiet.leaves

/-- `pmf_schedule` serves the front, or finds it too big. -/
theorem pmfSchedule_wakes (st : State) : Short (pmfSchedule st) 0 ∨
      ∃ session sessions, st.defaultQueue = session :: sessions ∧
        (st.alloc session).minNodes ≤ freeNodes st.nodes ∧
        pmfSchedule st = activate (.req session) { st with defaultQueue := sessions } := by
  rw [pmfSchedule]
  split
  · rename_i hq
    left
    intro session hmem
    rw [hq] at hmem
    cases hmem
  · rename_i session sessions hq
    split
    · rename_i hfits
      exact .inr ⟨session, sessions, hq, hfits, rfl⟩
    · rename_i hbig
      left
      intro session' hmem
      cases hmem
      simpa using hbig

/-! ## 3. The condition, and the result -/

/-- How many nodes an expression lists. -/
def listedCount (regexp : Option Str) (erange : Bool) : ℕ :=
  match extractNodeNames regexp erange with
  | some (.ok nodenames, _) => nodenames.length
  | _ => 0

/-- **The condition on a step.**  A node comes up, or nodes are resumed, while a `SCHEDULE` event is
pending or the front of `default` asks for more than would be free with them; and `pmf_schedule`
serves a session that others wait behind while a second `SCHEDULE` event is pending, or the next
session asks for more than is free. -/
def Wakes (st : State) : Label → Prop
  | .nodeUp _ => .schedule ∈ st.events ∨ Short st 1
  | .resume regexp => .schedule ∈ st.events ∨ Short st (listedCount regexp st.erange)
  | .run .schedule => ∀ session ∈ st.defaultQueue.head?,
      (st.alloc session).minNodes ≤ freeNodes st.nodes → ∀ next ∈ st.defaultQueue.tail.head?,
        .schedule ∈ st.events.erase .schedule ∨
          (freeNodes st.nodes : ℤ) < (st.alloc next).minNodes
  | _ => True

/-- Somebody will look at the queue again, or need not. -/
def Awake (st : State) : Prop := .schedule ∈ st.events ∨ Short st 0

theorem Awake.leaves (h : .schedule ∈ st.events ∨ Short st more)
    (hevents : ∀ e ∈ st.events, e ∈ st'.events) (hl : Leaves st st' more) : Awake st' := by
  rcases h with hsched | hshort
  · exact .inl (hevents _ hsched)
  · exact .inr (hshort.leaves hl)

/-- A `SCHEDULE` event that is run. -/
theorem awake_schedule (hw : Wakes st (.run .schedule)) :
    Awake (pmfSchedule { st with events := st.events.erase .schedule }) := by
  rcases pmfSchedule_wakes { st with events := st.events.erase .schedule } with hshort |
    ⟨session, sessions, hq, hfits, heq⟩
  · exact .inr hshort
  · rw [heq]
    by_cases hsched : .schedule ∈ st.events.erase .schedule
    · exact .inl (mem_append_left _ hsched)
    · right
      intro next hnext
      have hq' : st.defaultQueue = session :: sessions := hq
      have hnext' : next ∈ st.defaultQueue.tail.head? := by rw [hq']; exact hnext
      have hbig := (hw session (by simp [hq']) hfits next hnext').resolve_left hsched
      simpa [activate] using hbig

/-- Any other event that is run. -/
theorem awake_run {event} (h : Awake st) (hne : event ≠ .schedule)
    (hrun : handle event { st with events := st.events.erase event } = some st') : Awake st' := by
  rcases handle_wakes hne hrun with hsched | hl
  · exact .inl hsched
  · obtain ⟨new, hnew, -⟩ := (handled hrun).adds
    rcases h with hsched | hshort
    · left
      rw [hnew]
      exact mem_append_left _ ((mem_erase_of_ne (Ne.symm hne)).mpr hsched)
    · have hshort' : Short { st with events := st.events.erase event } 0 := hshort
      exact .inr (hshort'.leaves hl)

theorem awake_byname {state regexp} (h : .schedule ∈ st.events ∨ Short st more)
    (hs : recvByname state regexp st = some st')
    (hfree : ∀ nodenames erange, extractNodeNames regexp st.erange = some (.ok nodenames,
      erange) → freeNodes (updateNodestateByname state nodenames st.nodes).2 ≤ freeNodes st.nodes +
      more) :
    Awake st' := by
  rcases extracted_cases hs with ⟨rc, erange, -, rfl⟩ | ⟨nodenames, erange, hext, rfl⟩
  · exact Awake.leaves h (fun _ he => he) ⟨rfl, Nat.le_add_right _ _, fun _ _ => rfl⟩
  · exact Awake.leaves h (fun _ he => he) ⟨rfl, hfree nodenames erange hext, fun _ _ => rfl⟩

/-- **One step.** -/
theorem step_awake {label} (hb : ∀ s ∈ st.defaultQueue, s ≤ st.lastSession) (h : Awake st)
    (hw : Wakes st label) (hs : step st label = some st') : Awake st' := by
  have hreact := react_of_step hs
  cases label with
  | sessionReq alloc =>
    cases hreact
    refine Awake.leaves h (fun _ he => mem_append_left _ he) ⟨rfl, le_rfl, fun s hmem => ?_⟩
    have hne : s ≠ st.lastSession + 1 := by have := hb s hmem; omega
    simp [recvSessionReq, activate, hne]
  | sessionCancel id =>
    cases hreact
    exact Awake.leaves h (fun _ he => mem_append_left _ he) ⟨rfl, le_rfl, fun _ _ => rfl⟩
  | nodeUp node =>
    cases hreact
    exact Awake.leaves hw (fun _ he => he) ⟨rfl, (freeNodes_updateEach (f := setNodeState .up .up)
      (fun name node => decide (node.daemon = name)) [node] (false, st.nodes)).1, fun _ _ => rfl⟩
  | nodeDown node =>
    cases hreact
    exact Awake.leaves h (fun _ he => he) ⟨rfl, (freeNodes_updateEach _ _ (false, st.nodes)).2
      (isFree_setNodeState (by simp)), fun _ _ => rfl⟩
  | drain regexp =>
    exact awake_byname h hreact fun nodenames _ _ =>
      (freeNodes_updateEach _ nodenames (false, st.nodes)).2 (isFree_setNodeState (by simp))
  | resume regexp =>
    refine awake_byname hw hreact fun nodenames erange hext => ?_
    rw [listedCount, hext]
    exact (freeNodes_updateEach _ nodenames (false, st.nodes)).1
  | stepdComplete alloc =>
    obtain ⟨-, rfl⟩ := react_stepdComplete hreact
    rw [recvStepdComplete_eq]
    exact Awake.leaves h (fun _ he => mem_append_left _ he) ⟨rfl, le_rfl, fun _ _ => rfl⟩
  | errno erange =>
    cases hreact
    exact Awake.leaves h (fun _ he => he) ⟨rfl, le_rfl, fun _ _ => rfl⟩
  | run event =>
    obtain ⟨-, hhandle⟩ := react_run hreact
    by_cases hsched : event = .schedule
    · subst hsched
      cases hhandle
      exact awake_schedule hw
    · exact awake_run h hsched hhandle

theorem awake_of_reachable (h : Reachable step Initial Wakes st) : Awake st := by
  induction h with
  | start hinit =>
    right
    intro session hmem
    rw [hinit.defaultQueue] at hmem
    cases hmem
  | next hr hw hs ih =>
    refine step_awake (fun s hmem => ?_) ih hw hs
    exact ((places_le hr (intact_of_step hs)).bounds (places_pos_of_default hmem)).2

/-- **The scheduler is work-conserving at rest**, in every run whose steps meet the condition: with
no event pending, the default queue is empty or the session at its front asks for more nodes than
are free. -/
theorem work_conserving_at_rest {st : State} (h : Reachable step Initial Wakes st)
    (hrest : st.events = []) :
    st.defaultQueue = [] ∨ ∃ session sessions, st.defaultQueue = session :: sessions ∧
      (freeNodes st.nodes : ℤ) < (st.alloc session).minNodes := by
  rcases awake_of_reachable h with hsched | hshort
  · rw [hrest] at hsched
    cases hsched
  · cases hq : st.defaultQueue with
    | nil => exact .inl rfl
    | cons session sessions => exact .inr ⟨session, sessions, rfl, hshort session (by simp [hq])⟩

instance (st : State) (more : ℕ) : Decidable (Short st more) :=
  inferInstanceAs (Decidable (∀ session ∈ st.defaultQueue.head?, _))

instance (st : State) : (label : Label) → Decidable (Wakes st label)
  | .nodeUp _ => inferInstanceAs (Decidable (_ ∨ _))
  | .resume _ => inferInstanceAs (Decidable (_ ∨ _))
  | .run .schedule => inferInstanceAs (Decidable (∀ session ∈ st.defaultQueue.head?, _))
  | .sessionReq _ | .sessionCancel _ | .nodeDown _ | .drain _ | .stepdComplete _ | .errno _
  | .run (.init _) | .run (.allocd _) | .run (.terminated _) | .run (.cancel _) | .run (.req _)
  | .run (.active _) | .run (.kill _) => instDecidableTrue

/-- At rest with a session waiting for a node that is not up. -/
theorem work_conserving_at_rest_waiting :
    ∃ st, (Reachable step Initial Wakes st ∧ st.events = [] ∧ st.defaultQueue = [1]) ∧
      (st.defaultQueue = [] ∨ ∃ session sessions, st.defaultQueue = session :: sessions ∧
        (freeNodes st.nodes : ℤ) < (st.alloc session).minNodes) := by
  obtain ⟨st, hrun, hrest, hwaits⟩ :
      ∃ st, Reachable step Initial Wakes st ∧ st.events = [] ∧ st.defaultQueue = [1] :=
    exists_of_follow (initial_start [some node1])
      [.sessionReq (newAlloc 1), .run (.init 1), .run .schedule] (by decide +kernel)
  exact ⟨st, ⟨hrun, hrest, hwaits⟩, work_conserving_at_rest hrun hrest⟩

/-- **The scheduler sleeps with work to do** when the node comes up after its last look. -/
theorem rests_with_a_free_node :
    ∃ st, Reachable step Initial always st ∧ st.events = [] ∧ st.defaultQueue = [1] ∧
      (st.alloc 1).minNodes = 1 ∧ freeNodes st.nodes = 1 :=
  exists_of_follow (initial_start [some node1])
    [.sessionReq (newAlloc 1), .run (.init 1), .run .schedule, .nodeUp ⟨0, 1⟩] (by decide +kernel)

end Sensys.Orcm.Scd
