/-
# All or nothing

What `pmf_allocated` sees was made by `scd_base_rm_request` at an earlier moment: the names of the
picked nodes, put through `orte_regex_create`.  `GoodList` says what it should see: a list that is
there and that `orte_regex_extract_node_names` decodes to as many distinct nodes of the table as
the session asked for.

`scd_base_rm_request` gives a session such a list if there are enough free nodes and their names
survive the encoding, and nothing changes the list until `pmf_allocated` runs
(`allocInv_of_servedRun`).  On a good list, with `errno` clear, `pmf_allocated` either allocates
exactly those nodes and activates the session, or does nothing but put the session back; it does
the latter only for the list `ERROR` (`allocation_all_or_nothing`).
-/
import Sensys.Orcm.ScdPlacement

namespace Sensys.Orcm.Scd

open Orte List

/-! ## 1. Good lists -/

/-- **The session has a list that decodes to as many distinct nodes of the table as it asks
for.** -/
def GoodList (st : State) (session : ℕ) : Prop :=
  ∃ regexp names erange, (st.alloc session).nodes = some regexp ∧
    extractNodeNames (some regexp) false = some (.ok names, erange) ∧
    names.Nodup ∧ (∀ x ∈ names, x ∈ nodeNames st.nodes) ∧
    (names.length : ℤ) = (st.alloc session).minNodes

variable {st st' : State} {session : ℕ}

theorem GoodList.congr (h : GoodList st session) (hnames : nodeNames st'.nodes = nodeNames st.nodes)
    (hmin : (st'.alloc session).minNodes = (st.alloc session).minNodes)
    (hnodes : (st'.alloc session).nodes = (st.alloc session).nodes) : GoodList st' session := by
  obtain ⟨regexp, names, erange, hlist, hext, hnodup, hmem, hlen⟩ := h
  exact ⟨regexp, names, erange, hnodes.trans hlist, hext, hnodup,
    fun x hx => hnames ▸ hmem x hx, hlen.trans hmin.symm⟩

theorem picked_sublist (session st) :
    (picked session st).Sublist (nodeNames st.nodes) :=
  (take_sublist _ _).trans (freeNames_sublist st.nodes)

/-- `scd_base_rm_request` makes a good list, of the names it picked. -/
theorem rmRequest_picks (h : rmRequest session st = some st')
    (hpos : 0 < (st.alloc session).minNodes)
    (henough : (st.alloc session).minNodes ≤ freeNodes st.nodes)
    (hround : RoundTrips (picked session st)) :
    ∃ regexp names erange, (st'.alloc session).nodes = some regexp ∧
      extractNodeNames (some regexp) false = some (.ok names, erange) ∧
      names.Perm (picked session st) ∧ st'.nodes = st.nodes ∧
      (st'.alloc session).minNodes = (st.alloc session).minNodes := by
  rcases rmRequest_cases h with ⟨hle, -⟩ | ⟨-, -, rc, noderegex, erange, hcreate, rfl⟩ | ⟨-, hno, -⟩
  · omega
  · obtain ⟨regexp, erange', hcreate', names, erange'', hext, hperm⟩ := hround st.erange
    rw [hcreate'] at hcreate
    cases hcreate
    exact ⟨noderegex, names, erange'', by simp [activate, setAlloc], hext, hperm, rfl,
      by simp [activate, setAlloc]⟩
  · exact absurd henough hno

/-- On a table of distinct names that list is good. -/
theorem rmRequest_goodList (h : rmRequest session st = some st')
    (hdistinct : (nodeNames st.nodes).Nodup) (hpos : 0 < (st.alloc session).minNodes)
    (henough : (st.alloc session).minNodes ≤ freeNodes st.nodes)
    (hround : RoundTrips (picked session st)) : GoodList st' session := by
  obtain ⟨regexp, names, erange, hlist, hext, hperm, hnodes, hmin⟩ :=
    rmRequest_picks h hpos henough hround
  have hsub := picked_sublist session st
  refine ⟨regexp, names, erange, hlist, hext, hperm.nodup_iff.mpr (hdistinct.sublist hsub), ?_, ?_⟩
  · intro x hx
    rw [hnodes]
    exact hsub.subset (hperm.mem_iff.mp hx)
  · rw [hmin, hperm.length_eq, picked, length_take, length_freeNames]
    omega

/-! ## 2. The condition, and the invariant -/

/-- **The condition on a step**: `REQ` is run while there are enough free nodes, whose names survive
the encoding; `ALLOCD` is run with `errno` clear, and on the list `ERROR` only while no session is
running. -/
def Serves (st : State) : Label → Prop
  | .run (.req session) => 0 < (st.alloc session).minNodes →
      (st.alloc session).minNodes ≤ freeNodes st.nodes ∧ RoundTrips (picked session st)
  | .run (.allocd session) =>
      st.erange = false ∧ ((st.alloc session).nodes = some errorList → st.running = [])
  | _ => True

/-- The scheduler as it starts, on a table of distinct names. -/
def InitialDistinct (st : State) : Prop := Initial st ∧ (nodeNames st.nodes).Nodup

/-- On a good list the error exit is taken for `ERROR` only. -/
theorem GoodList.takesError (h : GoodList st session)
    (hclear : st.erange = false) (herr : Scd.takesError session st = true) :
    (st.alloc session).nodes = some errorList := by
  obtain ⟨regexp, names, erange, hlist, hext, -, -, hlen⟩ := h
  by_contra hne
  rw [hlist, Option.some.injEq] at hne
  simp [Scd.takesError, hlist, hclear, hext, hlen, hne] at herr

/-- Only `REQ` brings an `ALLOCD` event. -/
theorem allocd_step {label} (hs : step st label = some st') (hmem : .allocd session ∈ st'.events) :
    .allocd session ∈ st.events ∨ label = .run (.req session) := by
  refine (step_event_cases hs hmem).imp_right fun hnew => ?_
  cases hnew with
  | run hf => cases hf; rfl

theorem rmRequest_idle (h : rmRequest session st = some st')
    (hno : ¬ 0 < (st.alloc session).minNodes) : st' = st := by
  rcases rmRequest_cases h with ⟨-, rfl⟩ | ⟨hpos, -⟩ | ⟨hpos, -⟩
  · rfl
  all_goals exact absurd hpos hno

/-- What holds along the runs. -/
structure AllocInv (st : State) : Prop where
  intact : st.intact = true
  distinct : (nodeNames st.nodes).Nodup
  good : ∀ session, .allocd session ∈ st.events → GoodList st session

/-- **One step.** -/
theorem AllocInv.step {label} (h : AllocInv st)
    (hbounded : ∀ session, .allocd session ∈ st.events → session ≤ st.lastSession)
    (hok : Serves st label) (hs : Scd.step st label = some st') : AllocInv st' := by
  have hnames := step_nodeNames hs
  refine ⟨?_, hnames ▸ h.distinct, ?_⟩
  · refine step_intact (fun session hl herr => ?_) hs
    subst hl
    have hmem := (react_run (react_of_step hs)).1
    exact hok.2 ((h.good session hmem).takesError hok.1 herr)
  · intro session hmem
    -- the list of a session with a pending `ALLOCD` event was made by its `REQ`, just now or before
    by_cases hreq : label = .run (.req session)
    · subst hreq
      obtain ⟨-, hrun⟩ := react_run (react_of_step hs)
      by_cases hpos : 0 < (st.alloc session).minNodes
      · obtain ⟨henough, hround⟩ := hok hpos
        exact rmRequest_goodList hrun h.distinct hpos henough hround
      · cases rmRequest_idle hrun hpos
        exact (h.good session (mem_of_mem_erase hmem)).congr rfl rfl rfl
    · have hold := (allocd_step hs hmem).resolve_right hreq
      obtain ⟨-, hmin, hnodes⟩ := step_alloc hs (hbounded session hold)
      exact (h.good session hold).congr hnames hmin (hnodes hreq)

/-- The runs of the scheduler on a table of distinct names, under the condition. -/
abbrev ServedRun : State → Prop := Reachable step InitialDistinct Serves

theorem ServedRun.initial (h : ServedRun st) : Reachable step Initial Serves st :=
  h.mono (fun _ hinit => hinit.1) fun _ _ hok => hok

/-- **Every pending `ALLOCD` event is for a good list**, by induction over the run. -/
theorem allocInv_of_servedRun (h : ServedRun st) : AllocInv st := by
  induction h with
  | start hinit =>
    exact ⟨hinit.1.intact, hinit.2, by simp [hinit.1.events]⟩
  | next hr hok hs ih =>
    refine ih.step (fun session hmem => ?_) hok hs
    exact ((places_le (ServedRun.initial hr) ih.intact).bounds (places_pos_of_allocd hmem)).2

/-! ## 3. The main result -/

/-- **(a)** One `ACTIVE` event is activated, for the session; the session is on `running`; and
exactly as many nodes as it asked for, the ones its list names, are `ALLOC`. -/
structure Allocates (st st' : State) (session : ℕ) : Prop where
  active : ∀ t, st'.events.count (.active t) = st.events.count (.active t) + one session t
  running : session ∈ st'.running
  nodes : ∃ names erange, extractNodeNames (st.alloc session).nodes false
      = some (.ok names, erange) ∧
    st'.nodes = st.nodes.map (Option.map fun node =>
      if node.name ∈ names then { node with scdState := .alloc } else node) ∧
    ((st.nodes.countP fun node => node.any fun node => decide (node.name ∈ names) : ℕ) : ℤ)
      = (st.alloc session).minNodes

/-- **(b)** No `ACTIVE` event is activated, no node changes, and the session is at the front of
`default`. -/
structure Requeues (st st' : State) (session : ℕ) : Prop where
  active : ∀ t, st'.events.count (.active t) = st.events.count (.active t)
  nodes : st'.nodes = st.nodes
  front : st'.defaultQueue.head? = some session

/-- A set of distinct names of the table names as many nodes. -/
theorem countP_named {nodes} (hdistinct : (nodeNames nodes).Nodup) {names : List Str}
    (hnodup : names.Nodup) (hmem : ∀ x ∈ names, x ∈ nodeNames nodes) :
    (nodes.countP fun node => node.any fun node => decide (node.name ∈ names)) = names.length := by
  have hfilter : (nodes.countP fun node => node.any fun node => decide (node.name ∈ names))
      = (nodeNames nodes).countP fun x => decide (x ∈ names) := by
    rw [nodeNames, countP_filterMap]
    refine countP_congr fun node _ => ?_
    cases node <;> simp
  rw [hfilter, countP_eq_length_filter]
  refine Perm.length_eq ((perm_ext_iff_of_nodup (hdistinct.filter _) hnodup).mpr ?_)
  intro x
  simpa using hmem x

/-- **Allocation is all or nothing**, in every run on a table of distinct names whose steps meet the
condition: every run of `pmf_allocated` is on a session with a node list and returns, having
allocated the session completely or not at all. -/
theorem allocation_all_or_nothing {st : State} (h : ServedRun st) {session : ℕ}
    (hpending : .allocd session ∈ st.events) (hok : Serves st (.run (.allocd session))) :
    (st.alloc session).nodes ≠ none ∧ ∃ st', step st (.run (.allocd session)) = some st' ∧
        (Allocates st st' session ∨ Requeues st st' session) := by
  have hinv := allocInv_of_servedRun h
  have hgood := hinv.good session hpending
  obtain ⟨regexp, names, erange, hlist, hext, hnodup, hmem, hlen⟩ := hgood
  refine ⟨by simp [hlist], ?_⟩
  obtain ⟨st', hrun⟩ := pmfAllocated_returns session
    { st with events := st.events.erase (.allocd session) } hlist (by simp [hok.1, hext])
  refine ⟨st', by rw [step, if_pos hinv.intact, react, if_pos hpending]; exact hrun, ?_⟩
  obtain ⟨nodes, hnodes, ⟨-, -, st₁, hq, -, -, rfl⟩ | ⟨herr, hexit, -⟩ |
    ⟨-, -, st₁, names', erange', hq, -, -, hext', -, rfl⟩⟩ := pmfAllocated_cases hrun
  · right
    refine ⟨fun t => ?_, hq.nodes, rfl⟩
    simp [allocatedError, activate, hq.events]
  · -- a good list other than `ERROR` does not take the error exit
    have hlist' := (hinv.good session hpending).takesError hok.1 hexit
    rw [hnodes, Option.some.injEq] at hlist'
    exact absurd hlist' herr
  · left
    have hsame : names' = names := by
      have hregexp : nodes = regexp := Option.some.inj (hnodes.symm.trans hlist)
      rw [hok.1, hregexp, hext] at hext'
      cases hext'
      rfl
    subst hsame
    refine ⟨fun t => ?_, by simp [activate], names', erange, by rw [hlist]; exact hext, ?_, ?_⟩
    · simp [activate, hq.events, one, count_singleton]
    · exact setScdState_eq _ _ _
    · rw [countP_named hinv.distinct hnodup hmem, hlen]

instance (st : State) : (label : Label) → Decidable (Serves st label)
  | .run (.req session) => inferInstanceAs (Decidable (0 < (st.alloc session).minNodes → _))
  | .run (.allocd _) => inferInstanceAs (Decidable (_ ∧ _))
  | .sessionReq _ | .sessionCancel _ | .nodeUp _ | .nodeDown _ | .drain _ | .resume _
  | .stepdComplete _ | .errno _ | .run (.init _) | .run .schedule | .run (.terminated _)
  | .run (.cancel _) | .run (.active _) | .run (.kill _) => instDecidableTrue

/-- One session on one node. -/
theorem allocation_all_or_nothing_one :
    ∃ st, (ServedRun st ∧ .allocd 1 ∈ st.events ∧ Serves st (.run (.allocd 1))) ∧
      (st.alloc 1).nodes ≠ none ∧ ∃ st', step st (.run (.allocd 1)) = some st' ∧
        (Allocates st st' 1 ∨ Requeues st st' 1) := by
  obtain ⟨st, hrun, hpending, hok⟩ :
      ∃ st, ServedRun st ∧ .allocd 1 ∈ st.events ∧ Serves st (.run (.allocd 1)) :=
    exists_of_follow ⟨initial_start [some node1], by decide +kernel⟩
      [.nodeUp ⟨0, 1⟩, .sessionReq (newAlloc 1), .run (.init 1), .run .schedule, .run (.req 1)]
      (by decide +kernel)
  exact ⟨st, ⟨hrun, hpending, hok⟩, allocation_all_or_nothing hrun hpending hok⟩

/-- **`pmf_allocated` runs on a session without a list**: two sessions are served with one free
node, and when the second `REQ` event runs the node is gone. -/
theorem allocd_without_a_list :
    ∃ st, Reachable step InitialDistinct always st ∧ .allocd 2 ∈ st.events ∧
      (st.alloc 2).nodes = none ∧ (step st (.run (.allocd 2))).isNone = true :=
  exists_of_follow
    ⟨initial_start [some node1], by decide +kernel⟩
    [.nodeUp ⟨0, 1⟩, .sessionReq (newAlloc 1), .sessionReq (newAlloc 1), .run (.init 1),
      .run (.init 2), .run .schedule, .run .schedule, .run (.req 1), .run (.allocd 1),
      .run (.req 2)] (by decide +kernel)

end Sensys.Orcm.Scd
