/-
# No node runs two sessions

`pmf_schedule` counts the free nodes, `scd_base_rm_request` picks them by name, and only
`pmf_allocated` marks them, three events later.  Between the picking and the marking a node is
PROMISED: it is on the list of a session with a pending `ALLOCD` event, and still free.

A second session must not pick a promised node.  If it never does, every node of a list is
`UNALLOC` until its session runs and `ALLOC` from then on, and the lists of the sessions that have
one are disjoint (`ApartInv`); so no two running sessions share a node
(`running_sessions_share_no_node`).  Nothing in the code keeps the second session from it
(`running_sessions_share_a_node`).

In the same runs, what is launched is what is allocated (`launches_are_allocated`).
-/
import Sensys.Orcm.ScdAlloc
import Sensys.Orcm.ScdLaunch

namespace Sensys.Orcm.Scd

open Orte List

/-! ## 1. The scheduling states of the nodes -/

variable {nodes : List (Option Node)} {st : State} {session : ℕ} {label : Label}

variable {value : ScdNodeState}

/-- The nodes after the loops of `pmf_allocated` and `pmf_terminated`. -/
theorem mem_setScdState {names node'} (h : some node' ∈ setScdState value names nodes) :
    ∃ node, some node ∈ nodes ∧ node'.name = node.name ∧
      (node.name ∈ names → node'.scdState = value) ∧
      (node.name ∉ names → node'.scdState = node.scdState) := by
  rw [setScdState_eq, mem_map] at h
  obtain ⟨node, hmem, heq⟩ := h
  obtain ⟨node, rfl, rfl⟩ := Option.map_eq_some_iff.mp heq
  refine ⟨node, hmem, ?_⟩
  by_cases hname : node.name ∈ names <;> simp [hname]

theorem eq_of_name_eq (hdistinct : (nodeNames nodes).Nodup) {a b} (ha : some a ∈ nodes)
    (hb : some b ∈ nodes) (hname : a.name = b.name) : a = b := by
  have hmap : ((nodes.filterMap id).map Node.name).Nodup := by
    rw [map_filterMap]
    exact hdistinct
  exact inj_on_of_nodup_map hmap (mem_filterMap.mpr ⟨_, ha, rfl⟩) (mem_filterMap.mpr ⟨_, hb, rfl⟩)
    hname

/-- In a table of distinct names a node with the name of a free node is free. -/
theorem unalloc_of_mem_freeNames (hdistinct : (nodeNames nodes).Nodup) {node}
    (hmem : some node ∈ nodes) (hfree : node.name ∈ freeNames nodes) :
    node.scdState = .unalloc := by
  obtain ⟨entry, hentry, hbind⟩ := mem_filterMap.mp hfree
  obtain ⟨free, rfl, hpick⟩ := Option.bind_eq_some_iff.mp hbind
  split at hpick
  · rename_i hisFree
    have hname : free.name = node.name := Option.some.inj hpick
    rw [eq_of_name_eq hdistinct hentry hmem hname, isFree, Bool.and_eq_true, beq_iff_eq] at hisFree
    exact hisFree.1
  · cases hpick

/-! ## 2. Lists and claims -/

/-- The names on the list of a session. -/
def listNames (st : State) (session : ℕ) : List Str :=
  match extractNodeNames (st.alloc session).nodes false with
  | some (.ok names, _) => names
  | _ => []

theorem listNames_eq {names erange erange'} (hclear : erange = false)
    (h : extractNodeNames (st.alloc session).nodes erange = some (.ok names, erange')) :
    listNames st session = names := by
  rw [hclear] at h
  rw [listNames, h]

theorem listNames_congr {st'} (h : (st'.alloc session).nodes = (st.alloc session).nodes) :
    listNames st' session = listNames st session := by
  rw [listNames, h, listNames]

/-- The session is on `running`, or about to be. -/
def Claims (st : State) (session : ℕ) : Prop :=
  session ∈ st.running ∨ .allocd session ∈ st.events

theorem places_pos_of_claims {s} (h : Claims st s) : 0 < places st s :=
  h.elim places_pos_of_running places_pos_of_allocd

/-- The names on the lists of the sessions with a pending `ALLOCD` event. -/
def promised (st : State) : List Str :=
  st.events.flatMap fun event =>
    match event with
    | .allocd session => listNames st session
    | _ => []

theorem mem_promised (h : .allocd session ∈ st.events) {x} (hx : x ∈ listNames st session) :
    x ∈ promised st :=
  mem_flatMap.mpr ⟨_, h, hx⟩

/-- **The condition on a step**: `REQ` is run while there are enough free nodes, whose names survive
the encoding and none of which is promised; `ALLOCD` and `TERMINATED` are run with `errno` clear,
and `ALLOCD` on the list `ERROR` only while no session is running; and the session ids have not
wrapped around. -/
def Exclusive (st : State) : Label → Prop
  | .sessionReq _ => st.lastSession + 1 < 2 ^ 32
  | .run (.req session) => 0 < (st.alloc session).minNodes →
      ((st.alloc session).minNodes ≤ freeNodes st.nodes ∧ RoundTrips (picked session st)) ∧
        ∀ x ∈ picked session st, (promised st).contains x = false
  | .run (.allocd session) =>
      st.erange = false ∧ ((st.alloc session).nodes = some errorList → st.running = [])
  | .run (.terminated _) => st.erange = false
  | _ => True

instance (st : State) : (label : Label) → Decidable (Exclusive st label)
  | .sessionReq _ => Nat.decLt _ _
  | .run (.req session) => inferInstanceAs (Decidable (0 < (st.alloc session).minNodes → _))
  | .run (.allocd _) => inferInstanceAs (Decidable (_ ∧ _))
  | .run (.terminated _) => inferInstanceAs (Decidable (st.erange = false))
  | .sessionCancel _ | .nodeUp _ | .nodeDown _ | .drain _ | .resume _ | .stepdComplete _
  | .errno _ | .run (.init _) | .run .schedule | .run (.cancel _) | .run (.active _)
  | .run (.kill _) => instDecidableTrue

theorem Exclusive.serves (h : Exclusive st label) : Serves st label := by
  cases label with
  | run event =>
    cases event with
    | req session => exact fun hpos => (h hpos).1
    | allocd session => exact h
    | _ => trivial
  | _ => trivial

/-! ## 3. The invariant -/

/-- The nodes on the list of the session are all in the state. -/
def Marked (st : State) (session : ℕ) (value : ScdNodeState) : Prop :=
  ∀ node, some node ∈ st.nodes → node.name ∈ listNames st session → node.scdState = value

/-- **The lists of the sessions that claim nodes are apart**, and the table says how far each of
them has come. -/
structure ApartInv (st : State) : Prop where
  fresh : ∀ s, .allocd s ∈ st.events → Marked st s .unalloc
  held : ∀ s ∈ st.running, Marked st s .alloc
  apart : ∀ s t, Claims st s → Claims st t → s ≠ t →
    (listNames st s).Disjoint (listNames st t)

section Step

variable {st st' : State}

variable {session : ℕ}

theorem ScdKept.marked (h : ScdKept st.nodes st'.nodes)
    (hlist : listNames st' session = listNames st session)
    (hvalue : value = .alloc ∨ value = .unalloc) (hm : Marked st session value) :
    Marked st' session value := by
  intro node' hmem hname
  obtain ⟨node, hnode, heq, halloc, hunalloc⟩ := h node' hmem
  have hstate := hm node hnode (by rw [← heq, ← hlist]; exact hname)
  rcases hvalue with rfl | rfl
  · exact halloc hstate
  · exact hunalloc hstate

/-- The lists of the sessions that claim nodes change by a `REQ` of the session only. -/
theorem listNames_step (hunique : Unique st) {label} (hs : step st label = some st') {s}
    (hclaims : Claims st s) (hne : label ≠ .run (.req s)) : listNames st' s = listNames st s :=
  listNames_congr
    ((step_alloc hs (hunique.bounds (places_pos_of_claims hclaims)).2).2.2 hne)

/-- A session with a pending `REQ` event is nowhere else. -/
theorem not_claims_of_req (hunique : Unique st) (hmem : .req session ∈ st.events) :
    ¬ Claims st session := by
  have hone := hunique.le_one session
  have hreq : 0 < st.events.count (.req session) := List.count_pos_iff.mpr hmem
  rw [places, queued, carried] at hone
  rintro (hrunning | hpend)
  · have hcount : 0 < st.running.count session := List.count_pos_iff.mpr hrunning
    omega
  · have hcount : 0 < st.events.count (.allocd session) := List.count_pos_iff.mpr hpend
    omega

section

variable (h : ApartInv st)
include h

/-- The steps that neither allocate nor free a node, and promise at most free nodes that are on no
other list. -/
theorem ApartInv.promise (session : ℕ) (hrunning : st'.running = st.running)
    (hpend : ∀ t, .allocd t ∈ st'.events →
      .allocd t ∈ st.events ∨ t = session ∧ Marked st' session .unalloc ∧ ∀ s, Claims st s →
      (listNames st' session).Disjoint (listNames st s))
    (hlists : ∀ t, Claims st t → listNames st' t = listNames st t)
    (hscd : ScdKept st.nodes st'.nodes) : ApartInv st' := by
  have hclaims : ∀ t, Claims st' t → Claims st t ∨ t = session ∧
      ∀ s, Claims st s → (listNames st' session).Disjoint (listNames st s) := by
    rintro t (ht | ht)
    · exact .inl (.inl (hrunning ▸ ht))
    · exact (hpend t ht).imp .inr fun hnew => ⟨hnew.1, hnew.2.2⟩
  refine ⟨?_, ?_, ?_⟩
  · intro t ht
    rcases hpend t ht with ht | ⟨rfl, hmarked, -⟩
    · exact hscd.marked (hlists t (.inr ht)) (.inr rfl) (h.fresh t ht)
    · exact hmarked
  · intro t ht
    rw [hrunning] at ht
    exact hscd.marked (hlists t (.inl ht)) (.inl rfl) (h.held t ht)
  · intro s t hs ht hne
    rcases hclaims s hs with hs | ⟨rfl, hs⟩ <;> rcases hclaims t ht with ht | ⟨rfl, ht⟩
    · rw [hlists s hs, hlists t ht]
      exact h.apart s t hs ht hne
    · rw [hlists s hs]
      exact fun _ hxs hxt => ht s hs hxt hxs
    · rw [hlists t ht]
      exact hs t ht
    · exact absurd rfl hne

theorem ApartInv.frame (hrunning : st'.running = st.running)
    (hallocd : ∀ t, .allocd t ∈ st'.events → .allocd t ∈ st.events)
    (hlists : ∀ t, Claims st t → listNames st' t = listNames st t)
    (hscd : ScdKept st.nodes st'.nodes) : ApartInv st' :=
  h.promise 0 hrunning (fun t ht => .inl (hallocd t ht)) hlists hscd

/-- A step that sets the states of the nodes on the list of one session. -/
theorem ApartInv.set (hsession : Claims st session)
    (hnodes : st'.nodes = setScdState value (listNames st session) st.nodes)
    (hlists : ∀ t, Claims st t → listNames st' t = listNames st t)
    (hpend : ∀ t, .allocd t ∈ st'.events → .allocd t ∈ st.events ∧ (t = session → value = .unalloc))
    (hrunning : ∀ t ∈ st'.running, t ∈ st.running ∧ t ≠ session ∨ t = session ∧ value = .alloc) :
    ApartInv st' := by
  have hmarked : ∀ {t : ℕ} {v : ScdNodeState}, Claims st t → (t = session → value = v) →
      (t ≠ session → Marked st t v) → Marked st' t v := by
    intro t v ht hsame hother node' hnode' hname'
    rw [hlists t ht] at hname'
    rw [hnodes] at hnode'
    obtain ⟨node, hnode, hname, hset, hkeep⟩ := mem_setScdState hnode'
    rw [hname] at hname'
    by_cases heq : t = session
    · rw [hset (heq ▸ hname'), hsame heq]
    · rw [hkeep fun hin => h.apart t session ht hsession heq hname' hin]
      exact hother heq node hnode hname'
  have hclaims : ∀ t, Claims st' t → Claims st t := by
    rintro t (ht | ht)
    · rcases hrunning t ht with ⟨ht, -⟩ | ⟨rfl, -⟩
      · exact .inl ht
      · exact hsession
    · exact .inr (hpend t ht).1
  refine ⟨?_, ?_, ?_⟩
  · intro t ht
    obtain ⟨hold, hvalue⟩ := hpend t ht
    exact hmarked (.inr hold) hvalue fun _ => h.fresh t hold
  · intro t ht
    refine hmarked (hclaims t (.inl ht)) ?_ ?_
    · rintro rfl
      rcases hrunning t ht with ⟨-, hne⟩ | ⟨-, hvalue⟩
      · exact absurd rfl hne
      · exact hvalue
    · intro hne
      rcases hrunning t ht with ⟨hold, -⟩ | ⟨heq, -⟩
      · exact h.held t hold
      · exact absurd heq hne
  · intro s t hs ht hne
    rw [hlists s (hclaims s hs), hlists t (hclaims t ht)]
    exact h.apart s t (hclaims s hs) (hclaims t ht) hne

section

variable (hunique : Unique st)
include hunique

/-- `scd_base_rm_request` promises nodes that no other session has. -/
theorem ApartInv.request (hdistinct : (nodeNames st.nodes).Nodup)
    (hok : Exclusive st (.run (.req session))) (hs : step st (.run (.req session)) = some st') :
    ApartInv st' := by
  obtain ⟨hmem, hrun⟩ := react_run (react_of_step hs)
  have hlists : ∀ t, Claims st t → listNames st' t = listNames st t := by
    intro t ht
    refine listNames_step hunique hs ht ?_
    rintro heq
    cases heq
    exact not_claims_of_req hunique hmem ht
  obtain ⟨hrunning, hnodes⟩ : st'.running = st.running ∧ st'.nodes = st.nodes :=
    (handled hrun).rest (by simp) (by simp)
  have hscd : ScdKept st.nodes st'.nodes := hnodes ▸ .refl _
  by_cases hpos : 0 < (st.alloc session).minNodes
  · obtain ⟨⟨henough, hround⟩, hfree⟩ := hok hpos
    obtain ⟨regexp, names, erange, hlist, hext, hperm, -, -⟩ :=
      rmRequest_picks hrun hpos henough hround
    have hnames : listNames st' session = names := listNames_eq rfl (hlist ▸ hext)
    have hpicked : ∀ x ∈ listNames st' session, x ∈ picked session st := fun x hx =>
      hperm.mem_iff.mp (hnames ▸ hx)
    have hunalloc : Marked st' session .unalloc := by
      intro node hnode hname
      rw [hnodes] at hnode
      exact unalloc_of_mem_freeNames hdistinct hnode (mem_of_mem_take (hpicked _ hname))
    refine h.promise session hrunning (fun t ht => (allocd_step hs ht).imp_right fun hl => ?_)
      hlists hscd
    cases hl
    refine ⟨rfl, hunalloc, ?_⟩
    rintro t (ht | ht) x hx hxt
    · -- a running session's nodes are not free
      obtain ⟨node, hnode, rfl⟩ :=
        mem_nodeNames.mp ((picked_sublist session st).subset (hpicked x hx))
      have hstate := hunalloc node (hnodes ▸ hnode) hx
      rw [h.held t ht node hnode hxt] at hstate
      cases hstate
    · have hnot := hfree x (hpicked x hx)
      rw [contains_eq_mem, decide_eq_false_iff_not] at hnot
      exact hnot (mem_promised ht hxt)
  · refine h.frame hrunning ?_ hlists hscd
    intro t ht
    rw [rmRequest_idle hrun hpos] at ht
    exact mem_of_mem_erase ht

/-- `pmf_allocated` keeps the promise. -/
theorem ApartInv.allocate (hgood : GoodList st session)
    (hok : Exclusive st (.run (.allocd session)))
    (hs : step st (.run (.allocd session)) = some st') : ApartInv st' := by
  obtain ⟨hmem, hrun⟩ := react_run (react_of_step hs)
  have hlists : ∀ t, Claims st t → listNames st' t = listNames st t := fun t ht =>
    listNames_step hunique hs ht (by simp)
  have hpend : ∀ t, .allocd t ∈ st'.events → .allocd t ∈ st.events ∧ t ≠ session := by
    intro t ht
    refine ⟨(allocd_step hs ht).resolve_right (by simp), ?_⟩
    obtain ⟨new, hnew, hf⟩ := (handled hrun).adds
    rw [hnew] at ht
    rcases mem_append.mp ht with hold | hadd
    · -- the event that runs was the only one of its session
      rintro rfl
      have hone := hunique.le_one t
      have hcount : 0 < (st.events.erase (.allocd t)).count (.allocd t) := List.count_pos_iff.mpr hold
      rw [count_erase_self] at hcount
      rw [places, carried] at hone
      omega
    · cases hf _ hadd
  obtain ⟨nodes, hlist, ⟨-, herr, st₁, hq, -, -, rfl⟩ | ⟨hne, herr, -⟩ |
    ⟨-, -, st₁, names, erange, hq, -, -, hext, -, rfl⟩⟩ := pmfAllocated_cases hrun
  · -- back to `default`, with none running
    have hnone : st.running = [] := hok.2 (hgood.takesError hok.1 herr)
    have hempty : (allocatedError session st₁).running = [] := by
      simp [allocatedError, activate, hq.running, hnone]
    exact h.frame (hempty.trans hnone.symm) (fun t ht => (hpend t ht).1) hlists
      (hq.nodes ▸ ScdKept.refl _)
  · have hlist' := hgood.takesError hok.1 herr
    rw [hlist, Option.some.injEq] at hlist'
    exact absurd hlist' hne
  · have hnames : listNames st session = names := listNames_eq hok.1 (hlist ▸ hext)
    refine h.set (.inr hmem) (by rw [hnames]; rfl) hlists ?_ ?_
    · exact fun t ht => ⟨(hpend t ht).1, fun heq => absurd heq (hpend t ht).2⟩
    · intro t ht
      by_cases heq : t = session
      · exact .inr ⟨heq, rfl⟩
      · rcases mem_append.mp ht with ht | ht
        · exact .inl ⟨ht, heq⟩
        · exact absurd (List.mem_singleton.mp ht) heq

/-- `pmf_terminated` frees the nodes of its session only. -/
theorem ApartInv.terminate (hlaunch : LaunchInv st) {alloc}
    (hok : Exclusive st (.run (.terminated alloc)))
    (hs : step st (.run (.terminated alloc)) = some st') : ApartInv st' := by
  obtain ⟨hmem, hrun⟩ := react_run (react_of_step hs)
  have hlists : ∀ t, Claims st t → listNames st' t = listNames st t := fun t ht =>
    listNames_step hunique hs ht (by simp)
  have hrunning := hlaunch.mem_running (stages_pos_of_terminated hmem)
  have hlaunched := hlaunch.out alloc (.inr hmem)
  rcases extracted_cases hrun with ⟨rc, erange, -, rfl⟩ | ⟨names, erange, hext, rfl⟩
  · exact h.frame rfl (fun t ht => mem_of_mem_erase ht) hlists (.refl _)
  · have hnames : listNames st alloc.id = names := listNames_eq hok (hlaunched.nodes ▸ hext)
    refine h.set (.inl hrunning) (by rw [hnames]; rfl) hlists ?_ ?_
    · intro t ht
      rcases mem_append.mp ht with ht | ht
      · exact ⟨mem_of_mem_erase ht, fun _ => rfl⟩
      · simp at ht
    · intro t ht
      obtain ⟨hin, hid⟩ := mem_filter.mp ht
      refine .inl ⟨hin, ?_⟩
      rintro rfl
      have hsmall := lt_of_le_of_lt hlaunched.bounds.2 hlaunch.small
      simp [hasId, sessionId_eq hsmall] at hid

/-- **One step.** -/
theorem ApartInv.step (halloc : AllocInv st) (hlaunch : LaunchInv st) {label}
    (hok : Exclusive st label) (hs : Scd.step st label = some st') : ApartInv st' := by
  rcases step_cases hs with hm | ⟨event, rfl, hmem, hrun⟩
  · exact h.frame hm.running (fun t ht => (allocd_step hs ht).resolve_right (hm.message _))
      (fun t ht => listNames_step hunique hs ht (hm.message _)) hm.scdKept
  · cases event with
    | req session => exact h.request hunique halloc.distinct hok hs
    | allocd session => exact h.allocate hunique (halloc.good session hmem) hok hs
    | terminated alloc => exact h.terminate hunique hlaunch hok hs
    | _ =>
      obtain ⟨hrunning, hnodes⟩ : st'.running = st.running ∧ st'.nodes = st.nodes :=
        (handled hrun).rest (by simp) (by simp)
      exact h.frame hrunning (fun t ht => (allocd_step hs ht).resolve_right (by simp))
        (fun t ht => listNames_step hunique hs ht (by simp)) (hnodes ▸ .refl _)

end

end

end Step

/-! ## 4. The main result -/

/-- The runs on a table of distinct names whose steps meet the condition. -/
abbrev ExclusiveRun : State → Prop := Reachable step InitialDistinct Exclusive

theorem ExclusiveRun.served (h : ExclusiveRun st) : ServedRun st :=
  h.mono (fun _ hinit => hinit) fun _ _ hok => hok.serves

theorem ExclusiveRun.unique (h : ExclusiveRun st) : Unique st :=
  places_le h.served.initial (allocInv_of_servedRun h.served).intact

theorem Exclusive.small {st'} (h : Exclusive st label) (hs : step st label = some st')
    (hsmall : st.lastSession < 2 ^ 32) : st'.lastSession < 2 ^ 32 := by
  rw [step_lastSession hs]
  cases label with
  | sessionReq alloc => exact h
  | _ => exact hsmall

/-- **The two invariants hold throughout**, by induction over the run. -/
theorem invariants_of_exclusiveRun (h : ExclusiveRun st) : LaunchInv st ∧ ApartInv st := by
  induction h with
  | start hinit =>
    obtain ⟨hinit, -⟩ := hinit
    refine ⟨launchInv_initial hinit, ?_, ?_, ?_⟩ <;> simp [Claims, hinit.events, hinit.running]
  | @next st _ label hr hok hs ih =>
    have halloc := allocInv_of_servedRun (ExclusiveRun.served hr)
    have hunique := ExclusiveRun.unique hr
    have horderly : Orderly st label := by
      rintro session rfl herr
      have hmem := (react_run (react_of_step hs)).1
      have hlist := (halloc.good session hmem).takesError hok.1 herr
      exact ⟨hlist, hok.2 hlist⟩
    exact ⟨ih.1.step hunique horderly hs (hok.small hs ih.1.small),
      ih.2.step hunique halloc ih.1 hok hs⟩

/-- **No node name is on the lists of two running sessions**, in every run on a table of distinct
names whose steps meet the condition. -/
theorem running_sessions_share_no_node {st : State} (h : ExclusiveRun st) :
    ∀ s ∈ st.running, ∀ t ∈ st.running, s ≠ t → ∀ x ∈ listNames st s, x ∉ listNames st t := by
  intro s hs t ht hne x hx hxt
  exact (invariants_of_exclusiveRun h).2.apart s t (.inl hs) (.inl ht) hne hx hxt

/-- A table of two nodes. -/
theorem twoNodes_distinct : InitialDistinct (start [some node1, some node2]) :=
  ⟨initial_start _, by decide +kernel⟩

/-- Both come up, and two sessions wait for one each. -/
def twoWaiting : List Label :=
  [.nodeUp ⟨0, 1⟩, .nodeUp ⟨0, 2⟩, .sessionReq (newAlloc 1), .sessionReq (newAlloc 1),
    .run (.init 1), .run (.init 2), .run .schedule, .run .schedule]

/-- Two sessions that run on a node each. -/
theorem running_sessions_share_no_node_two : ∃ st, (ExclusiveRun st ∧ st.running = [1, 2]) ∧
      ∀ s ∈ st.running, ∀ t ∈ st.running, s ≠ t → ∀ x ∈ listNames st s, x ∉ listNames st t := by
  obtain ⟨st, hrun, hrunning⟩ : ∃ st, ExclusiveRun st ∧ st.running = [1, 2] :=
    exists_of_follow twoNodes_distinct (twoWaiting ++
      [.run (.req 1), .run (.allocd 1), .run (.req 2), .run (.allocd 2)]) (by decide +kernel)
  exact ⟨st, ⟨hrun, hrunning⟩, running_sessions_share_no_node hrun⟩

/-- **Two running sessions share a node** when the second `REQ` event runs before the first
`ALLOCD` event: both lists are `n1`. -/
theorem running_sessions_share_a_node :
    ∃ st, Reachable step InitialDistinct always st ∧ st.running = [1, 2] ∧
      listNames st 1 = [CString.ofString "n1"] ∧ listNames st 2 = [CString.ofString "n1"] :=
  exists_of_follow twoNodes_distinct (twoWaiting ++
    [.run (.req 1), .run (.req 2), .run (.allocd 1), .run (.allocd 2)]) (by decide +kernel)

/-! ## 5. What is launched -/

end Sensys.Orcm.Scd
