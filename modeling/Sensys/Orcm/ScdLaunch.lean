/-
# What the step daemons hold

A session on `running` is started by its `ACTIVE` event, tracked until the step daemons it was
sent to have checked in, and ended by a `TERMINATED` event.  `stages` counts these: an `ACTIVE`
event, a tracker or a `TERMINATED` event for a session is there only while the session is running,
and there is never more than one of them (`LaunchInv.stages`).

The allocation in a `TERMINATED` event is a copy that went out with a launch and came back.  It
still names the nodes the session has: the list of a session is changed by its `REQ` event only,
and a session that was launched never has one again (`Launched.step`).

Both need that `pmf_allocated` activates no session it puts back (`Orderly`), and that session ids
have not wrapped around.
-/
import Sensys.Orcm.ScdPlacement

namespace Sensys.Orcm.Scd

open Orte List

/-! ## 1. The stages of a running session -/

/-- The event ends the session with the id. -/
def endsFor (session : ℕ) : Event → Bool
  | .terminated alloc => alloc.id == session
  | _ => false

/-- The events and trackers that are there for a running session. -/
def stages (st : State) (session : ℕ) : ℕ :=
  st.events.count (.active session) + st.tracking.countP (fun trk => trk.allocId == session)
    + st.events.countP (endsFor session)

/-- What an event counts. -/
def stage (event : Event) (session : ℕ) : ℕ :=
  one event (.active session) + if endsFor session event then 1 else 0

theorem stage_eq (event session) : stage event session = match event with
    | .active x => one x session
    | .terminated alloc => one alloc.id session
    | _ => 0 := by
  cases event <;> simp [stage, one, endsFor]

variable {event : Event} {st : State}

theorem stages_activate (event : Event) (st : State) (session : ℕ) :
    stages (activate event st) session = stages st session + stage event session := by
  simp only [stages, activate, count_append_singleton, countP_append, countP_singleton,
    stage]
  omega

theorem stages_erase (h : event ∈ st.events) (session : ℕ) :
    stages { st with events := st.events.erase event } session + stage event session
      = stages st session := by
  have hactive := count_erase_one h (.active session)
  have hends := (perm_cons_erase h).countP_eq (endsFor session)
  rw [countP_cons] at hends
  simp only [stages, stage]
  omega

/-- An allocation is activated by `pmf_allocated` only, and ended by a message only. -/
theorem Follows.stage_eq_zero {e} (h : Follows event e) (hne : ∀ s, event ≠ .allocd s)
    (session : ℕ) : stage e session = 0 := by
  cases h with
  | active x => exact absurd rfl (hne x)
  | _ => rw [stage_eq]

theorem stages_append {st' new} (hevents : st'.events = st.events ++ new)
    (htracking : st'.tracking = st.tracking) {session} (hzero : ∀ e ∈ new, stage e session = 0) :
    stages st' session = stages st session := by
  have hactive : new.count (.active session) = 0 := by
    refine count_eq_zero.mpr fun hmem => ?_
    have hactive := hzero _ hmem
    simp [stage, one] at hactive
  have hends : new.countP (endsFor session) = 0 := by
    refine countP_eq_zero.mpr fun e he hend => ?_
    have hstage := hzero e he
    simp [stage, hend] at hstage
  simp only [stages, hevents, htracking, count_append, countP_append, hactive, hends]
  omega

/-- A tracker goes when the last step daemon has checked in. -/
theorem checkIn_countP (alloc : Alloc) (tracking : List Tracker) (session : ℕ) :
    (checkIn alloc tracking).2.countP (fun trk => trk.allocId == session)
        + (if (checkIn alloc tracking).1 then one alloc.id session else 0)
      = tracking.countP fun trk => trk.allocId == session := by
  induction tracking with
  | nil => rfl
  | cons trk tracking ih =>
    by_cases hid : trk.allocId = alloc.id
    · by_cases hlast : trk.countCheckedIn + 1 = alloc.minNodes
      · simp [checkIn, hid, hlast, countP_cons, one]
      · simp [checkIn, hid, hlast, countP_cons]
    · simp only [checkIn, hid, if_false, countP_cons] at ih ⊢
      omega

theorem recvStepdComplete_stages (alloc : Alloc) (st : State) (session : ℕ) :
    stages (recvStepdComplete alloc st) session = stages st session := by
  rw [recvStepdComplete_eq]
  simp only [stages, ← checkIn_countP alloc st.tracking session, count_append, countP_append]
  cases (checkIn alloc st.tracking).1 with
  | false => simp
  | true =>
    simp [endsFor, one, countP_singleton]
    omega

/-- **A message** leaves the stages alone. -/
theorem Messaged.stages {st' label} (h : Messaged st label st') (hs : step st label = some st')
    (session : ℕ) : Scd.stages st' session = Scd.stages st session := by
  by_cases hl : ∀ alloc, label ≠ .stepdComplete alloc
  · obtain ⟨new, hevents, hnew⟩ := h.events
    refine stages_append hevents (h.tracking hl) fun e he => ?_
    cases hnew e he with
    | sessionReq | sessionCancel => rw [stage_eq]
    | stepdComplete alloc => exact absurd rfl (hl alloc)
    | run => exact absurd rfl (h.message _)
  · push Not at hl
    obtain ⟨alloc, rfl⟩ := hl
    rw [(react_stepdComplete (react_of_step hs)).2]
    exact recvStepdComplete_stages alloc st session

/-! ## 2. Running sessions and their stages -/

/-- `pmf_allocated` takes its error exit only for the list `ERROR`, with no session running. -/
def Orderly (st : State) (label : Label) : Prop :=
  ∀ session, label = .run (.allocd session) → takesError session st = true →
    (st.alloc session).nodes = some errorList ∧ st.running = []

section Step

variable {st st' : State} {label : Label}

/-- A session leaves `running` only by being ended. -/
theorem step_running_le (hs : step st label = some st') (hok : Orderly st label) (s : ℕ) :
    st.running.count s ≤ st'.running.count s + (takenOff st label).count s := by
  rcases step_cases hs with hm | ⟨event, rfl, hmem, hhandle⟩
  · rw [hm.running]
    omega
  · cases event with
    | allocd session =>
      obtain ⟨nodes, -, ⟨-, herr, -⟩ | ⟨-, herr, -⟩ |
        ⟨-, -, st₁, names, erange, hq, -, -, -, -, rfl⟩⟩ := pmfAllocated_cases hhandle
      · simp [(hok session rfl herr).2]
      · simp [(hok session rfl herr).2]
      · simp only [activate, count_append]
        omega
    | terminated alloc =>
      rcases extracted_cases hhandle with ⟨rc, erange, -, rfl⟩ | ⟨names, erange, hext, rfl⟩
      · exact Nat.le_add_right _ _
      · have hext' : extractNodeNames alloc.nodes st.erange = some (.ok names, erange) := hext
        have hsplit := count_filter_split (hasId alloc.id) st.running s
        simp only [takenOff, hext', activate]
        omega
    | _ =>
      rw [((handled hhandle).rest (by simp) (by simp)).1]
      exact Nat.le_add_right _ _

/-- The handlers that neither move a running session nor start or end one. -/
theorem handle_stages {event} (hmem : event ∈ st.events)
    (h : handle event { st with events := st.events.erase event } = some st')
    (h₁ : ∀ s, event ≠ .allocd s) (h₂ : ∀ alloc, event ≠ .terminated alloc)
    (h₃ : ∀ s, event ≠ .active s) {s} (hstages : stages st s ≤ st.running.count s) :
    stages st' s ≤ st'.running.count s := by
  obtain ⟨new, hevents, hnew⟩ := (handled h).adds
  rw [((handled h).rest h₁ h₂).1, stages_append hevents ((handled h).launches h₃).1 fun e he =>
    (hnew e he).stage_eq_zero h₁ s]
  have herase := stages_erase hmem s
  dsimp only
  omega

end Step

/-! ## 3. The invariant -/

/-- The allocation belongs to a session that is running or over, and names the session's nodes. -/
structure Launched (st : State) (alloc : Alloc) : Prop where
  bounds : 1 ≤ alloc.id ∧ alloc.id ≤ st.lastSession
  nodes : alloc.nodes = (st.alloc alloc.id).nodes
  places : places st alloc.id ≤ st.running.count alloc.id

/-- The allocation was sent with a launch, or is in a `TERMINATED` event. -/
def Out (st : State) (alloc : Alloc) : Prop :=
  (∃ msg ∈ st.sent, msg.command = .launchStepd ∧ msg.alloc = alloc) ∨
    .terminated alloc ∈ st.events

/-- What holds along the runs. -/
structure LaunchInv (st : State) : Prop where
  small : st.lastSession < 2 ^ 32
  ids : ∀ s, 1 ≤ s → s ≤ st.lastSession → (st.alloc s).id = s
  stages : ∀ s, stages st s ≤ st.running.count s
  out : ∀ alloc, Out st alloc → Launched st alloc

section Step

variable {st st' : State} {label : Label}

variable {s : ℕ} {alloc : Alloc}

theorem sessionId_eq (h : s < 2 ^ 32) : sessionId s = s := Nat.mod_eq_of_lt h

/-- The session of an `ACTIVE` event, of a tracker, or of a `TERMINATED` event is running. -/
theorem LaunchInv.mem_running (h : LaunchInv st) (hpos : 0 < Scd.stages st s) : s ∈ st.running :=
  List.count_pos_iff.mp (lt_of_lt_of_le hpos (h.stages s))

theorem stages_pos_of_active (h : .active s ∈ st.events) : 0 < stages st s := by
  have hcount : 0 < st.events.count (.active s) := List.count_pos_iff.mpr h
  rw [stages]
  omega

theorem stages_pos_of_terminated (h : .terminated alloc ∈ st.events) : 0 < stages st alloc.id := by
  have hcount : 0 < st.events.countP (endsFor alloc.id) :=
    List.countP_pos_iff.mpr ⟨_, h, by simp [endsFor]⟩
  rw [stages]
  omega

/-- One step, for the stages. -/
theorem LaunchInv.stages_step (h : LaunchInv st) (hunique : Unique st) (hok : Orderly st label)
    (hs : step st label = some st') (s : ℕ) : Scd.stages st' s ≤ st'.running.count s := by
  have hstages := h.stages s
  rcases step_cases hs with hm | ⟨event, rfl, hmem, hhandle⟩
  · rw [hm.running, hm.stages hs]
    exact hstages
  · have herase := stages_erase hmem s
    rw [stage_eq] at herase
    cases event with
    | allocd session =>
      obtain ⟨nodes, hlist, ⟨-, herr, st₁, hq, htrk, -, rfl⟩ | ⟨hne, herr, -⟩ |
        ⟨-, -, st₁, names, erange, hq, htrk, -, -, -, rfl⟩⟩ := pmfAllocated_cases hhandle
      · -- nothing runs, so nothing is staged
        have hnone := (hok session rfl herr).2
        rw [hnone, count_nil] at hstages
        rw [allocatedError, stages_activate, stage_eq]
        simp only [Scd.stages, hq.events, htrk] at herase hstages ⊢
        omega
      · obtain ⟨herrlist, -⟩ := hok session rfl herr
        rw [hlist, Option.some.injEq] at herrlist
        exact absurd herrlist hne
      · rw [stages_activate, stage_eq]
        simp only [Scd.stages, activate, hq.events, htrk, count_append_singleton]
          at herase hstages ⊢
        omega
    | active session =>
      obtain ⟨hq, hend⟩ := rmActive_cases hhandle
      have hrun := h.mem_running (stages_pos_of_active hmem)
      have hid : sessionId session = session := by
        have hbound := (hunique.bounds (places_pos_of_running hrun)).2
        exact sessionId_eq (lt_of_le_of_lt hbound h.small)
      rw [hq.running]
      rcases hend with ⟨htrk, -⟩ | ⟨htrk, -⟩
      · simp only [Scd.stages, hq.events, htrk] at herase hstages ⊢
        omega
      · simp only [Scd.stages, hq.events, htrk, countP_append, countP_singleton, hid,
          beq_iff_eq, one] at herase hstages ⊢
        omega
    | terminated alloc =>
      rcases extracted_cases hhandle with ⟨rc, erange, -, rfl⟩ | ⟨names, erange, -, rfl⟩
      · simp only [Scd.stages] at herase hstages ⊢
        omega
      · rw [stages_activate, stage_eq]
        by_cases hid : hasId alloc.id s = true
        · -- the stage that was there for the session was this event
          have hone := hunique.le_one s
          rw [places, queued] at hone
          by_cases hrun : s ∈ st.running
          · have hsmall := lt_of_le_of_lt (hunique.bounds (places_pos_of_running hrun)).2 h.small
            rw [hasId, decide_eq_true_eq, sessionId_eq hsmall] at hid
            simp only [Scd.stages, one, if_pos hid.symm] at herase hstages ⊢
            omega
          · rw [count_eq_zero.mpr hrun] at hstages
            simp only [Scd.stages] at herase hstages ⊢
            omega
        · have hkeep : (st.running.filter fun session => !hasId alloc.id session).count s
              = st.running.count s := count_filter (by simpa using hid)
          simp only [Scd.stages, activate, hkeep] at herase hstages ⊢
          omega
    | _ => exact handle_stages hmem hhandle (by simp) (by simp) (by simp) hstages

/-- A launch carries the allocation of a session that is activated; what comes back was sent. -/
theorem step_out (hs : step st label = some st') (h : Out st' alloc) :
    Out st alloc ∨ ∃ session, label = .run (.active session) ∧ .active session ∈ st.events ∧
      (st.alloc session).Agrees alloc := by
  rcases h with ⟨msg, hsent, hcmd, rfl⟩ | hterm
  · rcases step_cases hs with hm | ⟨event, rfl, hmem, hhandle⟩
    · rw [hm.sent] at hsent
      exact .inl (.inl ⟨msg, hsent, hcmd, rfl⟩)
    · by_cases hactive : ∀ session, event ≠ .active session
      · exact .inl (.inl ⟨msg, ((handled hhandle).launches hactive).2 msg hsent hcmd, hcmd, rfl⟩)
      · push Not at hactive
        obtain ⟨session, rfl⟩ := hactive
        obtain ⟨-, ⟨-, hsame⟩ | ⟨-, hnew⟩⟩ := rmActive_cases hhandle
        · rw [hsame] at hsent
          exact .inl (.inl ⟨msg, hsent, hcmd, rfl⟩)
        · rcases hnew msg hsent with hold | hag
          · exact .inl (.inl ⟨msg, hold, hcmd, rfl⟩)
          · exact .inr ⟨session, rfl, hmem, hag⟩
  · rcases step_event_cases hs hterm with hold | hnew
    · exact .inl (.inr hold)
    · cases hnew with
      | stepdComplete alloc =>
        exact .inl (.inl (react_stepdComplete (react_of_step hs)).1)
      | run hf => cases hf

/-- A launched session is launched for good. -/
theorem Launched.step (h : Launched st alloc) (hok : Orderly st label)
    (hs : step st label = some st') : Launched st' alloc := by
  have hlast := step_lastSession hs
  have hintact := step_intact (fun session hl herr => (hok session hl herr).2) hs
  refine ⟨⟨h.bounds.1, by have := h.bounds.2; omega⟩, ?_, ?_⟩
  · -- a `REQ` event would be a second place
    have hreq : label ≠ .run (.req alloc.id) := by
      rintro rfl
      have hmem := (react_run (react_of_step hs)).1
      have hcount : 0 < st.events.count (.req alloc.id) := List.count_pos_iff.mpr hmem
      have hplaces := h.places
      rw [Scd.places, queued, carried] at hplaces
      omega
    exact h.nodes.trans ((step_alloc hs h.bounds.2).2.2 hreq).symm
  · have hbal := step_places hs hintact alloc.id
    have hrun := step_running_le hs hok alloc.id
    have hplaces := h.places
    have hnew : (requested st label).count alloc.id = 0 := by
      have hbound := h.bounds.2
      rcases requested_cases st label with hnil | hone
      · rw [hnil, count_nil]
      · rw [hone]
        exact count_eq_zero.mpr (by simp; omega)
    omega

/-- The ids of the sessions are their numbers. -/
theorem LaunchInv.ids_step (h : LaunchInv st) (hs : Scd.step st label = some st')
    (hsmall : st'.lastSession < 2 ^ 32) (s : ℕ) (hone : 1 ≤ s) (hle : s ≤ st'.lastSession) :
    (st'.alloc s).id = s := by
  by_cases hold : s ≤ st.lastSession
  · exact (step_alloc hs hold).1.trans (h.ids s hone hold)
  · have hlast := step_lastSession hs
    cases label with
    | sessionReq alloc =>
      cases react_of_step hs
      have hs : s = st.lastSession + 1 := by simp [requested] at hlast; omega
      subst hs
      simpa [recvSessionReq, activate] using sessionId_eq hsmall
    | _ => simp [requested] at hlast; omega

/-- **One step.** -/
theorem LaunchInv.step (h : LaunchInv st) (hunique : Unique st) (hok : Orderly st label)
    (hs : Scd.step st label = some st') (hsmall : st'.lastSession < 2 ^ 32) : LaunchInv st' := by
  refine ⟨hsmall, h.ids_step hs hsmall, h.stages_step hunique hok hs, ?_⟩
  intro alloc hout
  rcases step_out hs hout with hold | ⟨session, -, hmem, hag⟩
  · exact (h.out alloc hold).step hok hs
  · have hrun := h.mem_running (stages_pos_of_active hmem)
    have hbounds := hunique.bounds (places_pos_of_running hrun)
    have hid : alloc.id = session := hag.id.trans (h.ids session hbounds.1 hbounds.2)
    have hlaunched : Launched st alloc := by
      refine ⟨hid ▸ hbounds, by rw [hag.nodes, hid], ?_⟩
      have hcount : 0 < st.running.count session := List.count_pos_iff.mpr hrun
      rw [hid]
      exact (hunique.le_one session).trans hcount
    exact hlaunched.step hok hs

end Step

theorem launchInv_initial (h : Initial st) : LaunchInv st := by
  refine ⟨by simp [h.lastSession], ?_, ?_, ?_⟩
  · intro s hone hle
    rw [h.lastSession] at hle
    omega
  · simp [stages, h.events, h.tracking]
  · simp [Out, h.sent, h.events]

end Sensys.Orcm.Scd
