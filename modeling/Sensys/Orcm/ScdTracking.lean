/-
# Counting the step daemons

`scd_base_rm_active` launches the step daemons of a session and appends a tracker with its id.
Every `STEPD_COMPLETE` message raises the count of the FIRST tracker with the id of its allocation;
when the count reaches `min_nodes` the session is ended and the tracker removed.

A session that is activated again, as `pmf_allocated` lets happen when it puts a session back after
it has activated it, gets a SECOND tracker: it is ended twice, and the second time by messages that
were counted for the first.  `counted_once` says that this is all that can go wrong.
-/
import Sensys.Lib.Run
import Sensys.Orcm.ScdHandlers

namespace Sensys.Orcm.Scd

open Orte List

/-! ## 1. The history -/

/-- What happens to a session that has its nodes. -/
inductive Action where
  | active (session : ℕ)
  | complete (alloc : Alloc)

def act (st : State) : Action → Option State
  | .active session => rmActive session st
  | .complete alloc => some (recvStepdComplete alloc st)

/-- The list of the session has a node, so that it is launched. -/
def launches (session : ℕ) (st : State) : Bool :=
  match extractNodeNames (st.alloc session).nodes st.erange with
  | some (.ok (_ :: _), _) => true
  | _ => false

/-- What is noted of a step: the id, with `true` for a launch and `false` for a message. -/
def note (st : State) : Action → List (ℕ × Bool)
  | .active session => if launches session st then [(sessionId session, true)] else []
  | .complete alloc => [(alloc.id, false)]

/-- The messages for an allocation since its session was activated. -/
def received (id : ℕ) (notes : List (ℕ × Bool)) : Option ℕ :=
  notes.foldl (fun n note => if note.1 = id then if note.2 then some 0 else n.map (· + 1) else n)
    none

variable (minNodes : ℕ → ℤ)

/-- A session is activated with no tracker left, and asks for nodes; messages carry what the session
with their id asks for. -/
def Single (p : State × List (ℕ × Bool)) : Action → Prop
  | .active session => launches session p.1 = true →
      (∀ trk ∈ p.1.tracking, trk.allocId ≠ sessionId session) ∧
        (p.1.alloc session).minNodes = minNodes (sessionId session) ∧
        0 < (p.1.alloc session).minNodes
  | .complete alloc => alloc.minNodes = minNodes alloc.id

/-- The sessions that a step ends: the one of the message, when the messages are as many as its
nodes. -/
def ended (notes : List (ℕ × Bool)) : Action → List Event
  | .active _ => []
  | .complete alloc =>
    if (received alloc.id notes).any fun n : ℕ => (n : ℤ) == minNodes alloc.id then
      [.terminated alloc]
    else []

/-! ## 2. The trackers -/

/-- The trackers of an id, by the number of its messages. -/
def waiting (id : ℕ) : Option ℕ → List Tracker
  | none => []
  | some n => if (n : ℤ) < minNodes id then [⟨id, n⟩] else []

/-- Every tracker counts the messages since its session was activated. -/
def Tracks (p : State × List (ℕ × Bool)) : Prop :=
  ∀ id, p.1.tracking.filter (fun trk => trk.allocId == id) = waiting minNodes id (received id p.2)

/-- A message is about the trackers of its id: among them it does what it does among all. -/
theorem checkIn_filter (alloc : Alloc) : ∀ tracking : List Tracker,
    checkIn alloc (tracking.filter fun trk => trk.allocId == alloc.id) =
      ((checkIn alloc tracking).1,
        (checkIn alloc tracking).2.filter fun trk => trk.allocId == alloc.id)
  | [] => rfl
  | trk :: tracking => by
    have ih := checkIn_filter alloc tracking
    by_cases hid : trk.allocId = alloc.id
    · by_cases hlast : trk.countCheckedIn + 1 = alloc.minNodes <;> simp [checkIn, hid, hlast]
    · simp [checkIn, hid, ih]

theorem checkIn_filter_ne {alloc id} (hne : alloc.id ≠ id) :
    ∀ tracking : List Tracker, (checkIn alloc tracking).2.filter (fun trk => trk.allocId == id) =
      tracking.filter fun trk => trk.allocId == id
  | [] => rfl
  | trk :: tracking => by
    have ih := checkIn_filter_ne hne tracking
    by_cases hid : trk.allocId = alloc.id
    · by_cases hlast : trk.countCheckedIn + 1 = alloc.minNodes <;> simp [checkIn, hid, hlast, hne]
    · simp [checkIn, hid, filter_cons, ih]

/-- The trackers of an id when a message comes for it. -/
theorem checkIn_waiting {alloc} (h : alloc.minNodes = minNodes alloc.id) (n : Option ℕ) :
    checkIn alloc (waiting minNodes alloc.id n) =
      ((n.map (· + 1)).any fun n : ℕ => (n : ℤ) == minNodes alloc.id,
        waiting minNodes alloc.id (n.map (· + 1))) := by
  cases n with
  | none => rfl
  | some n =>
    simp only [waiting, Option.map_some, Option.any_some]
    split_ifs <;> simp [checkIn, h] <;> grind

theorem received_append (id : ℕ) (notes : List (ℕ × Bool)) (note : ℕ × Bool) :
    received id (notes ++ [note]) = if note.1 = id then
      if note.2 then some 0 else (received id notes).map (· + 1) else received id notes := by
  simp [received]

/-- A launch appends a tracker; an activation that launches nothing changes no tracker. -/
theorem rmActive_tracking {session st st'} (h : rmActive session st = some st') :
    st'.events = st.events ∧ st'.tracking = st.tracking ++
      if launches session st then [⟨sessionId session, 0⟩] else [] := by
  refine ⟨(rmActive_cases h).1.events, ?_⟩
  obtain ⟨⟨res, erange⟩, hext, hrun⟩ := Option.bind_eq_some_iff.mp h
  rw [launches, hext]
  rcases res with rc | (_ | ⟨name, names⟩)
  · cases hrun
    simp
  · cases hrun
    simp
  · exact (sendLoop_sends hrun).tracking

variable {minNodes} {p q : State × List (ℕ × Bool)} {action : Action}

/-- **One step**: the trackers count on, and the sessions are ended that should be. -/
theorem Tracks.step (h : Tracks minNodes p) (hok : Single minNodes p action)
    (hs : record act note p action = some q) :
    Tracks minNodes q ∧ q.1.events = p.1.events ++ ended minNodes q.2 action := by
  obtain ⟨hs, hnotes⟩ := record_eq_some.mp hs
  cases action with
  | active session =>
    obtain ⟨hevents, htracking⟩ := rmActive_tracking hs
    refine ⟨fun id => ?_, by simp [hevents, ended]⟩
    rw [htracking, hnotes, filter_append, h id, note]
    by_cases hlaunch : launches session p.1 = true
    · obtain ⟨hnone, hmin, hpos⟩ := hok hlaunch
      rw [if_pos hlaunch, if_pos hlaunch, received_append]
      by_cases hid : sessionId session = id
      · have hempty := h id
        rw [filter_eq_nil_iff.mpr fun trk htrk => by simpa [← hid] using hnone trk htrk] at hempty
        rw [← hempty, ← hid]
        simp [waiting, ← hmin, hpos]
      · simp [hid]
    · simp [hlaunch]
  | complete alloc =>
    have hcheck := checkIn_filter alloc p.1.tracking
    rw [h alloc.id, checkIn_waiting minNodes hok, Prod.mk.injEq] at hcheck
    obtain ⟨hlast, htracking⟩ := hcheck
    have hreceived : received alloc.id q.2 = (received alloc.id p.2).map (· + 1) := by
      rw [hnotes, note, received_append]
      simp
    rw [← hreceived] at hlast htracking
    have hst : q.1 = recvStepdComplete alloc p.1 := (Option.some.inj hs).symm
    rw [hst, recvStepdComplete_eq, ended, hlast]
    refine ⟨fun id => ?_, rfl⟩
    rw [hst, recvStepdComplete_eq]
    by_cases hid : alloc.id = id
    · rw [← hid, htracking]
    · rw [checkIn_filter_ne hid, h id, hnotes, note, received_append, if_neg hid]

/-- **A session is counted once**: after every step there is at most one tracker for an id, and a
step ends a session exactly when it is the message that makes them as many as its nodes. -/
theorem counted_once (minNodes : ℕ → ℤ) {p q : State × List (ℕ × Bool)} {action : Action}
    (h : Reachable (record act note) (fun p => p.1.tracking = [] ∧ p.2 = []) (Single minNodes) p)
    (hok : Single minNodes p action) (hs : record act note p action = some q) :
    (∀ id, q.1.tracking.countP (fun trk => trk.allocId == id) ≤ 1) ∧
      q.1.events = p.1.events ++ ended minNodes q.2 action := by
  have htracks : Tracks minNodes p := by
    refine h.invariant (fun p hp id => ?_) fun p action q hp hok hs => (hp.step hok hs).1
    rw [hp.1, hp.2]
    rfl
  obtain ⟨hnext, hevents⟩ := htracks.step hok hs
  refine ⟨fun id => ?_, hevents⟩
  rw [countP_eq_length_filter, hnext id]
  unfold waiting
  split
  · simp
  · split_ifs <;> simp

/-- A session of one node. -/
def oneNode : State :=
  { start [some (newNode (CString.ofString "n1") ⟨0, 1⟩)] with
    alloc := fun session => { newAlloc 1 with id := session, nodes := some (CString.ofString "n1") } }

/-- It is ended by the message of its node. -/
theorem counted_once_oneNode : ∃ p q : State × List (ℕ × Bool),
    record act note (oneNode, []) (.active 1) = some p ∧
      record act note p (.complete (oneNode.alloc 1)) = some q ∧
      q.1.events = p.1.events ++ [.terminated (oneNode.alloc 1)] := by
  have hlaunched : (record act note (oneNode, []) (.active 1)).isSome = true := by decide +kernel
  obtain ⟨p, hp⟩ := Option.isSome_iff_exists.mp hlaunched
  have hnotes : p.2 = [(1, true)] := (record_eq_some.mp hp).2.trans (by decide +kernel)
  have hok : Single (fun _ => 1) (oneNode, []) (.active 1) :=
    fun _ => ⟨fun _ h => absurd h not_mem_nil, rfl, by decide⟩
  have hsame : Single (fun _ => 1) p (.complete (oneNode.alloc 1)) := rfl
  refine ⟨p, _, hp, rfl, (counted_once (fun _ => 1) (.next (.start ⟨rfl, rfl⟩) hok hp) hsame
    rfl).2.trans ?_⟩
  rw [hnotes]
  rfl

/-- **Activated twice, it has two trackers.** -/
theorem activated_twice : ((act oneNode (.active 1)).bind fun st => act st (.active 1)).any
    (fun st => st.tracking.countP (fun trk => trk.allocId == 1) == 2) = true := by
  decide +kernel

end Sensys.Orcm.Scd
