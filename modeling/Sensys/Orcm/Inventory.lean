/-
# Inventory messages and the plugins that read them

`orcm/mca/sensor/base/sensor_base_fns.c`: `collect_inventory_info` packs the host, and has every
module pack its name and a section; `recv_inventory` unpacks the host and then one string after the
other, and passes the buffer to the modules of that name.

A section has no length.  Nobody reads past one whose module is not there, or does not read it
(`errcounts` without EDAC), and what is in it is taken for the name of the NEXT section.

* `plugins_hold_iff`: the modules get their own sections and no other call is made -- whatever is in
  the sections -- if and only if every section that is written has a module that reads it (or there
  is no module to call at all).
* `errcounts_section_arrives`: `errcounts` with EDAC on both sides is such a pair.
* `section_is_lost`: a receiver where `errcounts` has no EDAC.

A pack that fails, for want of memory, ends `collect_inventory_info` here; in the source it only ends
the module.
-/
import Mathlib.Algebra.Order.BigOperators.Group.List
import Sensys.Opal.DssBounds
import Sensys.Orcm.ErrcountsInventory

namespace Sensys.Orcm.Inventory

open CString Opal Opal.Dss Failing ErrcountsInventory List Buffer

/-! ## 1. The receiver -/

/-- A module: `mca_component_name` and `inventory_log`. -/
structure Module where
  name : Str
  inventoryLog : Option (CharPtr → Dss Unit)

/-- A call of `inventory_log`: of which module, and with what. -/
structure LogCall where
  module : Str
  hostname : CharPtr
  buffer : Buffer
  deriving DecidableEq

/-- What `recv_inventory` works on: the buffer, and the calls that were made. -/
abbrev Recv := Handler (List LogCall)

/-- `i_module->module->inventory_log(hostname, buffer)`, unless it is `NULL`.  A failure is not
reported. -/
def callLog (hostname : CharPtr) (m : Module) : Recv Unit :=
  match m.inventoryLog with
  | none => pure ()
  | some log => do
    let s ← get
    change (· ++ [⟨m.name, hostname, s.buffer⟩])
    let _ ← attempt (lift (log hostname))
    pure ()

/-- One round of the loop over the modules. -/
def callNamed (hostname : CharPtr) (temp : Str) (m : Module) : Recv Unit :=
  if temp = m.name then callLog hostname m else pure ()

/-- The loop over the modules. -/
def callModules (hostname : CharPtr) (temp : Str) (modules : List Module) : Recv Unit :=
  modules.forM (callNamed hostname temp)

/-- The loop over the names, where the next call may unpack `n` of them.  It ends with the first
call that fails; the result is whether it has.  A name without a terminator is undefined. -/
def recvLoop (modules : List Module) (hostname : CharPtr) : ℕ → ℤ → Recv Bool
  | 0, _ => pure false
  | rounds + 1, n => do
    match ← attempt (lift (unpack string n)) with
    | .error _ => pure true
    | .ok answer =>
      match answer.2.head?.join with
      | none => recvLoop modules hostname rounds answer.1
      | some temp => do
        let temp ← lift (strdup (some temp))
        callModules hostname temp modules
        recvLoop modules hostname rounds 1

/-- `recv_inventory`, for so many rounds. -/
def recvInventory (dbhandleAcquired : Bool) (modules : List Module) (rounds : ℕ) : Recv Bool := do
  match ← attempt (lift (unpack string 1)) with
  | .error _ => pure true
  | .ok answer =>
    if dbhandleAcquired then recvLoop modules answer.2.head?.join rounds 1 else pure true

/-! ## 2. The sender -/

/-- What a module packs behind its name. -/
structure Section where
  pack : Dss Unit
  enc : BufferType → List UInt8
  writes : ∀ type, Writes type pack (enc type)

/-- A module of the sender, and its section if it packs one. -/
structure Sent where
  name : Str
  written : Option Section

/-- `inventory_collect` of a module. -/
def Sent.collect (s : Sent) : Dss Unit :=
  match s.written with
  | none => pure ()
  | some sec => do
    packString s.name
    sec.pack

/-- `collect_inventory_info`. -/
def collectInventoryInfo (hostTagValue : Str) (sent : List Sent) : Dss Unit := do
  packString hostTagValue
  sent.forM Sent.collect

/-- The bytes of a module. -/
def Sent.enc (type : BufferType) (s : Sent) : List UInt8 :=
  match s.written with
  | none => []
  | some sec => encString type s.name ++ sec.enc type

/-- The bytes of a message. -/
def encMessage (type : BufferType) (hostTagValue : Str) (sent : List Sent) : List UInt8 :=
  encString type hostTagValue ++ sent.flatMap (Sent.enc type)

section Collect

variable {type : BufferType} {hostTagValue : Str} {sent : List Sent}

theorem Sent.writes_collect (s : Sent) (h : StrFits s.name) :
    Writes type s.collect (s.enc type) := by
  unfold Sent.collect Sent.enc
  cases s.written with
  | none => exact writes_pure
  | some sec => exact (writes_packString h).bind (sec.writes type)

/-- **What the sender packs is the message.** -/
theorem writes_collectInventoryInfo (hhost : StrFits hostTagValue)
    (hsent : ∀ s ∈ sent, StrFits s.name) :
    Writes type (collectInventoryInfo hostTagValue sent) (encMessage type hostTagValue sent) :=
  (writes_packString hhost).bind (writes_forM sent fun s hs => s.writes_collect (hsent s hs))

/-- The buffer that arrives, when the sender's is sent. -/
theorem message_of_collect (hhost : StrFits hostTagValue) (hsent : ∀ s ∈ sent, StrFits s.name) {b}
    (hrun : collectInventoryInfo hostTagValue sent (construct type) = (.ok (), b)) :
    (load type b.base).Wf ∧ (load type b.base).unread = encMessage type hostTagValue sent := by
  rcases writes_collectInventoryInfo hhost hsent (construct type) (wf_construct type) rfl with
    ⟨allocated, hok, hwf⟩ | ⟨b', herror, -⟩
  · rw [hrun] at hok
    cases hok
    refine ⟨wf_load type ?_, by simp [unread, load, extend, construct]⟩
    rw [hwf.used]
    exact hwf.fits.trans hwf.room
  · rw [hrun] at herror
    cases herror

/-- With memory for it, a message is packed. -/
theorem exists_collect (hhost : StrFits hostTagValue) (hsent : ∀ s ∈ sent, StrFits s.name)
    (hlen : (encMessage type hostTagValue sent).length < memoryLimit) :
    ∃ b, collectInventoryInfo hostTagValue sent (construct type) = (.ok (), b) := by
  rcases writes_collectInventoryInfo hhost hsent (construct type) (wf_construct type) rfl with
    ⟨allocated, hok, -⟩ | ⟨b', -, hlimit⟩
  · exact ⟨_, hok⟩
  · rw [show (construct type).bytesUsed = 0 from rfl, Nat.zero_add] at hlimit
    exact absurd hlen (Nat.not_lt.mpr hlimit)

end Collect

/-! ## 3. What is to be called -/

/-- The calls of the modules of this name. -/
def callsOf (modules : List Module) (hostname : CharPtr) (name : Str) (buffer : Buffer) :
    List LogCall :=
  (modules.filter fun m => decide (name = m.name) && m.inventoryLog.isSome).map fun m =>
    ⟨m.name, hostname, buffer⟩

/-- **Every section goes to the modules of its name**, and nothing else is called. -/
def expected (modules : List Module) (hostname : CharPtr) : Buffer → List Sent → List LogCall
  | _, [] => []
  | b, ⟨_, none⟩ :: sent => expected modules hostname b sent
  | b, ⟨name, some sec⟩ :: sent =>
    let start := b.advance (encString b.type name).length
    callsOf modules hostname name start ++
      expected modules hostname (start.advance (sec.enc b.type).length) sent

/-- The calls for a message are right, for all numbers of rounds that are large enough. -/
def Right (dbhandleAcquired : Bool) (modules : List Module) (hostTagValue : Str) (sent : List Sent)
    (b : Buffer) : Prop :=
  ∃ enough, ∀ rounds ≥ enough,
    (recvInventory dbhandleAcquired modules rounds ⟨b, []⟩).2.kept =
      expected modules (charPtr hostTagValue)
        (b.advance (encString b.type hostTagValue).length) sent

/-! ## 4. Plugins -/

/-- What a module of the receiver does with a section: its `inventory_log` is `NULL`, or returns at
once, or reads the section of the module of its name. -/
inductive Role where
  | missing | declines | reads
  deriving DecidableEq, Repr

/-- What is in `char mca_component_name[MCA_BASE_MAX_COMPONENT_NAME_LEN + 1]`. -/
def ComponentName (s : Str) : Prop := 0 ∉ s ∧ s.length ≤ 63

theorem ComponentName.fits {s} (h : ComponentName s) : StrFits s :=
  ⟨h.1, Nat.lt_of_le_of_lt h.2 (by decide)⟩

/-- **The plugins of a sender and of a receiver**: their names, which of the first ones write a
section, and what the others do. -/
structure Plugins where
  sender : List (Str × Bool)
  receiver : List (Str × Role)
  dbhandleAcquired : Bool
  nodup_sender : (sender.map Prod.fst).Nodup
  nodup_receiver : (receiver.map Prod.fst).Nodup
  name_sender : ∀ s ∈ sender, ComponentName s.1
  name_receiver : ∀ m ∈ receiver, ComponentName m.1
  count_sender : sender.length < 2 ^ 31

/-- What the plugins have in their sections, and how they read them. -/
structure Behaviour (p : Plugins) where
  sections : Str → Section
  logs : Str → CharPtr → Dss Unit
  declines : ∀ name, (name, Role.declines) ∈ p.receiver → ∀ hostname, logs name hostname = pure ()
  reads : ∀ name, (name, Role.reads) ∈ p.receiver → (name, true) ∈ p.sender →
    ∀ hostname type, Reads type (logs name (charPtr hostname)) ((sections name).enc type) ()

variable {p : Plugins}

/-- The modules of the receiver. -/
def Behaviour.modules (beh : Behaviour p) : List Module :=
  p.receiver.map fun m => ⟨m.1, if m.2 = .missing then none else some (beh.logs m.1)⟩

/-- The modules of the sender. -/
def Behaviour.sent (beh : Behaviour p) : List Sent :=
  p.sender.map fun s => ⟨s.1, if s.2 then some (beh.sections s.1) else none⟩

/-- **The plugins go together**: whatever is in the sections, every message that the sender has packed
is handled right. -/
def Plugins.Holds (p : Plugins) : Prop :=
  ∀ (beh : Behaviour p) (hostTagValue : Str) (type : BufferType) (b : Buffer), StrFits hostTagValue →
    collectInventoryInfo hostTagValue beh.sent (construct type) = (.ok (), b) →
      Right p.dbhandleAcquired beh.modules hostTagValue beh.sent (load type b.base)

/-- A module of the receiver that can be called. -/
def Plugins.Callable (p : Plugins) (name : Str) : Prop :=
  ∃ role, (name, role) ∈ p.receiver ∧ role ≠ .missing

/-- The condition. -/
def Plugins.Matched (p : Plugins) : Prop :=
  if p.dbhandleAcquired then
    (∀ name, (name, true) ∈ p.sender → (name, Role.reads) ∈ p.receiver) ∨ ∀ name, ¬ p.Callable name
  else ∀ name, (name, true) ∈ p.sender → ¬ p.Callable name

/-! ## 5. Calls that are made -/

section Rounds

variable {modules : List Module} {hostname : CharPtr} {R : List LogCall → List LogCall → Prop}

/-- The loop makes the calls that the modules make. -/
theorem moves_recvLoop [IsPreorder (List LogCall) R]
    (h : ∀ m ∈ modules, Moves R (callLog hostname m)) : ∀ rounds n,
      Moves R (recvLoop modules hostname rounds n)
  | 0, _ => moves_pure false
  | rounds + 1, n => by
    have hmodules : ∀ name, Moves R (callModules hostname name modules) := fun name =>
      moves_forM fun m hm => by
        unfold callNamed
        split
        · exact h m hm
        · exact moves_pure ()
    refine (moves_lift _).attempt.bind fun result => ?_
    rcases result with _ | answer
    · exact moves_pure true
    · simp only
      split
      · exact moves_recvLoop h rounds answer.1
      · exact (moves_lift _).bind fun name => (hmodules name).bind fun _ =>
          moves_recvLoop h rounds 1

theorem moves_recvInventory [IsPreorder (List LogCall) R] {dbhandleAcquired}
    (h : dbhandleAcquired = true → ∀ hostname, ∀ m ∈ modules, Moves R (callLog hostname m))
    (rounds : ℕ) : Moves R (recvInventory dbhandleAcquired modules rounds) := by
  refine (moves_lift _).attempt.bind fun result => ?_
  rcases result with _ | answer
  · exact moves_pure true
  · simp only
    split
    · exact moves_recvLoop (h ‹_› _) rounds 1
    · exact moves_pure true

variable {m : Module} {name : Str} {s : Handling (List LogCall)} {b : Buffer}

/-- A module without `inventory_log` is not called. -/
theorem moves_callLog_of_none (h : m.inventoryLog = none) : Moves Eq (callLog hostname m) := by
  unfold callLog
  rw [h]
  exact moves_pure ()

/-! ## 6. One round -/

variable {rest : List UInt8}

theorem recvLoop_name (h : StrFits name) (hwf : s.buffer.Wf)
    (hunread : s.buffer.unread = encString s.buffer.type name ++ rest) (rounds : ℕ) :
    recvLoop modules hostname (rounds + 1) 1 s = (do
      callModules hostname name modules
      recvLoop modules hostname rounds 1)
        ⟨s.buffer.advance (encString s.buffer.type name).length, s.kept⟩ := by
  have hname := (handles_lift (reads_unpack_string h)).attempt s hwf rfl rest hunread
  have hstrdup : strdup (some (name ++ [0])) = pure name := strdup_charPtr h.1
  rw [recvLoop, bind_ok hname]
  simp only [charPtr, head?_cons, Option.join_some, hstrdup]
  rfl

/-- **At the end of the buffer** there is no name. -/
theorem recvLoop_nil (hwf : s.buffer.Wf) (h : s.buffer.unread = [])
    (rounds : ℕ) : recvLoop modules hostname (rounds + 1) 1 s = (.ok true, s) := by
  obtain ⟨rc, hrun⟩ := (bounded_string trivial).unpack_nil (Int.le_refl 1) hwf h
  rw [recvLoop, bind_ok (attempt_rc (lift_eq hrun))]
  rfl

/-- **The modules of this name read these bytes**, each call at their beginning. -/
def Passes (modules : List Module) (hostname : CharPtr) (name : Str)
    (bytes : BufferType → List UInt8) : Prop :=
  ∀ s : Handling (List LogCall), s.buffer.Wf → ∀ rest,
    s.buffer.unread = bytes s.buffer.type ++ rest →
      callModules hostname name modules s =
        (.ok (), ⟨s.buffer.advance (bytes s.buffer.type).length,
          s.kept ++ callsOf modules hostname name s.buffer⟩)

/-- The calls of one module. -/
def callOf (hostname : CharPtr) (name : Str) (buffer : Buffer) (m : Module) : List LogCall :=
  if name = m.name ∧ m.inventoryLog.isSome then [⟨m.name, hostname, buffer⟩] else []

theorem callsOf_cons (name : Str) (b : Buffer) (m : Module) (ms : List Module) :
    callsOf (m :: ms) hostname name b = callOf hostname name b m ++ callsOf ms hostname name b := by
  unfold callsOf callOf
  rw [filter_cons]
  by_cases h : name = m.name ∧ m.inventoryLog.isSome
  · simp [h]
  · rw [if_neg h, if_neg (by simpa using h)]
    rfl

/-- One round, where the module returns with this buffer if it is called. -/
theorem callModules_cons (ms : List Module)
    (hcalled : ∀ log, name = m.name → m.inventoryLog = some log → log hostname s.buffer = (.ok (), b))
    (hnot : ¬ (name = m.name ∧ m.inventoryLog.isSome) → b = s.buffer) :
    callModules hostname name (m :: ms) s =
      callModules hostname name ms ⟨b, s.kept ++ callOf hostname name s.buffer m⟩ := by
  refine bind_ok (a := ()) ?_
  unfold callNamed callOf callLog
  by_cases hname : name = m.name
  · rw [if_pos hname]
    rcases hlog : m.inventoryLog with _ | log
    · rw [hnot (by simp [hlog]), if_neg (by simp), List.append_nil]
      rfl
    · have hrun := hcalled log hname hlog
      rw [if_pos ⟨hname, rfl⟩]
      have hattempt : attempt (lift (log hostname))
          ⟨s.buffer, s.kept ++ [⟨m.name, hostname, s.buffer⟩]⟩ =
            (.ok (.ok ()), ⟨b, s.kept ++ [⟨m.name, hostname, s.buffer⟩]⟩) :=
        attempt_ok (lift_eq hrun)
      exact bind_ok (f := fun _ => pure ()) hattempt
  · rw [if_neg hname, hnot fun h => hname h.1, if_neg fun h => hname h.1, List.append_nil]
    rfl

theorem callsOf_eq_nil {modules} (h : ∀ m ∈ modules, name = m.name → m.inventoryLog = none) :
    callsOf modules hostname name b = [] := by
  unfold callsOf
  rw [map_eq_nil_iff, filter_eq_nil_iff]
  intro m hm hcalled
  obtain ⟨hname, hlog⟩ := Bool.and_eq_true_iff.mp hcalled
  rw [h m hm (of_decide_eq_true hname)] at hlog
  cases hlog

/-- **Modules that return at once** pass nothing. -/
theorem passes_nil (name : Str) : ∀ {modules},
    (∀ m ∈ modules, ∀ log, name = m.name → m.inventoryLog = some log → log hostname = pure ()) →
      Passes modules hostname name fun _ => []
  | [], _ => fun s _ _ _ => by
    have hnone : callsOf [] hostname name s.buffer = [] := rfl
    rw [length_nil, advance_zero, hnone, List.append_nil]
    rfl
  | m :: ms, h => fun s hwf rest hunread => by
    have hrest := passes_nil name (fun m' hm' => h m' (mem_cons_of_mem m hm'))
      ⟨s.buffer, s.kept ++ callOf hostname name s.buffer m⟩ hwf rest hunread
    have hhead : ∀ log, name = m.name → m.inventoryLog = some log →
        log hostname s.buffer = (.ok (), s.buffer) := fun log hname hlog => by
      rw [h m mem_cons_self log hname hlog]
      rfl
    rw [callModules_cons ms hhead fun _ => rfl, hrest, callsOf_cons, List.append_assoc]

/-- **A module that reads the bytes** passes them, if it is the only one of its name. -/
theorem passes_reads {bytes log} (hreads : ∀ type, Reads type (log hostname) (bytes type) ()) :
    ∀ {modules},
      (modules.map Module.name).Nodup → ⟨name, some log⟩ ∈ modules →
        Passes modules hostname name bytes
  | m :: ms, hnodup, hmem => fun s hwf rest hunread => by
    obtain ⟨hhead, htail⟩ := nodup_cons.mp hnodup
    rcases mem_cons.mp hmem with rfl | hmem
    · have hne : ∀ m ∈ ms, name ≠ m.name := fun m hm heq => hhead (mem_map.mpr ⟨m, hm, heq.symm⟩)
      have hothers : Passes ms hostname name fun _ => [] :=
        passes_nil name fun m hm _ hname _ => absurd hname (hne m hm)
      have hrun := hreads s.buffer.type s.buffer hwf rfl rest hunread
      have hcalled : ∀ log', name = name → some log = some log' →
          log' hostname s.buffer = (.ok (), s.buffer.advance (bytes s.buffer.type).length) := by
        rintro _ - ⟨⟩
        exact hrun
      have hfirst : callModules hostname name (⟨name, some log⟩ :: ms) s =
          callModules hostname name ms ⟨s.buffer.advance (bytes s.buffer.type).length,
            s.kept ++ callOf hostname name s.buffer ⟨name, some log⟩⟩ :=
        callModules_cons ms hcalled fun hnot => absurd ⟨rfl, rfl⟩ hnot
      have hlast := hothers ⟨s.buffer.advance (bytes s.buffer.type).length,
        s.kept ++ callOf hostname name s.buffer ⟨name, some log⟩⟩
        (hwf.advance (by simp [hunread])) _ rfl
      have hnone : ∀ {b}, callsOf ms hostname name b = [] :=
        callsOf_eq_nil fun m hm heq => absurd heq (hne m hm)
      rw [hfirst, hlast, callsOf_cons, hnone, hnone, List.append_nil, List.append_nil, length_nil,
        advance_zero]
    · have hne : name ≠ m.name := fun heq => hhead (mem_map.mpr ⟨_, hmem, heq⟩)
      have hnone : callOf hostname name s.buffer m = [] := if_neg fun h => hne h.1
      rw [callModules_cons ms (fun _ hname => absurd hname hne) fun _ => rfl, callsOf_cons, hnone,
        List.append_nil, nil_append]
      exact passes_reads hreads htail hmem s hwf rest hunread

/-! ## 7. A message -/

/-- **Sections that are passed** get the calls that are expected, one after the other. -/
theorem recvLoop_passes : ∀ sent s rest,
    (∀ x ∈ sent, StrFits x.name ∧
      ∀ sec, x.written = some sec → Passes modules hostname x.name sec.enc) → s.buffer.Wf →
    s.buffer.unread = sent.flatMap (Sent.enc s.buffer.type) ++ rest →
      ∃ used, ∀ rounds, recvLoop modules hostname (rounds + used) 1 s =
        recvLoop modules hostname rounds 1
          ⟨s.buffer.advance (sent.flatMap (Sent.enc s.buffer.type)).length,
            s.kept ++ expected modules hostname s.buffer sent⟩
  | [], s, rest, _, _, _ => ⟨0, fun rounds => by
      rw [flatMap_nil, length_nil, advance_zero, expected, List.append_nil]
      rfl⟩
  | ⟨name, none⟩ :: sent, s, rest, h, hwf, hunread =>
    recvLoop_passes sent s rest (fun x hx => h x (mem_cons_of_mem _ hx)) hwf hunread
  | ⟨name, some sec⟩ :: sent, s, rest, h, hwf, hunread => by
    obtain ⟨hname, hpass⟩ := h _ mem_cons_self
    have hsplit : s.buffer.unread = encString s.buffer.type name ++
        (sec.enc s.buffer.type ++ (sent.flatMap (Sent.enc s.buffer.type) ++ rest)) := by
      rw [hunread]
      simp [Sent.enc]
    obtain ⟨hwf₁, hunread₁⟩ := hwf.past hsplit
    obtain ⟨hwf₂, hunread₂⟩ := hwf₁.past hunread₁
    let start := s.buffer.advance (encString s.buffer.type name).length
    have hcalls := hpass sec rfl ⟨start, s.kept⟩ hwf₁ _ hunread₁
    obtain ⟨used, hrounds⟩ := recvLoop_passes sent
      ⟨start.advance (sec.enc s.buffer.type).length,
        s.kept ++ callsOf modules hostname name start⟩ rest
      (fun x hx => h x (mem_cons_of_mem _ hx)) hwf₂ hunread₂
    refine ⟨used + 1, fun rounds => ?_⟩
    have hlength : (start.advance (sec.enc s.buffer.type).length).advance
        (sent.flatMap (Sent.enc s.buffer.type)).length = s.buffer.advance
          (List.flatMap (Sent.enc s.buffer.type) (⟨name, some sec⟩ :: sent)).length := by
      rw [advance_advance, advance_advance]
      simp [Sent.enc]
    rw [← Nat.add_assoc, recvLoop_name hname hwf hsplit, bind_ok hcalls, expected, ← hlength,
      ← List.append_assoc]
    exact hrounds rounds

/-- The first name is the host. -/
theorem recvInventory_host {hostTagValue} (h : StrFits hostTagValue) (hwf : b.Wf)
    (hunread : b.unread = encString b.type hostTagValue ++ rest) (rounds : ℕ) :
    recvInventory true modules rounds ⟨b, []⟩ =
      recvLoop modules (charPtr hostTagValue) rounds 1
        ⟨b.advance (encString b.type hostTagValue).length, []⟩ := by
  exact bind_ok ((handles_lift (reads_unpack_string h)).attempt ⟨b, []⟩ hwf rfl rest hunread)

/-- Without a database no module is called. -/
theorem recvInventory_false (rounds : ℕ) (b : Buffer) :
    (recvInventory false modules rounds ⟨b, []⟩).2.kept = [] := by
  have hmoves : Moves Eq (recvInventory false modules rounds) :=
    moves_recvInventory (fun hfalse => absurd hfalse Bool.false_ne_true) rounds
  exact (hmoves ⟨b, []⟩).symm

/-- **A message whose sections are all passed is handled right.** -/
theorem right_of_passes {hostTagValue} (hhost : StrFits hostTagValue) {sent}
    (h : ∀ x ∈ sent, StrFits x.name ∧ ∀ sec, x.written = some sec →
      Passes modules (charPtr hostTagValue) x.name sec.enc)
    (hwf : b.Wf) (hunread : b.unread = encMessage b.type hostTagValue sent) :
    Right true modules hostTagValue sent b := by
  obtain ⟨hwf', hrest⟩ := hwf.past hunread
  have hsections : (b.advance (encString b.type hostTagValue).length).unread =
      sent.flatMap (Sent.enc b.type) ++ [] := by rw [hrest, List.append_nil]
  obtain ⟨hwf'', hend⟩ := hwf'.past hsections
  obtain ⟨used, hrounds⟩ := recvLoop_passes sent
    ⟨b.advance (encString b.type hostTagValue).length, []⟩ [] h hwf' hsections
  refine ⟨used + 1, fun rounds hge => ?_⟩
  obtain ⟨more, rfl⟩ := Nat.exists_eq_add_of_le' hge
  rw [recvInventory_host hhost hwf hunread, ← Nat.add_assoc, Nat.add_right_comm, hrounds,
    recvLoop_nil hwf'' hend]
  rfl

end Rounds

/-! ## 8. Plugins that go together -/

variable {beh : Behaviour p} {modules : List Module} {hostname : CharPtr} {name : Str}

theorem Behaviour.mem_modules {m} (h : m ∈ beh.modules) : ∃ role, (m.name, role) ∈ p.receiver ∧
      m.inventoryLog = if role = .missing then none else some (beh.logs m.name) := by
  obtain ⟨x, hx, rfl⟩ := mem_map.mp h
  exact ⟨x.2, hx, rfl⟩

theorem Behaviour.nodup_modules (beh : Behaviour p) : (beh.modules.map Module.name).Nodup := by
  unfold Behaviour.modules
  rw [map_map]
  exact p.nodup_receiver

theorem Behaviour.mem_sent {x} (h : x ∈ beh.sent) : ∃ writes, (x.name, writes) ∈ p.sender ∧
      x.written = if writes then some (beh.sections x.name) else none := by
  obtain ⟨s, hs, rfl⟩ := mem_map.mp h
  exact ⟨s.2, hs, rfl⟩

theorem Behaviour.name_fits (beh : Behaviour p) : ∀ x ∈ beh.sent, StrFits x.name := by
  intro x hx
  obtain ⟨writes, hmem, -⟩ := beh.mem_sent hx
  exact (p.name_sender _ hmem).fits

/-- Every section has its reader. -/
theorem holds_of_reads (hacquired : p.dbhandleAcquired = true)
    (h : ∀ name, (name, true) ∈ p.sender → (name, Role.reads) ∈ p.receiver) : p.Holds := by
  intro beh hostTagValue type b hhost hcollect
  obtain ⟨hwf, hunread⟩ := message_of_collect hhost beh.name_fits hcollect
  rw [hacquired]
  refine right_of_passes hhost (fun x hx => ?_) hwf hunread
  obtain ⟨writes, hmem, hwritten⟩ := beh.mem_sent hx
  refine ⟨beh.name_fits x hx, fun sec hsec => ?_⟩
  rw [hwritten] at hsec
  cases writes with
  | false => cases hsec
  | true =>
    cases hsec
    refine passes_reads (beh.reads x.name (h _ hmem) hmem hostTagValue) beh.nodup_modules ?_
    exact mem_map.mpr ⟨_, h _ hmem, rfl⟩

theorem Behaviour.inventoryLog_eq_none {m} (hm : m ∈ beh.modules) (h : ¬ p.Callable m.name) :
    m.inventoryLog = none := by
  obtain ⟨role, hmem, hlog⟩ := beh.mem_modules hm
  have hrole : role = .missing := by_contra fun hne => h ⟨role, hmem, hne⟩
  rw [hlog, if_pos hrole]

/-- The modules of a name that are called. -/
def called (modules : List Module) (name : Str) : List Module :=
  modules.filter fun m => decide (name = m.name) && m.inventoryLog.isSome

theorem length_expected : ∀ sent b,
    (expected modules hostname b sent).length =
      (sent.flatMap fun x => if x.written.isSome then called modules x.name else []).length
  | [], _ => rfl
  | ⟨_, none⟩ :: sent, b => length_expected sent b
  | ⟨name, some sec⟩ :: sent, b => by
    rw [expected, length_append, length_expected sent, flatMap_cons, length_append, callsOf, length_map]
    rfl

/-- No section has a module to be called. -/
theorem expected_eq_nil {sent b}
    (h : ∀ x ∈ sent, ∀ sec, x.written = some sec → ¬ p.Callable x.name) :
    expected beh.modules hostname b sent = [] := by
  refine eq_nil_of_length_eq_zero (length_expected sent b ▸ length_eq_zero_iff.mpr ?_)
  refine flatMap_eq_nil_iff.mpr fun x hx => ?_
  split
  · obtain ⟨sec, hsec⟩ := Option.isSome_iff_exists.mp ‹_›
    have hcalls : callsOf beh.modules hostname x.name b = [] := callsOf_eq_nil fun m hm heq =>
      beh.inventoryLog_eq_none hm (heq ▸ h x hx sec hsec)
    exact map_eq_nil_iff.mp hcalls
  · rfl

theorem Behaviour.not_callable (h : ∀ name, (name, true) ∈ p.sender → ¬ p.Callable name) :
    ∀ x ∈ beh.sent, ∀ sec, x.written = some sec → ¬ p.Callable x.name := by
  intro x hx sec hsec
  obtain ⟨writes, hmem, hwritten⟩ := beh.mem_sent hx
  cases writes with
  | false => rw [hwritten] at hsec; cases hsec
  | true => exact h _ hmem

theorem holds_of_not_callable (h : ∀ name, ¬ p.Callable name) : p.Holds := by
  intro beh hostTagValue type b _ _
  refine ⟨0, fun rounds _ => ?_⟩
  have hmoves : Moves Eq (recvInventory p.dbhandleAcquired beh.modules rounds) :=
    moves_recvInventory (fun _ _ m hm => moves_callLog_of_none
      (beh.inventoryLog_eq_none hm (h m.name))) rounds
  rw [← hmoves ⟨load type b.base, []⟩, expected_eq_nil (beh.not_callable fun name _ => h name)]

theorem holds_of_not_acquired (hacquired : p.dbhandleAcquired = false)
    (h : ∀ name, (name, true) ∈ p.sender → ¬ p.Callable name) : p.Holds := by
  intro beh hostTagValue type b _ _
  refine ⟨0, fun rounds _ => ?_⟩
  rw [hacquired, recvInventory_false, expected_eq_nil (beh.not_callable h)]

/-! ## 9. Plugins that do not -/

/-- A section with nothing in it. -/
def emptySection : Section := ⟨pure (), fun _ => [], fun _ => writes_pure⟩

/-- A section that is one string. -/
def stringSection (s : Str) (h : StrFits s) : Section :=
  ⟨packString s, fun type => encString type s, fun _ => writes_packString h⟩

/-- Modules that never read, so only an empty section is read by one of them. -/
def Plugins.idle (p : Plugins) (sections : Str → Section)
    (h : ∀ name, (name, Role.reads) ∈ p.receiver → sections name = emptySection) : Behaviour p where
  sections := sections
  logs := fun _ _ => pure ()
  declines := fun _ _ _ => rfl
  reads := fun name hreads _ _ _ => by
    rw [h name hreads]
    exact reads_pure ()

theorem idle_passes {sections h} (hostname : CharPtr) (name : Str) :
    Passes (p.idle sections h).modules hostname name fun _ => [] := by
  refine passes_nil name fun m hm log _ hlog => ?_
  obtain ⟨role, -, heq⟩ := Behaviour.mem_modules hm
  rw [hlog] at heq
  split at heq
  · cases heq
  · cases heq
    rfl

theorem idle_called {sections h} (hcallable : p.Callable name) :
    0 < (called (p.idle sections h).modules name).length := by
  obtain ⟨role, hmem, hrole⟩ := hcallable
  refine length_pos_of_mem (a := ⟨name, some fun _ => pure ()⟩) (mem_filter.mpr ⟨?_, by simp⟩)
  refine mem_map.mpr ⟨(name, role), hmem, ?_⟩
  rw [if_neg hrole]
  rfl

theorem length_sent_le (type : BufferType) {x : Sent} (hname : x.name.length ≤ 63)
    (h : ∀ sec, x.written = some sec → (sec.enc type).length ≤ 74) : (x.enc type).length ≤ 148 := by
  have hlen := length_encString_le type x.name
  unfold Sent.enc
  rcases hwritten : x.written with _ | sec
  · exact Nat.zero_le _
  · have hsec := h sec hwritten
    rw [length_append]
    omega

/-- Short sections are packed. -/
theorem exists_message (h : ∀ name, ((beh.sections name).enc .fullyDesc).length ≤ 74) :
    ∃ b, collectInventoryInfo [] beh.sent (construct .fullyDesc) = (.ok (), b) := by
  have hsent : (beh.sent.flatMap (Sent.enc .fullyDesc)).length ≤ beh.sent.length * 148 := by
    refine length_flatMap_le fun x hx => ?_
    obtain ⟨writes, hmem, hwritten⟩ := beh.mem_sent hx
    refine length_sent_le .fullyDesc (p.name_sender _ hmem).2 fun sec hsec => ?_
    rw [hwritten] at hsec
    split at hsec
    · cases hsec
      exact h x.name
    · cases hsec
  have hcount : beh.sent.length < 2 ^ 31 := by
    unfold Behaviour.sent
    rw [length_map]
    exact p.count_sender
  have hhost : (encString .fullyDesc []).length ≤ 0 + 11 := length_encString_le .fullyDesc []
  refine exists_collect (by decide) beh.name_fits ?_
  unfold encMessage
  rw [length_append, memoryLimit]
  omega

/-- A name whose modules read nothing. -/
theorem recvLoop_skip (h : StrFits name) (hpass : Passes modules hostname name fun _ => []) {s}
    (hwf : s.buffer.Wf) (hunread : s.buffer.unread = encString s.buffer.type name ++ rest)
    (rounds : ℕ) : recvLoop modules hostname (rounds + 1) 1 s = recvLoop modules hostname rounds 1
      ⟨s.buffer.advance (encString s.buffer.type name).length, s.kept ++ callsOf modules hostname name
        (s.buffer.advance (encString s.buffer.type name).length)⟩ := by
  have hcalls := hpass ⟨s.buffer.advance (encString s.buffer.type name).length, s.kept⟩
    (hwf.past hunread).1 rest (hwf.past hunread).2
  rw [length_nil, advance_zero] at hcalls
  rw [recvLoop_name h hwf hunread, bind_ok hcalls]

/-- **What nobody reads is taken for a name**: where no module reads anything, every string of the
message is. -/
theorem recvLoop_strings (hpass : ∀ name, Passes modules hostname name fun _ => []) (rounds : ℕ) :
    ∀ (names : List Str) (s : Handling (List LogCall)), (∀ name ∈ names, StrFits name) →
      s.buffer.Wf → s.buffer.unread = names.flatMap (encString s.buffer.type) →
      (recvLoop modules hostname (rounds + 1 + names.length) 1 s).2.kept.length =
        s.kept.length + (names.flatMap (called modules)).length
  | [], s, _, hwf, hunread => by
    rw [length_nil, Nat.add_zero, recvLoop_nil hwf hunread]
    rfl
  | name :: names, s, hfits, hwf, hunread => by
    obtain ⟨hwf', hrest⟩ := hwf.past hunread
    obtain ⟨hname, hnames⟩ := forall_mem_cons.mp hfits
    rw [length_cons, ← Nat.add_assoc, recvLoop_skip hname (hpass name) hwf hunread,
      recvLoop_strings hpass rounds names _ hnames hwf' hrest, length_append, callsOf, length_map,
      flatMap_cons, length_append, Nat.add_assoc]
    rfl

/-- The strings of a module, where the section of `name` is a string. -/
def textsOf (name text : Str) (x : Sent) : List Str :=
  if x.written.isSome then x.name :: if x.name = name then [text] else [] else []

theorem fits_textsOf {beh : Behaviour p} {text : Str} (htext : StrFits text) :
    ∀ s ∈ beh.sent.flatMap (textsOf name text), StrFits s := by
  intro s hs
  obtain ⟨x, hx, hs⟩ := mem_flatMap.mp hs
  obtain ⟨writes, hsender, -⟩ := beh.mem_sent hx
  have hcases : s = x.name ∨ s = text := by
    unfold textsOf at hs
    split at hs <;> [skip; cases hs]
    split at hs <;> simp_all
  rcases hcases with rfl | rfl
  · exact (p.name_sender _ hsender).fits
  · exact htext

/-- **A section without a reader**, where any module can be called. -/
theorem not_holds_of_unread (hacquired : p.dbhandleAcquired = true) {other}
    (hmem : (name, true) ∈ p.sender) (hreads : (name, Role.reads) ∉ p.receiver)
    (hcallable : p.Callable other) : ¬ p.Holds := by
  intro hholds
  have hother : ComponentName other := by
    obtain ⟨role, hmem, -⟩ := hcallable
    exact p.name_receiver _ hmem
  -- the section is the name of the module, and all others are empty
  let sections : Str → Section := fun s =>
    if s = name then stringSection other hother.fits else emptySection
  have hidle : ∀ s, (s, Role.reads) ∈ p.receiver → sections s = emptySection :=
    fun s hs => if_neg fun heq : s = name => hreads (heq ▸ hs)
  let beh := p.idle sections hidle
  have hshort : ∀ s, ((beh.sections s).enc .fullyDesc).length ≤ 74 := by
    intro s
    show ((sections s).enc .fullyDesc).length ≤ 74
    by_cases heq : s = name
    · simp only [sections, if_pos heq, stringSection]
      exact (length_encString_le .fullyDesc other).trans (Nat.add_le_add_right hother.2 11)
    · simp [sections, if_neg heq, emptySection]
  obtain ⟨snapshot, hcollect⟩ := exists_message hshort
  have hempty : StrFits [] := by decide
  obtain ⟨enough, hright⟩ := hholds beh [] .fullyDesc snapshot hempty hcollect
  let b := load .fullyDesc snapshot.base
  have hmessage : b.Wf ∧ b.unread = encMessage b.type [] beh.sent :=
    message_of_collect hempty beh.name_fits hcollect
  obtain ⟨hwf, hunread⟩ := hmessage
  let texts := textsOf name other
  have henc : beh.sent.flatMap (Sent.enc b.type) =
      (beh.sent.flatMap texts).flatMap (encString b.type) := by
    rw [List.flatMap_assoc]
    refine flatMap_congr fun x hx => ?_
    obtain ⟨writes, -, hwritten⟩ := beh.mem_sent hx
    simp only [Sent.enc, texts, textsOf, hwritten]
    cases writes with
    | false => rfl
    | true =>
      show encString _ x.name ++ (sections x.name).enc _ = _
      by_cases heq : x.name = name
      · simp [sections, heq, stringSection]
      · simp [sections, heq, emptySection]
  have hrun := congrArg length (hright (enough + 1 + (beh.sent.flatMap texts).length) (by omega))
  obtain ⟨hwf', hrest⟩ := hwf.past hunread
  have hpass : ∀ s, Passes beh.modules (charPtr []) s fun _ => [] := idle_passes _
  rw [hacquired, recvInventory_host hempty hwf hunread,
    recvLoop_strings hpass _ _ _ (fits_textsOf hother.fits) hwf' (hrest.trans henc), length_expected,
    List.flatMap_assoc, length_flatMap, length_flatMap] at hrun
  refine absurd hrun (Nat.ne_of_gt (Nat.lt_of_lt_of_le ?_ (Nat.le_add_left _ _)))
  refine sum_lt_sum _ _ (fun x _ => ?_)
    ⟨⟨name, some (sections name)⟩, mem_map.mpr ⟨_, hmem, rfl⟩, ?_⟩
  · unfold textsOf
    split
    · rw [flatMap_cons, length_append]
      exact Nat.le_add_right _ _
    · rfl
  · have hpos : 0 < (called beh.modules other).length := idle_called hcallable
    simpa [texts, textsOf] using hpos

/-- A section with a module, and no database. -/
theorem not_holds_of_not_acquired (hacquired : p.dbhandleAcquired = false)
    (hmem : (name, true) ∈ p.sender) (hcallable : p.Callable name) : ¬ p.Holds := by
  intro hholds
  let beh := p.idle (fun _ => emptySection) fun _ _ => rfl
  have hshort : ∀ other, ((beh.sections other).enc .fullyDesc).length ≤ 74 := fun _ =>
    Nat.zero_le 74
  obtain ⟨b, hcollect⟩ := exists_message hshort
  obtain ⟨enough, hright⟩ := hholds beh [] .fullyDesc b (by decide) hcollect
  have hnone := hright enough (Nat.le_refl _)
  rw [hacquired, recvInventory_false] at hnone
  have hsent : (⟨name, some emptySection⟩ : Sent) ∈ beh.sent :=
    mem_map.mpr ⟨(name, true), hmem, rfl⟩
  have hlength := congrArg length hnone
  rw [length_expected, length_nil, eq_comm, length_eq_zero_iff, flatMap_eq_nil_iff] at hlength
  have hpos := idle_called (h := fun _ _ => rfl) hcallable
  rw [show called _ name = [] from hlength _ hsent] at hpos
  exact Nat.lt_irrefl _ hpos

/-- **Inventory messages and plugins.**  Whatever is in the sections, every module is called with
its own section and no other call is made, if and only if every section that is written has a module
that reads it -- or no module can be called at all.  Without a database nothing is called, which is
right if no section has a module. -/
theorem plugins_hold_iff (p : Plugins) : p.Holds ↔ p.Matched := by
  unfold Plugins.Matched
  rcases hacquired : p.dbhandleAcquired with _ | _
  · exact ⟨fun hholds name hmem hcallable =>
      not_holds_of_not_acquired hacquired hmem hcallable hholds, holds_of_not_acquired hacquired⟩
  · constructor
    · intro hholds
      by_contra hnot
      obtain ⟨hunread, hcallable⟩ := not_or.mp hnot
      obtain ⟨name, hname⟩ := not_forall.mp hunread
      obtain ⟨hmem, hreads⟩ := Classical.not_imp.mp hname
      obtain ⟨called, hcalled⟩ := not_forall.mp hcallable
      exact not_holds_of_unread hacquired hmem hreads (not_not.mp hcalled) hholds
    · rintro (h | h)
      · exact holds_of_reads hacquired h
      · exact holds_of_not_callable h

/-! ## 10. `errcounts` -/

/-- `inventory_log` of `errcounts`, with what it has kept. -/
def errcountsLog (agg : Aggregator) (timestamp : Timeval) (kept : Samples) : CharPtr → Dss Unit
  | none => pure ()
  | some _ => fun b =>
    let result := inventoryLog agg timestamp ⟨b, kept⟩
    (result.1.map fun _ => (), result.2.buffer)

/-- **With EDAC it reads the section of its peer**, whatever it has kept, with a database or without
one. -/
theorem reads_errcountsLog {agg : Aggregator} (hedac : agg.edacMissing = false) {m : Message}
    (hm : m.Fits) (kept : Samples) (hostname : Str) (type : BufferType) :
    Reads type (errcountsLog agg m.timestamp kept (charPtr hostname)) (m.enc type) () := by
  intro b hwf htype rest hunread
  have hrecord := (hm.handles_record agg type).attempt ⟨b, kept⟩ hwf htype rest hunread
  have hlog : inventoryLog agg m.timestamp ⟨b, kept⟩ = (.ok (if 0 ≤ agg.dbhandle then
      some (ErrcountsInventory.record m.hostname m.timestamp (kept.merge m.samples)) else none),
        ⟨b.advance (m.enc type).length, kept.merge m.samples⟩) := by
    rw [inventoryLog, hedac, if_neg Bool.false_ne_true, bind_ok hrecord]
    rfl
  show ((inventoryLog agg m.timestamp ⟨b, kept⟩).1.map fun _ => (),
    (inventoryLog agg m.timestamp ⟨b, kept⟩).2.buffer) = _
  rw [hlog]
  rfl

/-- **Without EDAC it declines.** -/
theorem errcountsLog_eq_pure {agg} (hedac : agg.edacMissing = true) (timestamp : Timeval)
    (kept : Samples) (hostname : CharPtr) : errcountsLog agg timestamp kept hostname = pure () := by
  cases hostname with
  | none => rfl
  | some memory =>
    unfold errcountsLog inventoryLog
    rw [if_pos hedac]
    rfl

/-- The names of two modules. -/
def errcounts : Str := ofString "errcounts"
def dmidata : Str := ofString "dmidata"

/-- The section of `errcounts`. -/
def errcountsSection (m : Message) (h : m.Fits) : Section :=
  ⟨packSection m.hostname m.samples, fun type => m.enc type, h.writes⟩

/-- What `inventory_collect` of `errcounts` packs is its name and this section. -/
theorem collect_errcounts {m : Message} (h : m.Fits) {base tree}
    (hsamples : m.samples = inventoryCallbacks (collectInventory base tree) .empty) :
    Sent.collect ⟨errcounts, some (errcountsSection m h)⟩ =
      inventoryCollect m.hostname base tree := by
  rw [inventoryCollect, ← hsamples]
  rfl

theorem componentName_errcounts : ComponentName errcounts := ⟨by decide, by decide⟩

theorem componentName_dmidata : ComponentName dmidata := ⟨by decide, by decide⟩

/-- `errcounts`, which may have no EDAC on the receiver, and another module behind it. -/
def errcountsAndDmidata (edacMissing : Bool) : Plugins where
  sender := [(errcounts, true), (dmidata, true)]
  receiver := [(errcounts, if edacMissing then .declines else .reads), (dmidata, .reads)]
  dbhandleAcquired := true
  nodup_sender := by decide
  nodup_receiver := by
    show [errcounts, dmidata].Nodup
    decide
  name_sender := forall_mem_cons.mpr
    ⟨componentName_errcounts, forall_mem_singleton.mpr componentName_dmidata⟩
  name_receiver := forall_mem_cons.mpr
    ⟨componentName_errcounts, forall_mem_singleton.mpr componentName_dmidata⟩
  count_sender := by decide

theorem role_errcounts {edacMissing role}
    (h : (errcounts, role) ∈ (errcountsAndDmidata edacMissing).receiver) :
    role = if edacMissing then .declines else .reads := by
  rcases mem_cons.mp h with h | h
  · exact (Prod.mk.inj h).2
  · exact absurd (Prod.mk.inj (List.mem_singleton.mp h)).1 (by decide)

section Errcounts

variable (agg : Aggregator) {m : Message} (hm : m.Fits) (kept : Samples)

theorem strFits_model : StrFits (ofString "model") := by decide

/-- What they have in their sections: the sensors of a host, and a string. -/
def sectionOf (name : Str) : Section :=
  if name = errcounts then errcountsSection m hm else stringSection (ofString "model") strFits_model

/-- How they read them. -/
def logOf (timestamp : Timeval) (name : Str) (hostname : CharPtr) : Dss Unit :=
  if name = errcounts then errcountsLog agg timestamp kept hostname
  else (fun _ => ()) <$> unpackString

/-- These two modules. -/
def errcountsBehaviour : Behaviour (errcountsAndDmidata agg.edacMissing) where
  sections := sectionOf hm
  logs := logOf agg kept m.timestamp
  declines := fun name hdeclines hostname => by
    have hname : name = errcounts := by
      rcases mem_cons.mp hdeclines with h | h
      · exact (Prod.mk.inj h).1
      · cases (Prod.mk.inj (List.mem_singleton.mp h)).2
    subst hname
    have hedac : agg.edacMissing = true := by
      have hrole := role_errcounts hdeclines
      split at hrole
      · assumption
      · cases hrole
    rw [logOf, if_pos rfl, errcountsLog_eq_pure hedac]
  reads := fun name hreads _ hostname type => by
    unfold logOf sectionOf
    split
    · next hname =>
      subst hname
      have hedac : agg.edacMissing = false := by
        have hrole := role_errcounts hreads
        split at hrole
        · cases hrole
        · exact Bool.eq_false_of_not_eq_true ‹_›
      exact reads_errcountsLog hedac hm kept hostname type
    · exact (reads_unpackString strFits_model).map _

/-- **With EDAC on both sides both sections arrive**, whatever the sensors of the host are and
whatever the receiver has kept. -/
theorem errcounts_section_arrives (hedac : agg.edacMissing = false) {hostTagValue type b}
    (hhost : StrFits hostTagValue) (hcollect : collectInventoryInfo hostTagValue
      (errcountsBehaviour agg hm kept).sent (construct type) = (.ok (), b)) :
    Right true (errcountsBehaviour agg hm kept).modules hostTagValue
      (errcountsBehaviour agg hm kept).sent (load type b.base) := by
  refine holds_of_reads rfl (fun name hname => ?_) (errcountsBehaviour agg hm kept) hostTagValue type b
    hhost hcollect
  have hcases : name = errcounts ∨ name = dmidata := by
    simpa [errcountsAndDmidata] using hname
  rcases hcases with rfl | rfl <;> simp [errcountsAndDmidata, hedac]

end Errcounts

/-- **The section of a module is lost**, because `errcounts` has no EDAC on the receiver: its section
begins with the host, which is taken for a name, and goes on with a number, which ends the loop. -/
theorem section_is_lost : let beh := errcountsBehaviour ⟨true, 0⟩ fits_hostA .empty
    let collected := collectInventoryInfo (ofString "a") beh.sent (construct .fullyDesc)
    let received := load .fullyDesc collected.2.base
    let result := recvInventory true beh.modules 10 ⟨received, []⟩
    collected.1.toOption = some () ∧ result.1.toOption = some true ∧
      result.2.kept.map LogCall.module = [errcounts] ∧
      (expected beh.modules (charPtr (ofString "a"))
        (received.advance (encString .fullyDesc (ofString "a")).length)
        beh.sent).map LogCall.module = [errcounts, dmidata] ∧
      ¬ (errcountsAndDmidata true).Holds := by
  refine ⟨by decide +kernel, by decide +kernel, by decide +kernel, by decide +kernel, ?_⟩
  have hunread : (errcounts, Role.reads) ∉ (errcountsAndDmidata true).receiver := by decide
  exact not_holds_of_unread rfl (mem_cons_self) hunread
    ⟨.declines, mem_cons_self, by decide⟩

end Sensys.Orcm.Inventory
