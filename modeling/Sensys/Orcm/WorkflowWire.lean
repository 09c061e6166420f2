/-
# Which workflows arrive

The sender packs a tree in one pass (`Items.enc`), and accepts it only if every list in it starts
with a name (`Items.named`).  From the lengths alone it follows which trees can arrive: the receiver
makes as many steps as the length of the workflow says, and as many attributes as the length of the
step says.  A second name, or a step inside a step, is counted in the length and is no step or
attribute.  So the steps and attributes are all there only if the tree is FLAT, and for a flat tree
the bytes are the ones that the receiver expects.
-/
import Sensys.Orcm.Workflow
import Sensys.Opal.DssFormat

namespace Sensys.Orcm.Workflow

open CString Failing Opal.Dss List Items Buffer
open Opal (Dss)

/-! ## 1. Calls that pack if they succeed -/

section Packs

variable {α β : Type} {type : BufferType}

/-- If the call succeeds, it has packed exactly these bytes, and its value is as it should be. -/
def Packs (type : BufferType) (w : Dss α) (bytes : List UInt8) (Q : α → Prop) : Prop :=
  ∀ b : Buffer, b.Wf → b.type = type → ∀ a b', w b = (.ok a, b') →
    ∃ allocated, b' = b.extend bytes allocated ∧ b'.Wf ∧ Q a

variable {bytes : List UInt8} {Q : α → Prop}

theorem packs_of_writes {w} (h : Writes type w bytes) : Packs type w bytes fun _ => True := by
  intro b hwf htype a b' hrun
  rcases h b hwf htype with ⟨allocated, hok, hwf'⟩ | ⟨b'', herror, -⟩
  · rw [hok] at hrun
    cases hrun
    exact ⟨allocated, rfl, hwf', trivial⟩
  · rw [herror] at hrun
    cases hrun

theorem packs_pure {a} (h : Q a) : Packs type (pure a) [] Q := by
  intro b hwf _ a' b' hrun
  cases hrun
  exact ⟨b.bytesAllocated, by simp [extend], hwf, h⟩

theorem packs_throw {e} : Packs type (throw e) bytes Q := by
  intro b _ _ a b' hrun
  cases hrun

theorem Packs.bind {v f s t} {P : α → Prop} {Q : β → Prop} (hv : Packs type v s P)
    (hf : ∀ a, P a → Packs type (f a) t Q) : Packs type (v >>= f) (s ++ t) Q := by
  intro b hwf htype c b'' hrun
  obtain ⟨a, b', hrun₁, hrun₂⟩ := of_bind_ok hrun
  obtain ⟨m, rfl, hwf', hP⟩ := hv b hwf htype a b' hrun₁
  obtain ⟨n, rfl, hwf'', hQ⟩ := hf a hP _ hwf' htype c b'' hrun₂
  rw [extend_extend] at hwf'' ⊢
  exact ⟨n, rfl, hwf'', hQ⟩

theorem Packs.imp {w P} (h : Packs type w bytes P) (hPQ : ∀ a, P a → Q a) :
    Packs type w bytes Q := by
  intro b hwf htype a b' hrun
  obtain ⟨m, heq, hwf', hP⟩ := h b hwf htype a b' hrun
  exact ⟨m, heq, hwf', hPQ a hP⟩

end Packs

/-! ## 2. What the sender packs -/

section Sender

variable {type : BufferType}

/-- The bytes of a string. -/
def encString (type : BufferType) (s : Str) : List UInt8 := stringFormat.encCall type (charPtr s)

/-- The bytes of the length of a list, less one. -/
def encLength (type : BufferType) (length : ℕ) : List UInt8 :=
  intFormat.encCall type (Int32.ofInt (length - 1))

theorem writes_string {s} (h : StrFits s) :
    Writes type (packCall string (charPtr s)) (encString type s) :=
  stringFormat.writes_packCall type (.inr ⟨s, rfl, h⟩)

/-- The bytes of a tree. -/
def Items.enc (type : BufferType) : Items → List UInt8
  | nil => []
  | string key value next =>
    (if key = nameKey then [] else encString type key) ++ encString type value ++ next.enc type
  | ptr _ list next => encLength type list.length ++ list.enc type ++ next.enc type
  | other _ _ => []

/-- The strings and the lengths of a tree fit the types they are packed with. -/
def Items.Fits : Items → Prop
  | nil => True
  | string key value next => StrFits key ∧ StrFits value ∧ next.Fits
  | ptr _ list next => list.length < 2 ^ 31 ∧ list.Fits ∧ next.Fits
  | other _ next => next.Fits

/-- Every list starts with a name; `first` says whether this one has just begun. -/
def Items.named (first : Bool) : Items → Bool
  | nil => !first
  | string key _ next => (!first || key == nameKey) && next.named false
  | ptr _ list next => !first && list.named true && next.named false
  | other _ _ => false

theorem packs_checkFilterStep (key value : Str) (flag : Bool) :
    Packs type (checkFilterStep key value flag) [] fun _ => True := by
  rw [checkFilterStep]
  split_ifs
  · exact packs_pure trivial
  · exact packs_throw
  · exact packs_pure trivial

variable {head : Str}

theorem packs_checkNameKey {key isName} (h : StrFits key) :
    Packs type (checkNameKey head key isName) (if key = nameKey then [] else encString type key)
      fun isName' => isName' = true ∧ (isName = false → key = nameKey) := by
  rw [checkNameKey]
  by_cases hname : key = nameKey
  · rw [if_neg (fun hfirst => hfirst.2 hname), if_pos hname, if_pos hname]
    exact packs_pure ⟨rfl, fun _ => hname⟩
  split_ifs with hfirst hhead
  · exact packs_throw
  · exact packs_throw
  · have hkey : isName = false → key = nameKey := fun hfalse => absurd ⟨hfalse, hname⟩ hfirst
    rw [← List.append_nil (encString type key)]
    exact (packs_of_writes (writes_string h)).bind fun _ _ => packs_pure ⟨rfl, hkey⟩

theorem packs_extractStringType {key value isName flag} (hkey : StrFits key)
    (hvalue : StrFits value) : Packs type (extractStringType key value head isName flag)
      ((if key = nameKey then [] else encString type key) ++ encString type value)
      fun flags => flags.1 = true ∧ (isName = false → key = nameKey) := by
  refine (packs_checkNameKey hkey).bind fun isName' hname => ?_
  rw [← nil_append (encString type value)]
  refine (packs_checkFilterStep head value flag).bind fun flag' _ => ?_
  rw [← List.append_nil (encString type value)]
  exact (packs_of_writes (writes_string hvalue)).bind fun _ _ => packs_pure hname

theorem packs_withLength {α : Type} {length} (h : length < 2 ^ 31) {each bytes} {Q : α → Prop}
    (heach : length ≠ 0 → Packs type each bytes Q) :
    Packs type (withLength length each) (encLength type length ++ bytes) Q := by
  have hint : Sensys.int32 length = length := int32_eq (by omega) (by omega)
  rw [withLength, hint, if_neg (by omega)]
  refine (packs_of_writes (intFormat.writes_packCall type trivial)).bind fun _ _ => ?_
  split_ifs with hzero
  · exact packs_throw
  · exact heach hzero

theorem Items.length_ne_zero {items : Items} (h : items.length ≠ 0) : items ≠ .nil :=
  fun hnil => h (by rw [hnil]; rfl)

/-- **What the sender packs**, if it accepts the list. -/
theorem packs_extractEach : ∀ items head isName flag, items.Fits →
    (isName = false → items ≠ .nil) →
    Packs type (extractEach head items isName flag) (items.enc type)
      fun _ => items.named (!isName) = true
  | .nil, _, isName, _, _, hnil => by
    cases isName with
    | false => exact absurd rfl (hnil rfl)
    | true => exact packs_pure rfl
  | .string key value next, head, isName, flag, h, _ => by
    obtain ⟨hkey, hvalue, hnext⟩ := h
    refine (packs_extractStringType hkey hvalue).bind fun flags hflags => ?_
    have hrest := packs_extractEach next head flags.1 flags.2 hnext
      (fun hfalse => by rw [hflags.1] at hfalse; cases hfalse)
    refine hrest.imp fun _ hnamed => ?_
    rw [hflags.1] at hnamed
    cases isName with
    | false => simpa [named, hflags.2 rfl] using hnamed
    | true => simpa [named] using hnamed
  | .ptr key list next, head, isName, flag, h, _ => by
    obtain ⟨hlength, hlist, hnext⟩ := h
    rw [extractEach]
    split_ifs with hfirst hstep
    · exact packs_throw
    · have hlist' := packs_withLength hlength fun hne =>
        packs_extractEach list key false flag hlist fun _ => length_ne_zero hne
      refine hlist'.bind fun flag' hnamed => ?_
      have htrue : isName = true := by simpa using hfirst
      have hrest := packs_extractEach next head isName flag' hnext
        (fun hfalse => absurd hfalse hfirst)
      refine hrest.imp fun _ hnext' => ?_
      rw [htrue] at hnext' ⊢
      have hlist'' : list.named true = true := hnamed
      simpa [named, hlist''] using hnext'
    · exact packs_throw
  | .other _ _, _, _, _, _, _ => packs_throw

/-- A workflow that is accepted: the bytes in the buffer, and the names. -/
theorem packs_extractWorkflowInfo {items : Items} {flag} (hlength : items.length < 2 ^ 31)
    (h : items.Fits) : Packs type (extractWorkflowInfo items head flag)
      (encLength type items.length ++ items.enc type) fun _ => items.named true = true :=
  packs_withLength hlength fun hne =>
    packs_extractEach items head false flag h fun _ => length_ne_zero hne

end Sender

/-! ## 3. What the receiver reads -/

section Receiver

variable {α β : Type} {type : BufferType}

theorem reads_unpackInto {info} (f : Format info) {a} (h : f.Ok a) (old : β) (value : α → β) :
    Reads type (unpackInto info 1 old value) (f.encCall type a) (1, value a) :=
  (f.reads_unpack_one type h).bind_pure rfl

theorem reads_string {s} (h : StrFits s) (old : CharPtr) :
    Reads type (unpackInto string 1 old id) (encString type s) (1, charPtr s) :=
  reads_unpackInto stringFormat (.inr ⟨s, rfl, h⟩) old id

theorem reads_length (length : ℕ) : Reads type (unpackInto int 1 none some) (encLength type length)
      (1, some (Int32.ofInt (length - 1))) :=
  reads_unpackInto intFormat trivial none some

theorem Reads.orError {x bytes} {a : α} (h : Reads type x bytes a) :
    Reads type (orError x) bytes a := by
  intro b hwf htype rest hunread
  rw [Workflow.orError, h b hwf htype rest hunread]

/-- The bytes of attributes. -/
def encAttributes (type : BufferType) (attributes : List (Str × Str)) : List UInt8 :=
  attributes.flatMap fun entry => encString type entry.1 ++ encString type entry.2

/-- An attribute as the receiver keeps it. -/
def received (entry : Str × Str) : CharPtr × CharPtr := (charPtr entry.1, charPtr entry.2)

theorem reads_parseAttributes : ∀ attributes key value,
    (∀ entry ∈ attributes, StrFits entry.1 ∧ StrFits entry.2) →
      Reads type (parseAttributes attributes.length 1 key value) (encAttributes type attributes)
        (attributes.map received)
  | [], _, _, _ => reads_pure []
  | entry :: attributes, key, value, h => by
    obtain ⟨hkey, hvalue⟩ := h entry mem_cons_self
    have hrest := reads_parseAttributes attributes (charPtr entry.1) (charPtr entry.2)
      fun e he => h e (mem_cons_of_mem _ he)
    rw [encAttributes, flatMap_cons, List.append_assoc]
    refine (Reads.orError (reads_string hkey key)).bind ?_
    refine (Reads.orError (reads_string hvalue value)).bind ?_
    exact hrest.bind_pure rfl

/-- The receiver makes as many attributes as it is told. -/
theorem length_parseAttributes : ∀ rounds {cnt key value b b' attributes},
    parseAttributes rounds cnt key value b = (.ok attributes, b') → attributes.length = rounds
  | 0, _, _, _, _, _, _, h => by
    cases h
    rfl
  | rounds + 1, _, _, _, _, _, _, h => by
    obtain ⟨first, b₁, -, h⟩ := of_bind_ok h
    obtain ⟨second, b₂, -, h⟩ := of_bind_ok h
    obtain ⟨attributes, b₃, hrest, hpure⟩ := of_bind_ok h
    cases hpure
    exact congrArg (· + 1) (length_parseAttributes rounds hrest)

/-- The receiver makes as many steps as it is told. -/
theorem length_addSteps {host} : ∀ rounds step {b b' steps},
    addSteps host rounds step b = (.ok steps, b') → steps.length = rounds
  | 0, _, _, _, _, h => by
    cases h
    rfl
  | rounds + 1, step, _, _, _, h => by
    obtain ⟨wfStep, b₁, -, h⟩ := of_bind_ok h
    obtain ⟨steps, b₂, hrest, hpure⟩ := of_bind_ok h
    cases hpure
    exact congrArg (· + 1) (length_addSteps rounds (step + 1) hrest)

end Receiver

/-! ## 4. Lengths -/

namespace Items

variable {type : BufferType}

/-- A list that starts with a name. -/
theorem exists_of_named : ∀ {items}, items.named true = true →
    ∃ value next, items = string nameKey value next ∧ next.named false = true
  | string key value next, h => by
    simp only [named, Bool.not_true, Bool.false_or, Bool.and_eq_true, beq_iff_eq] at h
    exact ⟨value, next, by rw [h.1], h.2⟩

theorem length_attributes_le : ∀ items : Items, items.attributes.length ≤ items.length
  | nil => Nat.le_refl _
  | string key value next => by
    have ih := length_attributes_le next
    simp only [attributes, length]
    split
    · omega
    · rw [length_cons]
      omega
  | ptr _ _ next | other _ next => (length_attributes_le next).trans (Nat.le_succ _)

/-- If the attributes are as many as the items, there are only attributes. -/
theorem onlyAttributes_of_length : ∀ {items : Items},
    items.attributes.length = items.length → items.onlyAttributes = true
  | nil, _ => rfl
  | string key value next, h => by
    have hle := length_attributes_le next
    simp only [attributes, length] at h
    split at h
    · omega
    · rename_i hname
      simp [onlyAttributes, hname, onlyAttributes_of_length (Nat.succ.inj h)]
  | ptr _ _ next, h | other _ next, h => absurd h (Nat.ne_of_lt (Nat.lt_succ_of_le (length_attributes_le next)))

theorem enc_of_onlyAttributes : ∀ {items : Items}, items.onlyAttributes = true →
    items.enc type = encAttributes type items.attributes ∧ items.attributes.length = items.length
  | nil, _ => ⟨rfl, rfl⟩
  | string key value next, h => by
    simp only [onlyAttributes, Bool.and_eq_true, bne_iff_ne, ne_eq] at h
    obtain ⟨henc, hlength⟩ := enc_of_onlyAttributes h.2
    simp only [enc, attributes, if_neg h.1, henc, length, length_cons, hlength]
    simp [encAttributes]

theorem Fits.attributes : ∀ {items : Items}, items.Fits →
    ∀ entry ∈ items.attributes, StrFits entry.1 ∧ StrFits entry.2
  | nil, _, _, hmem => (not_mem_nil hmem).elim
  | string key value next, h, entry, hmem => by
    rw [Items.attributes] at hmem
    split at hmem
    · exact Fits.attributes h.2.2 entry hmem
    · rcases mem_cons.mp hmem with rfl | hmem
      · exact ⟨h.1, h.2.1⟩
      · exact Fits.attributes h.2.2 entry hmem
  | ptr _ _ next, h, entry, hmem => Fits.attributes h.2.2 entry hmem
  | other _ next, h, entry, hmem => by
    have hnext : next.Fits := h
    exact hnext.attributes entry hmem

theorem length_steps_le : ∀ items : Items, items.steps.length ≤ items.length
  | nil => Nat.le_refl _
  | ptr key list next => by
    have ih := length_steps_le next
    simp only [steps, length]
    split
    · rw [length_cons]
      omega
    · omega
  | string _ _ next | other _ next => (length_steps_le next).trans (Nat.le_succ _)

end Items

/-! ## 5. Flat trees arrive, and no others -/

section Arrives

variable {type : BufferType} {host : Host}

/-- The plugin of the step is there. -/
def Selects (host : Host) (list : Items) : Prop :=
  ∀ name, list.name = some name → host.selectWorkflowStep (getPluginName host name) = .success

theorem stepOf_string (step : ℕ) (value : Str) (next : Items) :
    stepOf step (.string nameKey value next)
      = ⟨step, charPtr value, next.attributes.map received⟩ := by
  rfl

theorem length_stepsFrom : ∀ step lists,
    (stepsFrom step lists).length = lists.length
  | _, [] => rfl
  | step, _ :: lists => congrArg (· + 1) (length_stepsFrom (step + 1) lists)

theorem enc_string (value next) :
    (string nameKey value next).enc type = encString type value ++ next.enc type := by
  simp [enc]

theorem toNat_length (n : ℕ) (h : n + 1 < 2 ^ 31) :
    (Int32.ofInt (((n + 1 : ℕ) : ℤ) - 1)).toInt.toNat = n := by
  rw [show (((n + 1 : ℕ) : ℤ) - 1) = (n : ℤ) by omega]
  exact toNat_toInt_ofInt (by omega)

variable {value : Str}

/-- **A flat step is read as it is described.** -/
theorem reads_workflowStepAdd {next} (step : ℕ) (hlength : next.length + 1 < 2 ^ 31)
    (hvalue : StrFits value) (hnext : next.Fits) (hflat : next.onlyAttributes = true)
    (hselect : Selects host (.string nameKey value next)) : Reads type (workflowStepAdd host step)
      (encLength type (next.length + 1) ++ (encString type value ++ next.enc type))
      (stepOf step (.string nameKey value next)) := by
  have henc : next.enc type = _ ∧ _ := Items.enc_of_onlyAttributes hflat
  have hattributes : Reads type _ _ _ :=
    reads_parseAttributes next.attributes none none hnext.attributes
  rw [henc.2] at hattributes
  rw [henc.1, stepOf_string]
  refine (reads_length _).bind ((reads_string hvalue none).bind ?_)
  refine Reads.bind (s := []) (reads_pure _) ?_
  rw [toNat_length _ hlength]
  refine hattributes.bind_pure ?_
  have hname := hselect value (by simp [Items.name])
  rw [strdup_charPtr hvalue.1, pure_bind, if_pos hname]

/-- A step that was made has as many attributes as its length says. -/
theorem length_attributes_of_workflowStepAdd {length step rest b b' wfStep}
    (hlength : length + 1 < 2 ^ 31) (hwf : b.Wf) (htype : b.type = type)
    (hunread : b.unread = encLength type (length + 1) ++ (encString type value ++ rest))
    (hrun : workflowStepAdd host step b = (.ok wfStep, b')) :
    wfStep.attributes.length = length := by
  obtain ⟨num, b₁, hnum, hrun⟩ := of_bind_ok hrun
  rw [reads_length _ b hwf htype _ hunread] at hnum
  cases hnum
  obtain ⟨⟨cnt, name⟩, b₂, -, hrun⟩ := of_bind_ok hrun
  obtain ⟨num, b₃, hgiven, hrun⟩ := of_bind_ok hrun
  cases hgiven
  obtain ⟨attributes, b₄, hattributes, hrun⟩ := of_bind_ok hrun
  obtain ⟨s, b₅, -, hrun⟩ := of_bind_ok hrun
  split at hrun
  · cases hrun
    rw [length_parseAttributes _ hattributes, toNat_length _ hlength]
  · cases hrun

/-- **Flat steps are read as they are described.** -/
theorem reads_addSteps : ∀ (items : Items) (step : ℕ), items.Fits → items.onlySteps = true →
    (∀ list ∈ items.steps, Selects host list) →
      Reads type (addSteps host items.length step) (items.enc type) (stepsFrom step items.steps)
  | .nil, _, _, _, _ => reads_pure []
  | .ptr key list next, step, hfits, hflat, hselect => by
    obtain ⟨hlength, hlist, hnext⟩ := hfits
    simp only [onlySteps, Bool.and_eq_true, beq_iff_eq] at hflat
    obtain ⟨⟨hkey, hflatStep⟩, hrest⟩ := hflat
    simp only [steps, if_pos hkey] at hselect ⊢
    cases list with
    | string key' value tail =>
      simp only [flatStep, Bool.and_eq_true, beq_iff_eq] at hflatStep
      obtain ⟨rfl, htail⟩ := hflatStep
      have hstep : Reads type (workflowStepAdd host step) _ _ :=
        reads_workflowStepAdd step hlength hlist.2.1 hlist.2.2 htail
          (hselect _ mem_cons_self)
      have hsteps : Reads type _ _ _ := reads_addSteps next (step + 1) hnext hrest
        fun l hl => hselect l (mem_cons_of_mem _ hl)
      exact hstep.bind (hsteps.bind_pure rfl)
    | nil | ptr | other => cases hflatStep

/-- **Steps that are made as they are described are flat.**  The length of a step is the number of
its attributes, so it has only attributes, and the next step is read from its start. -/
theorem onlySteps_of_addSteps : ∀ (items : Items) (step : ℕ) {b b' : Buffer} {rest : List UInt8},
    items.Fits → items.named false = true → items.steps.length = items.length →
    (∀ list ∈ items.steps, Selects host list) → b.Wf → b.type = type →
    b.unread = items.enc type ++ rest →
    addSteps host items.length step b = (.ok (stepsFrom step items.steps), b') →
      items.onlySteps = true
  | .nil, _, _, _, _, _, _, _, _, _, _, _, _ => rfl
  | .string _ _ next, _, _, _, _, _, _, hcount, _, _, _, _, _
  | .other _ next, _, _, _, _, _, _, hcount, _, _, _, _, _ =>
    absurd hcount (Nat.ne_of_lt (Nat.lt_succ_of_le next.length_steps_le))
  | .ptr key list next, step, b, b', rest, hfits, hnamed, hcount, hselect, hwf, htype, hunread,
      hrun => by
    obtain ⟨hlength, hlist, hnext⟩ := hfits
    have hle := next.length_steps_le
    simp only [Items.named, Bool.not_false, Bool.true_and, Bool.and_eq_true] at hnamed
    obtain ⟨value, tail, rfl, -⟩ := Items.exists_of_named hnamed.1
    -- all lists of the workflow are steps
    have hkey : key = stepKey := by
      by_contra hne
      simp only [Items.steps, if_neg hne, Items.length] at hcount
      omega
    simp only [Items.steps, if_pos hkey, Items.length, length_cons] at hcount hselect hrun
    rw [Items.enc, enc_string, Items.length, List.append_assoc, List.append_assoc,
      List.append_assoc] at hunread
    obtain ⟨wfStep, b₁, hstep, hrun⟩ := of_bind_ok hrun
    obtain ⟨steps, b₂, hsteps, hpure⟩ := of_bind_ok hrun
    have heq : wfStep = stepOf step (.string nameKey value tail) ∧
        steps = stepsFrom (step + 1) next.steps := by
      cases hpure
      exact ⟨rfl, rfl⟩
    have hcounted := length_attributes_of_workflowStepAdd hlength hwf htype hunread hstep
    rw [heq.1, stepOf_string, length_map] at hcounted
    have htail := Items.onlyAttributes_of_length hcounted
    -- so the first step is read to its end, and the others from there
    have hreads : Reads type (workflowStepAdd host step) _ _ :=
      reads_workflowStepAdd step hlength hlist.2.1 hlist.2.2 htail (hselect _ mem_cons_self)
    have hunread' : b.unread = (encLength type (tail.length + 1)
        ++ (encString type value ++ tail.enc type)) ++ (next.enc type ++ rest) := by
      rw [hunread]
      simp
    rw [hreads b hwf htype _ hunread'] at hstep
    cases hstep
    rw [heq.2] at hsteps
    obtain ⟨hwf', hunread''⟩ := hwf.past hunread'
    have hrest := onlySteps_of_addSteps next (step + 1) hnext hnamed.2 (by omega)
      (fun l hl => hselect l (mem_cons_of_mem _ hl)) hwf' htype hunread'' hsteps
    simp [Items.onlySteps, hkey, Items.flatStep, htail, hrest]

/-- The receiver reads the length and the name; what is left is the loop over the steps. -/
theorem workflowAdd_eq {workflowId} {next : Items} {b rest} (hthread : host.threadStarts = true)
    (hlength : next.length + 1 < 2 ^ 31) (hvalue : StrFits value) (hwf : b.Wf)
    (htype : b.type = type)
    (hunread : b.unread = (encLength type (next.length + 1) ++ encString type value) ++ rest) :
    workflowAdd host workflowId b = (do
      let steps ← addSteps host next.length 0
      pure ⟨charPtr value, workflowId, steps⟩ : Dss Wf)
        (b.advance (encLength type (next.length + 1) ++ encString type value).length) := by
  rw [List.append_assoc] at hunread
  obtain ⟨hwf', hrest⟩ := hwf.past hunread
  have hnum := reads_length _ b hwf htype _ hunread
  have hname := reads_string hvalue none _ hwf' htype rest hrest
  rw [workflowAdd, bind_ok hnum]
  dsimp only
  rw [bind_ok hname, advance_advance, ← length_append]
  rw [if_neg (by rw [hthread]; decide), given, pure_bind, toNat_length _ hlength]

/-- **A workflow arrives as it is described if and only if it is flat.** -/
theorem workflow_arrives_iff (type : BufferType) (host : Host) (workflowId : ℤ) (items : Items)
    (flag : Bool) (b : Buffer) (hlength : items.length < 2 ^ 31) (hfits : items.Fits)
    (hthread : host.threadStarts = true) (hselect : ∀ list ∈ items.steps, Selects host list)
    (haccepted : extractWorkflowInfo items workflowKey false (Buffer.construct type)
      = (.ok flag, b)) : Arrives host workflowId items b ↔ items.flat = true := by
  obtain ⟨allocated, hb, hwf, hnamed⟩ := packs_extractWorkflowInfo hlength hfits _
    (wf_construct type) rfl flag b haccepted
  obtain ⟨value, next, rfl, hnext⟩ := Items.exists_of_named hnamed
  have htype : b.type = type := by rw [hb]; rfl
  have hused : (b.bytesUsed : ℤ) = b.unread.length := by
    rw [hb]
    simp [unread, extend, construct]
  have hzero : b.unpackPtr = 0 := by rw [hb]; rfl
  have hunread : b.unread = (encLength type (next.length + 1) ++ encString type value)
      ++ (next.enc type ++ []) := by
    rw [hb, enc_string]
    simp [unread, extend, construct, Items.length]
  have hrun : workflowAdd host workflowId b = _ :=
    workflowAdd_eq hthread hlength hfits.2.1 hwf htype hunread
  obtain ⟨hwf', hrest⟩ := hwf.past hunread
  have hend : (b.advance (encLength type (next.length + 1) ++ encString type value).length).advance
      (next.enc type).length = { b with unpackPtr := b.bytesUsed } := by
    rw [advance_advance, advance, hused, hunread, hzero]
    simp [Int.add_assoc]
  have hmeant : wfOf workflowId (.string nameKey value next)
      = ⟨charPtr value, workflowId, stepsFrom 0 next.steps⟩ := by
    simp [wfOf, Items.name, Items.steps]
  rw [Arrives, hrun, hmeant]
  constructor
  · intro harrives
    obtain ⟨steps, b₁, hsteps, hpure⟩ := of_bind_ok harrives
    have heq : steps = stepsFrom 0 next.steps := by
      cases hpure
      rfl
    rw [heq] at hsteps
    have hcount := length_addSteps _ _ hsteps
    rw [length_stepsFrom] at hcount
    have honly := onlySteps_of_addSteps next 0 hfits.2.2 hnext hcount hselect hwf' htype hrest hsteps
    simp [Items.flat, honly]
  · intro hflat
    have honly : next.onlySteps = true := by simpa [Items.flat] using hflat
    have hreads : Reads type _ _ _ := reads_addSteps next 0 hfits.2.2 honly hselect
    rw [bind_ok (hreads _ hwf' htype _ hrest), hend]
    rfl

end Arrives

/-! ## 6. Two workflows -/

/-- A host with every plugin. -/
def anyHost : Host := ⟨true, fun _ => false, fun _ => .success⟩

/-- A workflow with a filter and the average of a window. -/
def twoSteps : Items :=
  .string nameKey (ofString "temperature")
    (.ptr stepKey (.string nameKey filterName
        (.string (ofString "data_group") (ofString "coretemp") .nil))
      (.ptr stepKey (.string nameKey (ofString "window")
          (.string (ofString "win_size") (ofString "10")
            (.string (ofString "compute") (ofString "average") .nil))) .nil))

/-- A call that succeeds, with the buffer it leaves. -/
theorem eq_of_fst {α : Type} {x : Dss α} {b a} (h : (x b).1 = .ok a) :
    x b = (.ok a, (x b).2) := Prod.ext h rfl

/-- Sent and received in a buffer without descriptions. -/
theorem workflow_arrives_iff_two : ∃ b,
    extractWorkflowInfo twoSteps workflowKey false (Buffer.construct .nonDesc) = (.ok true, b) ∧
      Arrives anyHost 0 twoSteps b := by
  have haccepted : (extractWorkflowInfo twoSteps workflowKey false
      (construct .nonDesc)).1 = .ok true := by decide +kernel
  have hfits : twoSteps.Fits := by
    simp only [twoSteps, Items.Fits, StrFits]
    decide +kernel
  have hlength : twoSteps.length < 2 ^ 31 := by decide +kernel
  have hflat : twoSteps.flat = true := by decide +kernel
  exact ⟨_, eq_of_fst haccepted, (workflow_arrives_iff .nonDesc anyHost 0 twoSteps true _ hlength
    hfits rfl (fun _ _ _ _ => rfl) (eq_of_fst haccepted)).mpr hflat⟩

/-- A step with two names. -/
def twoNames : Items :=
  .string nameKey (ofString "temperature")
    (.ptr stepKey (.string nameKey filterName
      (.string nameKey (ofString "coretemp")
        (.string (ofString "sensor_name") (ofString "core 0") .nil))) .nil)

/-- **A second name is packed without its key**: the sender accepts the workflow, and the receiver
takes the name for a key and the key for its value, and runs out of strings. -/
theorem second_name_does_not_arrive :
    (extractWorkflowInfo twoNames workflowKey false (Buffer.construct .nonDesc)).1 = .ok true ∧
    (workflowAdd anyHost 0
      (extractWorkflowInfo twoNames workflowKey false (Buffer.construct .nonDesc)).2).1
        = .error (.rc .error) := by
  decide +kernel

end Sensys.Orcm.Workflow
