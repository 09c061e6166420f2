/-
# Inventories of the error counters

`orcm/mca/sensor/errcounts/errcounts.cpp`: `inventory_collect` packs the name of the plugin, the
host and the sensors of the host, each with a label; `inventory_log` unpacks host and sensors on an
aggregator, and stores them as one record.

Between messages the aggregator keeps the sensors in the map `inv_log_samples_`.  Before a message
is unpacked, `unpack_inv_sample` clears ANOTHER map, `inv_samples_`; so what earlier messages had
put into the first one is still there, and it is stored with the record of the next host as well.

* `record_right_iff`: the record that is stored for a message is right if and only if the message
  has every label that an earlier message had.
* `sensors_of_another_host`: two hosts.
* `inventories_right_iff`: the records of hosts, whose sensors are numbered from 1 on.
-/
import Sensys.Lib.SortedMap
import Sensys.Opal.DssFormat
import Sensys.Opal.DssHandler
import Sensys.Orcm.EdacCollector

namespace Sensys.Orcm.ErrcountsInventory

open CString Opal Opal.Dss Failing EdacCollector List

/-! ## 1. Collecting an inventory -/

/-- `std::map<string, string>`: the sensors by their labels. -/
abbrev Samples := SortedMap Str Str

-- labels are compared byte by byte
instance instIsPreorderByte : Std.IsPreorder UInt8 := inferInstance

instance instTrichotomousLabel : Std.Trichotomous (α := Str) (· < ·) := inferInstance

/-- The names of the sensors, in the order of `collect_inventory`. -/
def inventoryNames (base : Str) (tree : Tree) : List Str :=
  (List.range (getMcFolderCount base tree)).flatMap fun mc =>
    (List.range (getCsrowFolderCount base tree mc)).flatMap fun csrow =>
      sumLabel mc csrow "_CE" :: sumLabel mc csrow "_UE" ::
        (List.range (getChannelFolderCount base tree mc csrow)).map fun channel =>
          getChannelLabel base tree mc csrow channel ++ ofString "_CE"

/-- The label of a sensor: `++sensor_count`, from 0 on. -/
def sensorLabel (i : ℕ) : Str := ofString "sensor_errcounts_" ++ decimal (i + 1)

/-- `edac_collector::collect_inventory`: what is passed to the callback. -/
def collectInventory (base : Str) (tree : Tree) : List (Str × Str) :=
  (inventoryNames base tree).mapIdx fun i name => (sensorLabel i, name)

/-- `inventory_callback`, for one sensor after the other. -/
def inventoryCallbacks (sensors : List (Str × Str)) (invSamples : Samples) : Samples :=
  sensors.foldl (fun m sensor => m.insertWith (fun _ new => new) sensor.1 sensor.2) invSamples

/-- `pack_string`. -/
def packString (s : Str) : Dss Unit := packCall string (charPtr s)

/-- `pack_inv_sample`. -/
def packInvSample (invSamples : Samples) : Dss Unit := do
  packCall Dss.int32 (Int32.ofInt invSamples.entries.length)
  invSamples.entries.forM fun sample => do
    packString sample.1
    packString sample.2

/-- What is packed behind the name of the plugin. -/
def packSection (hostname : Str) (invSamples : Samples) : Dss Unit := do
  packString hostname
  packInvSample invSamples

/-- `inventory_collect`, where `edac_missing_` is not set. -/
def inventoryCollect (hostname base : Str) (tree : Tree) : Dss Unit := do
  packString (ofString "errcounts")
  packSection hostname (inventoryCallbacks (collectInventory base tree) .empty)

/-! ## 2. Storing an inventory -/

/-- What `inventory_log` works on: the buffer, and `inv_log_samples_`. -/
abbrev Log := Handler Samples

/-- `unpack_string`. -/
def unpackString : Dss Str := do
  match ← unpack string 1 with
  | (1, [some bytes]) => strdup (some bytes)
  | _ => throw (.rc .errUnpackFailure)

/-- `unpack_int32`.  A count of 0 leaves the value as it was. -/
def unpackInt32 : Dss Int32 := unpackCall Dss.int32

/-- The loop of `unpack_inv_sample`. -/
def unpackSamples : ℕ → Log Unit
  | 0 => pure ()
  | n + 1 => do
    let label ← lift unpackString
    let name ← lift unpackString
    change fun invLogSamples => invLogSamples.insertWith (fun _ new => new) label name
    unpackSamples n

/-- `unpack_inv_sample`.  It clears `inv_samples_`, which is not used here. -/
def unpackInvSample : Log Unit := do
  let count ← lift unpackInt32
  unpackSamples count.toInt.toNat

/-- `orcm_value_t`, of a record. -/
inductive Item where
  | string (key value : Str)
  | timeval (key : Str) (value : Timeval)
  deriving DecidableEq, Repr

/-- The record of a host. -/
def record (hostname : Str) (timestamp : Timeval) (samples : Samples) : List Item :=
  .string (ofString "hostname") hostname :: .timeval (ofString "ctime") timestamp ::
    samples.entries.map fun sample => .string sample.1 sample.2

/-- The aggregator. -/
structure Aggregator where
  edacMissing : Bool
  dbhandle : ℤ

/-- The body of `while (true)`, which is run once. -/
def inventoryRecord (agg : Aggregator) (timestamp : Timeval) : Log (Option (List Item)) := do
  let phostname ← lift unpackString
  unpackInvSample
  let log ← get
  pure (if 0 ≤ agg.dbhandle then some (record phostname timestamp log.kept) else none)

/-- `inventory_log`: the record that is stored, if there is one.  A call that fails ends it. -/
def inventoryLog (agg : Aggregator) (timestamp : Timeval) : Log (Option (List Item)) :=
  if agg.edacMissing then pure none
  else do
    match ← attempt (inventoryRecord agg timestamp) with
    | .ok items => pure items
    | .error _ => pure none

/-! ## 3. One message -/

/-- A message: where it comes from, its sensors, and the time at which it is handled. -/
structure Message where
  hostname : Str
  samples : Samples
  timestamp : Timeval

/-- Lengths that fit into an `int32_t`. -/
structure Message.Fits (m : Message) : Prop where
  hostname : StrFits m.hostname
  count : m.samples.entries.length < 2 ^ 31
  samples : ∀ sample ∈ m.samples.entries, StrFits sample.1 ∧ StrFits sample.2

/-- The bytes of a string. -/
def encString (type : BufferType) (s : Str) : List UInt8 := stringFormat.encCall type (charPtr s)

/-- The bytes of the sensors. -/
def encSamples (type : BufferType) (samples : List (Str × Str)) : List UInt8 :=
  samples.flatMap fun sample => encString type sample.1 ++ encString type sample.2

/-- The bytes of a message, behind the name of the plugin. -/
def Message.enc (type : BufferType) (m : Message) : List UInt8 :=
  encString type m.hostname ++
    (int32Format.encCall type (Int32.ofInt m.samples.entries.length) ++
      encSamples type m.samples.entries)

variable {type : BufferType} {s : Str} {m : Message} {agg : Aggregator}

theorem writes_packString (h : StrFits s) : Writes type (packString s) (encString type s) :=
  stringFormat.writes_packCall type (.inr ⟨s, rfl, h⟩)

theorem length_encString_le (type s) :
    (encString type s).length ≤ s.length + 11 := by
  refine Format.length_encCall_le (n := s.length + 5) stringFormat ?_
  simp [stringFormat, eachFormat, charPtr, CharPtr.enc, word, length_bigEndian]
  omega

theorem reads_unpack_string (h : StrFits s) :
    Reads type (unpack string 1) (encString type s) (1, [charPtr s]) :=
  stringFormat.reads_unpack_one type (.inr ⟨s, rfl, h⟩)

theorem reads_unpackString (h : StrFits s) : Reads type unpackString (encString type s) s :=
  (reads_unpack_string h).bind_pure (strdup_charPtr h.1)

variable (type)

/-- **What is packed is the message.** -/
theorem Message.Fits.writes (h : m.Fits) :
    Writes type (packSection m.hostname m.samples) (m.enc type) := by
  have hsamples : Writes type (m.samples.entries.forM fun sample => do
      packString sample.1
      packString sample.2) (encSamples type m.samples.entries) :=
    writes_forM m.samples.entries fun sample hsample =>
      (writes_packString (h.samples sample hsample).1).bind
        (writes_packString (h.samples sample hsample).2)
  exact (writes_packString h.hostname).bind
    ((int32Format.writes_packCall type trivial).bind hsamples)

theorem handles_unpackSamples : ∀ samples : List (Str × Str),
    (∀ sample ∈ samples, StrFits sample.1 ∧ StrFits sample.2) →
      Handles type (unpackSamples samples.length) (encSamples type samples)
        fun kept => ((), inventoryCallbacks samples kept)
  | [], _ => handles_nil fun _ => rfl
  | sample :: samples, h => by
    obtain ⟨hlabel, hname⟩ := h sample mem_cons_self
    have hrest := handles_unpackSamples samples fun s hs => h s (mem_cons_of_mem sample hs)
    have hbytes : encSamples type (sample :: samples) =
        encString type sample.1 ++
          (encString type sample.2 ++ ([] ++ encSamples type samples)) := by
      unfold encSamples
      simp
    rw [hbytes, length_cons, unpackSamples]
    refine Handles.lift_bind (reads_unpackString hlabel) ?_
    refine Handles.lift_bind (reads_unpackString hname) ?_
    exact Handles.bind (f := fun kept => ((), inventoryCallbacks [sample] kept))
      (handles_nil fun _ => rfl) fun _ => hrest

theorem Message.Fits.handles (h : m.Fits) :
    Handles type unpackInvSample (int32Format.encCall type (Int32.ofInt m.samples.entries.length) ++
      encSamples type m.samples.entries) fun kept => ((), kept.merge m.samples) := by
  have hcount : (Int32.ofInt m.samples.entries.length).toInt.toNat = m.samples.entries.length := by
    have hlt := h.count
    rw [Int32.toInt_ofInt_of_le (by omega) (by omega)]
    exact Int.toNat_natCast _
  have hloop := handles_unpackSamples type m.samples.entries h.samples
  rw [← hcount] at hloop
  exact Handles.lift_bind (int32Format.reads_unpackCall type trivial) hloop

variable {type}

/-! ## 4. What is stored -/

/-- A message that comes next in a buffer. -/
structure Delivery where
  message : Message
  buffer : Buffer
  fits : message.Fits
  wf : buffer.Wf
  unread : ∃ rest, buffer.unread = message.enc buffer.type ++ rest

/-- What is to be stored. -/
def Message.wanted (m : Message) : List Item :=
  record m.hostname m.timestamp m.samples

/-- Whether the aggregator stores anything. -/
def Aggregator.Stores (agg : Aggregator) : Prop := agg.edacMissing = false ∧ 0 ≤ agg.dbhandle

theorem Message.Fits.handles_record (hm : m.Fits) (agg : Aggregator) (type : BufferType) :
    Handles type (inventoryRecord agg m.timestamp) (m.enc type) fun kept =>
      (if 0 ≤ agg.dbhandle then some (record m.hostname m.timestamp (kept.merge m.samples)) else none,
        kept.merge m.samples) := by
  have hlast : Handles type (do
      let log ← get
      pure (if 0 ≤ agg.dbhandle then
        some (record m.hostname m.timestamp log.kept) else none)) []
      fun kept =>
        (if 0 ≤ agg.dbhandle then some (record m.hostname m.timestamp kept) else none, kept) :=
    handles_nil fun _ => rfl
  have htail := (hm.handles type).bind fun _ => hlast
  rw [List.append_nil] at htail
  exact Handles.lift_bind (reads_unpackString hm.hostname) htail

/-- **The record of a message has what was kept as well, where the message has no such label.** -/
theorem inventoryLog_eq (h : agg.Stores) (d : Delivery) (kept : Samples) :
    inventoryLog agg d.message.timestamp ⟨d.buffer, kept⟩ =
      (.ok (some (record d.message.hostname d.message.timestamp (kept.merge d.message.samples))),
        ⟨d.buffer.advance (d.message.enc d.buffer.type).length, kept.merge d.message.samples⟩) := by
  obtain ⟨rest, hunread⟩ := d.unread
  have hrecord := (d.fits.handles_record agg d.buffer.type).attempt ⟨d.buffer, kept⟩ d.wf rfl rest
    hunread
  rw [inventoryLog, h.1, if_neg Bool.false_ne_true, bind_ok hrecord]
  simp only [if_pos h.2]
  rfl

/-- The messages one after the other, each from its own buffer: what is stored for each. -/
def run (agg : Aggregator) : Samples → List Delivery → List (Except Stop (Option (List Item)))
  | _, [] => []
  | kept, d :: ds =>
    let result := inventoryLog agg d.message.timestamp ⟨d.buffer, kept⟩
    result.1 :: run agg result.2.kept ds

/-- **What is stored for a message is what the message says.** -/
def Right (d : Delivery) (result : Except Stop (Option (List Item))) : Prop :=
  ∀ items, result = .ok (some items) → items = d.message.wanted

theorem record_eq_iff {hostname timestamp m n} :
    record hostname timestamp m = record hostname timestamp n ↔ m = n := by
  refine ⟨fun heq => ?_, fun heq => heq ▸ rfl⟩
  have hitems : m.entries.map (fun sample => Item.string sample.1 sample.2) =
      n.entries.map fun sample => Item.string sample.1 sample.2 :=
    (List.cons.inj (List.cons.inj heq).2).2
  refine SortedMap.ext (List.map_injective_iff.mpr ?_ hitems)
  intro a b hab
  obtain ⟨hfst, hsnd⟩ := Item.string.inj hab
  exact Prod.ext hfst hsnd

/-- What one step does to the labels that are kept. -/
theorem run_right_iff (h : agg.Stores) : ∀ ds kept,
    List.Forall₂ Right ds (run agg kept ds) ↔
      (∀ d ∈ ds, ∀ label ∈ kept.keys, label ∈ d.message.samples.keys) ∧
        ds.Pairwise fun d e => ∀ label ∈ d.message.samples.keys, label ∈ e.message.samples.keys
  | [], kept => by simp [run]
  | d :: ds, kept => by
    have hright : Right d (inventoryLog agg d.message.timestamp ⟨d.buffer, kept⟩).1 ↔
        ∀ label ∈ kept.keys, label ∈ d.message.samples.keys := by
      rw [inventoryLog_eq h, ← SortedMap.merge_eq_iff, ← record_eq_iff]
      exact ⟨fun hall => hall _ rfl, fun heq items hitems => by cases hitems; exact heq⟩
    rw [run, forall₂_cons, hright, inventoryLog_eq h, run_right_iff h ds]
    simp only [SortedMap.mem_keys_merge_iff, forall_mem_cons, pairwise_cons, or_imp, forall_and]
    tauto

/-- Without EDAC, or without a database, nothing is stored. -/
theorem inventoryLog_ne_some (h : ¬ agg.Stores) (timestamp : Timeval)
    (s : Handling Samples) (items : List Item) :
    (inventoryLog agg timestamp s).1 ≠ .ok (some items) := by
  intro hstored
  have hrun : inventoryLog agg timestamp s = (.ok (some items), (inventoryLog agg timestamp s).2) :=
    Prod.ext hstored rfl
  unfold inventoryLog at hrun
  split at hrun
  · cases hrun
  rename_i hedac
  have hneg : ¬ 0 ≤ agg.dbhandle := fun hle => h ⟨Bool.eq_false_of_not_eq_true hedac, hle⟩
  obtain ⟨result, s', hattempt, hrun⟩ := of_bind_ok hrun
  rcases result with _ | result
  · cases hrun
  cases hrun
  obtain ⟨_, _, -, hrecord⟩ := of_bind_ok (attempt_eq_ok hattempt)
  obtain ⟨_, _, -, hrecord⟩ := of_bind_ok hrecord
  obtain ⟨_, _, -, hrecord⟩ := of_bind_ok hrecord
  rw [if_neg hneg] at hrecord
  cases hrecord

theorem run_right_of_not_stores (h : ¬ agg.Stores) :
    ∀ ds kept, List.Forall₂ Right ds (run agg kept ds)
  | [], _ => .nil
  | _ :: ds, _ => .cons (fun items hitems => absurd hitems (inventoryLog_ne_some h _ _ items))
      (run_right_of_not_stores h ds _)

/-- **The records of an aggregator are right, if and only if each message has every label that a
message before it had** -- or nothing is stored at all. -/
theorem record_right_iff (agg : Aggregator) (ds : List Delivery) :
    List.Forall₂ Right ds (run agg .empty ds) ↔ (agg.Stores → ds.Pairwise fun d e =>
        ∀ label ∈ d.message.samples.keys, label ∈ e.message.samples.keys) := by
  by_cases h : agg.Stores
  · rw [run_right_iff h]
    exact ⟨fun hboth _ => hboth.2, fun hpairs => ⟨fun _ _ label hlabel => absurd hlabel
      not_mem_nil, hpairs h⟩⟩
  · exact ⟨fun _ hstores => absurd hstores h, fun _ => run_right_of_not_stores h ds .empty⟩

/-! ## 5. Inventories that were collected -/

/-- The samples of a host with these sensors. -/
def collected (names : List Str) : Samples :=
  inventoryCallbacks (names.mapIdx fun i name => (sensorLabel i, name)) .empty

/-- A host with one row of memory, and one without any. -/
def hostA : Message := ⟨ofString "a", collected [sumLabel 0 0 "_CE", sumLabel 0 0 "_UE"], ⟨0, 0⟩⟩
def hostB : Message := ⟨ofString "b", collected [], ⟨1, 0⟩⟩

/-- A message alone in its buffer. -/
def Message.delivery (m : Message) (h : m.Fits) (hlen : (m.enc .fullyDesc).length ≤ ptrdiffMax) :
    Delivery where
  message := m
  buffer := Buffer.load .fullyDesc (m.enc .fullyDesc)
  fits := h
  wf := Buffer.wf_load .fullyDesc hlen
  unread := ⟨[], (List.append_nil _).symm⟩

theorem fits_hostA : hostA.Fits := ⟨by decide, by decide, by decide⟩

theorem fits_hostB : hostB.Fits := ⟨by decide, by decide, by decide⟩

theorem length_hostA : (hostA.enc .fullyDesc).length ≤ ptrdiffMax := by decide +kernel

theorem length_hostB : (hostB.enc .fullyDesc).length ≤ ptrdiffMax := by decide +kernel

/-- **The sensors of one host are stored for the next one as well**: `b` sent none. -/
theorem sensors_of_another_host :
    let ds := [hostA.delivery fits_hostA length_hostA, hostB.delivery fits_hostB length_hostB]
    run ⟨false, 0⟩ .empty ds = [.ok (some hostA.wanted),
      .ok (some (record hostB.hostname hostB.timestamp hostA.samples))] ∧
    ¬ List.Forall₂ Right ds (run ⟨false, 0⟩ .empty ds) := by
  have hstores : (Aggregator.mk false 0).Stores := ⟨rfl, Int.le_refl 0⟩
  refine ⟨?_, fun hright => ?_⟩
  · simp only [run, inventoryLog_eq hstores]
    rfl
  · have hlabel := rel_of_pairwise_cons ((run_right_iff hstores _ _).mp hright).2
      mem_cons_self (sensorLabel 0) (by decide +kernel)
    exact absurd hlabel (by decide +kernel)

theorem mem_keys_inventoryCallbacks {label} : ∀ (sensors : List (Str × Str)) (m : Samples),
    label ∈ (inventoryCallbacks sensors m).keys ↔ label ∈ sensors.map Prod.fst ∨ label ∈ m.keys
  | [], m => by simp [inventoryCallbacks]
  | sensor :: sensors, m => by
    have hone : label ∈ (m.insertWith (fun _ new => new) sensor.1 sensor.2).keys ↔
        label = sensor.1 ∨ label ∈ m.keys := by
      simp only [SortedMap.keys, SortedMap.insertWith, mem_map, SortedMap.mem_insertEntry_iff m.sorted]
      grind
    rw [inventoryCallbacks, foldl_cons, ← inventoryCallbacks, mem_keys_inventoryCallbacks sensors,
      hone, map_cons, mem_cons, or_left_comm, or_assoc]

/-- **The inventories of hosts are stored right**, whatever their EDAC trees are, if and only if no
host has fewer sensors than one before it. -/
theorem inventories_right_iff {agg : Aggregator} (hstores : agg.Stores) (ds : List Delivery)
    (base : Delivery → Str) (tree : Delivery → Tree) (h : ∀ d ∈ ds, d.message.samples =
      inventoryCallbacks (collectInventory (base d) (tree d)) .empty) :
    List.Forall₂ Right ds (run agg .empty ds) ↔ ds.Pairwise fun d e =>
      (inventoryNames (base d) (tree d)).length ≤ (inventoryNames (base e) (tree e)).length := by
  have hkeys : ∀ d ∈ ds, ∀ label, label ∈ d.message.samples.keys ↔
      ∃ i < (inventoryNames (base d) (tree d)).length, sensorLabel i = label := by
    intro d hd label
    rw [h d hd, mem_keys_inventoryCallbacks]
    simp [collectInventory, SortedMap.keys, SortedMap.empty]
  have hlabel : ∀ i j, sensorLabel i = sensorLabel j → i = j := fun i j heq => by
    have hvalue := congrArg value (List.append_cancel_left heq)
    simpa only [value_decimal, Nat.add_right_cancel_iff] using hvalue
  rw [run_right_iff hstores]
  refine (and_iff_right fun _ _ _ hnone => absurd hnone not_mem_nil).trans
    (Pairwise.iff_of_mem fun {d e} hd he => ?_)
  simp only [hkeys d hd, hkeys e he]
  constructor
  · intro hall
    by_contra hlt
    obtain ⟨i, hi, heq⟩ := hall _ ⟨_, Nat.not_le.mp hlt, rfl⟩
    exact hi.ne (hlabel _ _ heq)
  · rintro hle label ⟨i, hi, rfl⟩
    exact ⟨i, hi.trans_le hle, rfl⟩

/-- A row of memory, and one with a channel. -/
def oneRow : Tree := ⟨[(mcPath [] 0, none), (csrowPath [] 0 0, none)]⟩
def oneChannel : Tree := ⟨oneRow.files ++ [(labelPath [] 0 0 0, some (ofString "DIMM_A1\n"))]⟩

def hostC : Message :=
  ⟨ofString "c", collected [sumLabel 0 0 "_CE", sumLabel 0 0 "_UE", ofString "DIMM_A1_CE"], ⟨1, 0⟩⟩

theorem fits_hostC : hostC.Fits := ⟨by decide, by decide, by decide⟩

theorem length_hostC : (hostC.enc .fullyDesc).length ≤ ptrdiffMax := by decide +kernel

/-- Two hosts with two and three sensors: stored right in this order, and not in the other one. -/
theorem inventories_right_iff_two :
    let a := hostA.delivery fits_hostA length_hostA
    let c := hostC.delivery fits_hostC length_hostC
    List.Forall₂ Right [a, c] (run ⟨false, 0⟩ .empty [a, c]) ∧
      ¬ List.Forall₂ Right [c, a] (run ⟨false, 0⟩ .empty [c, a]) := by
  intro a c
  let tree (d : Delivery) : Tree := if d.message.hostname = hostA.hostname then oneRow else oneChannel
  have hsamples : ∀ d, d = a ∨ d = c →
      d.message.samples = inventoryCallbacks (collectInventory [] (tree d)) .empty := by
    rintro d (rfl | rfl)
    · decide +kernel
    · decide +kernel
  have hstores : (Aggregator.mk false 0).Stores := ⟨rfl, Int.le_refl 0⟩
  have hright := fun ds (hds : ∀ d ∈ ds, d = a ∨ d = c) =>
    inventories_right_iff hstores ds (fun _ => []) tree fun d hd => hsamples d (hds d hd)
  refine ⟨(hright [a, c] (by simp)).mpr ?_, fun h => absurd ((hright [c, a] (by simp)).mp h) ?_⟩
  · decide +kernel
  · decide +kernel

end Sensys.Orcm.ErrcountsInventory
