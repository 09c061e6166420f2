/-
# Counting memory errors

`orcm/mca/sensor/errcounts/edac_collector.cpp`: a collector walks the memory controllers, their rows
and the channels of these in a file tree, reads an error count from each, and passes a count to a
callback when it is not the one that it passed last for the same label.

A snapshot of the tree is a list of its paths with the first line of the file, if that can be read.
The loops that look for folders end because the tree is finite.

What is passed for a label are to be the values read for it, with consecutive equal ones dropped
(`passes_changes`).  That goes wrong in two ways:

* the label of a channel gets its suffix `_CE` before it is compared with the empty label.  A channel
  whose label cannot be read is passed, as `_CE`;
* when one of the two counts of a row cannot be read, the other one was read, but it is not passed.
-/
import Sensys.Constants
import Sensys.Lib.Changes
import Sensys.Lib.CString

namespace Sensys.Orcm.EdacCollector

open CString List Option

/-! ## 1. The file tree -/

/-- A snapshot: the paths that are there, and the first lines that can be read. -/
structure Tree where
  files : List (Str × Option Str)
  deriving DecidableEq, Repr

/-- `0 == Stat(path, &sb)`. -/
def Tree.stat (tree : Tree) (path : Str) : Bool := (tree.files.map Prod.fst).contains path

/-- `FOpen` and `GetLine`, which may both fail; what is read is used as a C string. -/
def Tree.firstLine (tree : Tree) (path : Str) : Option Str :=
  (tree.files.lookup path).join.map fun line => line.takeWhile (· != 0)

/-- The loop of the functions that count folders: the number of the first one that is not there. -/
def firstMissing (there : ℕ → Bool) : ℕ → ℕ → ℕ
  | 0, i => i
  | fuel + 1, i => if there i then firstMissing there fuel (i + 1) else i

/-- The functions that count folders. -/
def Tree.folderCount (tree : Tree) (path : ℕ → Str) : ℕ :=
  firstMissing (fun i => tree.stat (path i)) tree.files.length 0

/-- `atoi`. -/
def atoi (s : Str) : ℤ := int32 (strtol s).1

section Paths

variable (base : Str) (mc csrow channel : ℕ)

def mcPath : Str := base ++ ofString "/mc" ++ decimal mc

def csrowPath : Str := mcPath base mc ++ ofString "/csrow" ++ decimal csrow

def labelPath : Str :=
  csrowPath base mc csrow ++ ofString "/ch" ++ decimal channel ++ ofString "_dimm_label"

def countPath (filename : Str) : Str := csrowPath base mc csrow ++ ofString "/" ++ filename

/-- The name of the file with the count of a channel. -/
def channelFile : Str := ofString "ch" ++ decimal channel ++ ofString "_ce_count"

end Paths

/-! ## 2. The collector -/

section Collector

variable (base : Str) (tree : Tree)

/-- `get_mc_folder_count`. -/
def getMcFolderCount : ℕ := tree.folderCount (mcPath base)

/-- `get_csrow_folder_count`. -/
def getCsrowFolderCount (mc : ℕ) : ℕ := tree.folderCount (csrowPath base mc)

/-- `get_channel_folder_count`. -/
def getChannelFolderCount (mc csrow : ℕ) : ℕ := tree.folderCount (labelPath base mc csrow)

/-- `get_xx_count`. -/
def getXxCount (mc csrow : ℕ) (filename : Str) : ℤ :=
  match tree.firstLine (countPath base mc csrow filename) with
  | none => -1
  | some line => atoi line

/-- `get_ce_count`. -/
def getCeCount (mc csrow : ℕ) : ℤ := getXxCount base tree mc csrow (ofString "ce_count")

/-- `get_ue_count`. -/
def getUeCount (mc csrow : ℕ) : ℤ := getXxCount base tree mc csrow (ofString "ue_count")

/-- `get_channel_ce_count`. -/
def getChannelCeCount (mc csrow channel : ℕ) : ℤ :=
  getXxCount base tree mc csrow (channelFile channel)

/-- `remove_newlines`. -/
def removeNewlines (str : Str) : Str := str.filter (· != 10)

/-- `get_channel_label`. -/
def getChannelLabel (mc csrow channel : ℕ) : Str :=
  match tree.firstLine (labelPath base mc csrow channel) with
  | none => []
  | some line => removeNewlines line

/-- The label of a sum over a row. -/
def sumLabel (mc csrow : ℕ) (kind : String) : Str :=
  ofString "CPU_SrcID#" ++ decimal mc ++ ofString "_Sum_DIMM#" ++ decimal csrow ++ ofString kind

variable {σ : Type} (cb : Str → ℤ → σ → σ)

/-- `log_data`, with `previous_sample_` and what the callback works on. -/
def logData (label : Str) (count : ℤ) (state : (Str → Option ℤ) × σ) : (Str → Option ℤ) × σ :=
  let oldSample := (state.1 label).getD (-1)
  if count ≠ oldSample ∨ -1 = oldSample then
    (Function.update state.1 label (some count), cb label count state.2)
  else state

/-- The loop over the channels. -/
def collectChannel (mc csrow : ℕ) (state : (Str → Option ℤ) × σ) (channel : ℕ) :
    (Str → Option ℤ) × σ :=
  let label := getChannelLabel base tree mc csrow channel ++ ofString "_CE"
  let ceCount := getChannelCeCount base tree mc csrow channel
  if [] ≠ label ∧ -1 ≠ ceCount then logData cb label ceCount state else state

/-- The loop over the rows. -/
def collectRow (mc : ℕ) (state : (Str → Option ℤ) × σ) (csrow : ℕ) : (Str → Option ℤ) × σ :=
  let ceCount := getCeCount base tree mc csrow
  let ueCount := getUeCount base tree mc csrow
  if -1 = ceCount ∨ -1 = ueCount then state
  else
    let state := logData cb (sumLabel mc csrow "_CE") ceCount state
    let state := logData cb (sumLabel mc csrow "_UE") ueCount state
    (List.range (getChannelFolderCount base tree mc csrow)).foldl
      (collectChannel base tree cb mc csrow) state

/-- `collect_data`. -/
def collectData (state : (Str → Option ℤ) × σ) : (Str → Option ℤ) × σ :=
  (List.range (getMcFolderCount base tree)).foldl (fun state mc =>
    (List.range (getCsrowFolderCount base tree mc)).foldl (collectRow base tree cb mc) state) state

end Collector

/-! ## 3. What is logged -/

section Logged

variable (base : Str) (tree : Tree)

/-- What `log_data` is called with for the channels of a row. -/
def loggedChannel (mc csrow channel : ℕ) : List (Str × ℤ) :=
  let ceCount := getChannelCeCount base tree mc csrow channel
  if -1 = ceCount then []
  else [(getChannelLabel base tree mc csrow channel ++ ofString "_CE", ceCount)]

/-- What `log_data` is called with for a row. -/
def loggedRow (mc csrow : ℕ) : List (Str × ℤ) :=
  let ceCount := getCeCount base tree mc csrow
  let ueCount := getUeCount base tree mc csrow
  if -1 = ceCount ∨ -1 = ueCount then []
  else
    (sumLabel mc csrow "_CE", ceCount) :: (sumLabel mc csrow "_UE", ueCount) ::
      (List.range (getChannelFolderCount base tree mc csrow)).flatMap
        (loggedChannel base tree mc csrow)

/-- What `log_data` is called with by `collect_data`. -/
def logged : List (Str × ℤ) :=
  (List.range (getMcFolderCount base tree)).flatMap fun mc =>
    (List.range (getCsrowFolderCount base tree mc)).flatMap (loggedRow base tree mc)

/-- The value -1 is never logged. -/
theorem ne_of_mem_logged {base tree reading} (h : reading ∈ logged base tree) : reading.2 ≠ -1 := by
  obtain ⟨mc, -, h⟩ := mem_flatMap.mp h
  obtain ⟨csrow, -, h⟩ := mem_flatMap.mp h
  rw [loggedRow] at h
  split at h
  · cases h
  · next hcounts =>
    push Not at hcounts
    rcases mem_cons.mp h with rfl | h
    · exact hcounts.1.symm
    rcases mem_cons.mp h with rfl | h
    · exact hcounts.2.symm
    obtain ⟨channel, -, h⟩ := mem_flatMap.mp h
    rw [loggedChannel] at h
    split at h
    · cases h
    · next hcount =>
      obtain rfl := List.mem_singleton.mp h
      exact Ne.symm hcount

variable {σ : Type} (cb : Str → ℤ → σ → σ)

/-- `log_data` for a list of readings. -/
def logAll (readings : List (Str × ℤ)) (state : (Str → Option ℤ) × σ) : (Str → Option ℤ) × σ :=
  readings.foldl (fun state reading => logData cb reading.1 reading.2 state) state

theorem collectChannel_eq (mc csrow state channel) :
    collectChannel base tree cb mc csrow state channel =
      logAll cb (loggedChannel base tree mc csrow channel) state := by
  -- the label is never empty
  have hlabel : [] ≠ getChannelLabel base tree mc csrow channel ++ ofString "_CE" := fun h =>
    absurd (append_eq_nil_iff.mp h.symm).2 (by decide)
  rw [collectChannel, loggedChannel]
  by_cases hcount : -1 = getChannelCeCount base tree mc csrow channel
  · simp [← hcount, logAll]
  · simp [hlabel, hcount, logAll]

theorem collectRow_eq (mc state csrow) :
    collectRow base tree cb mc state csrow = logAll cb (loggedRow base tree mc csrow) state := by
  have hchannels := funext fun state => funext (collectChannel_eq base tree cb mc csrow state)
  rw [collectRow, loggedRow]
  simp only
  split
  · rfl
  · rw [logAll, foldl_cons, foldl_cons, foldl_flatMap, hchannels]
    rfl

/-- **What `collect_data` does** is to log a list of readings. -/
theorem collectData_eq (state : (Str → Option ℤ) × σ) :
    collectData base tree cb state = logAll cb (logged base tree) state := by
  have hrows := funext fun mc => funext fun state => funext (collectRow_eq base tree cb mc state)
  rw [collectData, logAll, logged, foldl_flatMap, hrows]
  simp only [foldl_flatMap, logAll]

/-- The values that are remembered are no -1. -/
def Proper (previous : Str → Option ℤ) : Prop := ∀ label, previous label ≠ some (-1)

/-- **Logging passes the changes.** -/
theorem logAll_eq : ∀ readings {previous} s,
    Proper previous → (∀ reading ∈ readings, reading.2 ≠ -1) →
      logAll cb readings (previous, s) = (remember previous readings,
        (changes previous readings).foldl (fun s reading => cb reading.1 reading.2 s) s)
  | [], _, _, _, _ => rfl
  | (label, count) :: readings, previous, s, hprevious, hreadings => by
    have hcount : count ≠ -1 := hreadings _ mem_cons_self
    have hrest : ∀ reading ∈ readings, reading.2 ≠ -1 := fun r hr =>
      hreadings r (mem_cons_of_mem _ hr)
    have hlog : logData cb label count (previous, s) =
        if previous label = some count then (previous, s)
        else (Function.update previous label (some count), cb label count s) := by
      rw [logData]
      cases hold : previous label with
      | none => simp [hold]
      | some old =>
        have hold' : -1 ≠ old := fun h => hprevious label (h ▸ hold)
        by_cases hsame : count = old
        · simp [hold, hsame, hold']
        · simp [hold, hsame, Ne.symm hsame]
    rw [logAll, foldl_cons, hlog, changes]
    split
    · next hsame =>
      rw [remember, foldl_cons, update_eq_of_not_changed hsame]
      exact logAll_eq readings s hprevious hrest
    · refine logAll_eq readings (cb label count s) (fun l => ?_) hrest
      rw [Function.update_apply]
      split
      · simpa using hcount
      · exact hprevious l

end Logged

/-! ## 4. What is read -/

section Read

variable (base : Str) (tree : Tree)

/-- The count in a file, if it can be read. -/
def count? (mc csrow : ℕ) (filename : Str) : Option ℤ :=
  (tree.firstLine (countPath base mc csrow filename)).map atoi

/-- The label of a channel, if it can be read. -/
def label? (mc csrow channel : ℕ) : Option Str :=
  (tree.firstLine (labelPath base mc csrow channel)).map removeNewlines

theorem getXxCount_eq (mc csrow filename) :
    getXxCount base tree mc csrow filename = (count? base tree mc csrow filename).getD (-1) := by
  rw [getXxCount, count?]
  cases tree.firstLine (countPath base mc csrow filename) <;> rfl

theorem getChannelLabel_eq (mc csrow channel) :
    getChannelLabel base tree mc csrow channel = (label? base tree mc csrow channel).getD [] := by
  rw [getChannelLabel, label?]
  cases tree.firstLine (labelPath base mc csrow channel) <;> rfl

/-- The value that is read for a channel, if its label can be read. -/
def readChannel (mc csrow channel : ℕ) : List (Str × ℤ) :=
  ((label? base tree mc csrow channel).bind fun label =>
    (count? base tree mc csrow (channelFile channel)).map fun count =>
      (label ++ ofString "_CE", count)).toList

/-- The values that are read for a row; its channels are only looked at if both sums can be
read. -/
def readRow (mc csrow : ℕ) : List (Str × ℤ) :=
  let ceCount := count? base tree mc csrow (ofString "ce_count")
  let ueCount := count? base tree mc csrow (ofString "ue_count")
  (ceCount.map fun count => (sumLabel mc csrow "_CE", count)).toList ++
    (ueCount.map fun count => (sumLabel mc csrow "_UE", count)).toList ++
    if ceCount.isSome && ueCount.isSome then
      (List.range (getChannelFolderCount base tree mc csrow)).flatMap (readChannel base tree mc csrow)
    else []

/-- **The values that are read in a snapshot.** -/
def readings : List (Str × ℤ) :=
  (List.range (getMcFolderCount base tree)).flatMap fun mc =>
    (List.range (getCsrowFolderCount base tree mc)).flatMap (readRow base tree mc)

/-- **The condition.**  Of the two counts of a row both can be read or none; and if they can, the
count of a channel whose label cannot be read cannot be read. -/
def Readable : Prop :=
  ∀ mc < getMcFolderCount base tree, ∀ csrow < getCsrowFolderCount base tree mc,
    (count? base tree mc csrow (ofString "ce_count")).isSome =
        (count? base tree mc csrow (ofString "ue_count")).isSome ∧
      ((count? base tree mc csrow (ofString "ce_count")).isSome = true →
        ∀ channel < getChannelFolderCount base tree mc csrow,
          (label? base tree mc csrow channel).isNone = true →
            (count? base tree mc csrow (channelFile channel)).isNone = true)

instance : Decidable (Readable base tree) :=
  inferInstanceAs (Decidable (∀ mc < getMcFolderCount base tree, _))

end Read

/-- The files with counts. -/
def CountFile (filename : Str) : Prop :=
  filename = ofString "ce_count" ∨ filename = ofString "ue_count" ∨
    ∃ channel, filename = channelFile channel

/-- A snapshot in which the counts are not negative. -/
structure Snapshot (base : Str) where
  tree : Tree
  nonneg : ∀ mc csrow filename count, CountFile filename →
    count? base tree mc csrow filename = some count → 0 ≤ count

section Snapshots

variable {base : Str} (snapshot : Snapshot base)

/-- A count is read, or it is -1. -/
theorem getXxCount_eq_neg_iff (mc csrow : ℕ) {filename} (hfile : CountFile filename) :
    -1 = getXxCount base snapshot.tree mc csrow filename ↔
      count? base snapshot.tree mc csrow filename = none := by
  rw [getXxCount_eq]
  cases hcount : count? base snapshot.tree mc csrow filename with
  | none => simp
  | some count =>
    have := snapshot.nonneg mc csrow filename count hfile hcount
    simp only [getD_some, reduceCtorEq, iff_false]
    omega

theorem loggedChannel_eq {mc csrow channel}
    (h : (label? base snapshot.tree mc csrow channel).isNone = true →
      (count? base snapshot.tree mc csrow (channelFile channel)).isNone = true) :
    loggedChannel base snapshot.tree mc csrow channel =
      readChannel base snapshot.tree mc csrow channel := by
  have hneg := getXxCount_eq_neg_iff snapshot mc csrow (.inr (.inr ⟨channel, rfl⟩))
  rw [loggedChannel, getChannelCeCount, readChannel, getChannelLabel_eq]
  simp only [hneg]
  rw [getXxCount_eq]
  cases hcount : count? base snapshot.tree mc csrow (channelFile channel) with
  | none => simp
  | some count =>
    cases hlabel : label? base snapshot.tree mc csrow channel with
    | none =>
      rw [hlabel, hcount] at h
      cases h rfl
    | some label => simp

theorem loggedRow_eq (h : Readable base snapshot.tree) {mc csrow}
    (hmc : mc < getMcFolderCount base snapshot.tree)
    (hcsrow : csrow < getCsrowFolderCount base snapshot.tree mc) :
    loggedRow base snapshot.tree mc csrow = readRow base snapshot.tree mc csrow := by
  obtain ⟨hboth, hchannels⟩ := h mc hmc csrow hcsrow
  have hce := getXxCount_eq_neg_iff snapshot mc csrow (.inl rfl)
  have hue := getXxCount_eq_neg_iff snapshot mc csrow (.inr (.inl rfl))
  rw [loggedRow, getCeCount, getUeCount, readRow]
  simp only [hce, hue]
  rw [getXxCount_eq, getXxCount_eq]
  cases hcecount : count? base snapshot.tree mc csrow (ofString "ce_count") with
  | none =>
    have hnone : count? base snapshot.tree mc csrow (ofString "ue_count") = none := by
      rw [hcecount] at hboth
      exact isNone_iff_eq_none.mp (Option.isSome_eq_false_iff.mp hboth.symm)
    simp [hnone]
  | some ceCount =>
    rw [hcecount] at hboth hchannels
    obtain ⟨ueCount, huecount⟩ := isSome_iff_exists.mp hboth.symm
    have hlogged : (List.range (getChannelFolderCount base snapshot.tree mc csrow)).flatMap
          (loggedChannel base snapshot.tree mc csrow) =
        (List.range (getChannelFolderCount base snapshot.tree mc csrow)).flatMap
          (readChannel base snapshot.tree mc csrow) :=
      flatMap_congr fun channel hchannel =>
        loggedChannel_eq snapshot (hchannels rfl channel (List.mem_range.mp hchannel))
    simp [huecount, hlogged]

/-- **What is logged is what is read.** -/
theorem logged_eq_readings (h : Readable base snapshot.tree) :
    logged base snapshot.tree = readings base snapshot.tree := by
  refine flatMap_congr fun mc hmc => flatMap_congr fun csrow hcsrow => ?_
  exact loggedRow_eq snapshot h (List.mem_range.mp hmc) (List.mem_range.mp hcsrow)

/-! ## 5. Successive collections -/

/-- A callback that notes what is passed. -/
def note (label : Str) (count : ℤ) (passed : List (Str × ℤ)) : List (Str × ℤ) :=
  passed ++ [(label, count)]

/-- What each of successive calls of `collect_data` passes. -/
def run : (Str → Option ℤ) → List (Snapshot base) → List (List (Str × ℤ))
  | _, [] => []
  | previous, snapshot :: snapshots =>
    let (previous, passed) := collectData base snapshot.tree note (previous, [])
    passed :: run previous snapshots

theorem foldl_note (readings passed : List (Str × ℤ)) :
    readings.foldl (fun passed reading => note reading.1 reading.2 passed) passed =
      passed ++ readings := by
  induction readings generalizing passed with
  | nil => exact (List.append_nil _).symm
  | cons reading readings ih => rw [foldl_cons, ih, note, List.append_assoc]; rfl

theorem collectData_note (tree : Tree) {previous} (h : Proper previous) :
    collectData base tree note (previous, []) =
      (remember previous (logged base tree), changes previous (logged base tree)) := by
  rw [collectData_eq, logAll_eq note _ _ h fun _ => ne_of_mem_logged, foldl_note]
  rfl

theorem proper_remember {tree previous} (h : Proper previous) :
    Proper (remember previous (logged base tree)) := by
  intro label
  rw [remember_eq]
  cases hlast : (valuesOf label (logged base tree)).getLast? with
  | none => simpa using h label
  | some count =>
    obtain ⟨reading, hreading, hcount⟩ := mem_filterMap.mp (mem_of_getLast? hlast)
    have hne := ne_of_mem_logged hreading
    split at hcount
    · cases hcount
      simpa using hne
    · cases hcount

/-- All that is passed are the changes in all that is logged. -/
theorem flatten_run : ∀ (snapshots : List (Snapshot base)) {previous : Str → Option ℤ},
    Proper previous → (run previous snapshots).flatten =
      changes previous (snapshots.flatMap fun snapshot => logged base snapshot.tree)
  | [], _, _ => rfl
  | snapshot :: snapshots, previous, h => by
    rw [run, collectData_note snapshot.tree h, flatten_cons,
      flatten_run snapshots (proper_remember h), flatMap_cons, changes_append]

/-- Each call passes some of what it reads. -/
theorem run_sublist : ∀ (snapshots : List (Snapshot base)) {previous : Str → Option ℤ},
    Proper previous → (∀ snapshot ∈ snapshots, Readable base snapshot.tree) →
      List.Forall₂ (fun passed snapshot => passed.Sublist (readings base snapshot.tree))
        (run previous snapshots) snapshots
  | [], _, _, _ => .nil
  | snapshot :: snapshots, previous, hprevious, h => by
    have hread := logged_eq_readings snapshot (h snapshot mem_cons_self)
    rw [run, collectData_note snapshot.tree hprevious]
    exact .cons (hread ▸ changes_sublist _ _)
      (run_sublist snapshots (proper_remember hprevious) fun s hs => h s (mem_cons_of_mem _ hs))

/-- **What is passed for a label are the values read for it, with consecutive equal ones dropped; and
in every snapshot only what was read there.** -/
theorem passes_changes {snapshots : List (Snapshot base)}
    (h : ∀ snapshot ∈ snapshots, Readable base snapshot.tree) :
    (∀ label, valuesOf label (run (fun _ => none) snapshots).flatten =
        (valuesOf label (snapshots.flatMap fun snapshot => readings base snapshot.tree)).destutter
          (· ≠ ·)) ∧
      List.Forall₂ (fun passed snapshot => passed.Sublist (readings base snapshot.tree))
        (run (fun _ => none) snapshots) snapshots := by
  have hproper : Proper fun _ => none := fun _ => by simp
  have hread : ∀ snapshot ∈ snapshots, logged base snapshot.tree = readings base snapshot.tree :=
    fun snapshot hsnapshot => logged_eq_readings snapshot (h snapshot hsnapshot)
  constructor
  · intro label
    rw [flatten_run snapshots hproper, flatMap_congr hread, valuesOf_changes]
  · exact run_sublist snapshots hproper h

end Snapshots

/-- The counts of a tree are not negative if its numbers are not. -/
theorem nonneg_of_files {base tree}
    (h : ∀ file ∈ tree.files, ∀ line, file.2 = some line → 0 ≤ atoi (line.takeWhile (· != 0))) :
    ∀ mc csrow filename count, CountFile filename →
      count? base tree mc csrow filename = some count → 0 ≤ count := by
  intro mc csrow filename count _ hcount
  obtain ⟨line, hline, rfl⟩ := map_eq_some_iff.mp hcount
  obtain ⟨first, hfirst, rfl⟩ := map_eq_some_iff.mp hline
  obtain ⟨before, after, hfiles, -⟩ :=
    List.lookup_eq_some_iff.mp (Option.join_eq_some_iff.mp hfirst)
  exact h _ (hfiles ▸ mem_append_right before mem_cons_self) first rfl

/-- A tree with one row of one channel, and what is in its files. -/
def sampleTree (ce ue label : Option String) : Tree where
  files := [(ofString "/e/mc0", none), (ofString "/e/mc0/csrow0", none),
    (ofString "/e/mc0/csrow0/ce_count", ce.map ofString),
    (ofString "/e/mc0/csrow0/ue_count", ue.map ofString),
    (ofString "/e/mc0/csrow0/ch0_dimm_label", label.map ofString),
    (ofString "/e/mc0/csrow0/ch0_ce_count", some (ofString "2\n"))]

/-- All can be read. -/
def goodSnapshot : Snapshot (ofString "/e") where
  tree := sampleTree (some "3\n") (some "0\n") (some "DIMM\n")
  nonneg := nonneg_of_files (by decide +kernel)

/-- The label of the channel cannot be read. -/
def noLabelSnapshot : Snapshot (ofString "/e") where
  tree := sampleTree (some "3\n") (some "0\n") none
  nonneg := nonneg_of_files (by decide +kernel)

/-- One of the two counts cannot be read. -/
def noUeSnapshot : Snapshot (ofString "/e") where
  tree := sampleTree (some "3\n") none (some "DIMM\n")
  nonneg := nonneg_of_files (by decide +kernel)

/-- Two equal snapshots: the second one is not passed. -/
theorem passes_changes_sample :
    (∀ snapshot ∈ [goodSnapshot, goodSnapshot], Readable (ofString "/e") snapshot.tree) ∧
      valuesOf (ofString "DIMM_CE")
        ([goodSnapshot, goodSnapshot].flatMap fun s => readings (ofString "/e") s.tree) = [2, 2] ∧
      valuesOf (ofString "DIMM_CE") (run (fun _ => none) [goodSnapshot, goodSnapshot]).flatten =
        [2] := by
  have hreadable : ∀ snapshot ∈ [goodSnapshot, goodSnapshot],
      Readable (ofString "/e") snapshot.tree := by
    intro snapshot hsnapshot
    obtain rfl : snapshot = goodSnapshot := by simpa using hsnapshot
    decide +kernel
  have hread : valuesOf (ofString "DIMM_CE")
      ([goodSnapshot, goodSnapshot].flatMap fun s => readings (ofString "/e") s.tree) = [2, 2] := by
    decide +kernel
  refine ⟨hreadable, hread, ?_⟩
  rw [(passes_changes hreadable).1, hread]
  decide

/-- A channel whose label cannot be read is passed; and a count that was read is not. -/
theorem no_label_is_passed :
    (valuesOf (ofString "_CE") (readings (ofString "/e") noLabelSnapshot.tree) = [] ∧
      valuesOf (ofString "_CE") (run (fun _ => none) [noLabelSnapshot]).flatten = [2]) ∧
    valuesOf (sumLabel 0 0 "_CE") (readings (ofString "/e") noUeSnapshot.tree) = [3] ∧
      valuesOf (sumLabel 0 0 "_CE") (run (fun _ => none) [noUeSnapshot]).flatten = [] := by
  decide +kernel

end Sensys.Orcm.EdacCollector
