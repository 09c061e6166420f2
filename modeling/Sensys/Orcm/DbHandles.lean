/-
# Database handles and their buckets

`orcm/mca/db/base/db_base_stubs.c`: `orcm_db_base.handles` are the open handles, each named by its
slot.  A multi-thread open makes one handle for each thread and storage of a data type, and keeps
their ids in the BUCKET of that data type; a multi-thread store takes the next thread of the bucket
and stores through the handles of its row.

Slots are used again, and nothing tells a bucket that one of its handles was closed:
`orcm_db_base_close_multi_thread_select` closes all of them and leaves the bucket with their ids.

* `buckets_good_iff`: after every request of a list the buckets are consistent, and no store has
  reached a handle of another data type, if and only if no request closes a handle that a bucket
  has, or commits to a thread that the bucket does not have.
* `store_reaches_another`: environment data is stored through a handle that was opened for events.

Every request is run to completion.  Which component creates a handle, if any, is arbitrary; what
the modules do with what they are given, and the callbacks, are left out.
-/
import Mathlib.Data.List.ProdSigma
import Sensys.Opal.PointerArray
import Sensys.Lib.Run

namespace Sensys.Orcm.DbHandles

open Opal List Option Function

/-! ## 1. Handles and buckets -/

/-- `orcm_db_data_type_t`. -/
inductive DataType where
  | env | inventory | diag | event
  deriving DecidableEq, Repr

/-- `orcm_db_handle_t`, with what it was opened for: the bucket of a data type, or none. -/
structure Handle (μ : Type) where
  module : μ
  openedFor : Option DataType
  deriving DecidableEq, Repr

/-- A place in a bucket: thread and storage. -/
abbrev Place := ℕ × ℕ

/-- `orcm_db_bucket_t`. -/
structure Bucket where
  numThreads : ℕ
  currentThreadId : ℤ
  handleIds : Place → ℤ

/-- `orcm_db_base`, and through which handles the multi-thread stores went. -/
structure Base (μ : Type) where
  handles : PointerArray (Handle μ)
  buckets : DataType → Option Bucket
  reached : List (DataType × Handle μ)

/-- `num_threads` and `num_storage`. -/
structure Config where
  numThreads : DataType → ℕ
  numStorage : ℕ

/-- `orcm_db_base_frame_open`. -/
def Base.start (μ : Type) : Base μ := ⟨PointerArray.init _ 3, fun _ => none, []⟩

variable {μ : Type}

/-- The places of a bucket, in the order of the loops. -/
def places (numThreads numStorage : ℕ) : List Place :=
  List.range numThreads ×ˢ List.range numStorage

/-! ## 2. Requests -/

/-- A request, with the module that the components create for each handle. -/
inductive Request (μ : Type) where
  | openOne (created : Option μ)
  | openMulti (dataType : DataType) (created : Place → Option μ)
  | close (dbhandle : ℤ)
  | closeMulti (dataType : DataType)
  | store (dbhandle : ℤ)
  | storeMulti (dataType : DataType)
  | commit (dbhandle : ℤ)
  | commitMulti (dataType : DataType) (threadId : ℤ)

/-- `process_open`: the handle's index, or the `-1` that was there before. -/
def processOpen (openedFor : Option DataType) (created : Option μ)
    (handles : PointerArray (Handle μ)) : ℤ × PointerArray (Handle μ) :=
  match created with
  | none => (-1, handles)
  | some module =>
    let (index, handles) := handles.add ⟨module, openedFor⟩
    (index, handles)

/-- One round of `create_handles`. -/
def createAHandle (dataType : DataType) (created : Place → Option μ)
    (s : PointerArray (Handle μ) × (Place → ℤ)) (place : Place) :
    PointerArray (Handle μ) × (Place → ℤ) :=
  let (id, handles) := processOpen (some dataType) (created place) s.1
  (handles, Function.update s.2 place id)

/-- `create_handles`. -/
def createHandles (dataType : DataType) (created : Place → Option μ)
    (handles : PointerArray (Handle μ)) (ps : List Place) :
    PointerArray (Handle μ) × (Place → ℤ) :=
  ps.foldl (createAHandle dataType created) (handles, fun _ => -1)

/-- `orcm_db_base_open_multi_thread_select`.  `orcm_util_alloc_2d_int_array` gives no array without
rows or columns. -/
def openMulti (config : Config) (dataType : DataType) (created : Place → Option μ) (s : Base μ) :
    Base μ :=
  match s.buckets dataType with
  | some _ => s
  | none =>
    if config.numThreads dataType = 0 ∨ config.numStorage = 0 then s
    else
      let (handles, handleIds) := createHandles dataType created s.handles
        (places (config.numThreads dataType) config.numStorage)
      { s with
        handles := handles
        buckets := Function.update s.buckets dataType
          (some ⟨config.numThreads dataType, -1, handleIds⟩) }

/-- `process_close`. -/
def processClose (handles : PointerArray (Handle μ)) (dbhandle : ℤ) : PointerArray (Handle μ) :=
  handles.setNull dbhandle

/-- One round of `orcm_db_base_close_multi_thread_select`. -/
def closeOneStorage (bucket : Bucket) (handles : PointerArray (Handle μ)) (place : Place) :
    PointerArray (Handle μ) :=
  if 0 ≤ bucket.handleIds place then
    match handles.getItem (bucket.handleIds place) with
    | none => handles
    | some _ => processClose handles (bucket.handleIds place)
  else handles

/-- `orcm_db_base_close_multi_thread_select`. -/
def closeMulti (config : Config) (dataType : DataType) (s : Base μ) : Base μ :=
  match s.buckets dataType with
  | none => s
  | some bucket =>
    { s with
      handles := (places bucket.numThreads config.numStorage).foldl (closeOneStorage bucket)
        s.handles }

/-- The handles that `store_a_request` finds. -/
def storeARequest (config : Config) (dataType : DataType) (handleIds : ℕ → ℤ)
    (handles : PointerArray (Handle μ)) : List (DataType × Handle μ) :=
  (List.range config.numStorage).filterMap fun storageId =>
    (handles.getItem (handleIds storageId)).map fun handle => (dataType, handle)

/-- `orcm_db_base_store_multi_thread_select`. -/
def storeMulti (config : Config) (dataType : DataType) (s : Base μ) : Base μ :=
  match s.buckets dataType with
  | none => s
  | some bucket =>
    let currentThreadId := (bucket.currentThreadId + 1) % bucket.numThreads
    { s with
      buckets := Function.update s.buckets dataType
        (some { bucket with currentThreadId := currentThreadId })
      reached := s.reached ++ storeARequest config dataType
        (fun storageId => bucket.handleIds (currentThreadId.toNat, storageId)) s.handles }

/-- `orcm_db_base_commit_multi_thread_select` changes nothing here, but reads the row of the thread
that it is given. -/
def commitMulti (dataType : DataType) (threadId : ℤ) (s : Base μ) : Option (Base μ) :=
  match s.buckets dataType with
  | none => some s
  | some bucket => if 0 ≤ threadId ∧ threadId < bucket.numThreads then some s else none

/-- **A request, run to completion.** -/
def step (config : Config) (s : Base μ) : Request μ → Option (Base μ)
  | .openOne created => some { s with handles := (processOpen none created s.handles).2 }
  | .openMulti dataType created => some (openMulti config dataType created s)
  | .close dbhandle => some { s with handles := processClose s.handles dbhandle }
  | .closeMulti dataType => some (closeMulti config dataType s)
  | .store _ => some s
  | .storeMulti dataType => some (storeMulti config dataType s)
  | .commit _ => some s
  | .commitMulti dataType threadId => commitMulti dataType threadId s

/-- The state after a list of requests. -/
def run (config : Config) (requests : List (Request μ)) : Option (Base μ) :=
  requests.foldlM (step config) (Base.start μ)

/-! ## 3. Consistency -/

/-- The handle id at a place of the bucket that `get_bucket` returns. -/
def Base.idAt (s : Base μ) (dataType : DataType) (place : Place) : ℤ :=
  match s.buckets dataType with
  | none => -1
  | some bucket => bucket.handleIds place

/-- An id is `-1`, or that of an open handle created for the data type's bucket. -/
def Held (handles : PointerArray (Handle μ)) (dataType : DataType) (id : ℤ) : Prop :=
  id = -1 ∨ ∃ handle, handles.getItem id = some handle ∧ handle.openedFor = some dataType

/-- **The ids are consistent with the handles**: each is held, and none that is open is at two
places. -/
structure Consistent (handles : PointerArray (Handle μ)) (ids : DataType → Place → ℤ) : Prop where
  held : ∀ dataType place, Held handles dataType (ids dataType place)
  once : ∀ dataType place dataType' place',
    (handles.getItem (ids dataType place)).isSome → ids dataType place = ids dataType' place' →
      dataType = dataType' ∧ place = place'

/-- What is to hold after each request. -/
structure Good (s : Base μ) : Prop where
  consistent : Consistent s.handles s.idAt
  reached : ∀ p ∈ s.reached, p.2.openedFor = some p.1

/-- The requests that keep the buckets good: none that closes a handle of a bucket, or commits to a
thread that it does not have. -/
def Allowed (s : Base μ) : Request μ → Prop
  | .close dbhandle => dbhandle < 0 ∨ ∀ dataType place, s.idAt dataType place ≠ dbhandle
  | .closeMulti dataType => ∀ place, s.idAt dataType place = -1
  | .commitMulti dataType threadId => ∀ bucket, s.buckets dataType = some bucket →
      0 ≤ threadId ∧ threadId < bucket.numThreads
  | _ => True

/-! ## 4. Ids and handles -/

section Held

variable {handles : PointerArray (Handle μ)} {ids : DataType → Place → ℤ}

/-- Nothing is at `-1`. -/
theorem getItem_none (handles : PointerArray (Handle μ)) : handles.getItem (-1) = none :=
  handles.getItem_of_neg (by decide)

variable {dataType : DataType} {id : ℤ}

theorem Held.eq_of_none (h : Held handles dataType id)
    (hnone : handles.getItem id = none) : id = -1 := by
  obtain heq | ⟨handle, hopen, -⟩ := h
  · exact heq
  · rw [hnone] at hopen
    cases hopen

/-- The second part of consistency, with the ids alone. -/
theorem consistent_iff : Consistent handles ids ↔
    (∀ dataType place, Held handles dataType (ids dataType place)) ∧
      ∀ dataType place dataType' place', ids dataType place ≠ -1 →
        ids dataType place = ids dataType' place' → dataType = dataType' ∧ place = place' := by
  constructor
  · intro h
    refine ⟨h.held, fun dataType place dataType' place' hne heq => ?_⟩
    refine h.once dataType place dataType' place' ?_ heq
    obtain hnone | ⟨handle, hopen, -⟩ := h.held dataType place
    · exact absurd hnone hne
    · rw [hopen]
      rfl
  · rintro ⟨hheld, honce⟩
    refine ⟨hheld, fun dataType place dataType' place' hsome heq => ?_⟩
    refine honce dataType place dataType' place' ?_ heq
    intro hnone
    rw [hnone, getItem_none] at hsome
    cases hsome

/-- A slot that was free takes a handle: the others stay what they were. -/
theorem Held.add (hvalid : handles.Valid) (h : Held handles dataType id) (handle : Handle μ) :
    Held (handles.add handle).2 dataType id := by
  obtain heq | ⟨handle', hopen, hfor⟩ := h
  · exact .inl heq
  · refine .inr ⟨handle', ?_, hfor⟩
    rw [hvalid.getItem_add, if_neg, hopen]
    rintro rfl
    rw [hvalid.getItem_add_before] at hopen
    cases hopen

section

variable (h : Consistent handles ids)
include h

/-- **A handle is opened and nobody is told.** -/
theorem Consistent.add (hvalid : handles.Valid) (handle : Handle μ) :
    Consistent (handles.add handle).2 ids := by
  rw [consistent_iff] at h ⊢
  exact ⟨fun dataType place => (h.1 dataType place).add hvalid handle, h.2⟩

/-- An id is put at a place. -/
def put (ids : DataType → Place → ℤ) (dataType : DataType) (place : Place) (id : ℤ) :
    DataType → Place → ℤ := fun dataType' place' =>
  if dataType' = dataType ∧ place' = place then id else ids dataType' place'

/-- **An id that is held, and at no place yet, is put at a place.** -/
theorem Consistent.put (hheld : Held handles dataType id)
    (hnew : ∀ dataType' place', ids dataType' place' = id → id = -1) (place : Place) :
    Consistent handles (put ids dataType place id) := by
  rw [consistent_iff] at h ⊢
  constructor
  · intro dataType' place'
    unfold DbHandles.put
    split
    · rename_i hhere
      rwa [hhere.1]
    · exact h.1 dataType' place'
  · intro dataType₁ place₁ dataType₂ place₂ hne heq
    unfold DbHandles.put at hne heq
    split at heq <;> split at heq
    · rename_i h₁ h₂
      exact ⟨h₁.1.trans h₂.1.symm, h₁.2.trans h₂.2.symm⟩
    · rename_i h₁ h₂
      rw [if_pos h₁] at hne
      exact absurd (hnew dataType₂ place₂ heq.symm) hne
    · rename_i h₁ h₂
      rw [if_neg h₁, heq] at hne
      exact absurd (hnew dataType₁ place₁ heq) hne
    · rename_i h₁ h₂
      rw [if_neg h₁] at hne
      exact h.2 dataType₁ place₁ dataType₂ place₂ hne heq

/-- **An id that is at no place is freed.** -/
theorem Consistent.setNull (hfree : id < 0 ∨ ∀ dataType place, ids dataType place ≠ id) :
    Consistent (handles.setNull id) ids := by
  rw [consistent_iff] at h ⊢
  refine ⟨fun dataType place => ?_, h.2⟩
  obtain heq | ⟨handle, hopen, hfor⟩ := h.1 dataType place
  · exact .inl heq
  · refine .inr ⟨handle, ?_, hfor⟩
    rw [handles.getItem_setNull, if_neg, hopen]
    rintro rfl
    obtain hneg | hne := hfree
    · rw [handles.getItem_of_neg hneg] at hopen
      cases hopen
    · exact hne dataType place rfl

/-- **An id that is at a place is not to be freed.** -/
theorem Consistent.eq_of_none (dataType : DataType) (place : Place)
    (hnone : handles.getItem (ids dataType place) = none) : ids dataType place = -1 :=
  (h.held dataType place).eq_of_none hnone

end

end Held

/-! ## 5. What a request keeps -/

/-- What every run keeps: the table is valid, and there are no ids outside of a bucket's places. -/
structure Wf (config : Config) (s : Base μ) : Prop where
  valid : s.handles.Valid
  inside : ∀ dataType bucket, s.buckets dataType = some bucket →
    ∀ place, bucket.handleIds place ≠ -1 → place ∈ places bucket.numThreads config.numStorage

section Create

variable {dataType : DataType} {created : Place → Option μ} {ids : DataType → Place → ℤ}

/-- The ids with those of a bucket that is being made. -/
theorem update_update (f : Place → ℤ) (place : Place) (id : ℤ) :
    update ids dataType (update f place id) =
      put (update ids dataType f) dataType place id := by
  funext dataType' place'
  unfold put
  by_cases hd : dataType' = dataType
  · subst hd
    simp [update_apply]
  · simp [hd]

/-- What the loop of `create_handles` keeps. -/
structure Creating (ps : List Place) (s : PointerArray (Handle μ) × (Place → ℤ)) : Prop where
  valid : s.1.Valid
  inside : ∀ place, s.2 place ≠ -1 → place ∈ ps

variable {s : PointerArray (Handle μ) × (Place → ℤ)}

theorem Creating.createAHandle {done} (h : Creating done s) (dataType : DataType)
    (created : Place → Option μ) (place : Place) :
    Creating (done ++ [place]) (createAHandle dataType created s place) := by
  unfold DbHandles.createAHandle processOpen
  have hinside : ∀ id place', update s.2 place id place' ≠ -1 →
      place' ∈ done ++ [place] := by
    intro id place' hne
    by_cases heq : place' = place
    · simp [heq]
    · rw [update_of_ne heq] at hne
      exact mem_append_left _ (h.inside place' hne)
  cases created place with
  | none => exact ⟨h.valid, hinside _⟩
  | some module => exact ⟨h.valid.add _, hinside _⟩

variable {handles : PointerArray (Handle μ)}

theorem creating_createHandles (hvalid : handles.Valid) (dataType : DataType)
    (created : Place → Option μ) (ps : List Place) :
    Creating ps (createHandles dataType created handles ps) := by
  unfold createHandles
  induction ps using List.reverseRecOn with
  | nil => exact ⟨hvalid, fun place hne => absurd rfl hne⟩
  | append_singleton ps place ih =>
    rw [foldl_append]
    exact ih.createAHandle dataType created place

/-- One handle more, or none. -/
theorem Consistent.createAHandle (h : Consistent s.1 (update ids dataType s.2)) (hvalid : s.1.Valid)
    (created : Place → Option μ) (place : Place) :
    Consistent (createAHandle dataType created s place).1
      (update ids dataType (createAHandle dataType created s place).2) := by
  unfold DbHandles.createAHandle processOpen
  cases created place with
  | none =>
    simp only [update_update]
    exact h.put (.inl rfl) (fun _ _ _ => rfl) place
  | some module =>
    simp only [update_update]
    refine (h.add hvalid _).put (.inr ⟨⟨module, some dataType⟩, ?_, rfl⟩)
      (fun dataType' place' heq => ?_) place
    · rw [hvalid.getItem_add, if_pos rfl]
    · -- a slot that is taken is at no place yet
      exact heq ▸ h.eq_of_none dataType' place' (heq ▸ hvalid.getItem_add_before _)

/-- **The handles of a new bucket.** -/
theorem Consistent.createHandles (h : Consistent handles ids) (hvalid : handles.Valid)
    (hnone : ∀ place, ids dataType place = -1) (created : Place → Option μ) (ps : List Place) :
    Consistent (createHandles dataType created handles ps).1
      (update ids dataType (createHandles dataType created handles ps).2) := by
  induction ps using List.reverseRecOn with
  | nil =>
    show Consistent handles (update ids dataType fun _ => -1)
    rwa [← (funext hnone : ids dataType = fun _ => -1), update_eq_self]
  | append_singleton ps place ih =>
    have hbefore := (creating_createHandles hvalid dataType created ps).valid
    unfold DbHandles.createHandles at ih hbefore ⊢
    rw [foldl_append]
    exact ih.createAHandle hbefore created place

end Create

section Close

variable {bucket : Bucket}

/-- The slot of a place is freed, if it is not free already. -/
theorem closeOneStorage_cases (bucket : Bucket) (handles : PointerArray (Handle μ)) (place : Place) :
    closeOneStorage bucket handles place = handles.setNull (bucket.handleIds place) ∨
    closeOneStorage bucket handles place = handles ∧
      (0 ≤ bucket.handleIds place → handles.getItem (bucket.handleIds place) = none) := by
  unfold closeOneStorage processClose
  split
  · split
    · exact .inr ⟨rfl, fun _ => ‹_›⟩
    · exact .inl rfl
  · exact .inr ⟨rfl, fun h => absurd h ‹_›⟩

/-- **All slots of the bucket are freed.** -/
theorem getItem_closed {place : Place} (h : 0 ≤ bucket.handleIds place) :
    ∀ (ps : List Place) (handles : PointerArray (Handle μ)),
      place ∈ ps ∨ handles.getItem (bucket.handleIds place) = none →
      (ps.foldl (closeOneStorage bucket) handles).getItem (bucket.handleIds place) = none
  | [], handles, hor => hor.resolve_left (by simp)
  | p :: ps, handles, hor => by
    refine getItem_closed h ps _ ?_
    by_cases hps : place ∈ ps
    · exact .inl hps
    -- the slot is freed here, or it is free already
    have hhere := hor.imp_left fun hmem => (mem_cons.mp hmem).resolve_right hps
    refine .inr ?_
    obtain heq | ⟨heq, hfree⟩ := closeOneStorage_cases bucket handles p <;> rw [heq]
    · rw [handles.getItem_setNull]
      obtain rfl | hnone := hhere
      · exact if_pos rfl
      · rw [hnone, ite_self]
    · obtain rfl | hnone := hhere
      · exact hfree h
      · exact hnone

/-- Without ids there is nothing to free. -/
theorem foldl_closeOneStorage (h : ∀ place, bucket.handleIds place = -1)
    (handles : PointerArray (Handle μ)) :
    ∀ ps : List Place, ps.foldl (closeOneStorage bucket) handles = handles
  | [] => rfl
  | p :: ps => by
    have hp : closeOneStorage bucket handles p = handles := by
      unfold closeOneStorage
      rw [h p]
      rfl
    rw [foldl_cons, hp]
    exact foldl_closeOneStorage h handles ps

theorem valid_closed : ∀ (ps : List Place) {handles : PointerArray (Handle μ)},
    handles.Valid → (ps.foldl (closeOneStorage bucket) handles).Valid
  | [], _, h => h
  | p :: ps, handles, h => by
    refine valid_closed ps ?_
    rcases closeOneStorage_cases bucket handles p with heq | ⟨heq, -⟩ <;> rw [heq]
    · exact h.setNull _
    · exact h

end Close

section Step

variable {config : Config} {s s' : Base μ}

/-- A bucket is set. -/
theorem idAt_update (s : Base μ) (handles : PointerArray (Handle μ)) (dataType : DataType)
    (bucket : Bucket) (reached : List (DataType × Handle μ)) :
    Base.idAt ⟨handles, update s.buckets dataType (some bucket), reached⟩ =
      update s.idAt dataType bucket.handleIds := by
  funext dataType' place
  unfold Base.idAt
  by_cases hd : dataType' = dataType
  · subst hd
    simp
  · simp [hd]

variable {dataType : DataType}

theorem idAt_of_none (h : s.buckets dataType = none) (place : Place) :
    s.idAt dataType place = -1 := by
  unfold Base.idAt
  rw [h]

theorem idAt_of_some {bucket} (h : s.buckets dataType = some bucket) :
    s.idAt dataType = bucket.handleIds := by
  funext place
  unfold Base.idAt
  rw [h]

variable {handles : PointerArray (Handle μ)}

/-- A bucket that has its ids inside is set. -/
theorem Wf.update (h : Wf config s) (hvalid : handles.Valid) {bucket reached}
    (hinside : ∀ place, bucket.handleIds place ≠ -1 →
      place ∈ places bucket.numThreads config.numStorage) :
    Wf config ⟨handles, update s.buckets dataType (some bucket), reached⟩ where
  valid := hvalid
  inside dataType' bucket' hbucket := by
    by_cases hd : dataType' = dataType
    · subst hd
      simp only [update_self, some.injEq] at hbucket
      subst hbucket
      exact hinside
    · simp only [update_of_ne hd] at hbucket
      exact h.inside dataType' bucket' hbucket

/-- Every request keeps the table in order. -/
theorem Wf.step (h : Wf config s) {request} (hstep : step config s request = some s') :
    Wf config s' := by
  cases request with
  | openOne created =>
    cases hstep
    refine ⟨?_, h.inside⟩
    cases created with
    | none => exact h.valid
    | some module => exact h.valid.add _
  | openMulti dataType created =>
    cases hstep
    unfold openMulti
    split
    · exact h
    · split
      · exact h
      · have hcreating := creating_createHandles h.valid dataType created
          (places (config.numThreads dataType) config.numStorage)
        exact h.update hcreating.valid hcreating.inside
  | close dbhandle =>
    cases hstep
    exact ⟨h.valid.setNull dbhandle, h.inside⟩
  | closeMulti dataType =>
    cases hstep
    unfold closeMulti
    split
    · exact h
    · exact ⟨valid_closed _ h.valid, h.inside⟩
  | store dbhandle =>
    cases hstep
    exact h
  | storeMulti dataType =>
    cases hstep
    unfold storeMulti
    split
    · exact h
    · rename_i bucket hbucket
      exact h.update h.valid (h.inside dataType bucket hbucket)
  | commit dbhandle =>
    cases hstep
    exact h
  | commitMulti dataType threadId =>
    change commitMulti dataType threadId s = some s' at hstep
    unfold commitMulti at hstep
    repeat' split at hstep
    all_goals cases hstep
    all_goals exact h

/-- The handles that a store finds are those of its data type. -/
theorem openedFor_storeARequest {handleIds}
    (h : ∀ storageId, Held handles dataType (handleIds storageId)) :
    ∀ p ∈ storeARequest config dataType handleIds handles, p.2.openedFor = some p.1 := by
  intro p hp
  obtain ⟨storageId, -, hfound⟩ := mem_filterMap.mp hp
  obtain ⟨handle, hhandle, rfl⟩ := map_eq_some_iff.mp hfound
  obtain hnone | ⟨handle', hopen, hfor⟩ := h storageId
  · rw [hnone, getItem_none] at hhandle
    cases hhandle
  · cases hopen.symm.trans hhandle
    exact hfor

section

variable (hgood : Good s)
include hgood

theorem Good.openOne (h : Wf config s) (created : Option μ) :
    Good { s with handles := (processOpen none created s.handles).2 } := by
  refine ⟨?_, hgood.reached⟩
  cases created with
  | none => exact hgood.consistent
  | some module => exact hgood.consistent.add h.valid _

theorem Good.openMulti (h : Wf config s) (dataType : DataType) (created : Place → Option μ) :
    Good (openMulti config dataType created s) := by
  unfold DbHandles.openMulti
  split
  · exact hgood
  · rename_i hnone
    split
    · exact hgood
    · refine ⟨?_, hgood.reached⟩
      rw [idAt_update]
      exact hgood.consistent.createHandles h.valid (idAt_of_none hnone) created _

theorem Good.storeMulti (dataType : DataType) : Good (storeMulti config dataType s) := by
  unfold DbHandles.storeMulti
  split
  · exact hgood
  · rename_i bucket hbucket
    have hids := idAt_of_some hbucket
    constructor
    · rw [idAt_update]
      simp only [← hids, update_eq_self]
      exact hgood.consistent
    · intro p hp
      obtain hbefore | hnow := mem_append.mp hp
      · exact hgood.reached p hbefore
      · refine openedFor_storeARequest (fun storageId => ?_) p hnow
        rw [← hids]
        exact hgood.consistent.held dataType _

/-- **When a single close keeps the buckets.** -/
theorem Good.close_iff (dbhandle : ℤ) : Good { s with handles := processClose s.handles dbhandle } ↔
      (dbhandle < 0 ∨ ∀ dataType place, s.idAt dataType place ≠ dbhandle) := by
  constructor
  · intro h
    by_contra hheld
    push Not at hheld
    obtain ⟨hpos, dataType, place, rfl⟩ := hheld
    have hfreed : (s.handles.setNull (s.idAt dataType place)).getItem (s.idAt dataType place) =
        none := by
      rw [PointerArray.getItem_setNull, if_pos rfl]
    have hnone : s.idAt dataType place = -1 := h.consistent.eq_of_none dataType place hfreed
    omega
  · intro hfree
    exact ⟨hgood.consistent.setNull hfree, hgood.reached⟩

/-- **When a multi-thread close does.** -/
theorem Good.closeMulti_iff (h : Wf config s) (dataType : DataType) :
    Good (closeMulti config dataType s) ↔ ∀ place, s.idAt dataType place = -1 := by
  unfold DbHandles.closeMulti
  cases hbucket : s.buckets dataType with
  | none => exact iff_of_true hgood (idAt_of_none hbucket)
  | some bucket =>
    have hids := idAt_of_some hbucket
    constructor
    · intro hafter place
      by_contra hne
      obtain hnone | ⟨handle, hopen, -⟩ := hgood.consistent.held dataType place
      · exact hne hnone
      have hpos : 0 ≤ s.idAt dataType place := by
        by_contra hneg
        rw [s.handles.getItem_of_neg (by omega)] at hopen
        cases hopen
      refine hne (hafter.consistent.eq_of_none dataType place ?_)
      show PointerArray.getItem _ (s.idAt dataType place) = none
      rw [hids] at hne hpos ⊢
      exact getItem_closed hpos _ _ (.inl (h.inside dataType bucket hbucket place hne))
    · intro hnone
      rw [hids] at hnone
      simp only [foldl_closeOneStorage hnone]
      exact hgood

/-- **A request keeps the buckets good if and only if it is allowed.** -/
theorem Good.step_iff (h : Wf config s) (request : Request μ) :
    (∃ s', step config s request = some s' ∧ Good s') ↔ Allowed s request := by
  cases request with
  | openOne created => exact iff_of_true ⟨_, rfl, hgood.openOne h created⟩ trivial
  | openMulti dataType created =>
    exact iff_of_true ⟨_, rfl, hgood.openMulti h dataType created⟩ trivial
  | close dbhandle =>
    simp only [step, some.injEq, exists_eq_left']
    exact hgood.close_iff dbhandle
  | closeMulti dataType =>
    simp only [step, some.injEq, exists_eq_left']
    exact hgood.closeMulti_iff h dataType
  | store dbhandle => exact iff_of_true ⟨_, rfl, hgood⟩ trivial
  | storeMulti dataType => exact iff_of_true ⟨_, rfl, hgood.storeMulti dataType⟩ trivial
  | commit dbhandle => exact iff_of_true ⟨_, rfl, hgood⟩ trivial
  | commitMulti dataType threadId =>
    simp only [step, commitMulti, Allowed]
    cases hbucket : s.buckets dataType with
    | none => simp [hgood]
    | some bucket =>
      by_cases hthread : 0 ≤ threadId ∧ threadId < bucket.numThreads
      · simp [hthread, hgood]
      · simp [hthread]

end

end Step

/-! ## 6. Every list of requests -/

variable (config : Config)

theorem wf_start : Wf config (Base.start μ) where
  valid := PointerArray.valid_init 3
  inside _ _ h := by cases h

theorem good_start : Good (Base.start μ) where
  consistent := ⟨fun _ _ => .inl rfl, fun _ _ _ _ hsome => by cases hsome⟩
  reached p hp := by cases hp

theorem run_append (done : List (Request μ)) (request : Request μ) :
    run config (done ++ [request]) = (run config done).bind fun s => step config s request := by
  unfold run
  simp

theorem wf_of_run (requests : List (Request μ)) {s} (h : run config requests = some s) :
    Wf config s := by
  induction requests using List.reverseRecOn generalizing s with
  | nil =>
    cases h
    exact wf_start config
  | append_singleton done request ih =>
    rw [run_append] at h
    obtain ⟨s', hrun, hstep⟩ := bind_eq_some_iff.mp h
    exact (ih hrun).step hstep

/-- **The buckets after every request**: they are good throughout if and only if every request is
allowed in the state it meets. -/
theorem buckets_good_iff (config : Config) (requests : List (Request μ)) :
    (∀ done, done <+: requests → ∃ s, run config done = some s ∧ Good s) ↔
      ∀ done request, done ++ [request] <+: requests →
        ∀ s, run config done = some s → Allowed s request := by
  have hstep : ∀ (done : List (Request μ)) (request : Request μ),
      (∃ s, run config done = some s ∧ Good s) →
        ((∃ s, run config (done ++ [request]) = some s ∧ Good s) ↔
          ∀ s, run config done = some s → Allowed s request) := by
    rintro done request ⟨s, hrun, hgood⟩
    rw [run_append, hrun]
    simp only [bind_some, some.injEq, forall_eq']
    exact hgood.step_iff (wf_of_run config done hrun) request
  rw [forall_prefix_iff hstep]
  exact and_iff_right ⟨_, rfl, good_start⟩

/-- Two data types, with one thread and one storage. -/
def oneThread : Config := ⟨fun _ => 1, 1⟩

/-- **A store reaches a handle of another data type.**  The bucket for environment data is opened,
closed, and keeps the id `0`; the handle for events gets that slot. -/
theorem store_reaches_another : (run oneThread [.openMulti .env fun _ => some (), .closeMulti .env,
      .openMulti .event fun _ => some (), .storeMulti .env]).map (fun s => s.reached) =
        some [(.env, ⟨(), some .event⟩)] := by
  decide

end Sensys.Orcm.DbHandles
