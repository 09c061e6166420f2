/-
# Pointer arrays

`opal/class/opal_pointer_array.c`: a table of pointers whose free slots are used again, the lowest
one first.  The table keeps the number of its free slots and the index of the lowest one, and looks
for the next one when that is taken.

`Valid` says what the two are; every operation keeps it (`Valid.add`, `Valid.setNull`).  What the
operations are for is then said by what `getItem` finds: a pointer that is added takes a slot that
was free and changes no other one (`Valid.getItem_add_before`, `Valid.getItem_add`), and one that is
set to `NULL` frees its slot (`getItem_setNull`).  So it is always the lowest free index that is
given out (`add_of_calls`).

The table can always grow.
-/
import Mathlib.Data.Int.Notation
import Mathlib.Data.List.Basic

namespace Sensys.Opal

open List Option

/-- `opal_pointer_array_t`.  Its `size` is the length of `addr`. -/
structure PointerArray (α : Type) where
  addr : List (Option α)
  lowestFree : ℕ
  numberFree : ℕ
  deriving DecidableEq, Repr

namespace PointerArray

variable {α : Type}

/-- `TABLE_INIT`. -/
def tableInit : ℕ := 1

/-- `TABLE_GROW`. -/
def tableGrow : ℕ := 2

/-- The constructor and `opal_pointer_array_init`. -/
def init (α : Type) (initialAllocation : ℕ) : PointerArray α :=
  ⟨List.replicate initialAllocation none, 0, initialAllocation⟩

/-- `opal_pointer_array_get_item`. -/
def getItem (table : PointerArray α) (index : ℤ) : Option α :=
  if index < 0 ∨ (table.addr.length : ℤ) ≤ index then none else table.addr[index.toNat]?.join

/-- `grow_table`. -/
def growTable (newSize : ℕ) (table : PointerArray α) : PointerArray α :=
  { table with
    addr := table.addr ++ List.replicate (newSize - table.addr.length) none
    numberFree := table.numberFree + (newSize - table.addr.length) }

/-- The loop that looks for a free slot from an index on. -/
def nextFree (addr : List (Option α)) (i : ℕ) : Option ℕ :=
  ((addr.drop i).findIdx? Option.isNone).map (i + ·)

/-- `opal_pointer_array_add`, once there is a free slot. -/
def addFree (ptr : α) (table : PointerArray α) : ℕ × PointerArray α :=
  let index := table.lowestFree
  let addr := table.addr.set index (some ptr)
  let numberFree := table.numberFree - 1
  let lowestFree :=
    if 0 < numberFree then (nextFree addr (index + 1)).getD index else addr.length
  (index, ⟨addr, lowestFree, numberFree⟩)

/-- `opal_pointer_array_add`. -/
def add (ptr : α) (table : PointerArray α) : ℕ × PointerArray α :=
  addFree ptr
    (if table.numberFree = 0 then
      table.growTable (if table.addr.isEmpty then tableInit else table.addr.length * tableGrow)
    else table)

/-- `opal_pointer_array_set_item` with `NULL`, at an index of the table. -/
def setFree (index : ℕ) (table : PointerArray α) : PointerArray α where
  addr := table.addr.set index none
  lowestFree := if index < table.lowestFree then index else table.lowestFree
  numberFree :=
    if (table.addr[index]?.join).isSome then table.numberFree + 1 else table.numberFree

/-- `opal_pointer_array_set_item` with `NULL`. -/
def setNull (index : ℤ) (table : PointerArray α) : PointerArray α :=
  if index < 0 then table
  else if (table.addr.length : ℤ) ≤ index then
    setFree index.toNat (table.growTable ((index.toNat / tableGrow + 1) * tableGrow))
  else setFree index.toNat table

/-! ## 1. What the table keeps -/

/-- The slots below `lowest_free` are taken and that one is free, and `number_free` counts. -/
structure Valid (table : PointerArray α) : Prop where
  below : ∀ j < table.lowestFree, ∃ a, table.addr[j]? = some (some a)
  free : table.lowestFree < table.addr.length → table.addr[table.lowestFree]? = some none
  le : table.lowestFree ≤ table.addr.length
  count : table.numberFree = table.addr.countP Option.isNone

theorem valid_init (n : ℕ) : (init α n).Valid where
  below j hj := absurd hj (Nat.not_lt_zero j)
  free h := by
    unfold init at h ⊢
    simp only [length_replicate] at h
    simp [h]
  le := Nat.zero_le _
  count := by simp [init, countP_replicate]

variable {table : PointerArray α} {addr : List (Option α)} {i : ℕ}

/-- A free slot is counted. -/
theorem Valid.lowestFree_lt (h : table.Valid)
    (hfree : 0 < table.numberFree) : table.lowestFree < table.addr.length := by
  by_contra hge
  have hall : table.addr.countP Option.isNone = 0 := by
    rw [countP_eq_zero]
    intro slot hslot
    obtain ⟨j, hj⟩ := mem_iff_getElem?.mp hslot
    have hlt : j < table.addr.length := (List.getElem?_eq_some_iff.mp hj).1
    obtain ⟨a, ha⟩ := h.below j (by omega)
    cases hj.symm.trans ha
    simp
  rw [h.count, hall] at hfree
  exact absurd hfree (Nat.lt_irrefl 0)

theorem Valid.growTable (h : table.Valid) (newSize : ℕ) : (table.growTable newSize).Valid where
  below j hj := by
    obtain ⟨a, ha⟩ := h.below j hj
    have hlt : j < table.addr.length := (List.getElem?_eq_some_iff.mp ha).1
    refine ⟨a, ?_⟩
    show (table.addr ++ _)[j]? = _
    rw [getElem?_append_left hlt, ha]
  free hlt := by
    show (table.addr ++ _)[table.lowestFree]? = some none
    by_cases hin : table.lowestFree < table.addr.length
    · rw [getElem?_append_left hin, h.free hin]
    · unfold PointerArray.growTable at hlt
      simp only [length_append, length_replicate] at hlt
      rw [getElem?_append_right (by omega), getElem?_replicate, if_pos (by omega)]
  le := by
    have := h.le
    unfold PointerArray.growTable
    simp only [length_append]
    omega
  count := by
    unfold PointerArray.growTable
    simp [countP_append, countP_replicate, h.count]

variable (table)

/-- What is in a slot of the table, or behind it. -/
theorem getItem_natCast (j : ℕ) : table.getItem j = table.addr[j]?.join := by
  unfold getItem
  split
  · rw [getElem?_eq_none (by omega)]
    rfl
  · rw [Int.toNat_natCast]

theorem getItem_of_neg {j} (h : j < 0) : table.getItem j = none :=
  if_pos (.inl h)

/-- One slot is set. -/
theorem getItem_set {table' : PointerArray α} {index slot}
    (haddr : table'.addr = table.addr.set index slot)
    (hslot : index < table.addr.length ∨ slot = none) (j : ℤ) :
    table'.getItem j = if j = index then slot else table.getItem j := by
  rcases Int.lt_or_le j 0 with hneg | hpos
  · rw [getItem_of_neg _ hneg, getItem_of_neg _ hneg, if_neg (by omega)]
  · obtain ⟨j, rfl⟩ := Int.eq_ofNat_of_zero_le hpos
    rw [getItem_natCast, getItem_natCast, haddr]
    by_cases hj : j = index
    · subst hj
      rw [getElem?_set, if_pos rfl, if_pos rfl]
      rcases hslot with hlt | rfl
      · rw [if_pos hlt]
        rfl
      · split <;> rfl
    · rw [getElem?_set_ne (Ne.symm hj), if_neg (by omega)]

/-- Growing shows in no slot. -/
theorem getItem_growTable (newSize : ℕ) (j : ℤ) :
    (table.growTable newSize).getItem j = table.getItem j := by
  rcases Int.lt_or_le j 0 with hneg | hpos
  · rw [getItem_of_neg _ hneg, getItem_of_neg _ hneg]
  · obtain ⟨j, rfl⟩ := Int.eq_ofNat_of_zero_le hpos
    rw [getItem_natCast, getItem_natCast]
    unfold growTable
    rw [getElem?_append]
    split
    · rfl
    · rename_i hout
      rw [getElem?_replicate, getElem?_eq_none (Nat.le_of_not_lt hout)]
      split <;> rfl

variable {table}

/-- The slot that is found is the first free one. -/
theorem nextFree_eq_some {k} (h : nextFree addr i = some k) :
    addr[k]? = some none ∧ ∀ j, i ≤ j → j < k → ∃ a, addr[j]? = some (some a) := by
  obtain ⟨d, hd, rfl⟩ := map_eq_some_iff.mp h
  obtain ⟨hlt, hnone, hbelow⟩ := List.findIdx?_eq_some_iff_getElem.mp hd
  constructor
  · rw [← getElem?_drop, getElem?_eq_getElem hlt, isNone_iff_eq_none.mp hnone]
  · intro j hij hj
    obtain ⟨e, rfl⟩ := Nat.exists_eq_add_of_le hij
    have htaken := hbelow e (by omega)
    rw [Bool.not_eq_true, isNone_eq_false_iff, isSome_iff_exists] at htaken
    obtain ⟨a, ha⟩ := htaken
    refine ⟨a, ?_⟩
    rw [← getElem?_drop, getElem?_eq_getElem (by omega), ha]

/-! ## 2. What the operations do -/

/-- Without a free slot in it, every slot is taken. -/
theorem exists_of_countP (h : addr.countP Option.isNone = 0) {j} (hj : j < addr.length) :
    ∃ a, addr[j]? = some (some a) := by
  have htaken := countP_eq_zero.mp h _ (getElem_mem hj)
  rw [Bool.not_eq_true, isNone_eq_false_iff, isSome_iff_exists] at htaken
  obtain ⟨a, ha⟩ := htaken
  exact ⟨a, by rw [getElem?_eq_getElem hj, ha]⟩

/-- If all slots below an index are taken and one is free, the loop finds the first. -/
theorem exists_nextFree
    (hbelow : ∀ j < i, ∃ a, addr[j]? = some (some a)) (hpos : 0 < addr.countP Option.isNone) :
    ∃ k, nextFree addr i = some k := by
  by_contra hnone
  push Not at hnone
  have hall := findIdx?_eq_none_iff.mp
    (Option.map_eq_none_iff.mp (Option.eq_none_iff_forall_ne_some.mpr hnone))
  obtain ⟨slot, hslot, hfree⟩ := List.countP_pos_iff.mp hpos
  obtain ⟨j, hj⟩ := mem_iff_getElem?.mp hslot
  by_cases hji : j < i
  · obtain ⟨a, ha⟩ := hbelow j hji
    cases hj.symm.trans ha
    cases hfree
  · have hdrop : slot ∈ addr.drop i := by
      rw [mem_iff_getElem?]
      exact ⟨j - i, by rw [getElem?_drop, Nat.add_sub_cancel' (by omega), hj]⟩
    rw [hall slot hdrop] at hfree
    cases hfree

section

variable (h : table.Valid)
include h

theorem Valid.addFree (hfree : 0 < table.numberFree) (ptr : α) : (table.addFree ptr).2.Valid := by
  have hlt := h.lowestFree_lt hfree
  obtain ⟨_, hnone⟩ := List.getElem?_eq_some_iff.mp (h.free hlt)
  have hcount : (table.addr.set table.lowestFree (some ptr)).countP Option.isNone =
      table.numberFree - 1 := by
    rw [countP_set hlt, hnone, h.count]
    rfl
  have hbelow : ∀ j < table.lowestFree + 1,
      ∃ a, (table.addr.set table.lowestFree (some ptr))[j]? = some (some a) := by
    intro j hj
    by_cases heq : j = table.lowestFree
    · subst heq
      exact ⟨ptr, getElem?_set_self hlt⟩
    · obtain ⟨a, ha⟩ := h.below j (by omega)
      exact ⟨a, by rw [getElem?_set_ne (Ne.symm heq), ha]⟩
  unfold PointerArray.addFree
  by_cases hmore : 0 < table.numberFree - 1
  · obtain ⟨k, hk⟩ := exists_nextFree hbelow (hcount ▸ hmore)
    obtain ⟨hfirst, htaken⟩ := nextFree_eq_some hk
    simp only [hmore, if_true, hk, getD_some]
    refine ⟨fun j hj => ?_, fun _ => hfirst, ?_, hcount.symm⟩
    · by_cases hj' : j < table.lowestFree + 1
      · exact hbelow j hj'
      · exact htaken j (by omega) hj
    · exact Nat.le_of_lt (List.getElem?_eq_some_iff.mp hfirst).1
  · simp only [hmore, if_false]
    refine ⟨fun j hj => exists_of_countP ?_ hj, fun hj => absurd hj (Nat.lt_irrefl _),
      Nat.le_refl _, hcount.symm⟩
    rw [hcount]
    omega

/-- The table `opal_pointer_array_add` adds to has a free slot, and the same in every slot. -/
theorem Valid.exists_add (ptr : α) :
    ∃ table' : PointerArray α, table'.Valid ∧ 0 < table'.numberFree ∧
      (∀ j, table'.getItem j = table.getItem j) ∧ table.add ptr = table'.addFree ptr := by
  by_cases hfull : table.numberFree = 0
  · refine ⟨_, h.growTable _, ?_, table.getItem_growTable _, by
      unfold add
      rw [if_pos hfull]⟩
    unfold PointerArray.growTable tableInit tableGrow
    cases haddr : table.addr with
    | nil => simp
    | cons slot rest =>
      simp only [isEmpty_cons, Bool.false_eq_true, if_false, length_cons]
      omega
  · refine ⟨table, h, Nat.pos_of_ne_zero hfull, fun _ => rfl, ?_⟩
    unfold add
    rw [if_neg hfull]

theorem Valid.add (ptr : α) : (table.add ptr).2.Valid := by
  obtain ⟨table', hvalid, hfree, -, heq⟩ := h.exists_add ptr
  rw [heq]
  exact hvalid.addFree hfree ptr

/-- **A pointer is added** to a slot that was free. -/
theorem Valid.getItem_add_before (ptr : α) : table.getItem (table.add ptr).1 = none := by
  obtain ⟨table', hvalid, hfree, hget, heq⟩ := h.exists_add ptr
  rw [heq, ← hget]
  show table'.getItem table'.lowestFree = none
  rw [getItem_natCast, hvalid.free (hvalid.lowestFree_lt hfree)]
  rfl

/-- **What is in the slots afterwards.** -/
theorem Valid.getItem_add (ptr : α) (j : ℤ) : (table.add ptr).2.getItem j =
      if j = (table.add ptr).1 then some ptr else table.getItem j := by
  obtain ⟨table', hvalid, hfree, hget, heq⟩ := h.exists_add ptr
  rw [heq, ← hget]
  exact table'.getItem_set rfl (.inl (hvalid.lowestFree_lt hfree)) j

theorem Valid.setFree {index} (hindex : index < table.addr.length) :
    (table.setFree index).Valid where
  below j hj := by
    unfold PointerArray.setFree at hj ⊢
    simp only at hj ⊢
    obtain ⟨a, ha⟩ := h.below j (by split at hj <;> omega)
    exact ⟨a, by rw [getElem?_set_ne (by split at hj <;> omega), ha]⟩
  free hlt := by
    unfold PointerArray.setFree at hlt ⊢
    simp only [length_set] at hlt ⊢
    by_cases hlow : index < table.lowestFree
    · rw [if_pos hlow, getElem?_set_self hindex]
    · rw [if_neg hlow] at hlt ⊢
      by_cases heq : index = table.lowestFree
      · rw [heq, getElem?_set_self hlt]
      · rw [getElem?_set_ne heq, h.free hlt]
  le := by
    unfold PointerArray.setFree
    simp only [length_set]
    split <;> omega
  count := by
    have hpos : table.addr[index].isNone = true → 0 < table.numberFree := fun hnone => by
      rw [h.count]
      exact List.countP_pos_iff.mpr ⟨_, getElem_mem hindex, hnone⟩
    unfold PointerArray.setFree
    rw [countP_set hindex, ← h.count, getElem?_eq_getElem hindex, join_some]
    cases hslot : table.addr[index] with
    | none =>
      have := hpos (by rw [hslot]; rfl)
      simp only [isSome_none, Bool.false_eq_true, if_false, isNone_none, if_true]
      omega
    | some a => simp

theorem Valid.setNull (index : ℤ) : (table.setNull index).Valid := by
  unfold PointerArray.setNull
  split
  · exact h
  · split
    · refine (h.growTable _).setFree ?_
      unfold PointerArray.growTable tableGrow
      simp only [length_append, length_replicate]
      omega
    · exact h.setFree (by omega)

end

theorem getItem_setFree (table : PointerArray α) (index : ℕ) (j : ℤ) :
    (table.setFree index).getItem j = if j = index then none else table.getItem j :=
  table.getItem_set rfl (.inr rfl) j

/-- **A slot is freed**, and the others stay. -/
theorem getItem_setNull (table : PointerArray α) (index j : ℤ) :
    (table.setNull index).getItem j = if j = index then none else table.getItem j := by
  unfold setNull
  split
  · split
    · rename_i hneg heq
      rw [heq, getItem_of_neg _ hneg]
    · rfl
  · rename_i hpos
    obtain ⟨n, rfl⟩ := Int.eq_ofNat_of_zero_le (Int.not_lt.mp hpos)
    rw [Int.toNat_natCast]
    split
    · rw [getItem_setFree, getItem_growTable]
    · rw [getItem_setFree]

/-! ## 3. Runs -/

/-- A call of `opal_pointer_array_add`, or of `opal_pointer_array_set_item` with `NULL`. -/
inductive Call (α : Type) where
  | add (ptr : α)
  | setNull (index : ℤ)

/-- The table after a call. -/
def call (table : PointerArray α) : Call α → PointerArray α
  | .add ptr => (table.add ptr).2
  | .setNull index => table.setNull index

/-- **The lowest free index is given out**, after any calls: it holds nothing, all below it hold
something, and no other index changes. -/
theorem add_of_calls (n : ℕ) (calls : List (Call α)) (ptr : α) :
    let table := calls.foldl call (init α n)
    let index := (table.add ptr).1
    table.getItem index = none ∧ (∀ j : ℕ, j < index → (table.getItem j).isSome = true) ∧
      ∀ j, (table.add ptr).2.getItem j = if j = index then some ptr else table.getItem j := by
  have hvalid : (calls.foldl call (init α n)).Valid := by
    refine foldlRecOn calls call (valid_init n) fun table h c _ => ?_
    cases c with
    | add ptr => exact h.add ptr
    | setNull index => exact h.setNull index
  refine ⟨hvalid.getItem_add_before ptr, fun j hj => ?_, hvalid.getItem_add ptr⟩
  obtain ⟨table', hvalid', -, hget, heq⟩ := hvalid.exists_add ptr
  rw [heq] at hj
  obtain ⟨a, ha⟩ := hvalid'.below j hj
  rw [← hget, getItem_natCast, ha]
  rfl

end PointerArray

end Sensys.Opal
