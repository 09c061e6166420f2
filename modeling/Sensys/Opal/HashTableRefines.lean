/-
# The hash table refines a finite map

What `opal_hash_table_t` is for: a finite map from keys to values.  The abstract map is a
`Finmap`; `Refines hash ht m` says that the table `ht` is in order (its chains are whole, its
counters agree with its array, it has room) and holds exactly the bindings of `m`.

Every operation is proved to RETURN from a table in order, to leave it in order, and to do to the
bindings what the map operation of the same name does (`getValue_spec`, `setValue_spec`,
`removeValue_spec`, `removeAll_spec`); `run_refines` chains them over any sequence of operations.
The hash function is arbitrary throughout.

The probing arguments are those of `Sensys.Lib.Probe`; what is added here is the array as a list,
the counters, growth, and the traversal.
-/
import Sensys.Opal.HashTable
import Mathlib.Data.Finmap

namespace Sensys.Opal

open List HashTable Probe

variable {K V : Type}

/-! ## 1. The array -/

variable {i : ℕ} {t : List (Option (K × V))} {e : K × V} {k : K}

variable (t) (x : Option (K × V))

theorem slots_set (hi : i < t.length) :
    slots (t.set i x) = Function.update (slots t) i x := by
  funext j
  by_cases hji : j = i
  · subst hji
    simp [slots, hi]
  · simp [slots, hji, Ne.symm hji, List.getD]

theorem slots_replicate (n : ℕ) :
    slots (List.replicate n none : List (Option (K × V))) = fun _ => none := by
  funext j
  simp only [slots, List.getD, getElem?_replicate]
  split <;> rfl

theorem slots_eq_getElem (hi : i < t.length) : slots t i = t[i] := by
  simp [slots, hi]

/-- The number of valid elements. -/
def occupied (t : List (Option (K × V))) : ℕ := t.countP Option.isSome

/-- The valid elements in slot order. -/
def entries (t : List (Option (K × V))) : List (K × V) := t.filterMap id

theorem length_entries : (entries t).length = occupied t := by
  simp [entries, occupied, length_filterMap_eq_countP]

variable {t}

theorem mem_entries : e ∈ entries t ↔ ∃ i < t.length, slots t i = some e := by
  rw [entries, mem_filterMap]
  simp only [id_eq, exists_eq_right]
  rw [mem_iff_getElem]
  constructor
  · rintro ⟨i, hi, he⟩
    exact ⟨i, hi, by rw [slots_eq_getElem t hi, he]⟩
  · rintro ⟨i, hi, he⟩
    exact ⟨i, hi, by rw [← slots_eq_getElem t hi, he]⟩

theorem holds_iff_mem_entries {v} :
    Probe.Holds t.length (slots t) k v ↔ (k, v) ∈ entries t := mem_entries.symm

/-- Distinct slots hold distinct keys. -/
theorem nodup_keys_entries {hash} (h : Probe.Chained hash t.length (slots t)) :
    ((entries t).map Prod.fst).Nodup := by
  rw [List.Nodup, pairwise_map, entries, pairwise_filterMap, pairwise_iff_getElem]
  intro i j hi hj hij e he e' he' heq
  obtain ⟨k, v⟩ := e
  obtain ⟨k', w⟩ := e'
  subst heq
  rw [← slots_eq_getElem t hi] at he
  rw [← slots_eq_getElem t hj] at he'
  have := h.inj i j k v w hi hj he he'
  omega

theorem occupied_set {s} (hi : i < t.length) (hs : slots t i = s) :
    occupied (t.set i x) + s.isSome.toNat = occupied t + x.isSome.toNat := by
  rw [slots_eq_getElem t hi] at hs
  have hpos : s.isSome = true → 0 < occupied t := fun he =>
    List.countP_pos_iff.mpr ⟨t[i], getElem_mem hi, by simpa [hs] using he⟩
  simp only [occupied] at hpos ⊢
  rw [countP_set hi, hs]
  cases s <;> cases x <;> simp_all

theorem occupied_replicate (n : ℕ) :
    occupied (List.replicate n none : List (Option (K × V))) = 0 := by
  simp [occupied, countP_replicate]

theorem chained_replicate (hash : K → ℕ) (n c : ℕ) :
    Probe.Chained hash c (slots (List.replicate n none : List (Option (K × V)))) := by
  rw [slots_replicate]
  exact chained_empty

/-- An array that is not full has a free slot. -/
theorem exists_free (h : occupied t < t.length) : ∃ i < t.length, slots t i = none := by
  by_contra hno
  have hall : occupied t = t.length := by
    rw [occupied, countP_eq_length]
    intro x hx
    obtain ⟨i, hi, rfl⟩ := mem_iff_getElem.mp hx
    have hne : slots t i ≠ none := fun h0 => hno ⟨i, hi, h0⟩
    rw [slots_eq_getElem t hi] at hne
    exact Option.isSome_iff_ne_none.mpr hne
  omega

/-! ## 2. A table in order -/

/-- **The table is in order**: its chains are whole, `ht_size` counts the valid elements, and
there is room.  The last field is what growth maintains; the alternative `size = 0` is the table
initialised for no elements, whose single slot is over the trigger from the start. -/
structure Inv (hash : K → ℕ) (ht : HashTable K V) : Prop where
  chained : Probe.Chained hash ht.capacity ht.elt
  size_eq : ht.size = occupied ht.table
  trigger_eq : ht.growthTrigger = ht.capacity / 2
  numer_eq : ht.densityNumer = 1
  denom_eq : ht.densityDenom = 2
  growth_eq : ht.growthNumer = 2
  growth_denom_eq : ht.growthDenom = 1
  capacity_pos : 0 < ht.capacity
  room : ht.size < ht.growthTrigger ∨ ht.size = 0

/-- **The table represents the map `m`**: it is in order and holds exactly its bindings. -/
structure Refines (hash : K → ℕ) [DecidableEq K] (ht : HashTable K V)
    (m : Finmap fun _ : K => V) : Prop extends Inv hash ht where
  lookup_iff : ∀ k v, m.lookup k = some v ↔ Probe.Holds ht.capacity ht.elt k v

variable {hash : K → ℕ} {ht : HashTable K V}

theorem Inv.occupied_lt (h : Inv hash ht) : occupied ht.table < ht.capacity := by
  have hsize := h.size_eq
  have htrig := h.trigger_eq
  have hpos := h.capacity_pos
  rcases h.room with hroom | hzero <;> omega

/-- **There is always a free slot.** -/
theorem Inv.exists_free (h : Inv hash ht) : ∃ i < ht.capacity, ht.elt i = none :=
  Opal.exists_free h.occupied_lt

section Lookup

variable [DecidableEq K] {m : Finmap fun _ : K => V}

theorem Refines.lookup_none_iff (h : Refines hash ht m) (k : K) :
    m.lookup k = none ↔ ∀ v, ¬ Probe.Holds ht.capacity ht.elt k v := by
  constructor
  · intro hnone v hv
    rw [← h.lookup_iff, hnone] at hv
    cases hv
  · intro habs
    cases hl : m.lookup k with
    | none => rfl
    | some v => exact absurd ((h.lookup_iff k v).mp hl) (habs v)

/-- **The two outcomes of a probe.**  A key of the map is found where it is stored; for any other
key the probe ends at a free slot at the end of its chain. -/
theorem Refines.probe_spec (h : Refines hash ht m) (k : K) :
    ∃ i < ht.capacity, ht.probe hash k = some i ∧
      ((∃ v, m.lookup k = some v ∧ ht.elt i = some (k, v)) ∨
       (m.lookup k = none ∧ ht.elt i = none ∧ Probe.Path hash ht.capacity ht.elt k i)) := by
  cases hl : m.lookup k with
  | some v =>
    obtain ⟨i, hi, hs⟩ := (h.lookup_iff k v).mp hl
    exact ⟨i, hi, find_of_slot h.chained hi hs, .inl ⟨v, rfl, hs⟩⟩
  | none =>
    obtain ⟨e, he, hfree⟩ := h.toInv.exists_free
    obtain ⟨i, hi, hscan, hnone, hpath⟩ :=
      find_of_absent ((h.lookup_none_iff k).mp hl) he hfree
    exact ⟨i, hi, hscan, .inr ⟨rfl, hnone, hpath⟩⟩

/-- **`get_value` is lookup.** -/
theorem getValue_spec (h : Refines hash ht m) (k : K) :
    ht.getValue hash k = some ((m.lookup k).elim (.error .errNotFound) .ok) := by
  obtain ⟨i, -, hprobe, ⟨v, hl, hs⟩ | ⟨hl, hs, -⟩⟩ := h.probe_spec k <;>
    simp [getValue, hprobe, hl, hs]

/-- Every table in order represents a map. -/
theorem Inv.exists_refines (h : Inv hash ht) : ∃ m : Finmap (fun _ : K => V), Refines hash ht m := by
  have hnd : ((entries ht.table).map fun e => (⟨e.1, e.2⟩ : Sigma fun _ : K => V)).NodupKeys := by
    rw [List.NodupKeys, List.keys, map_map]
    exact nodup_keys_entries h.chained
  refine ⟨((entries ht.table).map fun e => ⟨e.1, e.2⟩).toFinmap, h, ?_⟩
  intro k v
  rw [Finmap.dlookup_list_toFinmap]
  refine (mem_dlookup_iff hnd).trans ?_
  rw [mem_map]
  constructor
  · rintro ⟨⟨k', v'⟩, he, heq⟩
    cases heq
    exact holds_iff_mem_entries.mpr he
  · intro hv
    exact ⟨(k, v), holds_iff_mem_entries.mp hv, rfl⟩

/-- **`ht_size` is the number of keys.** -/
theorem Refines.size_eq_card (h : Refines hash ht m) : ht.getSize = m.keys.card := by
  have hkeys : m.keys = ((entries ht.table).map Prod.fst).toFinset := by
    ext k
    rw [Finmap.mem_keys, mem_toFinset, mem_map, Finmap.mem_iff]
    constructor
    · rintro ⟨v, hv⟩
      exact ⟨(k, v), holds_iff_mem_entries.mp ((h.lookup_iff k v).mp hv), rfl⟩
    · rintro ⟨⟨k', v⟩, he, rfl⟩
      exact ⟨v, (h.lookup_iff k' v).mpr (holds_iff_mem_entries.mpr he)⟩
  rw [getSize, h.size_eq, hkeys,
    toFinset_card_of_nodup (nodup_keys_entries h.chained), length_map, length_entries]

end Lookup

/-! ## 3. Growth -/

/-- One element of the old table goes into the new one. -/
theorem reinsert_spec (v : V)
    (hc : Probe.Chained hash t.length (slots t)) (hroom : occupied t < t.length)
    (habs : ∀ w, ¬ Probe.Holds t.length (slots t) k w) :
    ∃ t', reinsert hash t (k, v) = some t' ∧ t'.length = t.length ∧
      Probe.Chained hash t'.length (slots t') ∧ occupied t' = occupied t + 1 ∧
      ∀ k' v', Probe.Holds t'.length (slots t') k' v' ↔
        (k' = k ∧ v' = v) ∨ Probe.Holds t.length (slots t) k' v' := by
  obtain ⟨e, he, hfree⟩ := exists_free hroom
  have hn : 0 < t.length := by omega
  obtain ⟨d, hd, hscan, hat, hbefore⟩ := scan_total (fun ii => (slots t ii).isNone)
    (hash k % t.length) (Nat.le_of_lt (Nat.mod_lt _ hn)) he (by simp [hfree])
  have hi : (hash k % t.length + d) % t.length < t.length := Nat.mod_lt _ hn
  have hfree' : slots t ((hash k % t.length + d) % t.length) = none := by simpa using hat
  have hpath : Probe.Path hash t.length (slots t) k ((hash k % t.length + d) % t.length) := by
    refine ⟨d, hd, Nat.mod_add_mod _ _ _, ?_⟩
    intro j hj
    have := hbefore j hj
    simpa [Option.isSome_iff_ne_none] using this
  refine ⟨t.set ((hash k % t.length + d) % t.length) (some (k, v)), ?_, by simp, ?_, ?_, ?_⟩
  · simp [reinsert, hscan]
  · rw [length_set, slots_set t _ hi]
    exact hc.set v hpath (.of_free hfree' habs)
  · exact occupied_set _ hi hfree'
  · intro k' v'
    rw [length_set, slots_set t _ hi, (Probe.Spot.of_free hfree' habs).holds_update hi,
      and_iff_right_of_imp]
    · simp [eq_comm]
    · rintro hold rfl
      exact habs v' hold

/-- **The re-insertion loop**: every element of `old` ends up in the new array, whose chains stay
whole.  The keys of `old` are distinct and not in the new array yet, and the new array has room
for all of them. -/
theorem reinsertAll_spec :
    ∀ (old t : List (Option (K × V))), Probe.Chained hash t.length (slots t) →
      occupied old + occupied t < t.length → ((entries old).map Prod.fst).Nodup →
      (∀ e ∈ entries old, ∀ w, ¬ Probe.Holds t.length (slots t) e.1 w) →
      ∃ t', reinsertAll hash old t = some t' ∧ t'.length = t.length ∧
        Probe.Chained hash t'.length (slots t') ∧ occupied t' = occupied old + occupied t ∧
        ∀ k v, Probe.Holds t'.length (slots t') k v ↔
          (k, v) ∈ entries old ∨ Probe.Holds t.length (slots t) k v
  | [], t, hc, _, _, _ => ⟨t, rfl, rfl, hc, by simp [occupied], by simp [entries]⟩
  | none :: old, t, hc, hroom, hnd, habs => by
    simpa [reinsertAll, occupied, entries] using
      reinsertAll_spec old t hc (by simpa [occupied] using hroom) (by simpa [entries] using hnd)
        (by simpa [entries] using habs)
  | some (k, v) :: old, t, hc, hroom, hnd, habs => by
    have hcount : occupied (some (k, v) :: old) = occupied old + 1 := by simp [occupied]
    have hent : entries (some (k, v) :: old) = (k, v) :: entries old := by simp [entries]
    rw [hent, map_cons, nodup_cons] at hnd
    obtain ⟨t₁, ht₁, hlen₁, hc₁, hocc₁, hholds₁⟩ :=
      reinsert_spec v hc (by omega) (habs _ mem_cons_self)
    have habs₁ : ∀ e ∈ entries old, ∀ w, ¬ Probe.Holds t₁.length (slots t₁) e.1 w := by
      intro e he w hw
      rcases (hholds₁ e.1 w).mp hw with ⟨hk, -⟩ | hold
      · exact hnd.1 (hk ▸ mem_map_of_mem he)
      · exact habs e (mem_cons_of_mem _ he) w hold
    obtain ⟨t', ht', hlen', hc', hocc', hholds'⟩ :=
      reinsertAll_spec old t₁ hc₁ (by omega) hnd.2 habs₁
    refine ⟨t', by simp [reinsertAll, ht₁, ht'], by omega, hc', by omega, ?_⟩
    intro k' v'
    rw [hholds', hholds₁, hent, mem_cons, Prod.mk.injEq, or_left_comm, or_assoc]

/-- **`opal_hash_grow` keeps the bindings** and makes room.  The table it is called on has its
chains whole but may be at or over its trigger, even full. -/
theorem grow_spec (hc : Probe.Chained hash ht.capacity ht.elt)
    (hsize : ht.size = occupied ht.table) (hlt : 2 * ht.size ≤ ht.capacity + 1)
    (hnum : ht.densityNumer = 1) (hden : ht.densityDenom = 2) (hgn : ht.growthNumer = 2)
    (hgd : ht.growthDenom = 1) : ∃ ht', ht.grow hash = some (.success, ht') ∧ Inv hash ht' ∧
      ∀ k v, Probe.Holds ht'.capacity ht'.elt k v ↔ Probe.Holds ht.capacity ht.elt k v := by
  obtain ⟨cap', hcap'⟩ : ∃ c, c = roundCapacityUp id
      (ht.capacity * ht.growthNumer / ht.growthDenom) := ⟨_, rfl⟩
  have hbig : 2 * ht.capacity < cap' ∧ (0 < ht.capacity → 30 < cap') := by
    rw [hcap', hgn, hgd, roundCapacityUp, id_eq]
    omega
  have hle : occupied ht.table ≤ ht.table.length := countP_le_length
  have hempty := occupied_replicate (K := K) (V := V) cap'
  obtain ⟨t', ht', hlen', hc', hocc', hholds'⟩ := reinsertAll_spec ht.table
    (List.replicate cap' none) (chained_replicate hash _ _)
    (by rw [hempty, length_replicate]; rw [capacity] at hbig; omega)
    (nodup_keys_entries hc)
    (by rintro e _ w ⟨i, -, hi⟩; simp [slots_replicate] at hi)
  rw [length_replicate] at hlen'
  refine ⟨{ ht with table := t', growthTrigger := cap' * ht.densityNumer / ht.densityDenom },
    ?_, ?_, ?_⟩
  · simp only [grow, ← hcap', ht', Option.map_some]
  · refine ⟨hc', ?_, ?_, hnum, hden, hgn, hgd, ?_, ?_⟩
    · rw [hocc', hempty, hsize, Nat.add_zero]
    · simp [capacity, hnum, hden, hlen']
    · simp only [capacity, hlen']
      omega
    · simp only [hnum, hden]
      omega
  · intro k v
    refine (hholds' k v).trans ?_
    rw [slots_replicate, ← holds_iff_mem_entries]
    constructor
    · rintro (h | ⟨i, -, hi⟩)
      · exact h
      · cases hi
    · exact .inl

/-! ## 4. Insertion -/

section Set

variable [DecidableEq K] {m : Finmap fun _ : K => V}

variable {k : K}

/-- A table that holds one binding more than a table of `m` represents `m` with it inserted. -/
theorem lookup_insert_iff {P : K → V → Prop} (hm : ∀ k v, m.lookup k = some v ↔ P k v) (v : V)
    (k' : K) (v' : V) :
    (m.insert k v).lookup k' = some v' ↔ (k' = k ∧ v' = v) ∨ (k' ≠ k ∧ P k' v') := by
  by_cases hk : k' = k
  · subst hk
    simp [eq_comm]
  · rw [Finmap.lookup_insert_of_ne _ hk, hm]
    simp [hk]

/-- A value is set at the slot of its key. -/
theorem Refines.set (h : Refines hash ht m) (v : V) {i : ℕ} (hi : i < ht.capacity)
    (hpath : Probe.Path hash ht.capacity ht.elt k i) (hspot : Probe.Spot ht.capacity ht.elt k i) :
    Probe.Chained hash (ht.table.set i (some (k, v))).length
      (slots (ht.table.set i (some (k, v)))) ∧ ∀ k' v', (m.insert k v).lookup k' = some v' ↔
      Probe.Holds (ht.table.set i (some (k, v))).length
        (slots (ht.table.set i (some (k, v)))) k' v' := by
  rw [length_set, slots_set _ _ hi]
  refine ⟨h.chained.set v hpath hspot, fun k' v' => ?_⟩
  refine (lookup_insert_iff h.lookup_iff v k' v').trans ((hspot.holds_update hi _ k' v').trans ?_).symm
  simp [eq_comm]

/-- `set_value` on a key that is there: only its value changes. -/
theorem setValue_existing (h : Refines hash ht m) {v₀} (v : V) {i} (hi : i < ht.capacity)
    (hs : ht.elt i = some (k, v₀)) :
    Refines hash { ht with table := ht.table.set i (some (k, v)) } (m.insert k v) := by
  obtain ⟨hc, hholds⟩ := h.set v hi (h.chained.path i k v₀ hi hs) (h.chained.spot hi hs)
  refine ⟨⟨hc, ?_, ?_, h.numer_eq, h.denom_eq, h.growth_eq, h.growth_denom_eq, ?_, h.room⟩, hholds⟩
  · have hocc := occupied_set (some (k, v)) hi hs
    exact h.size_eq.trans (Nat.add_right_cancel hocc).symm
  · simpa [capacity] using h.trigger_eq
  · simpa [capacity] using h.capacity_pos

/-- `set_value` on a key that is there, at the slot it is in. -/
theorem setValue_at (h : Inv hash ht) {v₀} (v : V) {i} (hi : i < ht.capacity)
    (hs : ht.elt i = some (k, v₀)) : ht.setValue hash k v =
      some (.success, { ht with table := ht.table.set i (some (k, v)) }) := by
  have hprobe : ht.probe hash k = some i := find_of_slot h.chained hi hs
  simp [setValue, hprobe, hs]

/-- **`set_value` is insertion.** -/
theorem setValue_spec (h : Refines hash ht m) (k : K) (v : V) :
    ∃ ht', ht.setValue hash k v = some (.success, ht') ∧ Refines hash ht' (m.insert k v) := by
  obtain ⟨i, hi, hprobe, ⟨v₀, -, hs⟩ | ⟨hl, hs, hpath⟩⟩ := h.probe_spec k
  · exact ⟨_, setValue_at h.toInv v hi hs, setValue_existing h v hi hs⟩
  · -- a new entry: fill the free slot, then grow if the trigger is reached
    obtain ⟨hc, hholds⟩ := h.set v hi hpath (.of_free hs ((h.lookup_none_iff k).mp hl))
    have hsize : ht.size + 1 = occupied (ht.table.set i (some (k, v))) := by
      rw [h.size_eq]
      exact (occupied_set (some (k, v)) hi hs).symm
    have hlen : (ht.table.set i (some (k, v))).length = ht.capacity := length_set
    have htrig := h.trigger_eq
    have hroom := h.room
    have hpos := h.capacity_pos
    have hhalf : 2 * (ht.size + 1) ≤ (ht.table.set i (some (k, v))).length + 1 := by omega
    by_cases hgrow : ht.growthTrigger ≤ ht.size + 1
    · obtain ⟨ht', hg, hinv', hholds'⟩ := @grow_spec _ _ hash
        { ht with table := ht.table.set i (some (k, v)), size := ht.size + 1 } hc hsize hhalf
        h.numer_eq h.denom_eq h.growth_eq h.growth_denom_eq
      refine ⟨ht', by simp [setValue, hprobe, hs, hgrow, hg], hinv', ?_⟩
      intro k' v'
      rw [hholds']
      exact hholds k' v'
    · refine ⟨{ ht with table := ht.table.set i (some (k, v)), size := ht.size + 1 },
        by simp [setValue, hprobe, hs, hgrow], ⟨hc, hsize, ?_, h.numer_eq, h.denom_eq,
          h.growth_eq, h.growth_denom_eq, ?_, .inl (not_le.mp hgrow)⟩, hholds⟩
      · simpa [capacity] using htrig
      · simpa [capacity] using hpos

end Set

/-! ## 5. Removal -/

section Remove

variable {n i₀ e : ℕ}

theorem slots_move {t a b} (x : K × V) (ha : a < t.length) (hb : b < t.length) :
    slots ((t.set a (some x)).set b none) = move (slots t) a b x := by
  rw [slots_set _ _ (by simpa using hb), slots_set _ _ ha, move]

/-- **The rule of the repair loop.**  The loop returns, with the hole at the end of the run; and
a property of (array, offset of the hole) that holds after a follower has dropped into the hole
holds at the end. -/
theorem rehashFollowers_rule (P : List (Option (K × V)) → ℕ → Prop)
    (hdrop : ∀ t p g x, t.length = n → Probe.Hole hash n (slots t) i₀ e p g → p < e → P t g →
      slots t ((i₀ + p) % n) = some x → Probe.Crosses hash n x.1 ((i₀ + p) % n) ((i₀ + g) % n) →
      P ((t.set ((i₀ + g) % n) (some x)).set ((i₀ + p) % n) none) p) :
    ∀ fuel t p g ii, t.length = n →
      Probe.Hole hash n (slots t) i₀ e p g → P t g → e - p < fuel → ii ≤ n → ii % n = (i₀ + p) % n →
      ∃ t' g', rehashFollowers hash fuel t ii = some t' ∧ t'.length = n ∧
        Probe.Hole hash n (slots t') i₀ e e g' ∧ P t' g'
  | 0, _, _, _, _, _, _, _, hfuel, _, _ => absurd hfuel (by omega)
  | fuel + 1, t, p, g, ii, hlen, hhole, hP, hfuel, hii, hmod => by
    have hpe := hhole.visit_le
    have hen := hhole.run_lt
    have hn : 0 < n := by omega
    have hnext : (i₀ + p) % n + 1 ≤ n := Nat.mod_lt _ hn
    have hnextmod : ((i₀ + p) % n + 1) % n = (i₀ + (p + 1)) % n := by
      rw [Nat.mod_add_mod, Nat.add_assoc]
    rw [rehashFollowers]
    simp only [hlen, wrap_eq_mod hii, hmod]
    cases hs : slots t ((i₀ + p) % n) with
    | none =>
      have hp : p = e := hhole.visit_none_iff.mp hs
      subst hp
      exact ⟨t, g, rfl, hlen, hhole, hP⟩
    | some x =>
      obtain ⟨k, v⟩ := x
      have hpe' : p < e := by
        have hne : p ≠ e := fun heq => by
          rw [hhole.visit_none_iff.mpr heq] at hs
          cases hs
        omega
      obtain ⟨jj, hscan, ⟨hjj, hhole'⟩ | ⟨hjj, hjg, hcross, hhole'⟩⟩ := hhole.advance hpe' hs
      · simp only [hscan, Option.bind_some, hjj, if_true]
        exact rehashFollowers_rule P hdrop fuel t (p + 1) g _ hlen hhole' hP (by omega) hnext
          hnextmod
      · have ha : (i₀ + g) % n < t.length := by rw [hlen]; exact Nat.mod_lt _ hn
        have hb : (i₀ + p) % n < t.length := by rw [hlen]; exact Nat.mod_lt _ hn
        subst hjg
        simp only [hscan, Option.bind_some, if_neg hjj]
        rw [← slots_move (k, v) ha hb] at hhole'
        exact rehashFollowers_rule P hdrop fuel _ (p + 1) p _ (by simp [hlen]) hhole'
          (hdrop t p g (k, v) hlen hhole hpe' hP hs hcross) (by omega) hnext hnextmod

/-- Dropping a follower into the hole changes neither the number of elements nor the bindings. -/
theorem drop_keeps {t p g} {x : K × V} (hlen : t.length = n)
    (hhole : Probe.Hole hash n (slots t) i₀ e p g) (hpe : p < e)
    (hs : slots t ((i₀ + p) % n) = some x) :
    occupied ((t.set ((i₀ + g) % n) (some x)).set ((i₀ + p) % n) none) = occupied t ∧
    ∀ k v, Probe.Holds n (slots ((t.set ((i₀ + g) % n) (some x)).set ((i₀ + p) % n) none)) k v ↔
      Probe.Holds n (slots t) k v := by
  have hgp := hhole.hole_lt
  have hen := hhole.run_lt
  have hn : 0 < n := by omega
  have hg : (i₀ + g) % n < n := Nat.mod_lt _ hn
  have hp : (i₀ + p) % n < n := Nat.mod_lt _ hn
  have hne : (i₀ + p) % n ≠ (i₀ + g) % n := by
    intro heq
    have := offset_inj (by omega) (by omega) heq
    omega
  constructor
  · have h1 := occupied_set (some x) (hlen ▸ hg) hhole.hole
    have hs' : slots (t.set ((i₀ + g) % n) (some x)) ((i₀ + p) % n) = some x := by
      rw [slots_set _ _ (hlen ▸ hg), Function.update_of_ne hne, hs]
    have h2 := occupied_set none (by simpa [hlen] using hp) hs'
    omega
  · intro k v
    rw [slots_move x (hlen ▸ hg) (hlen ▸ hp)]
    exact holds_move hg hp hs hhole.hole k v

variable {i : ℕ} {k : K} {v : V}

section At

variable (h : Inv hash ht) (hi : i < ht.capacity) (hs : ht.elt i = some (k, v))

include h hi hs

/-- **The rule of a removal**: a property of (array, offset of the hole) that holds when the element
is gone, and that followers keep, holds at the end, and the chains are whole. -/
theorem removeEltAt_rule (P : List (Option (K × V)) → ℕ → Prop) (hstart : P (ht.table.set i none) 0)
    (hdrop : ∀ e t p g x, t.length = ht.capacity →
      Probe.Hole hash ht.capacity (slots t) i e p g → p < e → P t g →
      slots t ((i + p) % ht.capacity) = some x →
      Probe.Crosses hash ht.capacity x.1 ((i + p) % ht.capacity) ((i + g) % ht.capacity) →
      P ((t.set ((i + g) % ht.capacity) (some x)).set ((i + p) % ht.capacity) none) p) :
    ∃ t' g', ht.removeEltAt hash i = some (.success, { ht with table := t', size := ht.size - 1 }) ∧
      t'.length = ht.capacity ∧ Probe.Chained hash t'.length (slots t') ∧ P t' g' := by
  obtain ⟨f, hf, hfree⟩ := h.exists_free
  obtain ⟨e, hhole⟩ := Probe.Hole.start h.chained hi hs hf hfree
  have hen := hhole.run_lt
  rw [elt, ← slots_set _ _ hi] at hhole
  obtain ⟨t', g', hrun, hlen', hhole', hP⟩ := rehashFollowers_rule P (hdrop e) ht.capacity
    (ht.table.set i none) 1 0 (i + 1) (by simp [capacity]) hhole hstart (by omega) hi rfl
  refine ⟨t', g', ?_, hlen', hlen' ▸ hhole'.finish, hP⟩
  simp only [removeEltAt, hs, hrun, Option.map_some]

/-- **Removing the element at a slot** repairs the chains of its followers: the table stays in
order and loses exactly that binding. -/
theorem removeEltAt_spec : ∃ ht', ht.removeEltAt hash i = some (.success, ht') ∧ Inv hash ht' ∧
      ht'.capacity = ht.capacity ∧ ∀ k' v', Probe.Holds ht'.capacity ht'.elt k' v' ↔
        (k' ≠ k ∧ Probe.Holds ht.capacity ht.elt k' v') := by
  obtain ⟨t', g', hrun, hlen', hc', hkeep⟩ := removeEltAt_rule h hi hs
    (fun t _ => occupied t = occupied (ht.table.set i none) ∧
      ∀ k v, Probe.Holds ht.capacity (slots t) k v ↔
        Probe.Holds ht.capacity (slots (ht.table.set i none)) k v)
    ⟨rfl, fun _ _ => Iff.rfl⟩
    (fun e t p g x hlen hhole hpe hP hs _ => by
      obtain ⟨h1, h2⟩ := drop_keeps hlen hhole hpe hs
      exact ⟨h1.trans hP.1, fun k v => (h2 k v).trans (hP.2 k v)⟩)
  have hocc : occupied (ht.table.set i none) + 1 = occupied ht.table := occupied_set none hi hs
  have hsize := h.size_eq
  have hroom := h.room
  refine ⟨_, hrun, ⟨hc', ?_, ?_, h.numer_eq, h.denom_eq, h.growth_eq, h.growth_denom_eq, ?_, ?_⟩,
    hlen', fun k' v' => ?_⟩
  · show ht.size - 1 = occupied t'
    omega
  · exact h.trigger_eq.trans (congrArg (· / 2) hlen'.symm)
  · exact h.capacity_pos.trans_eq hlen'.symm
  · show ht.size - 1 < ht.growthTrigger ∨ ht.size - 1 = 0
    omega
  · show Probe.Holds t'.length (slots t') k' v' ↔ _
    rw [hlen', hkeep.2, slots_set _ _ hi]
    refine ((h.chained.spot hi hs).holds_update hi none k' v').trans ?_
    simp

/-- **The frame of a removal.**  When no chain from a LATER slot crosses the removed one, every
later slot keeps its element: only wrapped-around followers move, and they move among the slots
up to the removed one. -/
theorem removeEltAt_frame
    (hno : ∀ q x, i < q → ht.elt q = some x → ¬ Probe.Crosses hash ht.capacity x.1 q i) {ht' rc}
    (hrun : ht.removeEltAt hash i = some (rc, ht')) : ∀ q, i < q → ht'.elt q = ht.elt q := by
  have hn := h.capacity_pos
  -- the hole is at the removed slot, or it has wrapped around with the followers
  obtain ⟨t', g', hloop, -, -, hP⟩ := removeEltAt_rule h hi hs
    (fun t g => (g = 0 ∨ ht.capacity ≤ i + g) ∧ ∀ q, i < q → slots t q = ht.elt q)
    ⟨.inl rfl, fun q hq => by rw [slots_set _ _ hi, Function.update_of_ne (by omega)]; rfl⟩
    (fun e t p g x hlen hhole hpe hP hsx hcross => by
      obtain ⟨hg, hsame⟩ := hP
      have hgp := hhole.hole_lt
      have hen := hhole.run_lt
      have hg0 : (i + 0) % ht.capacity = i := by rw [Nat.add_zero, Nat.mod_eq_of_lt hi]
      have hwrap : ht.capacity ≤ i + p := by
        by_contra hlt
        have hp : (i + p) % ht.capacity = i + p := Nat.mod_eq_of_lt (by omega)
        have hgz : g = 0 := by omega
        rw [hp] at hsx hcross
        rw [hgz, hg0] at hcross
        exact hno (i + p) x (by omega) (by rw [← hsame _ (by omega), hsx]) hcross
      have hpm : (i + p) % ht.capacity = i + p - ht.capacity := by
        rw [Nat.mod_eq_sub_mod hwrap, Nat.mod_eq_of_lt (by omega)]
      have hgm : (i + g) % ht.capacity ≤ i := by
        rcases hg with rfl | hg
        · rw [hg0]
        · rw [Nat.mod_eq_sub_mod hg, Nat.mod_eq_of_lt (by omega)]
          omega
      have hlt : ∀ a, a % ht.capacity < t.length := fun a => by
        rw [hlen]
        exact Nat.mod_lt _ hn
      refine ⟨.inr hwrap, ?_⟩
      intro q hq
      rw [slots_move x (hlt _) (hlt _), move_of_ne _ _ (by omega) (by omega)]
      exact hsame q hq)
  rw [hloop] at hrun
  cases hrun
  exact hP.2

end At

variable [DecidableEq K] {m : Finmap fun _ : K => V}

/-- `remove_value` on a key that is there, at the slot it is in. -/
theorem removeValue_at (h : Inv hash ht) (hi : i < ht.capacity)
    (hs : ht.elt i = some (k, v)) : ht.removeValue hash k = ht.removeEltAt hash i := by
  have hprobe : ht.probe hash k = some i := find_of_slot h.chained hi hs
  simp [removeValue, hprobe, hs]

theorem lookup_erase_iff (k k' : K) (v' : V) :
    (m.erase k).lookup k' = some v' ↔ k' ≠ k ∧ m.lookup k' = some v' := by
  by_cases hk : k' = k
  · subst hk
    simp [Finmap.lookup_erase]
  · simp [Finmap.lookup_erase_ne hk, hk]

/-- **`remove_value` is erasure**, `NOT_FOUND` when there is nothing to erase. -/
theorem removeValue_spec (h : Refines hash ht m) (k : K) : ∃ ht', ht.removeValue hash k =
        some (if (m.lookup k).isSome then .success else .errNotFound, ht') ∧
      Refines hash ht' (m.erase k) := by
  obtain ⟨i, hi, hprobe, ⟨v, hl, hs⟩ | ⟨hl, hs, -⟩⟩ := h.probe_spec k
  · obtain ⟨ht', hrem, hinv', -, hholds'⟩ := removeEltAt_spec h.toInv hi hs
    refine ⟨ht', by rw [removeValue_at h.toInv hi hs, hrem, hl]; rfl, hinv', ?_⟩
    intro k' v'
    rw [hholds', lookup_erase_iff, h.lookup_iff]
  · refine ⟨ht, by simp [removeValue, hprobe, hs, hl], h.toInv, ?_⟩
    intro k' v'
    rw [lookup_erase_iff, h.lookup_iff]
    refine and_iff_right_of_imp ?_
    rintro hold rfl
    exact (h.lookup_none_iff k').mp hl v' hold

/-- **`remove_all` empties the map.** -/
theorem removeAll_spec (h : Refines hash ht m) :
    ht.removeAll.1 = .success ∧ Refines hash ht.removeAll.2 ∅ := by
  refine ⟨rfl, ⟨chained_replicate hash _ _, (occupied_replicate _).symm, ?_, h.numer_eq,
    h.denom_eq, h.growth_eq, h.growth_denom_eq, ?_, .inr rfl⟩, ?_⟩
  · simpa [HashTable.removeAll, HashTable.capacity] using h.trigger_eq
  · simpa [HashTable.removeAll, HashTable.capacity] using h.capacity_pos
  · intro k v
    simp [HashTable.removeAll, HashTable.elt, slots_replicate, Probe.Holds]

/-- **`opal_hash_table_init` gives the empty map**, for every size. -/
theorem init_spec (hash : K → ℕ) (tableSize : ℕ) :
    Refines hash (init tableSize : HashTable K V) ∅ := by
  refine ⟨⟨chained_replicate hash _ _, (occupied_replicate _).symm, ?_, rfl, rfl, rfl, rfl, ?_,
    .inr rfl⟩, ?_⟩
  · simp [init, init2, capacity]
  · simp [init, init2, capacity, roundCapacityUp]
  · intro k v
    simp [init, init2, elt, slots_replicate, Probe.Holds]

end Remove

/-! ## 6. Traversal -/

theorem entries_drop_none {a} (h : ∀ j, a ≤ j → j < t.length → slots t j = none) :
    entries (t.drop a) = [] := by
  rw [entries, filterMap_eq_nil_iff]
  intro x hx
  obtain ⟨j, hj, rfl⟩ := mem_iff_getElem.mp hx
  rw [length_drop] at hj
  rw [getElem_drop, ← slots_eq_getElem t (by omega)]
  exact h _ (by omega) (by omega)

/-- Skipping free slots does not change the elements that are left. -/
theorem entries_drop_skip (t : List (Option (K × V))) (i : ℕ) (hi : i < t.length) :
    ∀ a ≤ i, (∀ j, a ≤ j → j < i → slots t j = none) → entries (t.drop a) = entries (t.drop i) := by
  intro a hai
  induction hai using Nat.decreasingInduction with
  | self => intro _; rfl
  | of_succ a ha ih =>
    intro hfree
    rw [← ih (fun j hj hji => hfree j (by omega) hji)]
    have ha' : a < t.length := by omega
    rw [drop_eq_getElem_cons ha', ← slots_eq_getElem t ha', hfree a (Nat.le_refl a) ha]
    simp [entries]

/-- What `get_next_key` returns: the first valid element from its start, or `OPAL_ERROR` when
there is none. -/
theorem getNextKey_spec (ht : HashTable K V) (node : Option ℕ) :
    (ht.getNextKey node = .error .error ∧
      ∀ j, startOf node ≤ j → j < ht.capacity → ht.elt j = none) ∨
    (∃ x i, ht.getNextKey node = .ok (x, i) ∧ startOf node ≤ i ∧ i < ht.capacity ∧
      ht.elt i = some x ∧ ∀ j, startOf node ≤ j → j < i → ht.elt j = none) := by
  unfold getNextKey getNextElt
  simp only
  cases hf : (List.range' (startOf node) (ht.capacity - startOf node)).find?
      fun ii => (ht.elt ii).isSome with
  | none =>
    left
    refine ⟨rfl, ?_⟩
    intro j hj hjc
    rw [find?_eq_none] at hf
    have := hf j (by rw [mem_range'_1]; omega)
    simpa using this
  | some i =>
    right
    rw [find?_range'_eq_some] at hf
    obtain ⟨hsome, hmem, hbefore⟩ := hf
    rw [mem_range'_1] at hmem
    obtain ⟨x, hx⟩ := Option.isSome_iff_exists.mp hsome
    refine ⟨x, i, by simp [hx], hmem.1, by omega, hx, ?_⟩
    intro j hj hji
    simpa using hbefore j hj hji

/-- **A walk with `get_next_key`**: a loop that visits what each call returns, until one fails, is a
recursion over the elements in slot order. -/
theorem walk_spec {α : Type} (ht : HashTable K V) (walk : ℕ → Option ℕ → α) (f : List (K × V) → α)
    (hend : ∀ fuel node rc, ht.getNextKey node = .error rc → walk (fuel + 1) node = f [])
    (hstep : ∀ fuel node e i es, ht.getNextKey node = .ok (e, i) → walk fuel (some i) = f es →
      walk (fuel + 1) node = f (e :: es)) : walk (ht.capacity + 1) none = f (entries ht.table) := by
  have hfrom : ∀ (fuel : ℕ) (node : Option ℕ), startOf node ≤ ht.capacity →
      ht.capacity < fuel + startOf node →
      walk fuel node = f (entries (ht.table.drop (startOf node))) := by
    intro fuel
    induction fuel with
    | zero =>
      intro node hstart hfuel
      omega
    | succ fuel ih =>
      intro node hstart hfuel
      rcases getNextKey_spec ht node with ⟨hnone, hfree⟩ | ⟨x, i, hnext, hle, hi, hx, hfree⟩
      · rw [hend fuel node _ hnone, entries_drop_none hfree]
      · have hrest := ih (some i) hi (by simp only [startOf]; omega)
        rw [elt] at hx
        rw [hstep fuel node x i _ hnext hrest, entries_drop_skip ht.table i hi _ hle hfree,
          drop_eq_getElem_cons hi, ← slots_eq_getElem ht.table hi, hx]
        rfl
  exact hfrom _ none (Nat.zero_le _) (Nat.lt_succ_self _)

theorem traverse_eq (ht : HashTable K V) : ht.traverse = some (entries ht.table) := by
  refine walk_spec ht (fun fuel node => ht.traverseFrom fuel (ht.getNextKey node)) some ?_ ?_
  · intro fuel node rc hend
    simp only [hend, traverseFrom]
  · intro fuel node e i es hnext hrest
    simp only [hnext, traverseFrom, hrest, Option.map_some]

/-- **A traversal visits each binding exactly once.** -/
theorem traverse_spec [DecidableEq K] {m} (h : Refines hash ht m) :
    ∃ visited, ht.traverse = some visited ∧ (visited.map Prod.fst).Nodup ∧
      ∀ k v, (k, v) ∈ visited ↔ m.lookup k = some v := by
  refine ⟨entries ht.table, traverse_eq ht, nodup_keys_entries h.chained, ?_⟩
  intro k v
  rw [h.lookup_iff]
  exact holds_iff_mem_entries.symm

/-! ## 7. Sequences of operations -/

/-- One call of the interface. -/
inductive Op (K V : Type) where
  | get (key : K)
  | set (key : K) (value : V)
  | remove (key : K)
  | removeAll

/-- What a call returns: the value a `get` found, or a return code. -/
inductive Reply (V : Type) where
  | value (v : V)
  | code (rc : Rc)

/-- The reply to a `get`. -/
def Reply.ofGet {V : Type} : Except Rc V → Reply V
  | .ok v => .value v
  | .error rc => .code rc

section Run

variable [DecidableEq K]

/-- One call on the table.  `none` stands for a call that does not return. -/
def apply (hash : K → ℕ) (ht : HashTable K V) : Op K V → Option (Reply V × HashTable K V)
  | .get key => (ht.getValue hash key).map fun r => (.ofGet r, ht)
  | .set key value => (ht.setValue hash key value).map fun r => (.code r.1, r.2)
  | .remove key => (ht.removeValue hash key).map fun r => (.code r.1, r.2)
  | .removeAll => some (.code ht.removeAll.1, ht.removeAll.2)

/-- A sequence of calls and its replies. -/
def run (hash : K → ℕ) : HashTable K V → List (Op K V) → Option (List (Reply V) × HashTable K V)
  | ht, [] => some ([], ht)
  | ht, op :: ops =>
    (apply hash ht op).bind fun r => (run hash r.2 ops).map fun rs => (r.1 :: rs.1, rs.2)

/-- The same call on the abstract map. -/
def mapApply (m : Finmap fun _ : K => V) : Op K V → Reply V × Finmap fun _ : K => V
  | .get key => ((m.lookup key).elim (.code .errNotFound) .value, m)
  | .set key value => (.code .success, m.insert key value)
  | .remove key => (.code (if (m.lookup key).isSome then .success else .errNotFound), m.erase key)
  | .removeAll => (.code .success, ∅)

/-- The same sequence on the abstract map. -/
def mapRun : (Finmap fun _ : K => V) → List (Op K V) → List (Reply V) × Finmap fun _ : K => V
  | m, [] => ([], m)
  | m, op :: ops =>
    let r := mapApply m op
    let rs := mapRun r.2 ops
    (r.1 :: rs.1, rs.2)

variable {m : Finmap fun _ : K => V}

/-- **One call is one map operation.** -/
theorem apply_refines (h : Refines hash ht m) (op : Op K V) :
    ∃ ht', apply hash ht op = some ((mapApply m op).1, ht') ∧
      Refines hash ht' (mapApply m op).2 := by
  cases op with
  | get key =>
    refine ⟨ht, ?_, h⟩
    cases hl : m.lookup key <;> simp [apply, mapApply, getValue_spec h, hl, Reply.ofGet]
  | set key value =>
    obtain ⟨ht', hset, h'⟩ := setValue_spec h key value
    exact ⟨ht', by simp [apply, mapApply, hset], h'⟩
  | remove key =>
    obtain ⟨ht', hrem, h'⟩ := removeValue_spec h key
    exact ⟨ht', by simp [apply, mapApply, hrem], h'⟩
  | removeAll =>
    obtain ⟨hrc, h'⟩ := removeAll_spec h
    exact ⟨ht.removeAll.2, by simp [apply, mapApply, hrc], h'⟩

/-- **A sequence of calls is the sequence of map operations.** -/
theorem run_refines : ∀ ops {ht} {m : Finmap fun _ : K => V},
    Refines hash ht m → ∃ ht', run hash ht ops = some ((mapRun m ops).1, ht') ∧
      Refines hash ht' (mapRun m ops).2
  | [], ht, _, h => ⟨ht, rfl, h⟩
  | op :: ops, _, _, h => by
    obtain ⟨ht₁, hap, h₁⟩ := apply_refines h op
    obtain ⟨ht', hrun, h'⟩ := run_refines ops h₁
    exact ⟨ht', by simp [run, mapRun, hap, hrun], h'⟩

end Run

/-- **`opal_hash_table_t` with pointer keys is a finite map.**  From `opal_hash_table_init` with
any size, any sequence of calls returns, with the replies of the map; afterwards `ht_size` is the
number of keys, a slot is free, and a traversal visits each present key exactly once, with its
value. -/
theorem hashTablePtr_refines_map (tableSize : ℕ) (ops : List (Op (List UInt8) V)) :
    ∃ ht : HashTable (List UInt8) V,
      run hashKeyPtr (HashTable.init tableSize) ops = some ((mapRun ∅ ops).1, ht) ∧
      ht.getSize = (mapRun ∅ ops).2.keys.card ∧ (∃ i < ht.capacity, ht.elt i = none) ∧
      ∃ visited, ht.traverse = some visited ∧ (visited.map Prod.fst).Nodup ∧
        ∀ k v, (k, v) ∈ visited ↔ (mapRun ∅ ops).2.lookup k = some v := by
  obtain ⟨ht, hrun, h⟩ := run_refines ops (init_spec (V := V) hashKeyPtr tableSize)
  exact ⟨ht, hrun, h.size_eq_card, h.toInv.exists_free, traverse_spec h⟩

end Sensys.Opal
