/-
# Linear probing in a cyclic array

An open-addressing table keeps its entries in one array and resolves a collision by walking
forward, wrapping at the end, until it meets the key or a free slot.  Everything such a table
does is one search loop (`scan`) with different stopping rules, and everything that can go
wrong with it is a free slot in the wrong place.  This file develops the two facts a proof
about such a table needs, over arbitrary keys, values and hash functions:

* **the chain invariant** (`Chained`): every slot between a key's home and its place is
  occupied, and no key has two places.  Under it the search finds exactly the keys that are
  there (`find_of_slot`, `find_of_absent`), and filling the slot the search stopped at keeps
  it (`Chained.insert`);
* **the travelling hole** (`Hole`): deleting an entry and re-inserting its followers one by
  one keeps a SINGLE gap in the run of occupied slots behind the deleted one.  Each follower
  either does not need the gap, or drops into it and leaves the gap where it came from
  (`Hole.advance`); when the run ends the chain invariant is back (`Hole.finish`).

The array is a function from indices; only the indices below `n` are looked at.
-/
import Mathlib.Logic.Function.Basic
import Mathlib.Order.Basic
import Mathlib.Data.Nat.ModEq
import Mathlib.Data.Nat.Find
import Mathlib.Tactic.Common

namespace Sensys.Probe

open Option Function

/-! ## 1. The search loop -/

/-- The loop `for (ii = start; ; ii += 1) { if (ii == n) ii = 0; .. }`, left at the first
index at which `stop` holds.  `none` means that `fuel` rounds did not reach one. -/
def scan (n : ℕ) (stop : ℕ → Bool) : ℕ → ℕ → Option ℕ
  | 0, _ => none
  | fuel + 1, ii =>
    let ii := if ii = n then 0 else ii
    if stop ii then some ii else scan n stop fuel (ii + 1)

variable {n : ℕ}

theorem wrap_eq_mod {ii} (hii : ii ≤ n) : (if ii = n then 0 else ii) = ii % n := by
  split
  · rename_i h; rw [h, Nat.mod_self]
  · rename_i h; rw [Nat.mod_eq_of_lt (by omega)]

/-- The loop stops `d` steps after its start when that is the first stopping index. -/
theorem scan_eq_some {stop} (hn : 0 < n) :
    ∀ d fuel ii, ii ≤ n → d < fuel → (∀ t < d, stop ((ii + t) % n) = false) →
      stop ((ii + d) % n) = true → scan n stop fuel ii = some ((ii + d) % n)
  | _, 0, _, _, hd, _, _ => absurd hd (by omega)
  | 0, fuel + 1, ii, hii, _, _, hat => by
    simp only [scan, wrap_eq_mod hii]
    rw [if_pos (by simpa using hat)]
    rfl
  | d + 1, fuel + 1, ii, hii, hd, hbefore, hat => by
    simp only [scan, wrap_eq_mod hii]
    have h0 : stop (ii % n) = false := by simpa using hbefore 0 (by omega)
    have hlt : ii % n < n := Nat.mod_lt _ hn
    have hshift : ∀ t, (ii % n + 1 + t) % n = (ii + (t + 1)) % n := by
      intro t
      rw [Nat.add_assoc, Nat.mod_add_mod, Nat.add_comm 1 t]
    rw [if_neg (by simp [h0])]
    rw [scan_eq_some hn d fuel (ii % n + 1) (by omega) (by omega) ?_ ?_, hshift]
    · intro t ht
      rw [hshift]
      exact hbefore (t + 1) (by omega)
    · rw [hshift]
      exact hat

/-- From any start, one round of the array reaches every index. -/
theorem exists_offset (ii : ℕ) {e} (he : e < n) : ∃ d < n, (ii + d) % n = e := by
  have hn : 0 < n := by omega
  have hlt : ii % n < n := Nat.mod_lt _ hn
  refine ⟨(e + n - ii % n) % n, Nat.mod_lt _ hn, ?_⟩
  have hsum : ii % n + (e + n - ii % n) = e + n := by omega
  calc (ii + (e + n - ii % n) % n) % n
      = (ii % n + (e + n - ii % n) % n) % n := by rw [Nat.mod_add_mod]
    _ = (ii % n + (e + n - ii % n)) % n := by rw [Nat.add_mod_mod]
    _ = (e + n) % n := by rw [hsum]
    _ = e := by rw [Nat.add_mod_right, Nat.mod_eq_of_lt he]

/-- **A search with a stopping index in the array ends within one round**, at the first such
index. -/
theorem scan_total (stop : ℕ → Bool) (ii : ℕ) (hii : ii ≤ n) {e} (he : e < n)
    (hstop : stop e = true) :
    ∃ d < n, scan n stop n ii = some ((ii + d) % n) ∧ stop ((ii + d) % n) = true ∧
      ∀ t < d, stop ((ii + t) % n) = false := by
  obtain ⟨d₀, hd₀, hde⟩ := exists_offset ii he
  have hex : ∃ d, stop ((ii + d) % n) = true := ⟨d₀, by rw [hde]; exact hstop⟩
  have hle : Nat.find hex ≤ d₀ := Nat.find_min' hex (by rw [hde]; exact hstop)
  have hmin : ∀ t < Nat.find hex, stop ((ii + t) % n) = false := by
    intro t ht
    simpa using Nat.find_min hex ht
  exact ⟨Nat.find hex, by omega,
    scan_eq_some (by omega) _ n ii hii (by omega) hmin (Nat.find_spec hex),
    Nat.find_spec hex, hmin⟩

/-- The loop from the home slot of a hash. -/
theorem scan_home {stop h d} (hd : d < n) (hbefore : ∀ t < d, stop ((h + t) % n) = false)
    (hat : stop ((h + d) % n) = true) : scan n stop n (h % n) = some ((h + d) % n) := by
  have hn : 0 < n := by omega
  have hhome : ∀ t, (h % n + t) % n = (h + t) % n := fun t => Nat.mod_add_mod _ _ _
  rw [scan_eq_some hn d n _ (Nat.le_of_lt (Nat.mod_lt _ hn)) hd, hhome]
  · simpa only [hhome] using hbefore
  · rwa [hhome]

/-- Two offsets below `n` that lead to the same index are equal. -/
theorem offset_inj {h a b} (ha : a < n) (hb : b < n) (hab : (h + a) % n = (h + b) % n) : a = b := by
  have h1 : a ≡ b [MOD n] := Nat.ModEq.add_left_cancel' h hab
  exact Nat.ModEq.eq_of_lt_of_lt h1 ha hb

/-! ## 2. The chain invariant -/

/-- The array: a free slot is `none`. -/
abbrev Slots (K V : Type) := ℕ → Option (K × V)

section Chain

variable {K V : Type} (hash : K → ℕ) (n : ℕ)

/-- `i` is reached from the home slot of `k` over occupied slots only. -/
def Path (s : Slots K V) (k : K) (i : ℕ) : Prop :=
  ∃ d < n, i = (hash k + d) % n ∧ ∀ t < d, (s ((hash k + t) % n)).isSome

/-- **The chain invariant**: every entry is reachable from its home, and no key is stored
twice. -/
structure Chained (s : Slots K V) : Prop where
  path : ∀ i k v, i < n → s i = some (k, v) → Path hash n s k i
  inj : ∀ i j k v w, i < n → j < n → s i = some (k, v) → s j = some (k, w) → i = j

/-- The chain of a key `k` stored at `i` passes over the slot `j`. -/
def Crosses (k : K) (i j : ℕ) : Prop :=
  ∃ d < n, i = (hash k + d) % n ∧ ∃ t < d, (hash k + t) % n = j

/-- The table holds the binding `k ↦ v`. -/
def Holds (s : Slots K V) (k : K) (v : V) : Prop := ∃ i < n, s i = some (k, v)

/-- The slot `i` is free or has the key `k`, which is at no other place. -/
structure Spot (s : Slots K V) (k : K) (i : ℕ) : Prop where
  slot : ∀ e, s i = some e → e.1 = k
  only : ∀ j v, j < n → s j = some (k, v) → j = i

/-- The rule of every key search: stop at a free slot or at the key. -/
def stopsAt [DecidableEq K] (s : Slots K V) (k : K) (i : ℕ) : Bool :=
  match s i with
  | none => true
  | some e => decide (e.1 = k)

variable {hash n}

variable {s : Slots K V} {k : K} {i : ℕ}

theorem update_eq_some {x j e} (h : update s i x j = some e) :
    j = i ∧ x = some e ∨ j ≠ i ∧ s j = some e := by
  by_cases hji : j = i
  · subst hji
    rw [update_self] at h
    exact .inl ⟨rfl, h⟩
  · rw [update_of_ne hji] at h
    exact .inr ⟨hji, h⟩

theorem Spot.of_free (hfree : s i = none) (habs : ∀ v, ¬ Holds n s k v) : Spot n s k i :=
  ⟨by simp [hfree], fun j v hj hs => absurd ⟨j, hj, hs⟩ (habs v)⟩

theorem Chained.spot (h : Chained hash n s) {v} (hi : i < n) (hs : s i = some (k, v)) :
    Spot n s k i :=
  ⟨by simp [hs], fun j w hj hsj => h.inj j i k w v hj hi hsj hs⟩

/-- **What replacing the slot of a key does to the bindings.** -/
theorem Spot.holds_update (h : Spot n s k i) (hi : i < n) (x : Option (K × V)) (k' : K) (v' : V) :
    Holds n (update s i x) k' v' ↔ x = some (k', v') ∨ k' ≠ k ∧ Holds n s k' v' := by
  constructor
  · rintro ⟨j, hj, hs⟩
    obtain ⟨-, hx⟩ | ⟨hji, hs⟩ := update_eq_some hs
    · exact .inl hx
    · refine .inr ⟨?_, j, hj, hs⟩
      rintro rfl
      exact hji (h.only j v' hj hs)
  · rintro (rfl | ⟨hk, j, hj, hs⟩)
    · exact ⟨i, hi, update_self ..⟩
    · have hji : j ≠ i := by
        rintro rfl
        exact hk (h.slot _ hs)
      exact ⟨j, hj, by rw [update_of_ne hji, hs]⟩

theorem Path.mono {s' : Slots K V} (h : Path hash n s k i)
    (hs : ∀ j, (s j).isSome → (s' j).isSome) : Path hash n s' k i := by
  obtain ⟨d, hd, hi, hp⟩ := h
  exact ⟨d, hd, hi, fun t ht => hs _ (hp t ht)⟩

/-- **A stored key is found where it is stored.** -/
theorem find_of_slot [DecidableEq K] (h : Chained hash n s) {v} (hi : i < n)
    (hs : s i = some (k, v)) : scan n (stopsAt s k) n (hash k % n) = some i := by
  obtain ⟨d, hd, rfl, hp⟩ := h.path i k v hi hs
  refine scan_home hd (fun t ht => ?_) (by simp [stopsAt, hs])
  obtain ⟨⟨k', v'⟩, he⟩ := isSome_iff_exists.mp (hp t ht)
  -- a slot passed over cannot hold `k`: its place is `d` steps away, not `t`
  have hne : k' ≠ k := by
    rintro rfl
    have hsame := h.inj _ _ k' v' v (Nat.mod_lt _ (by omega)) hi he hs
    have := offset_inj (by omega) hd hsame
    omega
  simp [stopsAt, he, hne]

/-- **An absent key ends the search at a free slot** that is reachable from the key's home. -/
theorem find_of_absent [DecidableEq K] (habs : ∀ v, ¬ Holds n s k v) {e} (he : e < n)
    (hfree : s e = none) :
    ∃ i < n, scan n (stopsAt s k) n (hash k % n) = some i ∧ s i = none ∧ Path hash n s k i := by
  have hn : 0 < n := by omega
  obtain ⟨d, hd, hscan, hat, hbefore⟩ := scan_total (stopsAt s k) (hash k % n)
    (Nat.le_of_lt (Nat.mod_lt _ hn)) he (by simp [stopsAt, hfree])
  have hhome : ∀ t, (hash k % n + t) % n = (hash k + t) % n := fun t => Nat.mod_add_mod _ _ _
  refine ⟨(hash k % n + d) % n, Nat.mod_lt _ hn, hscan, ?_, d, hd, hhome d, ?_⟩
  · cases hsd : s ((hash k % n + d) % n) with
    | none => rfl
    | some kv =>
      obtain ⟨k', v'⟩ := kv
      simp only [stopsAt, hsd, decide_eq_true_eq] at hat
      subst hat
      exact absurd ⟨_, Nat.mod_lt _ hn, hsd⟩ (habs v')
  · intro t ht
    have hno := hbefore t ht
    cases hst : s ((hash k + t) % n) with
    | none => simp [stopsAt, hst] at hno
    | some kv => rfl

/-- **Setting the value of a key** at the slot a search stopped at keeps the chains. -/
theorem Chained.set (h : Chained hash n s) (v : V) (hp : Path hash n s k i)
    (hspot : Spot n s k i) : Chained hash n (update s i (some (k, v))) := by
  have hmono : ∀ j, (s j).isSome → (update s i (some (k, v)) j).isSome := by
    intro j hj
    by_cases hji : j = i
    · subst hji; simp
    · rw [update_of_ne hji]; exact hj
  constructor
  · intro j k' v' hj hs
    obtain ⟨rfl, hkey⟩ | ⟨-, hs⟩ := update_eq_some hs
    · cases hkey
      exact hp.mono hmono
    · exact (h.path j k' v' hj hs).mono hmono
  · intro a b k' x y ha hb hsa hsb
    obtain ⟨rfl, hkey⟩ | ⟨-, hsa'⟩ := update_eq_some hsa
    · cases hkey
      obtain ⟨rfl, -⟩ | ⟨-, hsb'⟩ := update_eq_some hsb
      · rfl
      · exact (hspot.only b y hb hsb').symm
    · obtain ⟨rfl, hkey⟩ | ⟨-, hsb'⟩ := update_eq_some hsb
      · cases hkey
        exact hspot.only a x ha hsa'
      · exact h.inj a b k' x y ha hb hsa' hsb'

/-- The empty array is chained. -/
theorem chained_empty : Chained hash n (fun _ => none : Slots K V) := by
  constructor
  · intro i k v _ h; simp at h
  · intro i j k v w _ _ h; simp at h

end Chain

/-! ## 3. The travelling hole

Deleting the entry at `i₀` can cut the chains of the entries behind it.  The repair walks the
run of occupied slots that follows `i₀` and searches each entry's place anew; the search of the
entry at offset `p` stops at its own slot or at a free one.  Offsets are counted from `i₀`. -/

section Hole

variable {K V : Type} (hash : K → ℕ) (n : ℕ)

/-- **The state of the repair at offset `p`.**  The run behind `i₀` ends at offset `e`, and its
only free slot is the hole at offset `g < p`.  Every chain is whole, except that a chain of an
entry NOT YET VISITED (offset at least `p`) may pass over the hole. -/
structure Hole (s : Slots K V) (i₀ e p g : ℕ) : Prop where
  hole_lt : g < p
  visit_le : p ≤ e
  run_lt : e < n
  hole : s ((i₀ + g) % n) = none
  full : ∀ q < e, q ≠ g → (s ((i₀ + q) % n)).isSome
  stop : s ((i₀ + e) % n) = none
  path : ∀ i k v, i < n → s i = some (k, v) →
    ∃ d < n, i = (hash k + d) % n ∧ ∀ t < d, (s ((hash k + t) % n)).isSome ∨
      ((hash k + t) % n = (i₀ + g) % n ∧ ∃ q, p ≤ q ∧ q < e ∧ i = (i₀ + q) % n)
  inj : ∀ i j k v w, i < n → j < n → s i = some (k, v) → s j = some (k, w) → i = j

/-- Where the re-insertion of the entry at `ii` stops: at its own slot or at a free one. -/
def settlesAt (s : Slots K V) (ii jj : ℕ) : Bool := decide (jj = ii) || (s jj).isNone

variable {hash n}

variable {s : Slots K V} {i₀ e p g a b j : ℕ} {k : K} {v : V}

/-- A chain over occupied slots that passes over the slot `a` ends before the next free one. -/
theorem chain_within {h d t r} (hocc : ∀ u < d, (s ((h + u) % n)).isSome)
    (hend : (s ((h + d) % n)).isSome) (ht : t ≤ d) (hta : (h + t) % n = a % n)
    (hfree : s ((a + r) % n) = none) : d - t < r ∧ (h + d) % n = (a + (d - t)) % n := by
  have hshift : ∀ u, (h + (t + u)) % n = (a + u) % n := by
    intro u
    rw [← Nat.add_assoc, ← Nat.mod_add_mod, hta, Nat.mod_add_mod]
  constructor
  · by_contra hge
    have hsome : (s ((h + (t + r)) % n)).isSome := by
      rcases Nat.lt_or_ge (t + r) d with hlt | hge'
      · exact hocc _ hlt
      · rwa [show t + r = d by omega]
    rw [hshift, hfree] at hsome
    cases hsome
  · rw [← hshift, Nat.add_sub_cancel' ht]

/-- **Deleting an entry opens the hole at offset `0`.** -/
theorem Hole.start (h : Chained hash n s) (hi₀ : i₀ < n) (hs : s i₀ = some (k, v)) {f} (hf : f < n)
    (hfree : s f = none) : ∃ e, Hole hash n (update s i₀ none) i₀ e 1 0 := by
  have hn : 0 < n := by omega
  -- the run ends at the first free slot behind `i₀`, and that slot is not `i₀`
  obtain ⟨e, he, _, hat, hbefore⟩ := scan_total (fun i => (s i).isNone) i₀
    (Nat.le_of_lt hi₀) hf (by simp [hfree])
  have hi₀m : (i₀ + 0) % n = i₀ := by rw [Nat.add_zero, Nat.mod_eq_of_lt hi₀]
  have he0 : e ≠ 0 := by
    rintro rfl
    rw [hi₀m, hs] at hat
    simp at hat
  have hne : ∀ q, q < n → q ≠ 0 → (i₀ + q) % n ≠ i₀ := by
    intro q hq hq0 heq
    exact hq0 (offset_inj hq hn (heq.trans hi₀m.symm))
  refine ⟨e, ?_⟩
  constructor
  · omega
  · omega
  · exact he
  · rw [hi₀m, update_self]
  · intro q hq hq0
    rw [update_of_ne (hne q (by omega) hq0)]
    simpa [isSome_iff_ne_none] using hbefore q hq
  · rw [update_of_ne (hne e he he0)]
    simpa using hat
  · intro i k' v' hi hsi
    obtain ⟨-, hnone⟩ | ⟨-, hsi⟩ := update_eq_some hsi
    · cases hnone
    obtain ⟨d, hd, hid, hp⟩ := h.path i k' v' hi hsi
    refine ⟨d, hd, hid, ?_⟩
    intro t ht
    by_cases hti : (hash k' + t) % n = i₀
    · -- the chain passes over `i₀`: then `i` lies in the run behind it
      have hend : (s ((hash k' + d) % n)).isSome := by rw [← hid, hsi]; rfl
      obtain ⟨hlt, hi'⟩ := chain_within hp hend ht.le
        (hti.trans (Nat.mod_eq_of_lt hi₀).symm) (isNone_iff_eq_none.mp hat)
      exact .inr ⟨hti.trans hi₀m.symm, d - t, by omega, hlt, hid.trans hi'⟩
    · left
      rw [update_of_ne hti]
      exact hp t ht
  · intro i j k' x y hi hj hsi hsj
    obtain ⟨-, hnone⟩ | ⟨-, hsi⟩ := update_eq_some hsi
    · cases hnone
    obtain ⟨-, hnone⟩ | ⟨-, hsj⟩ := update_eq_some hsj
    · cases hnone
    exact h.inj i j k' x y hi hj hsi hsj

/-- Moving the entry `x` from slot `b` to slot `a`. -/
def move (s : Slots K V) (a b : ℕ) (x : K × V) : Slots K V :=
  Function.update (Function.update s a (some x)) b none

variable (s)

theorem move_src (a b x) : move s a b x b = none :=
  update_self ..

variable (x : K × V)

theorem move_dst (hab : a ≠ b) : move s a b x a = some x := by
  rw [move, update_of_ne hab, update_self]

theorem move_of_ne (hja : j ≠ a) (hjb : j ≠ b) : move s a b x j = s j := by
  rw [move, update_of_ne hjb, update_of_ne hja]

theorem move_isSome (hjb : j ≠ b) (h : (s j).isSome) : (move s a b x j).isSome := by
  by_cases hja : j = a
  · subst hja; rw [move_dst s x hjb]; rfl
  · rw [move_of_ne s x hja hjb]; exact h

variable {s}

/-- What an occupied slot of the moved array was before the move. -/
theorem move_eq_some {x y} (h : move s a b x j = some y) :
    j ≠ b ∧ ((j = a ∧ y = x) ∨ (j ≠ a ∧ s j = some y)) := by
  obtain ⟨-, hnone⟩ | ⟨hjb, h⟩ := update_eq_some h
  · cases hnone
  · refine ⟨hjb, (update_eq_some h).imp_left fun ⟨hja, hx⟩ => ⟨hja, ?_⟩⟩
    exact (some.inj hx).symm

/-- The entry at offset `p` does not need the hole: it is where it belongs. -/
theorem Hole.stay (h : Hole hash n s i₀ e p g) (hpe : p < e) (hs : s ((i₀ + p) % n) = some (k, v))
    (hpath : Path hash n s k ((i₀ + p) % n)) : Hole hash n s i₀ e (p + 1) g := by
  have hgp := h.hole_lt
  refine ⟨by omega, by omega, h.run_lt, h.hole, h.full, h.stop, ?_, h.inj⟩
  intro i k' v' hi hsi
  by_cases hip : i = (i₀ + p) % n
  · subst hip
    rw [hs] at hsi
    obtain ⟨rfl, rfl⟩ := hsi
    obtain ⟨d, hd, hid, hocc⟩ := hpath
    exact ⟨d, hd, hid, fun t ht => .inl (hocc t ht)⟩
  · obtain ⟨d', hd', hid', hp'⟩ := h.path i k' v' hi hsi
    refine ⟨d', hd', hid', ?_⟩
    intro t ht
    rcases hp' t ht with hsm | ⟨heq, q, hq1, hq2, hq3⟩
    · exact .inl hsm
    · have hqp : q ≠ p := by
        rintro rfl
        exact hip hq3
      exact .inr ⟨heq, q, by omega, hq2, hq3⟩

/-- The entry at offset `p` drops into the hole and leaves it behind at `p`. -/
theorem Hole.drop (h : Hole hash n s i₀ e p g) (hpe : p < e) (hs : s ((i₀ + p) % n) = some (k, v))
    (hpath : Path hash n s k ((i₀ + g) % n)) (hown : ∀ d < n, (i₀ + g) % n = (hash k + d) % n →
      ∀ t < d, (hash k + t) % n ≠ (i₀ + p) % n) :
    Hole hash n (move s ((i₀ + g) % n) ((i₀ + p) % n) (k, v)) i₀ e (p + 1) p := by
  have hgp := h.hole_lt
  have hen := h.run_lt
  have hn : 0 < n := by omega
  have hoff : ∀ {a b : ℕ}, a < n → b < n → a ≠ b → (i₀ + a) % n ≠ (i₀ + b) % n :=
    fun ha hb hab heq => hab (offset_inj ha hb heq)
  have hgne : (i₀ + g) % n ≠ (i₀ + p) % n := hoff (by omega) (by omega) (by omega)
  refine ⟨by omega, by omega, hen, move_src .., ?_, ?_, ?_, ?_⟩
  · intro q hq hqp
    by_cases hqg : q = g
    · subst hqg; rw [move_dst s _ hgne]; rfl
    · exact move_isSome s _ (hoff (by omega) (by omega) hqp) (h.full q hq hqg)
  · rw [move_of_ne s _ (hoff hen (by omega) (by omega)) (hoff hen (by omega) (by omega))]
    exact h.stop
  · intro i k' v' hi hsi
    obtain ⟨hip, ⟨rfl, hx⟩ | ⟨hig, hsi'⟩⟩ := move_eq_some hsi
    · -- the entry that moved: its chain now ends at the old hole
      obtain ⟨rfl, rfl⟩ := hx
      obtain ⟨d, hd, hid, hocc⟩ := hpath
      exact ⟨d, hd, hid, fun t ht => .inl (move_isSome s _ (hown d hd hid t ht) (hocc t ht))⟩
    · -- any other entry: only a chain of the run can pass over the slot that was freed
      obtain ⟨d', hd', hid', hp'⟩ := h.path i k' v' hi hsi'
      refine ⟨d', hd', hid', ?_⟩
      intro t ht
      by_cases htp : (hash k' + t) % n = (i₀ + p) % n
      · right
        refine ⟨htp, ?_⟩
        by_cases hwhole : ∀ t < d', (s ((hash k' + t) % n)).isSome
        · -- the run ends at a free slot, which no whole chain crosses
          have hend : (s ((hash k' + d') % n)).isSome := by rw [← hid', hsi']; rfl
          have hstop : s ((i₀ + p + (e - p)) % n) = none := by
            rw [show i₀ + p + (e - p) = i₀ + e by omega]
            exact h.stop
          obtain ⟨hlt, hi'⟩ := chain_within hwhole hend ht.le htp hstop
          exact ⟨p + (d' - t), by omega, by omega, by rw [hid', hi', Nat.add_assoc]⟩
        · -- a chain through the hole belongs to an entry not yet visited
          obtain ⟨t', ht'⟩ := not_forall.mp hwhole
          obtain ⟨ht'd, hno⟩ := Classical.not_imp.mp ht'
          rcases hp' t' ht'd with hsm | ⟨-, q, hq1, hq2, hq3⟩
          · exact absurd hsm hno
          · have hqp : q ≠ p := by
              rintro rfl
              exact hip hq3
            exact ⟨q, by omega, hq2, hq3⟩
      · left
        rcases hp' t ht with hsm | ⟨heq, -⟩
        · exact move_isSome s _ htp hsm
        · rw [heq, move_dst s _ hgne]; rfl
  · intro i j k' x y hi hj hsi hsj
    obtain ⟨hip, ⟨hig, hx⟩ | ⟨-, hsi'⟩⟩ := move_eq_some hsi <;>
      obtain ⟨hjp, ⟨hjg, hy⟩ | ⟨-, hsj'⟩⟩ := move_eq_some hsj
    · rw [hig, hjg]
    · simp only [Prod.mk.injEq] at hx
      rw [← hx.1] at hs
      exact absurd (h.inj j _ k' y v hj (Nat.mod_lt _ hn) hsj' hs) hjp
    · simp only [Prod.mk.injEq] at hy
      rw [← hy.1] at hs
      exact absurd (h.inj i _ k' x v hi (Nat.mod_lt _ hn) hsi' hs) hip
    · exact h.inj i j k' x y hi hj hsi' hsj'

/-- **One follower.**  The search of the entry at offset `p` either comes back to its own slot,
and the hole stays; or its chain crosses the hole and it stops there, and after the move the
hole is at `p`. -/
theorem Hole.advance (h : Hole hash n s i₀ e p g) (hpe : p < e)
    (hs : s ((i₀ + p) % n) = some (k, v)) :
    ∃ jj, scan n (settlesAt s ((i₀ + p) % n)) n (hash k % n) = some jj ∧
      ((jj = (i₀ + p) % n ∧ Hole hash n s i₀ e (p + 1) g) ∨
       (jj ≠ (i₀ + p) % n ∧ jj = (i₀ + g) % n ∧ Crosses hash n k ((i₀ + p) % n) jj ∧
        Hole hash n (move s jj ((i₀ + p) % n) (k, v)) i₀ e (p + 1) p)) := by
  have hgp := h.hole_lt
  have hen := h.run_lt
  have hn : 0 < n := by omega
  obtain ⟨d, hd, hid, hp⟩ := h.path _ k v (Nat.mod_lt _ hn) hs
  have hown : ∀ t < d, (hash k + t) % n ≠ (i₀ + p) % n := by
    intro t ht heq
    have := offset_inj (by omega) hd (heq.trans hid)
    omega
  by_cases hthr : ∃ t < d, (hash k + t) % n = (i₀ + g) % n
  · -- the chain passes over the hole, which is its only free slot
    obtain ⟨t₀, ht₀, htg⟩ := hthr
    have hocc : ∀ t < t₀, (s ((hash k + t) % n)).isSome := by
      intro t ht
      rcases hp t (by omega) with hsome | ⟨heq, -⟩
      · exact hsome
      · have := offset_inj (by omega) (by omega) (heq.trans htg.symm)
        omega
    have hscan : scan n (settlesAt s ((i₀ + p) % n)) n (hash k % n)
        = some ((hash k + t₀) % n) := by
      refine scan_home (by omega) (fun t ht => ?_) (by simp [settlesAt, htg, h.hole])
      simp [settlesAt, hown t (by omega), hocc t ht]
    rw [htg] at hscan
    have hgne : (i₀ + g) % n ≠ (i₀ + p) % n := by
      intro heq
      have := offset_inj (by omega) (by omega) heq
      omega
    have hcross : Crosses hash n k ((i₀ + p) % n) ((i₀ + g) % n) := ⟨d, hd, hid, t₀, ht₀, htg⟩
    refine ⟨_, hscan, .inr ⟨hgne, rfl, hcross, h.drop hpe hs ⟨t₀, by omega, htg.symm, hocc⟩ ?_⟩⟩
    intro d' hd' hgd t ht
    have : d' = t₀ := offset_inj hd' (by omega) (hgd.symm.trans htg.symm)
    exact hown t (by omega)
  · -- the chain does not meet the hole
    have hocc : ∀ t < d, (s ((hash k + t) % n)).isSome := by
      intro t ht
      rcases hp t ht with hsome | ⟨heq, -⟩
      · exact hsome
      · exact absurd ⟨t, ht, heq⟩ hthr
    have hscan : scan n (settlesAt s ((i₀ + p) % n)) n (hash k % n)
        = some ((hash k + d) % n) := by
      refine scan_home hd (fun t ht => ?_) (by simp [settlesAt, hid])
      simp [settlesAt, hown t ht, hocc t ht]
    rw [← hid] at hscan
    exact ⟨_, hscan, .inl ⟨rfl, h.stay hpe hs ⟨d, hd, hid, hocc⟩⟩⟩

/-- **At the end of the run every chain is whole again.** -/
theorem Hole.finish (h : Hole hash n s i₀ e e g) : Chained hash n s := by
  refine ⟨?_, h.inj⟩
  intro i k v hi hs
  obtain ⟨d, hd, hid, hp⟩ := h.path i k v hi hs
  refine ⟨d, hd, hid, fun t ht => ?_⟩
  rcases hp t ht with hsome | ⟨-, q, hq1, hq2, -⟩
  · exact hsome
  · omega

/-- The visited slot is occupied exactly until the run ends. -/
theorem Hole.visit_none_iff (h : Hole hash n s i₀ e p g) : s ((i₀ + p) % n) = none ↔ p = e := by
  have hgp := h.hole_lt
  have hpe := h.visit_le
  constructor
  · intro hs
    by_contra hne
    have := h.full p (by omega) (by omega)
    rw [hs] at this
    simp at this
  · rintro rfl
    exact h.stop

/-- Moving an entry into a free slot changes no binding. -/
theorem holds_move (ha : a < n) (hb : b < n)
    (hsb : s b = some (k, v)) (hsa : s a = none) (k' : K) (v' : V) :
    Holds n (move s a b (k, v)) k' v' ↔ Holds n s k' v' := by
  have hab : a ≠ b := by
    rintro rfl
    rw [hsa] at hsb
    cases hsb
  constructor
  · rintro ⟨i, hi, hs⟩
    obtain ⟨-, ⟨-, hx⟩ | ⟨-, hs'⟩⟩ := move_eq_some hs
    · exact ⟨b, hb, hx ▸ hsb⟩
    · exact ⟨i, hi, hs'⟩
  · rintro ⟨i, hi, hs⟩
    by_cases hib : i = b
    · subst hib
      exact ⟨a, ha, by rw [move_dst s _ hab, ← hsb, hs]⟩
    · have hia : i ≠ a := by
        rintro rfl
        rw [hsa] at hs
        cases hs
      exact ⟨i, hi, by rw [move_of_ne s _ hia hib, hs]⟩

end Hole

end Sensys.Probe
