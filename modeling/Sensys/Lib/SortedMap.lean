/-
# Maps that are sorted by their keys

A `SortedMap` is what an ordered map holds: its entries in the order of their keys, each key once.
`insertWith` puts an entry in its place, and `keep` says what becomes of two values of one key.

* `foldl_insertWith_entries`: a map that is rebuilt entry by entry, in its own order, is the same
  map.
* `merge` writes the entries of one map over those of another; `merge_eq_iff` says when nothing is
  left of the first one.
-/
import Mathlib.Data.List.Basic
import Mathlib.Data.List.Sort
import Mathlib.Order.Defs.LinearOrder

namespace Sensys

open List

/-- Entries in the order of their keys. -/
@[ext]
structure SortedMap (κ ν : Type) [LT κ] where
  entries : List (κ × ν)
  sorted : entries.Pairwise fun a b => a.1 < b.1
  deriving DecidableEq

namespace SortedMap

variable {κ ν : Type} [LT κ] [DecidableLT κ] [DecidableEq κ]

/-- The map without entries. -/
def empty : SortedMap κ ν := ⟨[], .nil⟩

/-- An entry is put in its place. -/
def insertEntry (keep : ν → ν → ν) (key : κ) (val : ν) : List (κ × ν) → List (κ × ν)
  | [] => [(key, val)]
  | e :: es =>
    if key < e.1 then (key, val) :: e :: es
    else if key = e.1 then (key, keep e.2 val) :: es
    else e :: insertEntry keep key val es

variable {e : κ × ν}

theorem key_of_mem_insertEntry {keep key val} :
    ∀ {es}, e ∈ insertEntry keep key val es → e.1 = key ∨ ∃ e' ∈ es, e'.1 = e.1
  | [], h => Or.inl (congrArg Prod.fst (List.mem_singleton.mp h))
  | e' :: es, h => by
    rw [insertEntry] at h
    split at h
    · rcases mem_cons.mp h with rfl | hmem
      · exact Or.inl rfl
      · exact Or.inr ⟨e, hmem, rfl⟩
    split at h
    · rcases mem_cons.mp h with rfl | hmem
      · exact Or.inl rfl
      · exact Or.inr ⟨e, mem_cons_of_mem e' hmem, rfl⟩
    · rcases mem_cons.mp h with rfl | hmem
      · exact Or.inr ⟨e, mem_cons_self, rfl⟩
      · rcases key_of_mem_insertEntry hmem with hkey | ⟨e'', hmem', hkey⟩
        · exact Or.inl hkey
        · exact Or.inr ⟨e'', mem_cons_of_mem e' hmem', hkey⟩

section Last

variable [Std.Irrefl (α := κ) (· < ·)] [Std.Asymm (α := κ) (· < ·)]

/-- A key behind all others goes to the end. -/
theorem insertEntry_of_lt (keep : ν → ν → ν) {key} (val : ν) : ∀ {es : List (κ × ν)},
    (∀ e ∈ es, e.1 < key) → insertEntry keep key val es = es ++ [(key, val)]
  | [], _ => rfl
  | e :: es, h => by
    have hlt := h e mem_cons_self
    rw [insertEntry, if_neg (Std.Asymm.asymm _ _ hlt), if_neg fun heq => Std.lt_irrefl (heq ▸ hlt),
      insertEntry_of_lt keep val fun e' he' => h e' (mem_cons_of_mem e he')]
    rfl

theorem mem_insertEntry_iff {key val} : ∀ {es},
    (es.Pairwise fun a b => a.1 < b.1) → (e ∈ insertEntry (fun _ new => new) key val es ↔
        e = (key, val) ∨ (e ∈ es ∧ e.1 ≠ key))
  | [], _ => by simp [insertEntry]
  | e' :: es, h => by
    obtain ⟨hhead, htail⟩ := pairwise_cons.mp h
    -- behind a key that is not smaller there is no second one of that key
    have hne : ¬ e'.1 < key → ∀ e'' ∈ es, e''.1 ≠ key := by
      rintro hnot e'' hmem rfl
      exact hnot (hhead e'' hmem)
    rw [insertEntry]
    split
    · rename_i hlt
      have hhere : e'.1 ≠ key := fun heq => Std.lt_irrefl (heq ▸ hlt)
      have hrest := hne fun hgt => Std.Asymm.asymm _ _ hlt hgt
      rw [mem_cons]
      have hall : ∀ e'' ∈ e' :: es, e''.1 ≠ key := forall_mem_cons.mpr ⟨hhere, hrest⟩
      exact or_congr_right (and_iff_left_of_imp (hall e)).symm
    split
    · rename_i heq
      have hrest := hne fun hgt => Std.lt_irrefl (heq ▸ hgt)
      have hhere : e = e' → e.1 = key := by
        rintro rfl
        exact heq.symm
      have := hrest e
      simp only [mem_cons]
      tauto
    · rename_i hkey
      have hhere : e = e' → e.1 ≠ key := by
        rintro rfl
        exact Ne.symm hkey
      rw [mem_cons, mem_cons, mem_insertEntry_iff htail]
      tauto

end Last

section Order

variable [Std.Trichotomous (α := κ) (· < ·)] [Trans (α := κ) (· < ·) (· < ·) (· < ·)]

variable (keep : ν → ν → ν)

theorem sorted_insertEntry (key : κ) (val : ν) : ∀ {es},
    (es.Pairwise fun a b => a.1 < b.1) → (insertEntry keep key val es).Pairwise fun a b => a.1 < b.1
  | [], _ => pairwise_singleton _ _
  | e :: es, h => by
    obtain ⟨hhead, htail⟩ := pairwise_cons.mp h
    rw [insertEntry]
    split
    · rename_i hlt
      refine pairwise_cons.mpr ⟨fun e' he' => ?_, h⟩
      rcases mem_cons.mp he' with rfl | hmem
      · exact hlt
      · exact Std.lt_trans hlt (hhead e' hmem)
    split
    · rename_i heq
      exact pairwise_cons.mpr ⟨fun e' he' => heq ▸ hhead e' he', htail⟩
    · rename_i hlt hne
      have hgt : e.1 < key := by
        by_contra hnot
        exact hne (Std.Trichotomous.trichotomous key e.1 hlt hnot)
      refine pairwise_cons.mpr ⟨fun e' he' => ?_, sorted_insertEntry key val htail⟩
      rcases key_of_mem_insertEntry he' with hkey | ⟨e'', hmem, hkey⟩
      · rw [hkey]
        exact hgt
      · rw [← hkey]
        exact hhead e'' hmem

/-- A new entry; `keep` chooses between the old value of a key and the new one. -/
def insertWith (keep : ν → ν → ν) (m : SortedMap κ ν) (key : κ) (val : ν) : SortedMap κ ν :=
  ⟨insertEntry keep key val m.entries, sorted_insertEntry keep key val m.sorted⟩

variable [Std.Irrefl (α := κ) (· < ·)] [Std.Asymm (α := κ) (· < ·)]

theorem entries_foldl_insertWith : ∀ (es : List (κ × ν)) (m : SortedMap κ ν),
    ((m.entries ++ es).Pairwise fun a b => a.1 < b.1) →
      (es.foldl (fun m e => m.insertWith keep e.1 e.2) m).entries = m.entries ++ es
  | [], m, _ => (List.append_nil _).symm
  | e :: es, m, h => by
    have hlt : ∀ e' ∈ m.entries, e'.1 < e.1 := fun e' he' =>
      (List.pairwise_append.mp h).2.2 e' he' e mem_cons_self
    have hentries : (m.insertWith keep e.1 e.2).entries = m.entries ++ [e] :=
      insertEntry_of_lt keep e.2 hlt
    rw [foldl_cons, entries_foldl_insertWith es _ (by simpa [hentries] using h), hentries,
      List.append_assoc]
    rfl

/-- **Rebuilding a map in its own order gives the map.** -/
theorem foldl_insertWith_entries (m : SortedMap κ ν) :
    m.entries.foldl (fun m e => m.insertWith keep e.1 e.2) empty = m :=
  SortedMap.ext (entries_foldl_insertWith keep m.entries empty m.sorted)

/-! ## One map over another -/

/-- The keys of a map. -/
def keys (m : SortedMap κ ν) : List κ := m.entries.map Prod.fst

/-- The entries of the second map are written over the first one. -/
def merge (m n : SortedMap κ ν) : SortedMap κ ν :=
  n.entries.foldl (fun m e => m.insertWith (fun _ new => new) e.1 e.2) m

theorem mem_foldl_insertWith_iff : ∀ (es : List (κ × ν)) (m : SortedMap κ ν),
    (es.Pairwise fun a b => a.1 < b.1) →
      (e ∈ (es.foldl (fun m e => m.insertWith (fun _ new => new) e.1 e.2) m).entries ↔
        e ∈ es ∨ (e ∈ m.entries ∧ e.1 ∉ es.map Prod.fst))
  | [], m, _ => by simp
  | e' :: es, m, h => by
    obtain ⟨hhead, htail⟩ := pairwise_cons.mp h
    have hother : e'.1 ∉ es.map Prod.fst := by
      intro hmem
      obtain ⟨e'', hmem', heq⟩ := mem_map.mp hmem
      exact Std.lt_irrefl (heq ▸ hhead e'' hmem')
    rw [foldl_cons, mem_foldl_insertWith_iff es _ htail, insertWith,
      mem_insertEntry_iff m.sorted, mem_cons, map_cons, mem_cons, not_or]
    have hhere : e = e' → e.1 ∉ es.map Prod.fst := by
      rintro rfl
      exact hother
    tauto

variable {m n : SortedMap κ ν}

theorem mem_merge_iff : e ∈ (m.merge n).entries ↔ e ∈ n.entries ∨ (e ∈ m.entries ∧ e.1 ∉ n.keys) :=
  mem_foldl_insertWith_iff n.entries m n.sorted

theorem mem_keys_merge_iff {key} : key ∈ (m.merge n).keys ↔ key ∈ n.keys ∨ key ∈ m.keys := by
  constructor
  · intro h
    obtain ⟨e, hmem, rfl⟩ := mem_map.mp h
    exact (mem_merge_iff.mp hmem).imp mem_map_of_mem fun hleft => mem_map_of_mem hleft.1
  · intro h
    by_cases hkey : key ∈ n.keys
    · obtain ⟨e, hmem, rfl⟩ := mem_map.mp hkey
      exact mem_map_of_mem (mem_merge_iff.mpr (.inl hmem))
    · obtain ⟨e, hmem, rfl⟩ := mem_map.mp (h.resolve_left hkey)
      exact mem_map_of_mem (mem_merge_iff.mpr (.inr ⟨hmem, hkey⟩))

/-- **Nothing is left of the first map** if and only if the second one has all its keys. -/
theorem merge_eq_iff : m.merge n = n ↔ ∀ key ∈ m.keys, key ∈ n.keys := by
  constructor
  · intro heq key hkey
    rw [← heq, mem_keys_merge_iff]
    exact .inr hkey
  · intro hall
    refine SortedMap.ext ((sorted _).eq_of_mem_iff (sorted _) fun e => ?_)
    rw [mem_merge_iff]
    exact ⟨fun hor => hor.resolve_right fun hleft =>
      hleft.2 (hall e.1 (mem_map_of_mem hleft.1)), .inl⟩

end Order

end SortedMap

end Sensys
