/-
# Forests, and routing by tables

A forest of distinct labels is walked in preorder; every visit comes with the labels above the
visited one, the nearest first.  Each label keeps a TABLE of what it hears: its parent, and for
each of its children the labels below that child (`Table.learn`).  A child is entered when it is
visited, and what is below a child is visited right after it, so it is enough to add to the child
entered last.

* `learn_locate`: after the walk the table of a label holds its parent and its children with what
  is below them, and nothing else.
* `Forest.exists_path`: following the tables towards a label leads to it, without visiting any
  label twice.  Going up the number of labels above decreases, going down the number of labels
  below does.
-/
import Mathlib.Data.List.Nodup
import Mathlib.Data.Nat.Find
import Mathlib.Logic.Function.Iterate

namespace Sensys

open List Option

/-! ## 1. Following a function that comes closer -/

section Ranking

variable {α : Type} {f : α → α} {b : α} {P : α → Prop} (rank : α → ℕ)

/-- **Ranking.**  A function that decreases a rank until it is at `b` leads to `b`, and visits nothing
twice on its way. -/
theorem exists_iterate_of_rank (hstep : ∀ x, P x → x ≠ b → P (f x) ∧ rank (f x) < rank x) {a}
    (ha : P a) : ∃ n, f^[n] a = b ∧ ∀ i j, i < j → j ≤ n → f^[i] a ≠ f^[j] a := by
  have hreach : ∀ (r : ℕ) {a : α}, P a → rank a < r → ∃ n, f^[n] a = b := by
    intro r
    induction r with
    | zero => exact fun _ hr => absurd hr (Nat.not_lt_zero _)
    | succ r ih =>
      intro a ha hr
      by_cases hb : a = b
      · exact ⟨0, hb⟩
      · obtain ⟨hP, hlt⟩ := hstep a ha hb
        obtain ⟨n, hn⟩ := ih hP (by omega)
        exact ⟨n + 1, hn⟩
  classical
  have hex := hreach _ ha (Nat.lt_succ_self _)
  -- on the shortest way nothing comes twice: what is between could be left out
  refine ⟨Nat.find hex, Nat.find_spec hex, fun i j hij hj heq => ?_⟩
  refine Nat.find_min hex (m := Nat.find hex - j + i) (by omega) ?_
  rw [Function.iterate_add_apply, heq, ← Function.iterate_add_apply, Nat.sub_add_cancel hj]
  exact Nat.find_spec hex

end Ranking

/-! ## 2. Forests -/

/-- A forest: nothing, or a tree (its root and the forest below it) and the rest. -/
inductive Forest (α : Type) where
  | nil
  | cons (a : α) (below rest : Forest α)
  deriving DecidableEq, Repr

namespace Forest

variable {α : Type}

/-- The labels, in preorder. -/
def labels : Forest α → List α
  | nil => []
  | cons a below rest => a :: (below.labels ++ rest.labels)

/-- One forest after the other. -/
def append : Forest α → Forest α → Forest α
  | nil, g => g
  | cons a below rest, g => cons a below (rest.append g)

/-- The preorder walk, every label with the labels above it. -/
def visits (above : List α) : Forest α → List (List α × α)
  | nil => []
  | cons a below rest => (above, a) :: (below.visits (a :: above) ++ rest.visits above)

/-- The roots, each with the labels below it. -/
def entries : Forest α → List (α × List α)
  | nil => []
  | cons a below rest => (a, below.labels) :: rest.entries

theorem labels_append (f g : Forest α) : (f.append g).labels = f.labels ++ g.labels := by
  induction f with
  | nil => rfl
  | cons a below rest _ ih => simp [append, labels, ih]

theorem visits_append (above : List α) (f g : Forest α) :
    (f.append g).visits above = f.visits above ++ g.visits above := by
  induction f with
  | nil => rfl
  | cons a below rest _ ih => simp [append, visits, ih]

variable {f sub : Forest α} {above ab : List α} {c a me : α}

theorem mem_visits {v} (h : v ∈ f.visits above) : v.2 ∈ f.labels ∧ above <:+ v.1 := by
  induction f generalizing above with
  | nil => cases h
  | cons a below rest ihb ihr =>
    simp only [visits, mem_cons, mem_append] at h
    rcases h with rfl | hb | hr
    · exact ⟨mem_cons_self, suffix_refl _⟩
    · obtain ⟨hmem, hsuffix⟩ := ihb hb
      exact ⟨by simp [labels, hmem], (suffix_cons a above).trans hsuffix⟩
    · obtain ⟨hmem, hsuffix⟩ := ihr hr
      exact ⟨by simp [labels, hmem], hsuffix⟩

theorem mem_labels_of_mem_entries {rel} (h : (c, rel) ∈ f.entries) :
    c ∈ f.labels ∧ rel ⊆ f.labels := by
  induction f with
  | nil => cases h
  | cons a below rest _ ih =>
    rcases mem_cons.mp h with heq | hmem
    · cases heq
      exact ⟨mem_cons_self, fun x hx => by simp [labels, hx]⟩
    · obtain ⟨hc, hrel⟩ := ih hmem
      exact ⟨by simp [labels, hc], fun x hx => by simp [labels, hrel hx]⟩

/-- Every label is a root or below one. -/
theorem exists_entry {b} (h : b ∈ f.labels) :
    ∃ c rel, (c, rel) ∈ f.entries ∧ (b = c ∨ b ∈ rel) := by
  induction f with
  | nil => cases h
  | cons a below rest _ ih =>
    simp only [labels, mem_cons, mem_append] at h
    rcases h with rfl | hbelow | hrest
    · exact ⟨b, below.labels, mem_cons_self, .inl rfl⟩
    · exact ⟨a, below.labels, mem_cons_self, .inr hbelow⟩
    · obtain ⟨c, rel, hmem, hb⟩ := ih hrest
      exact ⟨c, rel, mem_cons_of_mem _ hmem, hb⟩

theorem nodup_parts {below rest} (h : (cons a below rest).labels.Nodup) :
    a ∉ below.labels ∧ a ∉ rest.labels ∧ below.labels.Nodup ∧ rest.labels.Nodup ∧
      below.labels.Disjoint rest.labels := by
  rw [labels, nodup_cons, mem_append, not_or, nodup_append'] at h
  exact ⟨h.1.1, h.1.2, h.2.1, h.2.2.1, h.2.2.2⟩

variable [DecidableEq α]

/-- Where a label is: the labels above it, and the forest below it. -/
def locate (me : α) (above : List α) : Forest α → Option (List α × Forest α)
  | nil => none
  | cons a below rest =>
    if a = me then some (above, below)
    else (below.locate me (a :: above)).or (rest.locate me above)

theorem locate_eq_none (h : me ∉ f.labels) (above : List α) : f.locate me above = none := by
  induction f generalizing above with
  | nil => rfl
  | cons a below rest ihb ihr =>
    simp only [labels, mem_cons, mem_append, not_or] at h
    rw [locate, if_neg (Ne.symm h.1), ihb h.2.1, ihr h.2.2, or_none]

theorem exists_locate (h : me ∈ f.labels) (above : List α) :
    ∃ ab sub, f.locate me above = some (ab, sub) := by
  induction f generalizing above with
  | nil => cases h
  | cons a below rest ihb ihr =>
    rw [locate]
    by_cases ha : a = me
    · exact ⟨above, below, if_pos ha⟩
    · rw [if_neg ha]
      by_cases hb : me ∈ below.labels
      · obtain ⟨ab, sub, hloc⟩ := ihb hb (a :: above)
        exact ⟨ab, sub, by rw [hloc, some_or]⟩
      · have hr : me ∈ rest.labels := by
          simp only [labels, mem_cons, mem_append] at h
          rcases h with rfl | h | h
          · exact absurd rfl ha
          · exact absurd h hb
          · exact h
        obtain ⟨ab, sub, hloc⟩ := ihr hr above
        exact ⟨ab, sub, by rw [locate_eq_none hb, none_or, hloc]⟩

/-- The three places a label can be at. -/
theorem locate_cons {below rest} (h : (cons a below rest).locate me above = some (ab, sub)) :
    (a = me ∧ ab = above ∧ sub = below) ∨ (a ≠ me ∧ below.locate me (a :: above) = some (ab, sub)) ∨
      (a ≠ me ∧ me ∉ below.labels ∧ rest.locate me above = some (ab, sub)) := by
  rw [locate] at h
  by_cases ha : a = me
  · rw [if_pos ha] at h
    cases h
    exact .inl ⟨ha, rfl, rfl⟩
  · rw [if_neg ha] at h
    by_cases hb : me ∈ below.labels
    · obtain ⟨ab', sub', hloc⟩ := exists_locate hb (a :: above)
      rw [hloc, some_or] at h
      exact .inr (.inl ⟨ha, hloc.trans h⟩)
    · rw [locate_eq_none hb, none_or] at h
      exact .inr (.inr ⟨ha, hb, h⟩)

theorem mem_labels_of_locate (h : f.locate me above = some (ab, sub)) : me ∈ f.labels := by
  by_contra hnot
  rw [locate_eq_none hnot] at h
  cases h

theorem sublist_of_locate
    (h : f.locate me above = some (ab, sub)) : (me :: sub.labels).Sublist f.labels := by
  induction f generalizing above with
  | nil => cases h
  | cons a below rest ihb ihr =>
    rcases locate_cons h with ⟨rfl, -, rfl⟩ | ⟨-, hb⟩ | ⟨-, -, hr⟩
    · exact (sublist_append_left _ _).cons_cons _
    · exact ((ihb hb).trans (sublist_append_left _ _)).cons _
    · exact ((ihr hr).trans (sublist_append_right _ _)).cons _

section Cons

variable {below rest : Forest α} (hnodup : (cons a below rest).labels.Nodup)

include hnodup

theorem locate_below_root (hc : c ∈ below.labels) (above : List α) :
    (cons a below rest).locate c above = below.locate c (a :: above) := by
  obtain ⟨hab, -⟩ := nodup_parts hnodup
  obtain ⟨ab, sub, hloc⟩ := exists_locate hc (a :: above)
  have hne : a ≠ c := fun heq => hab (heq ▸ hc)
  rw [locate, if_neg hne, hloc, some_or]

theorem locate_beside_root (hc : c ∈ rest.labels) (above : List α) :
    (cons a below rest).locate c above = rest.locate c above := by
  obtain ⟨-, har, -, -, hdisj⟩ := nodup_parts hnodup
  have hne : a ≠ c := fun heq => har (heq ▸ hc)
  rw [locate, if_neg hne, locate_eq_none fun hb => hdisj hb hc, none_or]

end Cons

/-- A label below another one is where it is below that one. -/
theorem locate_below (hnodup : f.labels.Nodup)
    (h : f.locate me above = some (ab, sub)) (hc : c ∈ sub.labels) :
    f.locate c above = sub.locate c (me :: ab) := by
  induction f generalizing above with
  | nil => cases h
  | cons a below rest ihb ihr =>
    obtain ⟨-, -, hnb, hnr, -⟩ := nodup_parts hnodup
    rcases locate_cons h with ⟨rfl, rfl, rfl⟩ | ⟨-, hb⟩ | ⟨-, -, hr⟩
    · exact locate_below_root hnodup hc ab
    · have hin : c ∈ below.labels := (sublist_of_locate hb).subset (mem_cons_of_mem _ hc)
      rw [locate_below_root hnodup hin, ihb hnb hb]
    · have hin : c ∈ rest.labels := (sublist_of_locate hr).subset (mem_cons_of_mem _ hc)
      rw [locate_beside_root hnodup hin, ihr hnr hr]

/-- A root is below nothing but what the forest is below. -/
theorem locate_root {rel} (hnodup : f.labels.Nodup) (h : (c, rel) ∈ f.entries) (above : List α) :
    ∃ sub, f.locate c above = some (above, sub) ∧ sub.labels = rel := by
  induction f with
  | nil => cases h
  | cons a below rest _ ih =>
    rcases mem_cons.mp h with heq | hmem
    · cases heq
      exact ⟨below, if_pos rfl, rfl⟩
    · rw [locate_beside_root hnodup (mem_labels_of_mem_entries hmem).1]
      exact ih (nodup_parts hnodup).2.2.2.1 hmem

/-- A label that is not a root has a parent, which is where its own labels above say. -/
theorem locate_parent (hnodup : f.labels.Nodup) (h : f.locate me above = some (ab, sub)) :
    (ab = above ∧ (me, sub.labels) ∈ f.entries) ∨
      ∃ p rest psub, ab = p :: rest ∧ f.locate p above = some (rest, psub) ∧ me ∈ psub.labels := by
  induction f generalizing above with
  | nil => cases h
  | cons a below rest ihb ihr =>
    obtain ⟨-, -, hnb, hnr, -⟩ := nodup_parts hnodup
    rcases locate_cons h with ⟨rfl, rfl, rfl⟩ | ⟨-, hb⟩ | ⟨-, -, hr⟩
    · exact .inl ⟨rfl, mem_cons_self⟩
    · right
      rcases ihb hnb hb with ⟨rfl, -⟩ | ⟨p, ps, psub, rfl, hloc, hmem⟩
      · exact ⟨a, above, below, rfl, if_pos rfl, mem_labels_of_locate hb⟩
      · exact ⟨p, ps, psub, rfl,
          (locate_below_root hnodup (mem_labels_of_locate hloc) above).trans hloc, hmem⟩
    · rcases ihr hnr hr with ⟨rfl, hroot⟩ | ⟨p, ps, psub, rfl, hloc, hmem⟩
      · exact .inl ⟨rfl, mem_cons_of_mem _ hroot⟩
      · exact .inr ⟨p, ps, psub, rfl,
          (locate_beside_root hnodup (mem_labels_of_locate hloc) above).trans hloc, hmem⟩

/-- The labels above a label end with those above the forest. -/
theorem suffix_of_locate (h : f.locate me above = some (ab, sub)) : above <:+ ab := by
  induction f generalizing above with
  | nil => cases h
  | cons a below rest ihb ihr =>
    rcases locate_cons h with ⟨-, rfl, -⟩ | ⟨-, hb⟩ | ⟨-, -, hr⟩
    · exact suffix_refl _
    · exact (suffix_cons a above).trans (ihb hb)
    · exact ihr hr

/-- What is below a label is not its parent. -/
theorem ne_parent_of_below (hnodup : f.labels.Nodup) {x p} (h : f.locate x [] = some (ab, sub))
    (hp : ab.head? = some p) (hc : c ∈ sub.labels) : c ≠ p := by
  rintro rfl
  obtain ⟨cab, csub, hcloc⟩ := exists_locate hc (x :: ab)
  have hbelow := (locate_below hnodup h hc).trans hcloc
  rcases locate_parent hnodup h with ⟨rfl, -⟩ | ⟨p, ps, psub, rfl, hploc, -⟩
  · cases hp
  · cases hp
    rw [hploc] at hbelow
    cases hbelow
    have hlen := (suffix_of_locate hcloc).length_le
    simp only [length_cons] at hlen
    omega

/-- The label has nothing below it. -/
inductive Leaf (a : α) : Forest α → Prop
  | here (rest : Forest α) : Leaf a (cons a nil rest)
  | down {b : α} {below : Forest α} (rest : Forest α) : Leaf a below → Leaf a (cons b below rest)
  | along {b : α} (below : Forest α) {rest : Forest α} : Leaf a rest → Leaf a (cons b below rest)

omit [DecidableEq α] in
theorem Leaf.mem_labels (h : Leaf a f) : a ∈ f.labels := by
  induction h with
  | here rest => simp [labels]
  | down rest _ ih => simp [labels, ih]
  | along below _ ih => simp [labels, ih]

omit [DecidableEq α] in
theorem Leaf.append_left (h : Leaf a f) (g : Forest α) : Leaf a (f.append g) := by
  induction h with
  | here rest => exact .here _
  | down rest h _ => exact .down _ h
  | along below _ ih => exact .along below ih

omit [DecidableEq α] in
theorem Leaf.append_right {g} (h : Leaf a g) (f : Forest α) : Leaf a (f.append g) := by
  induction f with
  | nil => exact h
  | cons b below rest _ ih => exact .along below ih

theorem Leaf.locate (h : Leaf a f) (hnodup : f.labels.Nodup)
    (above : List α) : ∃ ab, f.locate a above = some (ab, nil) := by
  induction h generalizing above with
  | here rest => exact ⟨above, if_pos rfl⟩
  | down rest hleaf ih =>
    rw [locate_below_root hnodup hleaf.mem_labels]
    exact ih (nodup_parts hnodup).2.2.1 _
  | along below hleaf ih =>
    rw [locate_beside_root hnodup hleaf.mem_labels]
    exact ih (nodup_parts hnodup).2.2.2.1 above

end Forest

/-! ## 3. Tables -/

/-- What a label knows: its parent, and its children with what is below them, the latest first. -/
structure Table (α : Type) where
  parent : Option α
  children : List (α × List α)
  deriving DecidableEq, Repr

namespace Table

variable {α : Type} [DecidableEq α]

/-- A visit below `me`: of a child, or of a label below the latest child. -/
def descend (me : α) (table : Table α) (visit : List α × α) : Option (Table α) :=
  if visit.1.head? = some me then
    some { table with children := (visit.2, []) :: table.children }
  else if visit.1.contains me then
    match table.children with
    | [] => none
    | (child, rel) :: children =>
      some { table with children := (child, rel ++ [visit.2]) :: children }
  else some table

/-- What `me` learns from a visit. -/
def learn (me : α) (table : Table α) (visit : List α × α) : Option (Table α) :=
  (table.descend me visit).map fun table =>
    if visit.2 = me then { table with parent := visit.1.head? } else table

variable {me : α} {above : List α} {f : Forest α}

theorem learn_other {a} (hne : a ≠ me) (table : Table α) :
    table.learn me (above, a) = table.descend me (above, a) := by
  simp [learn, hne]

theorem descend_outside {a} (habove : me ∉ above) (table : Table α) :
    table.descend me (above, a) = some table := by
  have hhead : above.head? ≠ some me := fun h => habove (mem_of_mem_head? h)
  rw [descend, if_neg hhead, if_neg (by simpa using habove)]

/-- The visits of a tree, and what follows. -/
theorem learn_cons {a below rest t₀ t₁ t₂} (hvisit : t₀.learn me (above, a) = some t₁)
    (hbelow : (below.visits (a :: above)).foldlM (learn me) t₁ = some t₂) :
    ((Forest.cons a below rest).visits above).foldlM (learn me) t₀
      = (rest.visits above).foldlM (learn me) t₂ := by
  rw [Forest.visits, foldlM_cons, hvisit, bind_eq_bind, bind_some, foldlM_append, hbelow,
    bind_eq_bind, bind_some]

/-- Nothing is learnt elsewhere. -/
theorem learn_outside (hf : me ∉ f.labels) (habove : me ∉ above) (table : Table α) :
    (f.visits above).foldlM (learn me) table = some table := by
  induction f generalizing above with
  | nil => rfl
  | cons a below rest ihb ihr =>
    simp only [Forest.labels, mem_cons, mem_append, not_or] at hf
    obtain ⟨hne, hb, hr⟩ := hf
    have hvisit : table.learn me (above, a) = some table := by
      rw [learn_other (Ne.symm hne), descend_outside habove]
    rw [learn_cons hvisit (ihb hb (by simp [hne, habove])), ihr hr habove]

/-- What is below a child goes to the child entered last. -/
theorem learn_deep (hf : me ∉ f.labels)
    (habove : me ∈ above) (hhead : above.head? ≠ some me) (parent : Option α) (child : α)
    (rel : List α) (children : List (α × List α)) :
    (f.visits above).foldlM (learn me) ⟨parent, (child, rel) :: children⟩
      = some ⟨parent, (child, rel ++ f.labels) :: children⟩ := by
  induction f generalizing above rel with
  | nil => simp [Forest.visits, Forest.labels]
  | cons a below rest ihb ihr =>
    simp only [Forest.labels, mem_cons, mem_append, not_or] at hf
    obtain ⟨hne, hb, hr⟩ := hf
    have hvisit : (⟨parent, (child, rel) :: children⟩ : Table α).learn me (above, a)
        = some ⟨parent, (child, rel ++ [a]) :: children⟩ := by
      rw [learn_other (Ne.symm hne), descend, if_neg hhead, if_pos (by simpa using habove)]
    have hbelow : (a :: above).head? ≠ some me := by simpa using Ne.symm hne
    rw [learn_cons hvisit (ihb hb (mem_cons_of_mem _ habove) hbelow _), ihr hr habove hhead]
    simp [Forest.labels]

/-- The forest right below `me`: its roots are the children. -/
theorem learn_children (hf : me ∉ f.labels) (above : List α) (table : Table α) :
    (f.visits (me :: above)).foldlM (learn me) table
      = some { table with children := f.entries.reverse ++ table.children } := by
  induction f generalizing table with
  | nil => rfl
  | cons a below rest _ ihr =>
    simp only [Forest.labels, mem_cons, mem_append, not_or] at hf
    obtain ⟨hne, hb, hr⟩ := hf
    have hvisit : table.learn me (me :: above, a)
        = some ⟨table.parent, (a, []) :: table.children⟩ := by
      simp [learn_other (Ne.symm hne), descend]
    have hhead : (a :: me :: above).head? ≠ some me := by simpa using Ne.symm hne
    rw [learn_cons hvisit (learn_deep hb (by simp) hhead _ _ _ _), ihr hr]
    simp [Forest.entries]

/-- **What a label learns from the walk**: its parent, and its children with what is below them. -/
theorem learn_locate {sub ab} (hnodup : f.labels.Nodup) (habove : me ∉ above)
    (h : f.locate me above = some (ab, sub)) (table : Table α) :
    (f.visits above).foldlM (learn me) table
      = some ⟨ab.head?, sub.entries.reverse ++ table.children⟩ := by
  induction f generalizing above with
  | nil => cases h
  | cons a below rest ihb ihr =>
    obtain ⟨hab, har, hnb, hnr, hdisj⟩ := Forest.nodup_parts hnodup
    have hvisit : table.learn me (above, a)
        = some (if a = me then { table with parent := above.head? } else table) := by
      rw [learn, descend_outside habove, map_some]
    rcases Forest.locate_cons h with ⟨rfl, rfl, rfl⟩ | ⟨hne, hb⟩ | ⟨hne, hnot, hr⟩
    · rw [if_pos rfl] at hvisit
      rw [learn_cons hvisit (learn_children hab _ _), learn_outside har habove]
    · rw [if_neg hne] at hvisit
      have hin := Forest.mem_labels_of_locate hb
      rw [learn_cons hvisit (ihb hnb (by simp [Ne.symm hne, habove]) hb),
        learn_outside (fun hmem => hdisj hin hmem) habove]
    · rw [if_neg hne] at hvisit
      rw [learn_cons hvisit (learn_outside hnot (by simp [Ne.symm hne, habove]) table),
        ihr hnr habove hr]

/-- The first child that is the target or has it below. -/
def via (target : α) (table : Table α) : Option (α × List α) :=
  table.children.reverse.find? fun entry =>
    decide (entry.1 = target) || entry.2.contains target

/-- The next label on the way to the target: down if the target is below, up otherwise. -/
def route (target : α) (table : Table α) : Option α :=
  ((table.via target).map Prod.fst).or table.parent

theorem via_eq_none {b} (h : b ∉ f.labels) (parent : Option α) :
    via b ⟨parent, f.entries.reverse⟩ = none := by
  rw [via, reverse_reverse, find?_eq_none]
  rintro ⟨c, rel⟩ hmem hfound
  obtain ⟨hc, hrel⟩ := Forest.mem_labels_of_mem_entries hmem
  simp only [Bool.or_eq_true, decide_eq_true_eq, contains_iff_mem] at hfound
  rcases hfound with rfl | hin
  · exact h hc
  · exact h (hrel hin)

theorem exists_via {b} (h : b ∈ f.labels) (parent : Option α) :
    ∃ c rel, via b ⟨parent, f.entries.reverse⟩ = some (c, rel) ∧ (c, rel) ∈ f.entries ∧
      (b = c ∨ b ∈ rel) := by
  rw [via, reverse_reverse]
  obtain ⟨c₀, rel₀, hmem₀, hb₀⟩ := Forest.exists_entry h
  have hsome : (f.entries.find? fun entry =>
      decide (entry.1 = b) || entry.2.contains b).isSome = true := by
    rw [find?_isSome]
    exact ⟨(c₀, rel₀), hmem₀, by rcases hb₀ with rfl | hin <;> simp [*]⟩
  obtain ⟨⟨c, rel⟩, hfind⟩ := isSome_iff_exists.mp hsome
  refine ⟨c, rel, hfind, mem_of_find?_eq_some hfind, ?_⟩
  have hfound := find?_some hfind
  simp only [Bool.or_eq_true, decide_eq_true_eq, contains_iff_mem] at hfound
  exact hfound.imp Eq.symm id

end Table

/-! ## 4. The way through a tree -/

section Path

variable {α β : Type} [DecidableEq α]

/-- How far a label is from the target: towards it, what is still below; away from it, more than
that, by what is above. -/
def Forest.rank (tree : Forest α) (b x : α) : ℕ :=
  match tree.locate x [] with
  | some (above, sub) =>
    if b = x ∨ b ∈ sub.labels then sub.labels.length else tree.labels.length + above.length
  | none => 0

variable {tree : Forest α} {b : α}

theorem Forest.rank_inside {sub above x} (h : tree.locate x [] = some (above, sub))
    (hb : b = x ∨ b ∈ sub.labels) : tree.rank b x = sub.labels.length := by
  simp only [rank, h, if_pos hb]

theorem Forest.rank_outside {sub above x} (h : tree.locate x [] = some (above, sub))
    (hb : ¬ (b = x ∨ b ∈ sub.labels)) : tree.rank b x = tree.labels.length + above.length := by
  simp only [rank, h, if_neg hb]

/-- **The way through a tree** whose labels are numbers for the members of `β`.  If every member goes
where its table says, the target is reached from every member, and no member is visited twice. -/
theorem Forest.exists_path {e : α → β} (label : β → α) (hnodup : tree.labels.Nodup)
    (hlabel : ∀ x, label (e x) = x) {f}
    (hnext : ∀ x above sub, x ≠ b → tree.locate x [] = some (above, sub) →
      ∃ next, f (e x) = e next ∧ Table.route b ⟨above.head?, sub.entries.reverse⟩ = some next)
    {a} (ha : a ∈ tree.labels) :
    ∃ n, f^[n] (e a) = e b ∧ ∀ i j, i < j → j ≤ n → f^[i] (e a) ≠ f^[j] (e a) := by
  refine exists_iterate_of_rank (P := fun y => ∃ x ∈ tree.labels, y = e x)
    (fun y => tree.rank b (label y)) ?_ ⟨a, ha, rfl⟩
  rintro _ ⟨x, hx, rfl⟩ hne
  obtain ⟨above, sub, hloc⟩ := exists_locate hx []
  have hne : x ≠ b := fun h => hne (congrArg e h)
  obtain ⟨next, hf, hroute⟩ := hnext x above sub hne hloc
  have hsub := sublist_of_locate hloc
  rw [Table.route] at hroute
  suffices hless : next ∈ tree.labels ∧ tree.rank b next < tree.rank b x by
    rw [hf, hlabel, hlabel]
    exact ⟨⟨next, hless.1, rfl⟩, hless.2⟩
  by_cases hin : b ∈ sub.labels
  · -- down, to the child that has the target
    obtain ⟨c, rel, hvia, hentry, hbc⟩ := Table.exists_via hin above.head?
    rw [hvia, map_some, some_or, some.injEq] at hroute
    rw [← hroute]
    have hnsub : sub.labels.Nodup := (hnodup.sublist hsub).of_cons
    have hcsub : c ∈ sub.labels := (mem_labels_of_mem_entries hentry).1
    obtain ⟨csub, hcloc, rfl⟩ := locate_root hnsub hentry (x :: above)
    have hctree : tree.locate c [] = some (x :: above, csub) :=
      (locate_below hnodup hloc hcsub).trans hcloc
    refine ⟨mem_labels_of_locate hctree, ?_⟩
    rw [rank_inside hctree hbc, rank_inside hloc (.inr hin)]
    have hlen := (sublist_of_locate hcloc).length_le
    rw [length_cons] at hlen
    omega
  · -- up, where there are fewer above, or the target is below
    rw [Table.via_eq_none hin, map_none, none_or] at hroute
    rcases locate_parent hnodup hloc with ⟨rfl, hroot⟩ | ⟨p, ps, psub, rfl, hploc, hmem⟩
    · cases hroute
    · rw [head?_cons, some.injEq] at hroute
      rw [← hroute]
      refine ⟨mem_labels_of_locate hploc, ?_⟩
      have hout : ¬ (b = x ∨ b ∈ sub.labels) := by
        rintro (rfl | h)
        · exact hne rfl
        · exact hin h
      rw [rank_outside hloc hout]
      by_cases hpin : b = p ∨ b ∈ psub.labels
      · have hlen := (sublist_of_locate hploc).length_le
        rw [length_cons] at hlen
        rw [rank_inside hploc hpin]
        omega
      · rw [rank_outside hploc hpin, length_cons]
        omega

end Path

end Sensys
