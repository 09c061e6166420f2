/-
# Label masks

`label_mask` says which labels are counted, "using wildcard syntax".  `set_value_label_mask` cuts it
at the stars, and `is_wanted_label` searches the parts one after the other, each at the first place
behind the one before.  That is right as a search: if the parts can be found in their order, they
are found this way (`hasParts_iff`).  But neither END of the label is looked at: a mask with a star
works as if there were stars in front of it and behind it.

* `mask_right_iff`: so masks are wildcard patterns exactly if they have no star, or one at each end.
* `suffix_ignored`: a label that goes on behind the mask is wanted.
-/
import Sensys.Orcm.CottCounter

namespace Sensys.Orcm.Cott

open CString List HostAnalyzeCounters

/-! ## 1. Wildcards -/

/-- **The label matches the mask**: a star stands for any string, other characters for
themselves. -/
inductive Matches : Str → Str → Prop
  | nil : Matches [] []
  | star {mask label : Str} (any : Str) : Matches mask label → Matches (42 :: mask) (any ++ label)
  | char {c : UInt8} {mask label : Str} :
      c ≠ 42 → Matches mask label → Matches (c :: mask) (c :: label)

variable {c : UInt8} {mask label part text : Str}

theorem matches_star_iff :
    Matches (42 :: mask) label ↔ ∃ rest, rest <:+ label ∧ Matches mask rest := by
  constructor
  · intro h
    cases h with
    | star any h => exact ⟨_, suffix_append _ _, h⟩
    | char hc => exact absurd rfl hc
  · rintro ⟨rest, ⟨any, rfl⟩, h⟩
    exact .star any h

/-- A part without a star is found as it is. -/
theorem matches_append_iff (hpart : 42 ∉ part) : Matches (part ++ mask) label ↔
    ∃ rest, label = part ++ rest ∧ Matches mask rest := by
  induction part generalizing label with
  | nil => simp
  | cons c part ih =>
    obtain ⟨hc, hpart⟩ := not_or.mp (mem_cons.not.mp hpart)
    constructor
    · intro h
      cases h with
      | star => exact absurd rfl hc
      | char _ h =>
        obtain ⟨rest, rfl, hrest⟩ := (ih hpart).mp h
        exact ⟨rest, rfl, hrest⟩
    · rintro ⟨rest, rfl, hrest⟩
      exact .char (Ne.symm hc) ((ih hpart).mpr ⟨rest, rfl, hrest⟩)

theorem matches_plain_iff (hmask : 42 ∉ mask) : Matches mask label ↔ label = mask := by
  rw [← List.append_nil mask, matches_append_iff hmask]
  constructor
  · rintro ⟨rest, rfl, h⟩
    cases h
    rfl
  · intro h
    exact ⟨[], h, .nil⟩

/-- The parts are somewhere in the text, one behind the other. -/
def Occur : List Str → Str → Prop
  | [], _ => True
  | part :: parts, text => ∃ rest, part ++ rest <:+ text ∧ Occur parts rest

theorem Occur.mono {text'} (hsuffix : text <:+ text') : ∀ {parts},
    Occur parts text → Occur parts text'
  | [], _ => trivial
  | _ :: _, ⟨rest, hrest, h⟩ => ⟨rest, hrest.trans hsuffix, h⟩

/-- A part behind a star is somewhere. -/
theorem matches_part_iff (hpart : 42 ∉ part) : Matches (42 :: (part ++ mask)) label ↔
    ∃ rest, part ++ rest <:+ label ∧ Matches mask rest := by
  simp only [matches_star_iff, matches_append_iff hpart]
  constructor
  · rintro ⟨_, hsuffix, rest, rfl, h⟩
    exact ⟨rest, hsuffix, h⟩
  · rintro ⟨rest, hsuffix, h⟩
    exact ⟨_, hsuffix, rest, rfl, h⟩

/-- **With stars at both ends**, the parts between the stars have to occur. -/
theorem matches_stars_iff (mask : Str) {label} :
    Matches (42 :: (mask ++ [42])) label ↔ Occur (mask.splitOn 42) label := by
  by_cases hstar : 42 ∈ mask
  · obtain ⟨part, rest, rfl, hpart⟩ := eq_append_cons_of_mem hstar
    rw [splitOn_append_cons_self_of_not_mem hpart, List.append_assoc, cons_append,
      matches_part_iff hpart, Occur]
    simp only [matches_stars_iff rest]
  · have hany : ∀ rest, Matches [42] rest := fun rest => matches_star_iff.mpr ⟨[], nil_suffix, .nil⟩
    rw [splitOn_eq_singleton hstar, matches_part_iff hstar, Occur]
    simp only [hany, Occur]
termination_by mask.length
decreasing_by
  simp_all
  omega

/-! ## 2. The search -/

theorem suffix_of_behind {rest} : ∀ {text}, behind part text = some rest →
    part ++ rest <:+ text
  | [], h => by
    rw [behind] at h
    split at h
    · rename_i hnil
      cases h
      simp [hnil]
    · cases h
  | c :: text, h => by
    rw [behind] at h
    split at h
    · rename_i hfound
      cases h
      obtain ⟨rest, hrest⟩ := isPrefixOf_iff_prefix.mp hfound
      exact ⟨[], by rw [nil_append, ← hrest, drop_left]⟩
    · exact (suffix_of_behind h).trans (suffix_cons c text)

/-- The first place leaves the most behind it. -/
theorem behind_of_suffix {rest} : ∀ {text}, part ++ rest <:+ text →
    ∃ rest', behind part text = some rest' ∧ rest <:+ rest'
  | [], h => by
    obtain ⟨hpart, hrest⟩ := append_eq_nil_iff.mp (suffix_nil.mp h)
    exact ⟨[], by simp [behind, hpart], hrest ▸ suffix_rfl⟩
  | c :: text, h => by
    rw [behind]
    split
    · refine ⟨_, rfl, suffix_of_suffix_length_le ((suffix_append part rest).trans h)
        (drop_suffix _ _) ?_⟩
      have hlen := h.length_le
      rw [length_append] at hlen
      rw [length_drop]
      omega
    · rename_i hnot
      rcases suffix_cons_iff.mp h with heq | hsuffix
      · exact absurd (List.isPrefixOf_iff_prefix.mpr (heq ▸ prefix_append part rest)) hnot
      · exact behind_of_suffix hsuffix

/-- **The parts are found** if they are there. -/
theorem hasParts_iff : ∀ {parts text}, hasParts parts text = true ↔
    Occur parts text
  | [], _ => by simp [hasParts, Occur]
  | part :: parts, text => by
    rw [hasParts, Occur]
    constructor
    · intro h
      split at h
      · cases h
      · rename_i rest hrest
        exact ⟨rest, suffix_of_behind hrest, hasParts_iff.mp h⟩
    · rintro ⟨rest, hsuffix, h⟩
      obtain ⟨rest', hrest', hle⟩ := behind_of_suffix hsuffix
      rw [hrest']
      exact hasParts_iff.mpr (h.mono hle)

theorem occur_filter_iff : ∀ {parts text},
    Occur (parts.filter (· ≠ [])) text ↔ Occur parts text
  | [], _ => Iff.rfl
  | part :: parts, text => by
    by_cases hnil : part = []
    · rw [filter_cons_of_neg (by simpa using hnil), occur_filter_iff, hnil, Occur]
      exact ⟨fun h => ⟨text, suffix_rfl, h⟩, fun ⟨rest, hrest, h⟩ => h.mono hrest⟩
    · rw [filter_cons_of_pos (by simpa using hnil), Occur, Occur]
      simp only [occur_filter_iff]

/-- There are no parts if there are only stars. -/
theorem filter_splitOn_eq_nil_iff : ∀ {mask : Str},
    (mask.splitOn 42).filter (· ≠ []) = [] ↔ mask.all (· == 42) = true
  | [] => by simp
  | c :: mask => by
    rw [splitOn_cons_eq_if_modifyHead, all_cons]
    split
    · rename_i hc
      rw [filter_cons_of_neg (by simp), filter_splitOn_eq_nil_iff, hc, Bool.true_and]
    · rename_i hc
      obtain ⟨part, parts, hparts⟩ := exists_cons_of_ne_nil (splitOn_ne_nil 42 mask)
      simp [hparts, hc]

variable (counters : HostAnalyzeCounters)

theorem labelMask_setValueLabelMask (mask : Str) :
    (counters.setValueLabelMask mask).labelMask = mask := rfl

/-- **A mask with a star works like one with stars at both ends.** -/
theorem isWantedLabel_iff (hstar : 42 ∈ mask)
    (hlabel : label ≠ []) : (counters.setValueLabelMask mask).isWantedLabel label = true ↔
      Occur (mask.splitOn 42) label := by
  have hparts : (counters.setValueLabelMask mask).maskParts =
      (mask.splitOn 42).filter (· ≠ []) := if_pos (by simpa using hstar)
  rw [← occur_filter_iff, ← hasParts_iff, isWantedLabel, if_neg hlabel, hparts,
    labelMask_setValueLabelMask]
  by_cases hnone : (mask.splitOn 42).filter (· ≠ []) = []
  · rw [if_pos (filter_splitOn_eq_nil_iff.mp hnone), hnone]
    rfl
  · rw [if_neg (mt filter_splitOn_eq_nil_iff.mpr hnone), if_neg hnone]

/-! ## 3. The ends -/

theorem matches_self_append (label : Str) : ∀ mask : Str, Matches (mask ++ [42]) (mask ++ label)
  | [] => matches_star_iff.mpr ⟨[], nil_suffix, .nil⟩
  | c :: mask => by
    have ih := matches_self_append label mask
    by_cases hc : c = 42
    · rw [hc]
      exact .star [42] ih
    · exact .char hc ih

theorem Matches.head? (h : Matches mask label) (hc : c ≠ 42) (hhead : mask.head? = some c) :
    label.head? = some c := by
  cases h with
  | nil => exact hhead
  | star => exact absurd (Option.some.inj hhead).symm hc
  | char => exact hhead

theorem Matches.getLast? (h : Matches mask label) (hc : c ≠ 42) (hlast : mask.getLast? = some c) :
    label.getLast? = some c := by
  induction h with
  | nil => exact hlast
  | @star mask label any h ih =>
    cases mask with
    | nil => exact absurd (Option.some.inj hlast).symm hc
    | cons c' mask =>
      rw [getLast?_append, ih (by simpa using hlast)]
      rfl
  | @char c' mask label _ h ih =>
    cases mask with
    | nil =>
      cases h
      exact hlast
    | cons =>
      rw [getLast?_cons, ih (by simpa using hlast)]
      rfl

/-- **If stars at the ends change nothing, they are there**: put in front of the mask or behind it,
a star stands for itself. -/
theorem ends_of_forall (hmask : mask ≠ [])
    (h : ∀ label, label ≠ [] → Matches (42 :: (mask ++ [42])) label → Matches mask label) :
    mask.head? = some 42 ∧ mask.getLast? = some 42 := by
  constructor
  · obtain ⟨c, mask', rfl⟩ := exists_cons_of_ne_nil hmask
    by_contra hhead
    have hself := matches_self_append [] (c :: mask')
    rw [List.append_nil] at hself
    have hfront := h (42 :: c :: mask') (by simp) (.star [42] hself)
    exact hhead (hfront.head? (fun h => hhead (h ▸ rfl)) rfl).symm
  · obtain ⟨c, hc⟩ := Option.ne_none_iff_exists'.mp (mt getLast?_eq_none_iff.mp hmask)
    by_contra hlast
    have hback := h (mask ++ [42]) (by simp) (.star [] (matches_self_append [42] mask))
    have hstars := hback.getLast? (fun h => hlast (h ▸ hc)) hc
    rw [getLast?_concat] at hstars
    exact hlast (hc.trans hstars.symm)

/-- **Masks are wildcard patterns exactly if they have no star, or one at each end.** -/
theorem mask_right_iff (counters : HostAnalyzeCounters) (hmask : mask ≠ []) : (∀ label, label ≠ [] →
      ((counters.setValueLabelMask mask).isWantedLabel label = true ↔ Matches mask label)) ↔
    42 ∉ mask ∨ mask.head? = some 42 ∧ mask.getLast? = some 42 := by
  by_cases hstar : 42 ∈ mask
  · rw [or_iff_right (not_not_intro hstar)]
    constructor
    · intro h
      refine ends_of_forall hmask fun label hlabel hmatch => (h label hlabel).mp ?_
      exact (isWantedLabel_iff counters hstar hlabel).mpr ((matches_stars_iff mask).mp hmatch)
    · rintro ⟨hhead, hlast⟩ label hlabel
      rw [isWantedLabel_iff counters hstar hlabel]
      obtain ⟨ys, rfl⟩ := getLast?_eq_some_iff.mp hlast
      cases ys with
      | nil =>
        exact iff_of_true ⟨label, by simp, label, by simp, trivial⟩
          (matches_star_iff.mpr ⟨[], nil_suffix, .nil⟩)
      | cons c m =>
        obtain rfl : c = 42 := Option.some.inj hhead
        rw [cons_append, matches_stars_iff, ← occur_filter_iff, splitOn_cons_eq_if_modifyHead,
          if_pos (by simp), splitOn_append_cons_self, filter_cons_of_neg (by simp), filter_append]
        simpa using occur_filter_iff
  · refine iff_of_true (fun label hlabel => ?_) (.inl hstar)
    have hall : ¬ mask.all (· == 42) = true := by
      obtain ⟨c, mask', rfl⟩ := exists_cons_of_ne_nil hmask
      intro hall
      exact hstar (by simp_all)
    rw [matches_plain_iff hstar, isWantedLabel, if_neg hlabel, labelMask_setValueLabelMask,
      if_neg hall]
    simp [setValueLabelMask, hstar]

/-- A mask with stars at both ends. -/
theorem mask_right_iff_stars : (new.setValueLabelMask (ofString "*DIMM*")).isWantedLabel
    (ofString "CPU_DIMM0") = true ↔ Matches (ofString "*DIMM*") (ofString "CPU_DIMM0") :=
  (mask_right_iff new (by decide)).mpr (.inr ⟨by decide, by decide⟩) _ (by decide)

/-- **A label that goes on behind the mask is wanted.** -/
theorem suffix_ignored :
    (new.setValueLabelMask (ofString "a*b")).isWantedLabel (ofString "abc") = true ∧
      ¬ Matches (ofString "a*b") (ofString "abc") := by
  refine ⟨by decide, fun h => ?_⟩
  exact absurd (h.getLast? (show (98 : UInt8) ≠ 42 by decide) (by decide)) (by decide)

end Sensys.Orcm.Cott
