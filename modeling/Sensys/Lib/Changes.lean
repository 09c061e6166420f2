/-
# Reporting changes

A list of readings, each a value for a key, is given to a reporter that remembers the last value of
every key and reports a reading if the value is not the one it remembers (`changes`).

* `valuesOf_changes`: what is reported for a key are its values with consecutive equal ones dropped;
* `remember_changes`: whoever remembers the reports knows as much as the reporter;
* `changes_append`: readings may come in several lots.
-/
import Mathlib.Data.List.Destutter
import Mathlib.Logic.Function.Basic

namespace Sensys

open List Function

variable {κ ν : Type} [DecidableEq κ]

/-- The values of a key, in the order in which they were read. -/
def valuesOf (key : κ) (readings : List (κ × ν)) : List ν :=
  readings.filterMap fun reading => if reading.1 = key then some reading.2 else none

variable (key : κ)

@[simp] theorem valuesOf_nil : valuesOf key ([] : List (κ × ν)) = [] := rfl

theorem valuesOf_cons_self (val : ν) (readings : List (κ × ν)) :
    valuesOf key ((key, val) :: readings) = val :: valuesOf key readings := by
  simp [valuesOf]

theorem valuesOf_cons_of_ne {key reading} (h : reading.1 ≠ key) (readings : List (κ × ν)) :
    valuesOf key (reading :: readings) = valuesOf key readings := by
  simp [valuesOf, h]

@[simp] theorem valuesOf_append (readings readings' : List (κ × ν)) :
    valuesOf key (readings ++ readings') = valuesOf key readings ++ valuesOf key readings' :=
  filterMap_append

/-- What is known after some readings. -/
def remember (previous : κ → Option ν) (readings : List (κ × ν)) : κ → Option ν :=
  readings.foldl (fun previous reading => Function.update previous reading.1 (some reading.2))
    previous

/-- The last value of a key is known. -/
theorem remember_eq (previous : κ → Option ν) (readings : List (κ × ν)) (key : κ) :
    remember previous readings key = (valuesOf key readings).getLast?.or (previous key) := by
  induction readings using List.reverseRecOn with
  | nil => rfl
  | append_singleton readings reading ih =>
    obtain ⟨key', val⟩ := reading
    rw [remember, foldl_append]
    simp only [foldl_cons, foldl_nil, update_apply]
    by_cases hkey : key' = key
    · subst hkey
      simp [valuesOf_cons_self]
    · rw [if_neg (Ne.symm hkey), valuesOf_append, valuesOf_cons_of_ne hkey, valuesOf_nil,
        List.append_nil, ← ih, remember]

/-- A reading that is not reported changes nothing. -/
theorem update_eq_of_not_changed {previous : κ → Option ν} {reading : κ × ν}
    (h : previous reading.1 = some reading.2) :
    update previous reading.1 (some reading.2) = previous := by
  rw [← h, update_eq_self]

variable [DecidableEq ν]

/-- The readings that are reported. -/
def changes : (κ → Option ν) → List (κ × ν) → List (κ × ν)
  | _, [] => []
  | previous, reading :: readings =>
    if previous reading.1 = some reading.2 then changes previous readings
    else reading :: changes (Function.update previous reading.1 (some reading.2)) readings

theorem changes_sublist : ∀ (previous : κ → Option ν) (readings : List (κ × ν)),
    (changes previous readings).Sublist readings
  | _, [] => .slnil
  | previous, reading :: readings => by
    rw [changes]
    split
    · exact (changes_sublist previous readings).cons reading
    · exact (changes_sublist _ readings).cons_cons reading

/-- **Several lots.** -/
theorem changes_append : ∀ (previous : κ → Option ν) (readings readings' : List (κ × ν)),
    changes previous (readings ++ readings') =
      changes previous readings ++ changes (remember previous readings) readings'
  | _, [], _ => rfl
  | previous, reading :: readings, readings' => by
    have hrest := changes_append (update previous reading.1 (some reading.2)) readings
      readings'
    rw [cons_append, changes, changes]
    split
    · next h =>
      rw [update_eq_of_not_changed h] at hrest
      rw [hrest, remember, remember, foldl_cons, update_eq_of_not_changed h]
    · rw [hrest]
      rfl

/-- **The reports are enough**: they lead to the same knowledge. -/
theorem remember_changes : ∀ (previous : κ → Option ν) (readings : List (κ × ν)),
    remember previous (changes previous readings) = remember previous readings
  | _, [] => rfl
  | previous, reading :: readings => by
    have hrest := remember_changes (update previous reading.1 (some reading.2)) readings
    rw [changes]
    split
    · next h =>
      rw [update_eq_of_not_changed h] at hrest
      rw [hrest, remember, remember, foldl_cons, update_eq_of_not_changed h]
    · exact hrest

/-- What is reported for a key, when its last value is known and when it is not. -/
theorem valuesOf_changes_from : ∀ (previous : κ → Option ν) (readings : List (κ × ν)),
    (∀ val, previous key = some val → val :: valuesOf key (changes previous readings) =
        (valuesOf key readings).destutter' (· ≠ ·) val) ∧
      (previous key = none → valuesOf key (changes previous readings) =
        (valuesOf key readings).destutter (· ≠ ·))
  | _, [] => ⟨fun _ _ => rfl, fun _ => rfl⟩
  | previous, (key', val') :: readings => by
    have ih := valuesOf_changes_from (update previous key' (some val')) readings
    have ihsame := valuesOf_changes_from previous readings
    by_cases hkey : key' = key
    · subst hkey
      have hnew := ih.1 val' (update_self ..)
      rw [changes, valuesOf_cons_self]
      constructor
      · intro val hval
        by_cases hsame : val = val'
        · subst hsame
          rw [if_pos hval, destutter'_cons_neg _ (by simp)]
          exact ihsame.1 val hval
        · rw [if_neg (by simp [hval, hsame]), valuesOf_cons_self, destutter'_cons_pos _ hsame,
            hnew]
      · intro hnone
        rw [if_neg (by simp [hnone]), valuesOf_cons_self, destutter_cons', hnew]
    · -- readings of other keys do not matter
      have hprevious : update previous key' (some val') key = previous key :=
        update_of_ne (Ne.symm hkey) _ _
      rw [hprevious] at ih
      rw [changes, valuesOf_cons_of_ne hkey]
      split
      · exact ihsame
      · rw [valuesOf_cons_of_ne hkey]
        exact ih

/-- **What is reported for a key are its values, with consecutive equal ones dropped.** -/
theorem valuesOf_changes (readings : List (κ × ν)) :
    valuesOf key (changes (fun _ => none) readings) = (valuesOf key readings).destutter (· ≠ ·) :=
  (valuesOf_changes_from key _ readings).2 rfl

end Sensys
