/-
# The list of OIDs

`snmpCollector::splitString` of `orcm/mca/sensor/snmp/snmp_collector.cpp`, which cuts the OIDs of an
aggregator out of one string.  The loop asks whether a character is the delimiter AND the item has
something in it; the other branch appends the character, so that a delimiter that stands at the start
or behind another one becomes the first character of the next item.

`List.splitOn` has the pieces between the delimiters.  Over them the loop is `overPieces`, where what
is left of an empty piece is its delimiter.

* `splitString_eq_overPieces`: the loop over the characters is the one over the pieces.
* `splits_iff`: the result is that of the non-empty pieces, trimmed, if and only if no piece but the
  last is empty; if the delimiter is white space, which `trim` removes again, an empty piece may stand
  before one that is not.
-/
import Sensys.Lib.Istream
import Sensys.Orcm.Pugi

namespace Sensys.Orcm.Snmp

open List Pugi CString

/-! ## 1. The loop -/

variable (delimiter : UInt8)

/-- The loop of `splitString`: the characters still to come, and `item`. -/
def splitFrom : Str → Str → List Str
  | [], item => if item.isEmpty then [] else [trim item]
  | c :: input, item =>
    if c = delimiter ∧ item.isEmpty = false then trim item :: splitFrom input []
    else splitFrom input (item ++ [c])

/-- `splitString`. -/
def splitString (input : Str) : List Str := splitFrom delimiter input []

/-- The fields between the delimiters that are not empty, trimmed. -/
def fields (pieces : List Str) : List Str := (pieces.filter (!·.isEmpty)).map trim

/-! ## 2. The loop over the pieces -/

/-- What the loop makes of the pieces if `item` is what it starts with. -/
def overPieces : Str → List Str → List Str
  | _, [] => []
  | item, piece :: pieces =>
    if item ++ piece = [] then overPieces [delimiter] pieces
    else trim (item ++ piece) :: overPieces [] pieces

theorem splitFrom_eq_overPieces : ∀ input item : Str,
    splitFrom delimiter input item = overPieces delimiter item (input.splitOn delimiter)
  | [], item => by cases item <;> simp [splitFrom, overPieces]
  | c :: input, item => by
    rw [splitFrom, splitOn_cons_eq_if_modifyHead]
    obtain ⟨piece, pieces, hsplit⟩ := exists_cons_of_ne_nil (splitOn_ne_nil delimiter input)
    by_cases hc : c = delimiter
    · -- a piece ends here, and `item` decides where the delimiter goes
      cases item <;> simp [hc, overPieces, splitFrom_eq_overPieces input]
    · simp [hc, hsplit, overPieces, splitFrom_eq_overPieces input]

theorem splitString_eq_overPieces (input : Str) :
    splitString delimiter input = overPieces delimiter [] (input.splitOn delimiter) :=
  splitFrom_eq_overPieces delimiter input []

/-- No field is lost. -/
theorem length_fields_le : ∀ item pieces,
    (fields pieces).length ≤ (overPieces delimiter item pieces).length
  | _, [] => Nat.le_refl 0
  | item, piece :: pieces => by
    have hrest := fun item => length_fields_le item pieces
    cases piece with
    | nil =>
      rw [overPieces]
      split
      · exact hrest _
      · exact (hrest []).trans (Nat.le_succ _)
    | cons a piece =>
      rw [overPieces, if_neg (by simp)]
      exact Nat.succ_le_succ (hrest [])

/-! ## 3. Which strings are split well -/

theorem mem_of_mem_trim {c s} (h : c ∈ trim s) : c ∈ s :=
  ( List.rdropWhile_prefix isSpace s).subset ((dropWhile_suffix isSpace).subset h)

theorem trim_cons (c : UInt8) (s : Str) :
    trim (c :: s) = if isSpace c then trim s else c :: s.rdropWhile isSpace := by
  rw [trim, trim, rdropWhile, rdropWhile, reverse_cons, dropWhile_append]
  cases hrest : s.reverse.dropWhile isSpace with
  | nil => cases hc : isSpace c <;> simp [hc]
  | cons a rest => cases hc : isSpace c <;> simp [hc]

/-- A delimiter in front of a piece is removed again if it is white space. -/
theorem trim_cons_eq_iff {piece} (hpiece : delimiter ∉ piece) :
    trim (delimiter :: piece) = trim piece ↔ isSpace delimiter = true := by
  rw [trim_cons]
  split
  · next hspace => simp [hspace]
  · next hspace =>
    refine iff_of_false (fun h => hpiece (mem_of_mem_trim ?_)) hspace
    rw [← h]
    exact mem_cons_self

/-- An empty piece is followed by one that is not, and its delimiter can be trimmed. -/
def Harmless (piece next : Str) : Prop := piece = [] → isSpace delimiter = true ∧ next ≠ []

theorem isChain_cons_iff (a : UInt8) (piece : Str) (pieces : List Str) :
    IsChain (Harmless delimiter) ((a :: piece) :: pieces) ↔
      IsChain (Harmless delimiter) pieces := by
  cases pieces <;> simp [Harmless]

theorem overPieces_nil_iff : ∀ {pieces}, (∀ piece ∈ pieces, delimiter ∉ piece) →
    (overPieces delimiter [] pieces = fields pieces ↔ IsChain (Harmless delimiter) pieces)
  | [], _ => by simp [overPieces, fields]
  | [piece], _ => by cases piece <;> simp [overPieces, fields]
  | [] :: [] :: pieces, _ => by
    -- the first delimiter is a field of its own
    refine iff_of_false (fun h => ?_) fun h => ((isChain_cons_cons.mp h).1 rfl).2 rfl
    have hmore := length_fields_le delimiter [] pieces
    have hlength := congrArg List.length h
    simp [overPieces, fields] at hlength hmore
    omega
  | [] :: (a :: piece) :: pieces, h => by
    have hrest := overPieces_nil_iff fun p hp => h p (mem_cons_of_mem _ (mem_cons_of_mem _ hp))
    have hpiece := trim_cons_eq_iff delimiter (h (a :: piece) (by simp))
    rw [isChain_cons_cons, isChain_cons_iff, ← hrest]
    simp [overPieces, fields, Harmless, hpiece]
  | (a :: piece) :: pieces, h => by
    have hrest := overPieces_nil_iff fun p hp => h p (mem_cons_of_mem _ hp)
    rw [isChain_cons_iff, ← hrest]
    simp [overPieces, fields]

/-- **Splitting a string.**  The result is that of the non-empty fields between the delimiters,
trimmed and in order, and has no delimiter in it, if and only if each empty piece of the string is the
last one, or is followed by one that is not empty, with a delimiter that is white space. -/
theorem splits_iff (input : Str) :
    (splitString delimiter input = fields (input.splitOn delimiter) ∧
      ∀ field ∈ splitString delimiter input, delimiter ∉ field) ↔
      IsChain (Harmless delimiter) (input.splitOn delimiter) := by
  have hpieces : ∀ piece ∈ input.splitOn delimiter, delimiter ∉ piece := fun piece =>
    Istream.not_mem_of_mem_splitOn
  rw [← overPieces_nil_iff delimiter hpieces, ← splitString_eq_overPieces, and_iff_left_iff_imp]
  intro h field hfield hmem
  rw [h] at hfield
  obtain ⟨piece, hpiece, rfl⟩ := mem_map.mp hfield
  exact hpieces piece (mem_of_mem_filter hpiece) (mem_of_mem_trim hmem)

/-- **A delimiter that is no white space** must not stand at the start of the string, and two of them
must not stand together: `,1.3` and `1.3,,1.4` have an OID with a comma. -/
theorem comma_in_field :
    splitString 44 [44, 49, 46, 51] = [[44, 49, 46, 51]] ∧
    splitString 44 [49, 46, 51, 44, 44, 49, 46, 52] = [[49, 46, 51], [44, 49, 46, 52]] ∧
    fields ([49, 46, 51, 44, 44, 49, 46, 52].splitOn 44) = [[49, 46, 51], [49, 46, 52]] := by
  decide

end Sensys.Orcm.Snmp
