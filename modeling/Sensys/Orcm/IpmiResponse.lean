/-
# The board that a FRU response describes

`IPMIResponse::fru_data_cmd_to_data_container` (`orcm/mca/sensor/ipmi_ts/ipmiResponseFactory.cpp`)
decodes the board area of a response: the date of manufacture at a fixed place, and behind it four
fields, each with a byte in front that has its length in six bits.  So where a field starts depends
on all the lengths before it, and where the area starts on a byte of the header.

The length of the response is looked at ONCE, for the header; `operator[]` of a vector is not
checked.  A read behind the end gives `none` here.

* `fru_inside_iff`: every field is decoded from the response exactly if the four fields end in it.
* `fru_reads_behind`: a response of five bytes.

`localtime` and `strftime` are a parameter: the text for a number of seconds.
-/
import Sensys.Lib.CString

namespace Sensys.Orcm.IpmiResponse

open CString List

/-! ## 1. The decoder -/

section Decoder

variable (date : ℕ → Str) (buffer : List UInt8)

/-- `get_manuf_date`: minutes since 1996, in three bytes. -/
def getManufDate (fruOffset : ℕ) : Option (Str × Str) := do
  let byte0 ← buffer[fruOffset + 3]?
  let byte1 ← buffer[fruOffset + 4]?
  let byte2 ← buffer[fruOffset + 5]?
  let manufMinutes := byte0.toNat + byte1.toNat * 2 ^ 8 + byte2.toNat * 2 ^ 16
  pure (ofString "bb_manufactured_date", date (manufMinutes * 60 + 820454400))

/-- The bytes of a field, read one by one. -/
def readBytes (fruOffset : ℕ) : ℕ → Option Str
  | 0 => some []
  | len + 1 => do
    let data ← readBytes fruOffset len
    let byte ← buffer[fruOffset + len]?
    pure (data ++ [byte])

/-- The loop of `get_fru_data` over the names of the fields.  A `'\0'` is put behind each. -/
def getFields : List Str → ℕ → Option (List (Str × Str))
  | [], _ => some []
  | name :: names, fruOffset => do
    let byte ← buffer[fruOffset]?
    let boardDataLen := (byte &&& 0x3f).toNat
    let boardData ← readBytes buffer (fruOffset + 1) boardDataLen
    let rest ← getFields names (fruOffset + 1 + boardDataLen)
    pure ((name, boardData ++ [0]) :: rest)

/-- `fru_data`. -/
def fruData : List Str :=
  [ofString "bb_vendor", ofString "bb_product", ofString "bb_serial", ofString "bb_part"]

/-- `get_fru_data`: what is added to the container. -/
def getFruData (fruOffset : ℕ) : Option (List (Str × Str)) := do
  let manufDate ← getManufDate date buffer fruOffset
  let fields ← getFields buffer fruData (fruOffset + 6)
  pure (manufDate :: fields)

/-- `fru_data_cmd_to_data_container`. -/
def fruDataCmdToDataContainer : Option (List (Str × Str)) :=
  if buffer.length ≤ 4 then some []
  else do
    let byte ← buffer[3]?
    getFruData date buffer (byte.toNat * 8)

end Decoder

/-! ## 2. What a response announces -/

section Announced

variable (date : ℕ → Str) (buffer : List UInt8)

def byteAt (i : ℕ) : ℕ := (buffer.getD i 0).toNat

/-- The length that the byte at a place announces. -/
def lengthAt (i : ℕ) : ℕ := byteAt buffer i % 64

/-- Where a field starts, if the first one starts there: behind those before it. -/
def fieldStart (start : ℕ) : ℕ → ℕ
  | 0 => start
  | i + 1 => fieldStart (start + 1 + lengthAt buffer start) i

/-- The substring that is announced at a place, as it is kept. -/
def fieldText (start : ℕ) : Str := (buffer.drop (start + 1)).take (lengthAt buffer start) ++ [0]

/-- `fru_offset`, where the area of the board starts. -/
def areaStart : ℕ := byteAt buffer 3 * 8

/-- What is added comes from the response: a field is the substring that is announced at its place,
which ends in the response, and so does the date. -/
structure Inside (added : List (Str × Str)) : Prop where
  manufDate : ∀ text, (ofString "bb_manufactured_date", text) ∈ added →
    areaStart buffer + 6 ≤ buffer.length ∧ text = date (
      (byteAt buffer (areaStart buffer + 3) + byteAt buffer (areaStart buffer + 4) * 2 ^ 8 +
        byteAt buffer (areaStart buffer + 5) * 2 ^ 16) * 60 + 820454400)
  field : ∀ i name text, fruData[i]? = some name → (name, text) ∈ added →
    fieldStart buffer (areaStart buffer + 6) (i + 1) ≤ buffer.length ∧
      text = fieldText buffer (fieldStart buffer (areaStart buffer + 6) i)

variable {date buffer}

theorem getElem?_of_lt {i : ℕ} (h : i < buffer.length) : buffer[i]? = some (buffer.getD i 0) := by
  simp [h]

theorem readBytes_eq {start len : ℕ} (hstart : start ≤ buffer.length) :
    readBytes buffer start len =
      if start + len ≤ buffer.length then some ((buffer.drop start).take len) else none := by
  induction len with
  | zero => simp [readBytes, hstart]
  | succ len ih =>
    rw [readBytes, ih]
    by_cases hlen : start + len < buffer.length
    · simp [hlen, Nat.le_of_lt hlen, take_add_one, Nat.succ_le_of_lt hlen, ← Nat.add_assoc]
    · simp [hlen, Nat.not_le.mpr (Nat.lt_succ_of_le (Nat.not_lt.mp hlen)), ← Nat.add_assoc]

theorem fieldStart_mono {i n : ℕ} (start : ℕ) (h : i ≤ n) :
    fieldStart buffer start i ≤ fieldStart buffer start n := by
  induction n generalizing start i with
  | zero => rw [Nat.le_zero.mp h]
  | succ n ih =>
    cases i with
    | zero =>
      refine Nat.le_trans ?_ (ih (start + 1 + lengthAt buffer start) (Nat.zero_le n))
      rw [fieldStart, fieldStart]
      omega
    | succ i => exact ih _ (Nat.le_of_succ_le_succ h)

/-- The mask of `get_fru_data` is the remainder modulo 64. -/
theorem and_toNat (i : ℕ) : (buffer.getD i 0 &&& 0x3f).toNat = lengthAt buffer i := by
  rw [UInt8.toNat_and]
  exact Nat.and_two_pow_sub_one_eq_mod _ 6

/-- **The fields are decoded exactly if the last of them ends in the response.** -/
theorem getFields_eq {names : List Str} {start : ℕ} (hstart : start ≤ buffer.length) :
    getFields buffer names start =
      if fieldStart buffer start names.length ≤ buffer.length then
        some (names.mapIdx fun i name => (name, fieldText buffer (fieldStart buffer start i)))
      else none := by
  induction names generalizing start with
  | nil => simp [getFields, fieldStart, hstart]
  | cons name names ih =>
    have hend := @fieldStart_mono buffer 0 names.length (start + 1 + lengthAt buffer start)
      (Nat.zero_le _)
    rw [fieldStart] at hend
    rw [getFields, length_cons, fieldStart, mapIdx_cons]
    rcases Nat.lt_or_eq_of_le hstart with hlt | rfl
    · rw [getElem?_of_lt hlt]
      simp only [Option.bind_eq_bind, Option.bind_some, and_toNat, readBytes_eq hlt]
      by_cases hfits : start + 1 + lengthAt buffer start ≤ buffer.length
      · rw [if_pos hfits, Option.bind_some, ih hfits]
        split <;> rfl
      · rw [if_neg hfits, if_neg (by omega)]
        rfl
    · rw [getElem?_eq_none (Nat.le_refl _), if_neg (by omega)]
      rfl

/-- **Everything is decoded from the response exactly if** it is too short for anything, or the four
fields end in it. -/
theorem fru_inside_iff (date : ℕ → Str) (buffer : List UInt8) :
    (∃ added, fruDataCmdToDataContainer date buffer = some added ∧ Inside date buffer added) ↔
      buffer.length ≤ 4 ∨ fieldStart buffer (areaStart buffer + 6) 4 ≤ buffer.length := by
  unfold fruDataCmdToDataContainer
  split
  · rename_i hshort
    refine iff_of_true ⟨[], rfl, ?_, ?_⟩ (Or.inl hshort) <;> simp
  · rename_i hlong
    rw [or_iff_right hlong, getElem?_of_lt (show 3 < buffer.length by omega)]
    change (∃ added, getFruData date buffer (areaStart buffer) = some added ∧ _) ↔ _
    have hend := @fieldStart_mono buffer 0 4 (areaStart buffer + 6) (Nat.zero_le _)
    rw [fieldStart] at hend
    by_cases hdate : areaStart buffer + 6 ≤ buffer.length
    · rw [getFruData, getFields_eq hdate, getManufDate, getElem?_of_lt (by omega),
        getElem?_of_lt (by omega), getElem?_of_lt (by omega)]
      split
      · rename_i hfits
        have hnotDate : ofString "bb_manufactured_date" ∉ fruData := by decide
        refine iff_of_true ⟨_, rfl, ?_, ?_⟩ hfits
        · intro text htext
          obtain heq | hmem := mem_cons.mp htext
          · exact ⟨hdate, (Prod.mk.inj heq).2⟩
          · obtain ⟨j, hj, heq⟩ := mem_mapIdx.mp hmem
            exact absurd ((Prod.mk.inj heq).1 ▸ getElem_mem hj) hnotDate
        · intro i name text hname htext
          obtain heq | hmem := mem_cons.mp htext
          · exact absurd ((Prod.mk.inj heq).1 ▸ mem_of_getElem? hname) hnotDate
          · obtain ⟨j, hj, heq⟩ := mem_mapIdx.mp hmem
            obtain ⟨rfl, rfl⟩ := Prod.mk.inj heq
            obtain rfl : j = i := (getElem?_inj hj (by decide)).mp
              ((getElem?_eq_getElem hj).trans hname.symm)
            exact ⟨Nat.le_trans (fieldStart_mono _ hj) hfits, rfl⟩
      · rename_i hfits
        refine iff_of_false ?_ hfits
        rintro ⟨added, hadded, -⟩
        cases hadded
    · refine iff_of_false ?_ (by omega)
      rintro ⟨added, hadded, -⟩
      have hbehind : buffer.length ≤ areaStart buffer + 5 := by omega
      simp [getFruData, getManufDate, getElem?_eq_none hbehind] at hadded

end Announced

/-- **A response of five bytes**, whose date would be in bytes 3 to 5. -/
theorem fru_reads_behind : ¬ ∃ added, fruDataCmdToDataContainer (fun _ => []) [1, 0, 0, 0, 0] =
    some added ∧ Inside (fun _ => []) [1, 0, 0, 0, 0] added := by
  rintro ⟨added, hadded, -⟩
  cases hadded

end Sensys.Orcm.IpmiResponse
