/-
# Queries from filters

`orcm/mca/db/base/db_base_utils.c`: the text of a query for a view and a list of filters.  Every
filter becomes a comparison `column op 'value'`, and the first one is preceded by `where`, the
others by `and`.

The value is printed between quotes AS IT IS.  A quote in it ends the literal, and the rest of the
value is read as SQL.  Unsigned numbers are printed with `%d` and `%ld`, so the upper half of them
comes out negative.  `query_means_filters_iff` says that there is nothing else: the query parses as
the filters ask for exactly when no text has a quote and no unsigned number is in the upper half.

Reading the query is `Sql.parse`.
-/
import Sensys.Lib.Sql
import Mathlib.Data.List.Forall2

namespace Sensys.Orcm.DbQuery

open CString Sql Option

/-! ## 1. The values -/

/-- The `opal_value_t` of a filter, by its type.  For the types that are printed with `%f` or as a
time there is the text that is printed.  All types that have no text are `other`: also `OPAL_BYTE` and
`OPAL_BOOL`, which `is_supported_opal_int_type` counts as integers. -/
inductive OpalValue where
  | string (string : Option Str)
  | int (n : Int32)
  | int8 (n : Int8)
  | int16 (n : Int16)
  | int32 (n : Int32)
  | int64 (n : Int64)
  | uint (n : UInt32)
  | uint8 (n : UInt8)
  | uint16 (n : UInt16)
  | uint32 (n : UInt32)
  | uint64 (n : UInt64)
  | size (n : UInt64)
  | pid (n : Int32)
  | float (text : Str)
  | double (text : Str)
  | timeval (text : Str)
  | time (text : Str)
  | other
  deriving DecidableEq

/-- `get_opal_value_as_sql_string`: `NULL` for a type that is not supported.  A string that is
`NULL` is given to `strdup`. -/
def getOpalValueAsSqlString : OpalValue → Option (Option Str)
  | .string string => string.map some
  | .int n => some (some (decimalInt n.toInt))
  | .int8 n => some (some (decimalInt n.toInt))
  | .int16 n => some (some (decimalInt n.toInt))
  | .int32 n => some (some (decimalInt n.toInt))
  | .int64 n => some (some (decimalInt n.toInt))
  -- `%d` reads 32 bits as a signed number, whatever was given
  | .uint n => some (some (decimalInt n.toInt32.toInt))
  | .uint8 n => some (some (decimalInt n.toNat))
  | .uint16 n => some (some (decimalInt n.toNat))
  | .uint32 n => some (some (decimalInt n.toInt32.toInt))
  -- and `%ld` reads 64
  | .uint64 n => some (some (decimalInt n.toInt64.toInt))
  | .float text => some (some text)
  | .double text => some (some text)
  | .timeval text => some (some text)
  | .time text => some (some text)
  | .size _ => some none
  | .pid _ => some none
  | .other => some none

/-! ## 2. The query -/

/-- `orcm_db_comparison_op_t`. -/
inductive ComparisonOp where
  | none | lt | gt | eq | ne | le | ge | contains | startsWith | endsWith | isIn
  deriving DecidableEq, Repr

/-- `op_strings`. -/
def opStrings : ComparisonOp → Option Str
  | .none => Option.none
  | .lt => ofString " < "
  | .gt => ofString " > "
  | .eq => ofString " = "
  | .ne => ofString " <> "
  | .le => ofString " <= "
  | .ge => ofString " >= "
  | .contains => ofString " like "
  | .startsWith => ofString " like "
  | .endsWith => ofString " like "
  | .isIn => ofString " in "

/-- `orcm_db_filter_t`. -/
structure Filter where
  key : Option Str
  value : OpalValue
  op : ComparisonOp
  deriving DecidableEq

/-- `%s`. -/
def printed (text : Option Str) : Str := text.getD (ofString "(null)")

/-- `add_where_clauses`: the query with one more comparison, or `false`. -/
def addWhereClauses (originalQuery : Str) (filter : Filter) (firstClause : Bool) :
    Option (Option Str) :=
  if filter.op = .none then some Option.none
  else
    let c1 : UInt8 := if filter.op = .isIn then 40 else quote
    let c2 : UInt8 := if filter.op = .isIn then 41 else quote
    (getOpalValueAsSqlString filter.value).map fun val =>
      let and := ofString (if firstClause then " where " else " and ")
      some (originalQuery ++ and ++ printed filter.key ++ printed (opStrings filter.op) ++ [c1] ++
        printed val ++ [c2])

/-- The loop over the filters. -/
def addEach : List Filter → Bool → Str → Option (Option Str)
  | [], _, query => some (some query)
  | filter :: filters, firstClause, query =>
    (addWhereClauses query filter firstClause).bind fun
      | Option.none => some Option.none
      | some query => addEach filters false query

/-- `build_query_from_view_name_and_filters`. -/
def buildQueryFromViewNameAndFilters (viewName : Option Str) (filters : List Filter) :
    Option (Option Str) :=
  match viewName with
  | Option.none => some Option.none
  | some viewName =>
    if viewName.isEmpty then some Option.none
    else if filters.isEmpty then some (some (ofString "select * from " ++ viewName ++ ofString ";"))
    else
      (addEach filters true (ofString "select * from " ++ viewName)).map fun query =>
        query.map (· ++ ofString " LIMIT 10000;")

/-! ## 3. What is meant -/

/-- The comparison of an operator. -/
def meant : ComparisonOp → Option Op
  | .lt => some .lt
  | .gt => some .gt
  | .eq => some .eq
  | .ne => some .ne
  | .le => some .le
  | .ge => some .ge
  | .contains => some .like
  | .startsWith => some .like
  | .endsWith => some .like
  | .none => Option.none
  | .isIn => Option.none

/-- The number an integer value is. -/
def OpalValue.number? : OpalValue → Option ℤ
  | .int n => some n.toInt
  | .int8 n => some n.toInt
  | .int16 n => some n.toInt
  | .int32 n => some n.toInt
  | .int64 n => some n.toInt
  | .uint n => some n.toNat
  | .uint8 n => some n.toNat
  | .uint16 n => some n.toNat
  | .uint32 n => some n.toNat
  | .uint64 n => some n.toNat
  | .size n => some n.toNat
  | .pid n => some n.toInt
  | _ => Option.none

/-- The number that a text is in decimal, with a sign if it is negative. -/
def numberOf : Str → Option ℤ
  | 45 :: digits => if !digits.isEmpty && digits.all isDigit then some (-value digits) else none
  | digits => if !digits.isEmpty && digits.all isDigit then some (value digits) else none

/-- **The literal denotes the value**: it is the same text, or the number in decimal. -/
def Denotes : OpalValue → Str → Prop
  | .string text, literal => text = some literal
  | v, literal => ∃ n, v.number? = some n ∧ numberOf literal = some n

/-- A string, or a signed or unsigned integer. -/
def OpalValue.isData : OpalValue → Bool
  | .string text => text.isSome
  | v => v.number?.isSome

/-- A filter with a column name, an operator other than `NONE` and `IN`, and a value. -/
structure Filter.Plain (filter : Filter) : Prop where
  column : ∃ name, filter.key = some name ∧ isName name = true
  op : (meant filter.op).isSome = true
  value : filter.value.isData = true

/-- The condition is the comparison of the filter. -/
structure Filter.Is (filter : Filter) (condition : Condition) : Prop where
  column : filter.key = some condition.column
  op : meant filter.op = some condition.op
  value : Denotes filter.value condition.literal

/-- **The query means the filters**: it is one `SELECT` on the view, for the rows that meet the
comparisons of the filters in their order. -/
def MeansFilters (viewName : Str) (filters : List Filter) (query : Option (Option Str)) : Prop :=
  ∃ text select, query = some (some text) ∧ parse text = some select ∧ select.table = viewName ∧
    List.Forall₂ Filter.Is filters select.conditions

/-- **The values that survive the printing**: texts without a quote, and the numbers that have a
format, except for the upper half of the unsigned ones. -/
def OpalValue.Printable : OpalValue → Prop
  | .string text => ∀ s, text = some s → quote ∉ s
  | .uint n => n.toNat < 2 ^ 31
  | .uint32 n => n.toNat < 2 ^ 31
  | .uint64 n => n.toNat < 2 ^ 63
  | .size _ => False
  | .pid _ => False
  | _ => True

/-! ## 4. The text of the query -/

/-- What is printed for a value. -/
def sqlText (v : OpalValue) : Str := printed ((getOpalValueAsSqlString v).getD none)

/-- What is printed for a filter. -/
def clause (filter : Filter) (firstClause : Bool) : Str :=
  ofString (if firstClause then " where " else " and ") ++ printed filter.key ++
    printed (opStrings filter.op) ++ [quote] ++ sqlText filter.value ++ [quote]

/-- What is printed for some filters. -/
def clausesText : List Filter → Bool → Str
  | [], _ => []
  | filter :: filters, firstClause => clause filter firstClause ++ clausesText filters false

variable {v : OpalValue} {filter : Filter} {viewName : Str} {filters : List Filter}
  {state : LexState} {token : Token}

theorem getOpalValueAsSqlString_eq (h : v.isData = true) :
    ∃ val, getOpalValueAsSqlString v = some val ∧ printed val = sqlText v := by
  cases v with
  | string text =>
    obtain ⟨s, rfl⟩ := isSome_iff_exists.mp h
    exact ⟨_, rfl, rfl⟩
  | _ => exact ⟨_, rfl, rfl⟩

theorem addWhereClauses_eq (h : filter.Plain) (query : Str) (firstClause : Bool) :
    addWhereClauses query filter firstClause =
      some (some (query ++ clause filter firstClause)) := by
  obtain ⟨key, value, op⟩ := filter
  have hop := h.op
  have hne : op ≠ .none ∧ op ≠ .isIn := by constructor <;> rintro rfl <;> cases hop
  obtain ⟨val, hval, htext⟩ := getOpalValueAsSqlString_eq h.value
  rw [addWhereClauses, if_neg hne.1, if_neg hne.2, if_neg hne.2, hval]
  simp [clause, htext]

theorem addEach_eq : ∀ filters firstClause query,
    (∀ f ∈ filters, Filter.Plain f) →
      addEach filters firstClause query = some (some (query ++ clausesText filters firstClause))
  | [], _, query, _ => by simp [addEach, clausesText]
  | filter :: filters, firstClause, query, h => by
    rw [addEach, addWhereClauses_eq (h _ List.mem_cons_self), clausesText, ← List.append_assoc]
    exact addEach_eq filters false _ fun f hf => h f (List.mem_cons_of_mem _ hf)

/-- The text for a view and some filters. -/
def queryText (viewName : Str) (filters : List Filter) : Str :=
  ofString "select * from " ++ viewName ++ clausesText filters true ++ ofString " LIMIT 10000;"

theorem build_eq (hview : viewName ≠ []) (hne : filters ≠ []) (h : ∀ f ∈ filters, Filter.Plain f) :
    buildQueryFromViewNameAndFilters (some viewName) filters =
      some (some (queryText viewName filters)) := by
  have hview' : viewName.isEmpty = false := by simpa using hview
  have hne' : filters.isEmpty = false := by simpa using hne
  simp [buildQueryFromViewNameAndFilters, hview', hne', addEach_eq _ _ _ h, queryText]

/-! ## 5. Reading it -/

/-- The token of an operator. -/
def opToken : ComparisonOp → Token
  | .lt => .symbol (ofString "<")
  | .gt => .symbol (ofString ">")
  | .eq => .symbol (ofString "=")
  | .ne => .symbol (ofString "<>")
  | .le => .symbol (ofString "<=")
  | .ge => .symbol (ofString ">=")
  | _ => .word (ofString "like")

/-- The keyword before a comparison. -/
def keyword (firstClause : Bool) : Str := ofString (if firstClause then "where" else "and")

theorem lexRun_keyword (h : Pending state token)
    (firstClause : Bool) : lexRun state (ofString (if firstClause then " where " else " and ")) =
      some (.start, [token, .word (keyword firstClause)]) := by
  cases firstClause
  · exact h.run (show lexRun .start (ofString "and ") = _ by decide)
  · exact h.run (show lexRun .start (ofString "where ") = _ by decide)

theorem lexRun_op {op} (h : (meant op).isSome = true) (hstate : Pending state token) :
    lexRun state (printed (opStrings op)) = some (.start, [token, opToken op]) := by
  have hrun : ∃ text, printed (opStrings op) = 32 :: text ∧
      lexRun .start text = some (.start, [opToken op]) := by
    cases op with
    | none => cases h
    | isIn => cases h
    | _ => exact ⟨_, rfl, by decide⟩
  obtain ⟨text, htext, hrun⟩ := hrun
  rw [htext]
  exact hstate.run hrun

/-- **One comparison is read**: up to its literal, which may still go on. -/
theorem lexRun_clause (h : filter.Plain) (hquote : quote ∉ sqlText filter.value)
    (firstClause : Bool) (hstate : Pending state token) :
    lexRun state (clause filter firstClause) = some (.closing (sqlText filter.value),
      [token, .word (keyword firstClause), .word (printed filter.key), opToken filter.op]) := by
  obtain ⟨name, hkey, hname⟩ := h.column
  have hliteral := lexRun_escape (sqlText filter.value) []
  rw [escape_of_notMem hquote] at hliteral
  have hkeyword := lexRun_keyword hstate firstClause
  have hcolumn := lexRun_append_of hkeyword (lexRun_name hname)
  have hop := lexRun_append_of hcolumn (lexRun_op h.op (pending_word name))
  have hopen : lexRun .start [quote] = some (.literal [], []) := by decide
  have hclosed := lexRun_append_of (lexRun_append_of hop hopen) hliteral
  rw [clause, hkey]
  simpa [printed] using hclosed

/-- The condition of a filter, with what is printed for the value. -/
def conditionAt (filter : Filter) : Condition :=
  ⟨printed filter.key, (meant filter.op).getD .eq, sqlText filter.value⟩

theorem opOf_opToken {op} (h : (meant op).isSome = true) :
    opOf (opToken op) = some ((meant op).getD .eq) := by
  cases op with
  | none | isIn => cases h
  | _ => decide

theorem conditionOf_eq (h : filter.Plain) :
    conditionOf (.word (printed filter.key)) (opToken filter.op) (sqlText filter.value) =
      some (conditionAt filter) := by
  obtain ⟨name, hkey, hname⟩ := h.column
  simp [conditionOf, conditionAt, nameOf, hkey, printed, hname, opOf_opToken h.op]

/-- The tokens of `LIMIT 10000;`. -/
def limitTokens : List Token :=
  [.word (ofString "LIMIT"), .number (ofString "10000"), .symbol (ofString ";")]

/-- **The comparisons are read in their order.** -/
theorem lexRun_clauses : ∀ filters {filter} firstClause {state token}, Pending state token →
    (∀ f ∈ filter :: filters, Filter.Plain f ∧ quote ∉ sqlText f.value) →
    ∃ tokens, lexRun state (clausesText (filter :: filters) firstClause ++
        ofString " LIMIT 10000;") = some (.start, token :: .word (keyword firstClause) :: tokens) ∧
      conditions tokens = some ((filter :: filters).map conditionAt, limitTokens)
  | [], filter, firstClause, state, token, hstate, h => by
    obtain ⟨hplain, hquote⟩ := h filter List.mem_cons_self
    have hlimit := (pending_closing (sqlText filter.value)).run
      (show lexRun .start (ofString "LIMIT 10000;") = some (.start, limitTokens) by decide)
    have hrun := lexRun_append_of (lexRun_clause hplain hquote firstClause hstate) hlimit
    refine ⟨.word (printed filter.key) :: opToken filter.op :: .literal (sqlText filter.value) ::
      limitTokens, ?_, ?_⟩
    · rw [clausesText, clausesText, List.append_nil]
      exact hrun
    · rw [limitTokens, conditions, conditionOf_eq hplain]
      rfl
  | next :: filters, filter, firstClause, state, token, hstate, h => by
    obtain ⟨hplain, hquote⟩ := h filter List.mem_cons_self
    obtain ⟨tokens, hlater, hconditions⟩ := lexRun_clauses filters false
      (pending_closing (sqlText filter.value)) fun f hf => h f (List.mem_cons_of_mem _ hf)
    have hrun := lexRun_append_of (lexRun_clause hplain hquote firstClause hstate) hlater
    refine ⟨.word (printed filter.key) :: opToken filter.op :: .literal (sqlText filter.value) ::
      .word (keyword false) :: tokens, ?_, ?_⟩
    · rw [clausesText, List.append_assoc]
      exact hrun
    · have hand : isKeyword "and" (keyword false) = true := by decide
      rw [conditions, conditionOf_eq hplain, bind_some, if_pos hand, hconditions]
      rfl

/-- **Without quotes in the values the query is read as it is meant**, except that a number may be
another one. -/
theorem parse_queryText (hview : isName viewName = true)
    (hne : filters ≠ []) (h : ∀ f ∈ filters, Filter.Plain f ∧ quote ∉ sqlText f.value) :
    parse (queryText viewName filters) = some ⟨viewName, filters.map conditionAt, some 10000⟩ := by
  obtain ⟨filter, filters, rfl⟩ := List.exists_cons_of_ne_nil hne
  obtain ⟨tokens, hclauses, hconditions⟩ :=
    lexRun_clauses filters true (pending_word viewName) h
  have hselect : lexRun .start (ofString "select * from ") = some (.start,
      [.word (ofString "select"), .symbol (ofString "*"), .word (ofString "from")]) := by decide
  have hrun := lexRun_append_of (lexRun_append_of hselect (lexRun_name hview)) hclauses
  rw [← List.append_assoc] at hrun
  have hlex : lex (queryText viewName (filter :: filters)) = some ([.word (ofString "select"),
      .symbol (ofString "*"), .word (ofString "from"), .word viewName, .word (keyword true)] ++
      tokens) := by
    rw [lex, queryText, hrun]
    simp [lexEnd]
  have hkeywords : isKeyword "select" (ofString "select") = true ∧
      isKeyword "from" (ofString "from") = true ∧ isKeyword "where" (keyword true) = true := by
    decide
  have hlimit : ending limitTokens = some (some 10000) := by decide
  rw [parse, hlex]
  simp [statement, clauses, hkeywords, nameOf, hview, hconditions, hlimit]

/-! ## 6. The numbers and the quotes -/

theorem numberOf_decimalInt (n : ℤ) : numberOf (decimalInt n) = some n := by
  have hall : ∀ m, (!(decimal m).isEmpty && (decimal m).all isDigit) = true := fun m => by
    simpa [decimal_ne_nil] using fun c hc => isDigit_of_mem_decimal hc
  cases n with
  | ofNat n =>
    have hhead : ∀ rest, decimal n ≠ 45 :: rest := fun rest heq =>
      absurd (isDigit_of_mem_decimal (heq ▸ List.mem_cons_self)) (by decide)
    rw [decimalInt, numberOf]
    · rw [if_pos (hall n), value_decimal]
      rfl
    · exact hhead
  | negSucc n =>
    rw [decimalInt, numberOf, if_pos (hall _), value_decimal]
    rfl

theorem quote_notMem_decimalInt (n : ℤ) : quote ∉ decimalInt n := by
  have hdecimal : ∀ m, quote ∉ decimal m := fun m hmem =>
    absurd (isDigit_of_mem_decimal hmem) (by decide)
  cases n with
  | ofNat n => exact hdecimal n
  | negSucc n => exact List.not_mem_cons_of_ne_of_not_mem (by decide) (hdecimal (n + 1))

/-- Only a string can have a quote. -/
theorem string_or_notMem (h : v.isData = true) :
    (∃ s, v = .string (some s)) ∨ quote ∉ sqlText v := by
  cases v with
  | string text =>
    obtain ⟨s, rfl⟩ := isSome_iff_exists.mp h
    exact .inl ⟨s, rfl⟩
  | size | pid => exact .inr (show quote ∉ ofString "(null)" by decide)
  | float | double | timeval | time | other => cases h
  | uint8 n | uint16 n => exact .inr (quote_notMem_decimalInt n.toNat)
  | _ => exact .inr (quote_notMem_decimalInt _)

theorem toNat_eq_toInt_iff {w} (x : BitVec w) : (x.toNat : ℤ) = x.toInt ↔ 2 * x.toNat < 2 ^ w := by
  rw [BitVec.toInt_eq_toNat_cond]
  split_ifs <;> omega

/-- **Which values are denoted by what is printed for them.** -/
theorem denotes_sqlText_iff (h : v.isData = true) (hquote : quote ∉ sqlText v) :
    Denotes v (sqlText v) ↔ v.Printable := by
  have hnumber : ∀ {n m : ℤ}, (∃ k, some n = some k ∧ numberOf (decimalInt m) = some k) ↔ n = m :=
    fun {n m} => by simp [numberOf_decimalInt, eq_comm]
  cases v with
  | string text =>
    obtain ⟨s, rfl⟩ := isSome_iff_exists.mp h
    exact iff_of_true rfl fun s' hs' => some.inj hs' ▸ hquote
  | uint n | uint32 n | uint64 n =>
    refine (hnumber.trans (toNat_eq_toInt_iff n.toBitVec)).trans ?_
    change _ ↔ n.toBitVec.toNat < _
    omega
  | size | pid =>
    refine iff_of_false ?_ id
    rintro ⟨n, -, hn⟩
    exact absurd (isSome_of_eq_some hn)
      (show ¬ (numberOf (ofString "(null)")).isSome by decide)
  | float | double | timeval | time | other => cases h
  | _ => exact iff_of_true (hnumber.mpr rfl) trivial

theorem count_clause (h : filter.Plain) (firstClause : Bool) :
    (clause filter firstClause).count quote = 2 + (sqlText filter.value).count quote := by
  obtain ⟨name, hkey, hname⟩ := h.column
  have hkeyword : (ofString (if firstClause then " where " else " and ")).count quote = 0 := by
    cases firstClause <;> decide
  have hop : ∀ op, (printed (opStrings op)).count quote = 0 := fun op => by
    cases op <;> decide
  have hcolumn : (printed filter.key).count quote = 0 := by
    rw [hkey]
    exact count_name hname
  simp only [clause, List.count_append, hkeyword, hcolumn, hop, List.count_singleton_self]
  omega

theorem count_clausesText : ∀ filters firstClause,
    (∀ f ∈ filters, Filter.Plain f) → (clausesText filters firstClause).count quote =
      (filters.map fun f => 2 + (sqlText f.value).count quote).sum
  | [], _, _ => rfl
  | filter :: filters, firstClause, h => by
    rw [clausesText, List.count_append, count_clause (h _ List.mem_cons_self),
      count_clausesText filters false fun f hf => h f (List.mem_cons_of_mem _ hf)]
    rfl

theorem count_queryText (hview : isName viewName = true)
    (h : ∀ f ∈ filters, Filter.Plain f) : (queryText viewName filters).count quote =
      (filters.map fun f => 2 + (sqlText f.value).count quote).sum := by
  have hselect : (ofString "select * from ").count quote = 0 := by decide
  have hlimit : (ofString " LIMIT 10000;").count quote = 0 := by decide
  simp only [queryText, List.count_append, hselect, hlimit, count_name hview,
    count_clausesText _ _ h, Nat.zero_add, Nat.add_zero]

theorem count_le_of_is {condition} (h : filter.Is condition) (hdata : filter.value.isData = true) :
    (sqlText filter.value).count quote ≤ condition.literal.count quote := by
  have hvalue := h.value
  rcases string_or_notMem hdata with ⟨s, hs⟩ | hnotMem
  · rw [hs] at hvalue ⊢
    cases hvalue
    exact le_rfl
  · exact (List.count_eq_zero.mpr hnotMem).trans_le (Nat.zero_le _)

/-- As many quotes are read as are printed only if there are none in the values. -/
theorem quotes_of_is {found} (h : List.Forall₂ Filter.Is filters found)
    (hdata : ∀ f ∈ filters, f.value.isData = true) :
    (filters.map fun f => 2 + (sqlText f.value).count quote).sum ≤ quotesOfConditions found ∧
      (quotesOfConditions found ≤ (filters.map fun f => 2 + (sqlText f.value).count quote).sum →
        ∀ f ∈ filters, quote ∉ sqlText f.value) := by
  induction h with
  | nil => exact ⟨le_rfl, fun _ f hf => absurd hf List.not_mem_nil⟩
  | @cons filter condition filters found hone hmore ih =>
    obtain ⟨hle, hzero⟩ := ih fun f hf => hdata f (List.mem_cons_of_mem _ hf)
    have hcount := count_le_of_is hone (hdata _ List.mem_cons_self)
    simp only [quotesOfConditions, List.map_cons, List.sum_cons] at hle hzero ⊢
    refine ⟨by omega, fun heq f hf => ?_⟩
    rcases List.mem_cons.mp hf with rfl | hf
    · exact List.count_eq_zero.mp (by omega)
    · exact hzero (by omega) f hf

/-! ## 7. The queries that mean their filters -/

theorem forall₂_conditionAt : ∀ {filters}, (∀ f ∈ filters, Filter.Plain f) →
    (List.Forall₂ Filter.Is filters (filters.map conditionAt) ↔
      ∀ f ∈ filters, Denotes f.value (sqlText f.value))
  | [], _ => by simp
  | filter :: filters, h => by
    have hplain := h filter List.mem_cons_self
    obtain ⟨name, hkey, -⟩ := hplain.column
    obtain ⟨op, hop⟩ := isSome_iff_exists.mp hplain.op
    have hone : filter.Is (conditionAt filter) ↔ Denotes filter.value (sqlText filter.value) :=
      ⟨Filter.Is.value, fun hvalue => ⟨by simp [conditionAt, hkey, printed],
        by simp [conditionAt, hop], hvalue⟩⟩
    rw [List.map_cons, List.forall₂_cons, hone, List.forall_mem_cons,
      forall₂_conditionAt fun f hf => h f (List.mem_cons_of_mem _ hf)]

/-- **The query means the filters exactly when every value survives the printing.** -/
theorem query_means_filters_iff (viewName : Str) (filters : List Filter)
    (hview : isName viewName = true) (hne : filters ≠ []) (h : ∀ f ∈ filters, Filter.Plain f) :
    MeansFilters viewName filters (buildQueryFromViewNameAndFilters (some viewName) filters) ↔
      ∀ f ∈ filters, f.value.Printable := by
  have hnil : viewName ≠ [] := by rintro rfl; cases hview
  have hforall := forall₂_conditionAt h
  rw [build_eq hnil hne h]
  constructor
  · rintro ⟨text, select, htext, hparse, -, his⟩
    cases htext
    have hcount := quotes_of_parse hparse
    rw [count_queryText hview h] at hcount
    have hquote := (quotes_of_is his fun f hf => (h f hf).value).2 hcount.ge
    rw [parse_queryText hview hne fun f hf => ⟨h f hf, hquote f hf⟩] at hparse
    cases hparse
    intro f hf
    exact (denotes_sqlText_iff (h f hf).value (hquote f hf)).mp (hforall.mp his f hf)
  · intro hprintable
    have hquote : ∀ f ∈ filters, quote ∉ sqlText f.value := fun f hf => by
      rcases string_or_notMem (h f hf).value with ⟨s, hs⟩ | hnotMem
      · have hone := hprintable f hf
        rw [hs] at hone ⊢
        exact hone s rfl
      · exact hnotMem
    refine ⟨_, _, rfl, parse_queryText hview hne fun f hf => ⟨h f hf, hquote f hf⟩, rfl,
      hforall.mpr fun f hf => ?_⟩
    exact (denotes_sqlText_iff (h f hf).value (hquote f hf)).mpr (hprintable f hf)

/-- A filter with a text, and one with a number. -/
def hostFilters : List Filter :=
  [⟨some (ofString "hostname"), .string (some (ofString "node01")), .eq⟩,
    ⟨some (ofString "severity"), .uint 4, .le⟩]

theorem hostFilters_plain : ∀ f ∈ hostFilters, Filter.Plain f := by
  intro f hf
  rcases List.mem_cons.mp hf with rfl | hf
  · exact ⟨⟨_, rfl, by decide⟩, rfl, rfl⟩
  · obtain rfl := List.mem_singleton.mp hf
    exact ⟨⟨_, rfl, by decide⟩, rfl, rfl⟩

/-- Events of a host are asked for as they are meant. -/
theorem query_means_filters_iff_host : MeansFilters (ofString "event_view") hostFilters
      (buildQueryFromViewNameAndFilters (some (ofString "event_view")) hostFilters) := by
  refine (query_means_filters_iff _ _ (by decide) (by decide) hostFilters_plain).mpr ?_
  intro f hf
  rcases List.mem_cons.mp hf with rfl | hf
  · rintro s hs
    cases hs
    decide
  · obtain rfl := List.mem_singleton.mp hf
    exact show (4 : UInt32).toNat < 2 ^ 31 by decide

/-- A value that closes its literal, and goes on. -/
def openFilter : Filter :=
  ⟨some (ofString "hostname"), .string (some (ofString "x' or 'a' like 'a")), .eq⟩

/-- **A value becomes SQL**: the query asks for all rows, and its text is not a conjunction. -/
theorem value_is_read_as_sql :
    buildQueryFromViewNameAndFilters (some (ofString "event_view")) [openFilter] =
      some (some (ofString
        "select * from event_view where hostname = 'x' or 'a' like 'a' LIMIT 10000;")) ∧
    isName (ofString "event_view") = true ∧ openFilter.Plain ∧
    ¬ MeansFilters (ofString "event_view") [openFilter]
      (buildQueryFromViewNameAndFilters (some (ofString "event_view")) [openFilter]) := by
  refine ⟨by decide, by decide, ⟨⟨_, rfl, by decide⟩, rfl, rfl⟩, ?_⟩
  rintro ⟨text, select, htext, hparse, -⟩
  cases htext
  exact absurd (isSome_of_eq_some hparse) (by decide)

end Sensys.Orcm.DbQuery
