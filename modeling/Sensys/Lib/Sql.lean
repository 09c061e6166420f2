/-
# A fragment of SQL

The text of a `SELECT` on one table, with a conjunction of comparisons between columns and quoted
literals, and how it is read: characters to tokens (`lex`), tokens to a statement (`statement`).

A literal stands between single quotes, and a quote INSIDE it is written twice.  That makes quotes
the one character that a value cannot contain as it is:

* `lexRun_escape`: a text with its quotes doubled is read back as that text;
* `quotes_of_parse`: a statement accounts for every quote of its text, two for each literal and two
  more for each quote in one.

The lexer is a state machine, so that a text can be read piece by piece (`lexRun_append`).
-/
import Sensys.Lib.CString

namespace Sensys.Sql

open CString List

/-! ## 1. Tokens -/

/-- The single quote. -/
abbrev quote : UInt8 := 39

/-- A token: a keyword or an identifier, a number, a literal, or a symbol. -/
inductive Token where
  | word (text : Str)
  | number (digits : Str)
  | literal (text : Str)
  | symbol (text : Str)
  deriving DecidableEq, Repr

/-- Where the lexer is.  `closing` is behind a quote that ends the literal, unless another one
follows; `symbol` is behind a symbol that may go on. -/
inductive LexState where
  | start
  | word (text : Str)
  | number (digits : Str)
  | literal (text : Str)
  | closing (text : Str)
  | symbol (c : UInt8)
  deriving DecidableEq, Repr

/-- A letter or an underscore. -/
def isWordStart (c : UInt8) : Bool := isAlpha c || c == 95

/-- A character of a word. -/
def isWordChar (c : UInt8) : Bool := isWordStart c || isDigit c

/-- A character between tokens. -/
def beginToken (c : UInt8) : Option (LexState × List Token) :=
  if isSpace c then some (.start, [])
  else if isWordStart c then some (.word [c], [])
  else if isDigit c then some (.number [c], [])
  else if c = quote then some (.literal [], [])
  -- `<` and `>` may be the first of two characters
  else if c = 60 ∨ c = 62 then some (.symbol c, [])
  -- `=`, `*` and `;`
  else if c = 61 ∨ c = 42 ∨ c = 59 then some (.start, [.symbol [c]])
  else none

/-- A character that ends a token. -/
def endToken (token : Token) (c : UInt8) : Option (LexState × List Token) :=
  (beginToken c).map fun next => (next.1, token :: next.2)

/-- One character. -/
def lexStep : LexState → UInt8 → Option (LexState × List Token)
  | .start, c => beginToken c
  | .word text, c =>
    if isWordChar c then some (.word (text ++ [c]), []) else endToken (.word text) c
  | .number digits, c =>
    if isDigit c then some (.number (digits ++ [c]), []) else endToken (.number digits) c
  | .literal text, c =>
    if c = quote then some (.closing text, []) else some (.literal (text ++ [c]), [])
  | .closing text, c =>
    if c = quote then some (.literal (text ++ [c]), []) else endToken (.literal text) c
  | .symbol s, c =>
    -- `<=`, `>=` and `<>`
    if c = 61 ∨ (s = 60 ∧ c = 62) then some (.start, [.symbol [s, c]])
    else endToken (.symbol [s]) c

/-- The characters of a text. -/
def lexRun : LexState → Str → Option (LexState × List Token)
  | state, [] => some (state, [])
  | state, c :: text =>
    (lexStep state c).bind fun step =>
      (lexRun step.1 text).map fun rest => (rest.1, step.2 ++ rest.2)

/-- The end of the text: a literal must be closed. -/
def lexEnd : LexState → Option (List Token)
  | .start => some []
  | .word text => some [.word text]
  | .number digits => some [.number digits]
  | .literal _ => none
  | .closing text => some [.literal text]
  | .symbol c => some [.symbol [c]]

/-- The tokens of a text. -/
def lex (text : Str) : Option (List Token) :=
  (lexRun .start text).bind fun run => (lexEnd run.1).map (run.2 ++ ·)

/-- **Texts are read piece by piece.** -/
theorem lexRun_append :
    ∀ {state state' text tokens} (_ : lexRun state text = some (state', tokens)) rest,
    lexRun state (text ++ rest) = (lexRun state' rest).map fun r => (r.1, tokens ++ r.2)
  | state, state', [], tokens, h, rest => by
    cases h
    rw [nil_append]
    cases lexRun state rest <;> rfl
  | state, state', c :: text, tokens, h, rest => by
    obtain ⟨⟨state₁, tokens₁⟩, hstep, h⟩ := Option.bind_eq_some_iff.mp h
    obtain ⟨⟨state₂, later⟩, hrun, h⟩ := Option.map_eq_some_iff.mp h
    cases h
    rw [cons_append, lexRun, hstep, Option.bind_some, lexRun_append hrun rest, Option.map_map]
    exact congrArg (fun f => Option.map f _) (funext fun r => by simp)

variable {state state' : LexState} {text name : Str} {tokens : List Token} {token : Token}
  {c : UInt8}

theorem lexRun_append_of {state'' rest later} (h : lexRun state text = some (state', tokens))
    (hrest : lexRun state' rest = some (state'', later)) :
    lexRun state (text ++ rest) = some (state'', tokens ++ later) := by
  rw [lexRun_append h, hrest]
  rfl

/-- A blank ends the token. -/
def Pending (state : LexState) (token : Token) : Prop := lexStep state 32 = some (.start, [token])

theorem Pending.run (h : Pending state token) (hrun : lexRun .start text = some (state', tokens)) :
    lexRun state (32 :: text) = some (state', token :: tokens) := by
  rw [lexRun, h, Option.bind_some, hrun]
  rfl

theorem pending_word (text : Str) : Pending (.word text) (.word text) := rfl

theorem pending_closing (text : Str) : Pending (.closing text) (.literal text) := rfl

/-- A word goes on as long as it has word characters. -/
theorem lexRun_word : ∀ more text, (∀ c ∈ more, isWordChar c = true) →
    lexRun (.word text) more = some (.word (text ++ more), [])
  | [], text, _ => by simp [lexRun]
  | c :: more, text, h => by
    have hc := h c mem_cons_self
    rw [lexRun, lexStep, if_pos hc, Option.bind_some,
      lexRun_word more _ fun d hd => h d (mem_cons_of_mem _ hd)]
    simp

/-- A text with its quotes doubled. -/
def escape (text : Str) : Str := text.flatMap fun c => if c = quote then [quote, quote] else [c]

theorem escape_of_notMem (h : quote ∉ text) : escape text = text := by
  induction text with
  | nil => rfl
  | cons c text ih =>
    have hc : c ≠ quote := fun heq => h (heq ▸ mem_cons_self)
    rw [escape, flatMap_cons, if_neg hc]
    exact congrArg (c :: ·) (ih fun hmem => h (mem_cons_of_mem _ hmem))

/-- **A literal is read back**: its quotes are doubled, and it is closed by one. -/
theorem lexRun_escape : ∀ text before,
    lexRun (.literal before) (escape text ++ [quote]) = some (.closing (before ++ text), [])
  | [], before => by
    simp [escape, lexRun, lexStep]
  | c :: text, before => by
    have ih := lexRun_escape text (before ++ [c])
    by_cases hc : c = quote
    · subst hc
      have hescape : escape (quote :: text) ++ [quote] =
          quote :: quote :: (escape text ++ [quote]) := by simp [escape]
      simp [hescape, lexRun, lexStep, ih]
    · have hescape : escape (c :: text) ++ [quote] = c :: (escape text ++ [quote]) := by
        simp [escape, hc]
      simp [hescape, lexRun, lexStep, hc, ih]

/-! ## 2. Quotes -/

/-- The quotes a token is written with. -/
def Token.quotes : Token → ℕ
  | .literal text => 2 + 2 * text.count quote
  | _ => 0

@[simp] theorem Token.quotes_word (text : Str) : (Token.word text).quotes = 0 := rfl

@[simp] theorem Token.quotes_literal (text : Str) :
    (Token.literal text).quotes = 2 + 2 * text.count quote := rfl

/-- The quotes of a token that has begun. -/
def LexState.quotes : LexState → ℕ
  | .literal text => 1 + 2 * text.count quote
  | .closing text => 2 + 2 * text.count quote
  | _ => 0

/-- The quotes of some tokens. -/
def quotesOf (tokens : List Token) : ℕ := (tokens.map Token.quotes).sum

theorem quotesOf_append (tokens later : List Token) :
    quotesOf (tokens ++ later) = quotesOf tokens + quotesOf later := by
  simp [quotesOf]

theorem quotesOf_cons (token : Token) (tokens : List Token) :
    quotesOf (token :: tokens) = token.quotes + quotesOf tokens := by
  simp [quotesOf]

theorem quotes_beginToken (h : beginToken c = some (state, tokens)) :
    quotesOf tokens + state.quotes = [c].count quote := by
  unfold beginToken at h
  split_ifs at h with hspace hword hdigit hquote hless hone <;> cases h
  iterate 3
    have hne : c ≠ quote := by rintro rfl; contradiction
    simp [quotesOf, LexState.quotes, hne]
  all_goals simp [quotesOf, LexState.quotes, Token.quotes, hquote]

theorem quotes_endToken (h : endToken token c = some (state, tokens)) :
    quotesOf tokens + state.quotes = token.quotes + [c].count quote := by
  obtain ⟨⟨state', later⟩, hbegin, h⟩ := Option.map_eq_some_iff.mp h
  cases h
  rw [quotesOf_cons, Nat.add_assoc, quotes_beginToken hbegin]

/-- **Each character is accounted for.** -/
theorem quotes_lexStep (h : lexStep state c = some (state', tokens)) :
    quotesOf tokens + state'.quotes = state.quotes + [c].count quote := by
  cases state with
  | start => simpa [LexState.quotes] using quotes_beginToken h
  | word text | number digits =>
    rw [lexStep] at h
    split_ifs at h with hc
    · cases h
      have hne : c ≠ quote := by rintro rfl; exact absurd hc (by decide)
      simp [quotesOf, LexState.quotes, hne]
    · exact quotes_endToken h
  | literal text =>
    rw [lexStep] at h
    split_ifs at h with hc
    · cases h
      subst hc
      simp [quotesOf, LexState.quotes]
      omega
    · cases h
      simp [quotesOf, LexState.quotes, hc]
  | closing text =>
    rw [lexStep] at h
    split_ifs at h with hc
    · cases h
      subst hc
      simp [quotesOf, LexState.quotes]
      omega
    · exact quotes_endToken h
  | symbol s =>
    rw [lexStep] at h
    split_ifs at h with hc
    · cases h
      have hne : c ≠ quote := by
        rintro rfl
        rcases hc with heq | ⟨-, heq⟩ <;> exact absurd heq (by decide)
      simp [quotesOf, LexState.quotes, Token.quotes, hne]
    · exact quotes_endToken h

theorem quotes_lexRun : ∀ {text state state' tokens},
    lexRun state text = some (state', tokens) →
      quotesOf tokens + state'.quotes = state.quotes + text.count quote
  | [], state, state', tokens, h => by
    cases h
    simp [quotesOf]
  | c :: text, state, state', tokens, h => by
    obtain ⟨⟨state₁, tokens₁⟩, hstep, h⟩ := Option.bind_eq_some_iff.mp h
    obtain ⟨⟨state₂, later⟩, hrun, h⟩ := Option.map_eq_some_iff.mp h
    cases h
    have h₁ := quotes_lexStep hstep
    have h₂ := quotes_lexRun hrun
    rw [count_cons, count_nil] at h₁
    simp only [quotesOf_append, count_cons] at h₂ ⊢
    omega

/-- **The tokens of a text account for its quotes.** -/
theorem quotes_lex (h : lex text = some tokens) : quotesOf tokens = text.count quote := by
  obtain ⟨⟨state, before⟩, hrun, h⟩ := Option.bind_eq_some_iff.mp h
  obtain ⟨last, hend, rfl⟩ := Option.map_eq_some_iff.mp h
  have hquotes := quotes_lexRun hrun
  have hlast : quotesOf last = state.quotes := by
    cases state with
    | literal => cases hend
    | start | word | number | closing | symbol =>
      cases hend
      simp [quotesOf, Token.quotes, LexState.quotes]
  rw [quotesOf_append, hlast, hquotes]
  simp [LexState.quotes]

/-! ## 3. Statements -/

/-- The comparisons. -/
inductive Op where
  | lt | gt | eq | ne | le | ge | like
  deriving DecidableEq, Repr

/-- A comparison of a column with a literal. -/
structure Condition where
  column : Str
  op : Op
  literal : Str
  deriving DecidableEq, Repr

/-- A `SELECT` of all columns of a table, for the rows that meet all conditions. -/
structure Select where
  table : Str
  conditions : List Condition
  limit : Option ℕ
  deriving DecidableEq, Repr

/-- The words that cannot be names. -/
def reserved : List Str :=
  ["select", "from", "where", "and", "or", "not", "like", "in", "is", "null", "between", "order",
    "group", "by", "having", "union", "limit", "offset"].map ofString

/-- Is the word a keyword?  Upper and lower case are the same. -/
def isKeyword (keyword : String) (word : Str) : Bool := caseEq word (ofString keyword)

/-- A name: a word that is not reserved. -/
def isName (word : Str) : Bool :=
  (word.head?.any isWordStart && word.all isWordChar) && !reserved.any (caseEq word)

theorem exists_cons_of_isName (h : isName name = true) :
    ∃ c more, name = c :: more ∧ isWordStart c = true ∧ ∀ d ∈ more, isWordChar d = true := by
  cases name with
  | nil => cases h
  | cons c more =>
    simp only [isName, Bool.and_eq_true, all_cons, all_eq_true] at h
    exact ⟨c, more, rfl, by simpa using h.1.1, h.1.2.2⟩

theorem isSpace_of_isWordStart (h : isWordStart c = true) : isSpace c = false := by
  rw [isWordStart, Bool.or_eq_true, isAlpha_iff, beq_iff_eq] at h
  rw [isSpace, Bool.or_eq_false_iff]
  rcases h with h | rfl
  · constructor <;> simp <;> omega
  · decide

/-- A name is read as a word. -/
theorem lexRun_name (h : isName name = true) : lexRun .start name = some (.word name, []) := by
  obtain ⟨c, more, rfl, hc, hmore⟩ := exists_cons_of_isName h
  rw [lexRun, lexStep, beginToken, if_neg (by simp [isSpace_of_isWordStart hc]), if_pos hc,
    Option.bind_some, lexRun_word more _ hmore]
  rfl

theorem count_name (h : isName name = true) : name.count quote = 0 := by
  obtain ⟨c, more, rfl, hc, hmore⟩ := exists_cons_of_isName h
  refine count_eq_zero.mpr fun hmem => ?_
  rcases mem_cons.mp hmem with rfl | hmem
  · exact absurd hc (by decide)
  · exact absurd (hmore _ hmem) (by decide)

/-- The name a token is. -/
def nameOf : Token → Option Str
  | .word text => if isName text then some text else none
  | _ => none

/-- The comparison a token is. -/
def opOf : Token → Option Op
  | .symbol text =>
    if text = ofString "<" then some .lt
    else if text = ofString ">" then some .gt
    else if text = ofString "=" then some .eq
    else if text = ofString "<>" then some .ne
    else if text = ofString "<=" then some .le
    else if text = ofString ">=" then some .ge
    else none
  | .word text => if isKeyword "like" text then some .like else none
  | _ => none

/-- The condition that three tokens are. -/
def conditionOf (column op : Token) (literal : Str) : Option Condition :=
  (nameOf column).bind fun column => (opOf op).map fun op => ⟨column, op, literal⟩

/-- The conditions of a `WHERE`, with `AND` between them, and what follows. -/
def conditions : List Token → Option (List Condition × List Token)
  | column :: op :: .literal literal :: .word word :: tokens =>
    (conditionOf column op literal).bind fun condition =>
      if isKeyword "and" word then
        (conditions tokens).map fun (more, rest) => (condition :: more, rest)
      else some ([condition], .word word :: tokens)
  | column :: op :: .literal literal :: rest =>
    (conditionOf column op literal).map fun condition => ([condition], rest)
  | _ => none

/-- A `LIMIT` and the end of the statement. -/
def ending : List Token → Option (Option ℕ)
  | [.symbol semicolon] => if semicolon = ofString ";" then some none else none
  | [.word word, .number digits, .symbol semicolon] =>
    if isKeyword "limit" word && semicolon == ofString ";" then some (some (value digits)) else none
  | _ => none

/-- What follows the table. -/
def clauses (table : Str) : List Token → Option Select
  | .word word :: tokens =>
    if isKeyword "where" word then
      (conditions tokens).bind fun (conditions, rest) =>
        (ending rest).map fun limit => ⟨table, conditions, limit⟩
    else (ending (.word word :: tokens)).map fun limit => ⟨table, [], limit⟩
  | tokens => (ending tokens).map fun limit => ⟨table, [], limit⟩

/-- The statement that tokens are. -/
def statement : List Token → Option Select
  | .word select :: .symbol star :: .word source :: table :: tokens =>
    if isKeyword "select" select && star == ofString "*" && isKeyword "from" source then
      (nameOf table).bind fun table => clauses table tokens
    else none
  | _ => none

/-- **The statement of a text.** -/
def parse (text : Str) : Option Select := (lex text).bind statement

/-! ## 4. The quotes of a statement -/

/-- The quotes of some conditions. -/
def quotesOfConditions (conditions : List Condition) : ℕ :=
  (conditions.map fun condition => 2 + 2 * condition.literal.count quote).sum

theorem quotes_nameOf (h : nameOf token = some name) : token.quotes = 0 := by
  cases token with
  | word => rfl
  | number | literal | symbol => cases h

theorem quotes_opOf {op} (h : opOf token = some op) : token.quotes = 0 := by
  cases token with
  | word | symbol => rfl
  | number | literal => cases h

theorem conditionOf_spec {column op literal condition}
    (h : conditionOf column op literal = some condition) :
    column.quotes = 0 ∧ op.quotes = 0 ∧ condition.literal = literal := by
  obtain ⟨name, hname, h⟩ := Option.bind_eq_some_iff.mp h
  obtain ⟨o, hop, rfl⟩ := Option.map_eq_some_iff.mp h
  exact ⟨quotes_nameOf hname, quotes_opOf hop, rfl⟩

theorem quotes_conditions (tokens : List Token) : ∀ {found rest},
    conditions tokens = some (found, rest) →
      quotesOf tokens = quotesOfConditions found + quotesOf rest := by
  fun_induction conditions tokens with
  | case1 column op literal word tokens ih =>
    intro found rest h
    obtain ⟨condition, hcondition, h⟩ := Option.bind_eq_some_iff.mp h
    obtain ⟨hcolumn, hop, hliteral⟩ := conditionOf_spec hcondition
    split_ifs at h with hand
    · obtain ⟨⟨more, rest'⟩, hmore, h⟩ := Option.map_eq_some_iff.mp h
      cases h
      have hrec := ih hmore
      simp only [quotesOf_cons, hcolumn, hop, hrec, Token.quotes_literal, Token.quotes_word,
        quotesOfConditions, map_cons, sum_cons, hliteral]
      omega
    · cases h
      simp [quotesOf_cons, hcolumn, hop, quotesOfConditions, hliteral]
  | case2 column op literal tokens hnot =>
    intro found rest h
    obtain ⟨condition, hcondition, h⟩ := Option.map_eq_some_iff.mp h
    cases h
    obtain ⟨hcolumn, hop, hliteral⟩ := conditionOf_spec hcondition
    simp [quotesOf_cons, hcolumn, hop, quotesOfConditions, hliteral]
  | case3 => intro found rest h; cases h

theorem quotes_ending {limit} (h : ending tokens = some limit) : quotesOf tokens = 0 := by
  unfold ending at h
  split at h
  · rfl
  · rfl
  · cases h

theorem quotes_clauses {table select} (h : clauses table tokens = some select) :
    quotesOf tokens = quotesOfConditions select.conditions := by
  unfold clauses at h
  split at h
  · split_ifs at h
    · obtain ⟨⟨found, rest⟩, hfound, h⟩ := Option.bind_eq_some_iff.mp h
      obtain ⟨limit, hlimit, rfl⟩ := Option.map_eq_some_iff.mp h
      rw [quotesOf_cons, quotes_conditions _ hfound, quotes_ending hlimit]
      simp [Token.quotes]
    · obtain ⟨limit, hlimit, rfl⟩ := Option.map_eq_some_iff.mp h
      rw [quotes_ending hlimit]
      rfl
  · obtain ⟨limit, hlimit, rfl⟩ := Option.map_eq_some_iff.mp h
    rw [quotes_ending hlimit]
    rfl

/-- **A statement accounts for the quotes of its text.** -/
theorem quotes_of_parse {select} (h : parse text = some select) :
    text.count quote = quotesOfConditions select.conditions := by
  obtain ⟨tokens, hlex, h⟩ := Option.bind_eq_some_iff.mp h
  rw [← quotes_lex hlex]
  unfold statement at h
  split at h
  · split_ifs at h
    obtain ⟨name, hname, h⟩ := Option.bind_eq_some_iff.mp h
    rw [quotesOf_cons, quotesOf_cons, quotesOf_cons, quotesOf_cons, quotes_nameOf hname,
      quotes_clauses h]
    simp [Token.quotes]
  · cases h

end Sensys.Sql
