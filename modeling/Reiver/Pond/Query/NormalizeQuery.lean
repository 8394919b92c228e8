import Mathlib.Data.List.Basic

/-! # Normalized queries

The model of `normalize_query` of `warehouse/utils.rs`, whose result is hashed for the key of the result cache, and the
tokens that the database reads. The tables of Unicode are a parameter. -/

namespace Reiver.Pond

/-- `char::is_whitespace` and `char::to_lowercase`. What is lower case stays so; beyond ASCII, nothing becomes a space
    or a mark of ASCII. -/
structure CharTables where
  isWhitespace : Char → Bool
  toLowercase : Char → List Char
  isWhitespace_ascii : ∀ c : Char, c.toNat < 128 → isWhitespace c = (c = ' ' || (9 ≤ c.toNat && c.toNat ≤ 13))
  toLowercase_ascii : ∀ c : Char, c.toNat < 128 → toLowercase c = [c.toLower]
  toLowercase_ne_nil : ∀ c, toLowercase c ≠ []
  toLowercase_fixed : ∀ c, ∀ d ∈ toLowercase c, toLowercase d = [d]
  toLowercase_other : ∀ c : Char, 128 ≤ c.toNat → isWhitespace c = false →
    ∀ d ∈ toLowercase c, isWhitespace d = false ∧ (d.isAlpha = true ∨ 128 ≤ d.toNat)

/-! ### Normalization -/

structure NormalizeState where
  result : List Char := []
  inSingleQuote : Bool := false
  inDoubleQuote : Bool := false
  lastWasSpace : Bool := false
  prevWasBackslash : Bool := false
deriving DecidableEq

def NormalizeState.push (T : CharTables) (s : NormalizeState) (ch : Char) : NormalizeState :=
  if s.inSingleQuote then
    { s with
      result := s.result ++ [ch]
      inSingleQuote := !(ch = '\'' && !s.prevWasBackslash)
      prevWasBackslash := ch = '\\' && !s.prevWasBackslash }
  else if s.inDoubleQuote then
    { s with
      result := s.result ++ [ch]
      inDoubleQuote := !(ch = '"' && !s.prevWasBackslash)
      prevWasBackslash := ch = '\\' && !s.prevWasBackslash }
  else if ch = '\'' then { s with inSingleQuote := true, lastWasSpace := false, result := s.result ++ [ch] }
  else if ch = '"' then { s with inDoubleQuote := true, lastWasSpace := false, result := s.result ++ [ch] }
  else if T.isWhitespace ch then
    if !s.lastWasSpace && !s.result.isEmpty then { s with result := s.result ++ [' '], lastWasSpace := true } else s
  else { s with lastWasSpace := false, result := s.result ++ T.toLowercase ch }

/-- `str::trim_end`. -/
def trimEnd (T : CharTables) (l : List Char) : List Char := (l.reverse.dropWhile T.isWhitespace).reverse

def normalizeLoop (T : CharTables) (query : List Char) : NormalizeState := query.foldl (·.push T) {}

def normalizeQuery (T : CharTables) (query : List Char) : List Char := trimEnd T (normalizeLoop T query).result

/-! ### Tokens -/

/-- What of a text has been read last. -/
inductive LexState where
  | code
  /-- A minus sign, which may begin a comment. -/
  | dash
  /-- A slash, which may begin a comment. -/
  | slash
  | line
  | block (depth : Nat)
  | blockStar (depth : Nat)
  | blockSlash (depth : Nat)
  | quoted (mark : Char)
  | escaped (mark : Char)
  /-- A closing mark, which may be doubled. -/
  | closing (mark : Char)
deriving DecidableEq

/-- A character of code, or a literal or identifier with its marks. -/
inductive LexItem where
  | char (c : Char)
  | quoted (text : List Char)
deriving DecidableEq

/-- The flag of an item says that it does not stand right behind the item before. -/
structure Lexing where
  state : LexState := .code
  gap : Bool := true
  text : List Char := []
  items : List (Bool × LexItem) := []
deriving DecidableEq

def isMark (c : Char) : Bool := c = '\'' || c = '"' || c = '\x60'

namespace Lexing

def emit (l : Lexing) (item : LexItem) : Lexing := { l with items := l.items ++ [(l.gap, item)], gap := false }

/-- A character behind code. What is not ASCII stands in literals and comments only. -/
def readCode (T : CharTables) (l : Lexing) (c : Char) : Option Lexing :=
  if c = '-' then some { l with state := .dash }
  else if c = '/' then some { l with state := .slash }
  else if isMark c then some { l with state := .quoted c, text := [c] }
  else if T.isWhitespace c then some { l with state := .code, gap := true }
  else if 128 ≤ c.toNat then none
  else some { l.emit (.char c) with state := .code }

/-- The next state inside a comment between marks. Whether such comments nest is a parameter. -/
def nextInBlock (nested : Bool) (depth : Nat) (c : Char) : LexState :=
  if c = '*' then .blockStar depth else if c = '/' && nested then .blockSlash depth else .block depth

def read (T : CharTables) (nested : Bool) (l : Lexing) (c : Char) : Option Lexing :=
  match l.state with
  | .code => l.readCode T c
  | .dash => if c = '-' then some { l with state := .line, gap := true } else (l.emit (.char '-')).readCode T c
  | .slash => if c = '*' then some { l with state := .block 0, gap := true } else (l.emit (.char '/')).readCode T c
  | .line => some (if c = '\n' then { l with state := .code } else l)
  | .block depth => some { l with state := nextInBlock nested depth c }
  | .blockStar depth =>
    some { l with
      state := if c = '/' then if depth = 0 then .code else .block (depth - 1) else nextInBlock nested depth c }
  | .blockSlash depth =>
    some { l with state := if c = '*' then .block (depth + 1) else nextInBlock nested depth c }
  | .quoted mark =>
    some { l with
      text := l.text ++ [c]
      state := if c = mark then .closing mark else if c = '\\' then .escaped mark else .quoted mark }
  | .escaped mark => some { l with text := l.text ++ [c], state := .quoted mark }
  | .closing mark =>
    if c = mark then some { l with text := l.text ++ [c], state := .quoted mark }
    else (l.emit (.quoted l.text)).readCode T c

def finish (l : Lexing) : Option (List (Bool × LexItem)) :=
  match l.state with
  | .code | .line => some l.items
  | .dash => some (l.emit (.char '-')).items
  | .slash => some (l.emit (.char '/')).items
  | .closing _ => some (l.emit (.quoted l.text)).items
  | _ => none

end Lexing

def lexLoop (T : CharTables) (nested : Bool) (query : List Char) : Option Lexing :=
  query.foldlM (·.read T nested) {}

def lexItems (T : CharTables) (nested : Bool) (query : List Char) : Option (List (Bool × LexItem)) :=
  (lexLoop T nested query).bind (·.finish)

inductive Token where
  | word (text : List Char)
  | quoted (text : List Char)
deriving DecidableEq

/-- How a run of code is split into tokens, which does not depend on the case of its letters. -/
structure Splitter where
  split : List Char → List (List Char)
  split_lower : ∀ run, split (run.map Char.toLower) = (split run).map (·.map Char.toLower)

def Splitter.words (S : Splitter) (run : List Char) : List Token := if run = [] then [] else (S.split run).map .word

/-- The tokens of items behind a run of code. -/
def Splitter.tokens (S : Splitter) : List Char → List (Bool × LexItem) → List Token
  | run, [] => S.words run
  | run, (gap, .char c) :: items =>
    if gap then S.words run ++ S.tokens [c] items else S.tokens (run ++ [c]) items
  | run, (_, .quoted text) :: items => S.words run ++ .quoted text :: S.tokens [] items

/-- The tokens of a text; `none` where it is in error. -/
def tokensOf (T : CharTables) (S : Splitter) (nested : Bool) (query : List Char) : Option (List Token) :=
  (lexItems T nested query).map (S.tokens [])

/-- A token, with the case of the letters of code left out. -/
def Token.fold : Token → Token
  | .word text => .word (text.map Char.toLower)
  | .quoted text => .quoted text

/-! ### What normalization promises -/

/-- Normalizing twice is normalizing once, and texts of one normal form have the same tokens. -/
structure NormalizeRight (T : CharTables) (S : Splitter) (nested : Bool) (q₁ q₂ : List Char) : Prop where
  idempotent : normalizeQuery T (normalizeQuery T q₁) = normalizeQuery T q₁
  merges : ∀ tokens₁ ∈ tokensOf T S nested q₁, ∀ tokens₂ ∈ tokensOf T S nested q₂,
    normalizeQuery T q₁ = normalizeQuery T q₂ → tokens₁.map Token.fold = tokens₂.map Token.fold

def LexState.inComment : LexState → Bool
  | .line | .block _ | .blockStar _ | .blockSlash _ => true
  | _ => false

def LexState.inCode : LexState → Bool
  | .code | .dash | .slash | .closing _ => true
  | _ => false

/-- The character is no backtick in code, no quote in a comment, and no newline behind which a line comment is followed
    by anything but spaces. -/
structure PlainChar (T : CharTables) (state : LexState) (c : Char) (rest : List Char) : Prop where
  backtick : state.inCode = true → c ≠ '\x60'
  quote : state.inComment = true → c ≠ '\'' ∧ c ≠ '"'
  newline : state = .line → c = '\n' → ∀ d ∈ rest, T.isWhitespace d = true

/-- Every character of the text is plain where the database reads it. -/
def PlainQuery (T : CharTables) (nested : Bool) (query : List Char) : Prop :=
  ∀ before c rest l, query = before ++ c :: rest → lexLoop T nested before = some l → PlainChar T l.state c rest

end Reiver.Pond
