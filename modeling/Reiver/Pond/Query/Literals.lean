import Mathlib.Algebra.Group.Nat.Defs
import Reiver.Lib.Quoted
import Reiver.Pond.Query.Ast

/-! # Literals

The literals that `semi_join.rs` and `predicate_pushdown.rs` put into a query: `key_to_expr` for the keys of a semi-join
and `value_to_expr` for pushed values; how a literal is printed, and how the database reads it. The parser and the
database each have a lexicon of escapes. -/

namespace Reiver.Pond

/-! ### Numbers -/

def isSign (c : Char) : Bool := c = '+' || c = '-'

def isExponent (c : Char) : Bool := c = 'e' || c = 'E'

def ofDigits (ds : List Char) : Nat := ds.foldl (fun n d => 10 * n + (d.toNat - '0'.toNat)) 0

def dropSign : List Char → List Char
  | c :: cs => if isSign c then cs else c :: cs
  | [] => []

/-- `str::parse::<i64>`. -/
def parsesI64 (cs : List Char) : Bool :=
  let ds := dropSign cs
  !ds.isEmpty && ds.all (·.isDigit) &&
    (if cs.head? = some '-' then ofDigits ds ≤ 9223372036854775808 else ofDigits ds < 9223372036854775808)

/-- `str::parse::<u64>`, which takes no minus sign. -/
def parsesU64 (cs : List Char) : Bool :=
  let ds := dropSign cs
  cs.head? ≠ some '-' && !ds.isEmpty && ds.all (·.isDigit) && ofDigits ds < 18446744073709551616

/-- The digits before and after the point, and the exponent. -/
structure FloatText where
  int : List Char
  frac : List Char
  exponent : Int

def parseExponent : List Char → Option Int
  | [] => some 0
  | e :: cs =>
    let ds := dropSign cs
    if isExponent e && !ds.isEmpty && ds.all (·.isDigit) then
      some (if cs.head? = some '-' then -(ofDigits ds : Int) else ofDigits ds)
    else none

def parseFloatText (cs : List Char) : Option FloatText :=
  let cs := dropSign cs
  let int := cs.takeWhile (·.isDigit)
  match cs.dropWhile (·.isDigit) with
  | '.' :: cs' =>
    let frac := cs'.takeWhile (·.isDigit)
    if int.isEmpty && frac.isEmpty then none
    else (parseExponent (cs'.dropWhile (·.isDigit))).map fun exponent => { int, frac, exponent }
  | cs' => if int.isEmpty then none else (parseExponent cs').map fun exponent => { int, frac := [], exponent }

/-- The least decimal that is rounded to infinity. -/
def f64Overflow : Nat := (2 ^ 54 - 1) * 2 ^ 970

def FloatText.isFinite (f : FloatText) : Bool :=
  let mantissa := ofDigits (f.int ++ f.frac)
  let scale := f.exponent - f.frac.length
  if 0 ≤ scale then mantissa * 10 ^ scale.toNat < f64Overflow else mantissa < f64Overflow * 10 ^ (-scale).toNat

/-- `str::parse::<f64>`, with a finite result. -/
def parsesFiniteF64 (cs : List Char) : Bool := (parseFloatText cs).any (·.isFinite)

def isNumericLoop (sawDot sawDigit inExponent : Bool) : List Char → Bool
  | [] => sawDigit
  | b :: bs =>
    if inExponent then b.isDigit && isNumericLoop sawDot true true bs
    else if b.isDigit then isNumericLoop sawDot true false bs
    else if b = '.' && !sawDot then isNumericLoop true sawDigit false bs
    else if isExponent b && sawDigit then
      match bs with
      | d :: ds => if isSign d then isNumericLoop sawDot false true ds else isNumericLoop sawDot false true (d :: ds)
      | [] => false
    else false

/-- A padded number such as `00123` is not taken for one. -/
def isNumericLiteral (s : String) : Bool :=
  match dropSign s.toList with
  | [] => false
  | '0' :: d :: ds => if d = '.' || isExponent d then isNumericLoop false false false ('0' :: d :: ds) else false
  | cs => isNumericLoop false false false cs

/-! ### The literals -/

def keyToExpr (key : String) (isNumericType : Bool) : SqlValue :=
  if isNumericType && (parsesI64 key.toList || parsesU64 key.toList || parsesFiniteF64 key.toList) then .number key
  else .singleQuotedString key

def valueToExpr (value : String) : SqlValue :=
  if isNumericLiteral value then .number value else .singleQuotedString value

/-- How a literal is printed: a quote is doubled, a backslash is not. -/
def printLiteral : SqlValue → List Char
  | .singleQuotedString s => '\'' :: printQuoted s.toList ++ ['\'']
  | .doubleQuotedString s => '"' :: s.toList ++ ['"']
  | .number n => n.toList
  | .boolean b => (toString b).toList
  | .other text => text.toList

/-! ### What the database reads -/

/-- The characters that belong to a number, and what follows it. -/
@[grind =]
def numberRun : List Char → List Char × List Char
  | [] => ([], [])
  | c :: cs =>
    if c.isDigit || c = '.' then (c :: (numberRun cs).1, (numberRun cs).2)
    else if isExponent c then
      match cs with
      | d :: ds =>
        if isSign d then (c :: d :: (numberRun ds).1, (numberRun ds).2)
        else (c :: (numberRun (d :: ds)).1, (numberRun (d :: ds)).2)
      | [] => ([c], [])
    else ([], c :: cs)

def readNumber : List Char → List Char × List Char
  | c :: cs => if isSign c then (c :: (numberRun cs).1, (numberRun cs).2) else numberRun (c :: cs)
  | [] => ([], [])

/-- The text of the literal at the beginning of a query, and what follows it. -/
def readLiteral (database : Lexicon) : List Char → Option (String × List Char)
  | '\'' :: cs => (readQuoted database cs).map fun r => (String.ofList r.1, r.2)
  | cs => some (String.ofList (readNumber cs).1, (readNumber cs).2)

/-- What may stand behind a literal: it would not go on. -/
def Ends (rest : List Char) : Prop :=
  ∀ c ∈ rest.head?, c ≠ '\'' ∧ c.isDigit = false ∧ c ≠ '.' ∧ isExponent c = false

/-- The literal denotes the text and ends where it was closed. -/
def Denotes (database : Lexicon) (literal : SqlValue) (v : String) : Prop :=
  ∀ rest, Ends rest → readLiteral database (printLiteral literal ++ rest) = some (v, rest)

/-- A literal of the user's query, given by what stands between its quotes, is read by the parser, printed, and read by
    the database: it has the value that the database would have read at first. -/
def SameValue (database : Lexicon) (literal v : List Char) : Prop :=
  ∃ u, readQuoted database (literal ++ ['\'']) = some (u, []) ∧
    ∀ rest, rest.head? ≠ some '\'' → readQuoted database (printQuoted v ++ '\'' :: rest) = some (u, rest)

end Reiver.Pond
