import ChunkPlan.Json.Basic
import ChunkPlan.Number.Numeral

/-!
# JSON tokens

A JSON text as brackets, commas, colons and scalar values.  Between them stand spaces, tabs and
line breaks.
-/

set_option autoImplicit false

namespace ChunkPlan.Json

inductive Token where
  | openArray
  | closeArray
  | openObject
  | closeObject
  | comma
  | colon
  /-- A string, a number, or one of the words for a value. -/
  | scalar (value : Json)
  deriving Inhabited

namespace Token

def isGap (c : Char) : Bool := c = ' ' || c = '\t' || c = '\n' || c = '\r'

/-- Splits a string literal, after its opening quote, at its closing one.  A control character may
not stand in it. -/
def body? : List Char → Option (List Char × List Char)
  | [] => none
  | '"' :: rest => some ([], rest)
  | '\\' :: c :: rest => (body? rest).map fun (body, rest) => ('\\' :: c :: body, rest)
  | c :: rest =>
    if c.toNat < 32 then none else (body? rest).map fun (body, rest) => (c :: body, rest)

def hexValue? (c : Char) : Option Nat :=
  if c.isDigit then some (c.toNat - '0'.toNat)
  else if 'a' ≤ c && c ≤ 'f' then some (c.toNat - 'a'.toNat + 10)
  else if 'A' ≤ c && c ≤ 'F' then some (c.toNat - 'A'.toNat + 10)
  else none

def simpleEscape? : Char → Option Char
  | '"' => some '"'
  | '\\' => some '\\'
  | '/' => some '/'
  | 'b' => some '\x08'
  | 'f' => some '\x0c'
  | 'n' => some '\n'
  | 'r' => some '\r'
  | 't' => some '\t'
  | _ => none

/-- The codes of the body of a literal.  An escape with four digits gives one code, which may be
half of a character. -/
def codes? : List Char → Option (List Nat)
  | [] => some []
  | '\\' :: 'u' :: a :: b :: c :: d :: rest => do
    let code := ((← hexValue? a) * 16 + (← hexValue? b)) * 256 + (← hexValue? c) * 16
      + (← hexValue? d)
    return code :: (← codes? rest)
  | '\\' :: c :: rest => do return (← simpleEscape? c).toNat :: (← codes? rest)
  | ['\\'] => none
  | c :: rest => (codes? rest).map (c.toNat :: ·)

/-- The first half of a character above `FFFF`. -/
def isHighHalf (code : Nat) : Bool := 0xD800 ≤ code && code ≤ 0xDBFF

/-- The second half of a character above `FFFF`. -/
def isLowHalf (code : Nat) : Bool := 0xDC00 ≤ code && code ≤ 0xDFFF

/-- Puts the two halves of a character together, where `pending` is a first half that came just
before.  A half that stands alone becomes a replacement character. -/
def joinHalves : (pending : Option Nat) → List Nat → List Char
  | none, [] => []
  | some _, [] => ['\uFFFD']
  | none, code :: rest =>
    if isHighHalf code then joinHalves (some code) rest
    else (if isLowHalf code then '\uFFFD' else Char.ofNat code) :: joinHalves none rest
  | some high, code :: rest =>
    if isLowHalf code then
      Char.ofNat (0x10000 + (high - 0xD800) * 0x400 + (code - 0xDC00)) :: joinHalves none rest
    else
      '\uFFFD' ::
        if isHighHalf code then joinHalves (some code) rest
        else Char.ofNat code :: joinHalves none rest

/-- The value of a number: an integer when it has no fraction and no exponent.  An integer with too
many digits has none. -/
def numeral? (negative : Bool) (whole : List Char) (fraction : List Char)
    (exponent : Option Int) : Option Json :=
  if fraction.isEmpty && exponent.isNone then (Numeral.signed? negative whole).map .integer
  else
    some (.number (.ofDecimal negative (Numeral.natural (whole ++ fraction))
      (exponent.getD 0 - fraction.length)))

/-- Splits the fraction of a number off: a point with digits after it. -/
def takeFraction : List Char → List Char × List Char
  | '.' :: rest =>
    if rest.head?.any Char.isDigit then (rest.takeWhile Char.isDigit, rest.dropWhile Char.isDigit)
    else ([], '.' :: rest)
  | rest => ([], rest)

def takeExponent : List Char → Option Int × List Char
  | [] => (none, [])
  | c :: rest =>
    let (negative, digits) := Numeral.takeSign rest
    if (c = 'e' || c = 'E') && digits.head?.any Char.isDigit then
      let value := Numeral.natural (digits.takeWhile Char.isDigit)
      (some (if negative then -(value : Int) else value), digits.dropWhile Char.isDigit)
    else (none, c :: rest)

/-- Reads an unsigned number.  A leading zero stands alone. -/
def number? (negative : Bool) (text : List Char) : Option (Json × List Char) :=
  match text with
  | [] => none
  | c :: rest =>
    if c.isDigit then
      let whole := if c = '0' then ['0'] else c :: rest.takeWhile Char.isDigit
      let rest := if c = '0' then rest else rest.dropWhile Char.isDigit
      let (fraction, rest) := takeFraction rest
      let (exponent, rest) := takeExponent rest
      (numeral? negative whole fraction exponent).map fun value => (value, rest)
    else none

def words : List (String × Json) :=
  [("null", .null), ("true", .bool true), ("false", .bool false), ("NaN", .number .nan),
    ("Infinity", .number (.infinite false)), ("-Infinity", .number (.infinite true))]

def word? (text : List Char) : Option (Json × List Char) :=
  words.findSome? fun (word, value) =>
    if word.toList.isPrefixOf text then some (value, text.drop word.length) else none

def plainScalar? (text : List Char) : Option (Json × List Char) :=
  match word? text with
  | some found => some found
  | none =>
    match text with
    | '-' :: rest => number? true rest
    | _ => number? false text

def next? : List Char → Option (Token × List Char)
  | [] => none
  | '[' :: rest => some (.openArray, rest)
  | ']' :: rest => some (.closeArray, rest)
  | '\x7b' :: rest => some (.openObject, rest)
  | '\x7d' :: rest => some (.closeObject, rest)
  | ',' :: rest => some (.comma, rest)
  | ':' :: rest => some (.colon, rest)
  | '"' :: rest => do
    let (body, rest) ← body? rest
    return (.scalar (.string (String.ofList (joinHalves none (← codes? body)))), rest)
  | text => (plainScalar? text).map fun (value, rest) => (.scalar value, rest)

/-- The tokens of a text, if nothing else stands in it.  Each token takes at least one character,
so `budget` characters hold at most `budget` tokens. -/
def listWithin? : (budget : Nat) → List Char → Option (List Token)
  | budget, text =>
    match text.dropWhile isGap, budget with
    | [], _ => some []
    | _ :: _, 0 => none
    | c :: cs, budget + 1 => do
      let (token, rest) ← next? (c :: cs)
      return token :: (← listWithin? budget rest)

def list? (text : List Char) : Option (List Token) := listWithin? text.length text

end Token

end ChunkPlan.Json
