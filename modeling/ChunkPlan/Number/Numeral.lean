import ChunkPlan.Number.Binary64
import ChunkPlan.Text.CharClass
import ChunkPlan.Text.Substitution

/-!
# Numerals

Texts that are read as numbers when a value is given without a type.  A numeral may have blanks
around it, decimal digits of any script, and single underscores between digits.  The digits of an
integer are limited; a longer numeral is no integer.
-/

set_option autoImplicit false

namespace ChunkPlan.Numeral

/-- The whole number that decimal digits of ASCII stand for. -/
def natural (digits : List Char) : Nat :=
  digits.foldl (fun value c => value * 10 + (c.toNat - '0'.toNat)) 0

/-- Digits of other scripts as those of ASCII, and blanks outside ASCII as spaces. -/
def toAscii (text : List Char) : List Char :=
  text.map fun c =>
    if c.toNat < 128 then c
    else if CharClass.isBlank c then ' '
    else match CharClass.decimalValue? c with
      | some value => Char.ofNat ('0'.toNat + value)
      | none => c

/-- Removes the underscores; each one has to stand between two digits.  `afterDigit` tells whether
a digit came just before. -/
def dropSeparators : (afterDigit : Bool) → List Char → Option (List Char)
  | _, [] => some []
  | afterDigit, '_' :: cs =>
    if afterDigit && (cs.head?.any Char.isDigit) then dropSeparators false cs else none
  | _, c :: cs => (dropSeparators c.isDigit cs).map (c :: ·)

def normalized (text : List Char) : Option (List Char) :=
  dropSeparators false (Text.trim CharClass.isPlainBlank (toAscii text))

def takeSign : List Char → Bool × List Char
  | '-' :: cs => (true, cs)
  | '+' :: cs => (false, cs)
  | cs => (false, cs)

/-- The number of digits that an integer may be written with, leading zeros included. -/
def maxDigits : Nat := 4300

/-- The integer of a sign and decimal digits, if there are not too many of them. -/
def signed? (negative : Bool) (digits : List Char) : Option Int :=
  if maxDigits < digits.length then none
  else some (if negative then -(natural digits : Int) else natural digits)

def integer? (text : String) : Option Int := do
  let (negative, digits) := takeSign (← normalized text.toList)
  if digits.isEmpty || !digits.all Char.isDigit then none else signed? negative digits

/-- The exponent after the digits of a numeral, zero if none is written. -/
def exponent? : List Char → Option Int
  | [] => some 0
  | c :: cs =>
    if c = 'e' || c = 'E' then
      let (negative, digits) := takeSign cs
      if digits.isEmpty || !digits.all Char.isDigit then none
      else some (if negative then -(natural digits : Int) else natural digits)
    else none

/-- An unsigned numeral with an optional fraction and exponent, or a word for what is not finite. -/
def magnitude? (negative : Bool) (text : List Char) : Option Binary64 :=
  let word := text.map Char.toLower
  if word = "inf".toList || word = "infinity".toList then some (.infinite negative)
  else if word = "nan".toList then some .nan
  else
    let whole := text.takeWhile Char.isDigit
    let rest := text.dropWhile Char.isDigit
    let (fraction, rest) := match rest with
      | '.' :: cs => (cs.takeWhile Char.isDigit, cs.dropWhile Char.isDigit)
      | cs => ([], cs)
    if whole.isEmpty && fraction.isEmpty then none
    else (exponent? rest).map fun exponent =>
      .ofDecimal negative (natural (whole ++ fraction)) (exponent - fraction.length)

def binary64? (text : String) : Option Binary64 := do
  let (negative, digits) := takeSign (← normalized text.toList)
  magnitude? negative digits

end ChunkPlan.Numeral
