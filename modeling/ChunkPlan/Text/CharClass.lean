import ChunkPlan.Text.CharRanges

/-!
# Character classes

The classes of characters that decide where a word, a number or a blank begins and ends.  Every
class covers all of Unicode: ASCII is written out, the rest is looked up in `CharRanges`.
-/

set_option autoImplicit false

namespace ChunkPlan.CharClass

def inRanges (ranges : List (Nat × Nat)) (c : Char) : Bool :=
  ranges.any fun range => range.1 ≤ c.toNat && c.toNat ≤ range.2

def isLetter (c : Char) : Bool :=
  if c.toNat < 128 then c.isAlpha else inRanges CharRanges.letters c

/-- Letters and characters that carry a numeric value. -/
def isAlphanumeric (c : Char) : Bool :=
  if c.toNat < 128 then c.isAlphanum
  else inRanges CharRanges.letters c || inRanges CharRanges.numerals c

/-- Digits, superscript and circled ones included. -/
def isDigit (c : Char) : Bool :=
  if c.toNat < 128 then c.isDigit else inRanges CharRanges.digits c

/-- The value of a decimal digit of any script. -/
def decimalValue? (c : Char) : Option Nat :=
  if c.toNat < 128 then
    if c.isDigit then some (c.toNat - '0'.toNat) else none
  else
    (CharRanges.decimals.find? fun range => range.1 ≤ c.toNat && c.toNat ≤ range.2).map
      fun range => (c.toNat - range.1) % 10

def isDecimal (c : Char) : Bool := (decimalValue? c).isSome

/-- The blanks of ASCII that every line-oriented format agrees on: space, tab, line feed, vertical
tab, form feed and carriage return. -/
def isPlainBlank (c : Char) : Bool :=
  c = ' ' || (9 ≤ c.toNat && c.toNat ≤ 13)

/-- Blank characters: the plain blanks, the four information separators and the blanks outside
ASCII. -/
def isBlank (c : Char) : Bool :=
  if c.toNat < 128 then isPlainBlank c || (28 ≤ c.toNat && c.toNat ≤ 31)
  else inRanges CharRanges.blanks c

/-- Characters of a word: alphanumeric ones and the underscore. -/
def isWordChar (c : Char) : Bool := isAlphanumeric c || c = '_'

def isPrintable (c : Char) : Bool :=
  if c.toNat < 128 then 32 ≤ c.toNat && c.toNat ≤ 126 else inRanges CharRanges.printables c

end ChunkPlan.CharClass
