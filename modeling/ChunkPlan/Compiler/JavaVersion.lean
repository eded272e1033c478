import ChunkPlan.Text.CharClass

/-!
# Java versions

The version that a Java program reports: the first number after a quote, and a second one after a
point if there is one.
-/

set_option autoImplicit false

namespace ChunkPlan

structure JavaVersion where
  major : Nat
  minor : Nat
  deriving DecidableEq, Repr, Inhabited

namespace JavaVersion

def number (digits : List Char) : Nat :=
  digits.foldl (fun value c => value * 10 + (CharClass.decimalValue? c).getD 0) 0

/-- Reads a version that begins here; a missing second number is zero. -/
def here? (text : List Char) : Option JavaVersion :=
  let major := text.takeWhile CharClass.isDecimal
  if major.isEmpty then none
  else
    let minor := match text.dropWhile CharClass.isDecimal with
      | '.' :: rest => rest.takeWhile CharClass.isDecimal
      | _ => []
    some ⟨number major, number minor⟩

def findIn : List Char → Option JavaVersion
  | [] => none
  | c :: rest => if c = '"' then (here? rest).or (findIn rest) else findIn rest

def parse? (text : String) : Option JavaVersion := findIn text.toList

/-- Whether a version is recent enough: 1.6 or later. -/
def isSupported (version : JavaVersion) : Bool :=
  1 < version.major || (version.major = 1 && 6 ≤ version.minor)

def describe : Option JavaVersion → String
  | some version => s!"({version.major}, {version.minor})"
  | none => "None"

end JavaVersion

end ChunkPlan
