import ChunkPlan.Entries
import ChunkPlan.Text.CharClass

/-!
# Command line options

The general form of a command line: options by short or long names, with the values that each one
takes.  Short options without values can be written together, and a value can be attached to its
option.
-/

set_option autoImplicit false

namespace ChunkPlan.CommandLine

/-- An option that a command knows. -/
structure OptionSpec where
  short : Option Char := none
  long : String
  values : Nat := 1
  deriving DecidableEq, Repr, Inhabited

/-- An option that was given: its long name and its values. -/
abbrev Occurrence := String × List String

/-- What a word of the command line is. -/
inductive WordKind where
  | plain
  /-- A known option with the text attached to it.  Text attached to a short name, with or without
  an equals sign, can hold further short names; text attached to a long name cannot. -/
  | option (spec : OptionSpec) (attached : Option (List Char)) (canCluster : Bool)
  | unknown
  deriving DecidableEq, Repr, Inhabited

def dropFinalLineFeed (chars : List Char) : List Char :=
  if chars.getLast? = some '\n' then chars.dropLast else chars

/-- Whether a word looks like a negative number.  A line feed may follow it. -/
def isNegativeNumber (chars : List Char) : Bool :=
  match dropFinalLineFeed chars with
  | '-' :: rest =>
    let fraction := rest.dropWhile CharClass.isDecimal
    (!rest.isEmpty && fraction.isEmpty) ||
      (match fraction with
        | '.' :: digits => !digits.isEmpty && digits.all CharClass.isDecimal
        | _ => false)
  | _ => false

def findShort (specs : List OptionSpec) (name : Char) : Option OptionSpec :=
  specs.find? (·.short = some name)

def isShortName (chars : List Char) : Bool := chars.length = 2

/-- Finds an option by the word for it, with its dashes. -/
def findExact (specs : List OptionSpec) : List Char → Option OptionSpec
  | ['-', name] => findShort specs name
  | '-' :: '-' :: name => specs.find? (·.long = String.ofList name)
  | _ => none

/-- What a word is.  A word that begins with a dash and is no known option is still plain if it is a
negative number or has a space in it. -/
def WordKind.of (specs : List OptionSpec) (word : String) : WordKind :=
  let chars := word.toList
  let fallback : WordKind :=
    if isNegativeNumber chars || chars.contains ' ' then .plain else .unknown
  let clustered : WordKind :=
    match chars with
    | '-' :: name :: rest =>
      match findShort specs name with
      | some spec => .option spec (some rest) true
      | none => fallback
    | _ => fallback
  if chars.head? ≠ some '-' || chars = ['-'] then .plain
  else
    let name := chars.takeWhile (· ≠ '=')
    match findExact specs chars, findExact specs name with
    | some spec, _ => .option spec none false
    | none, some spec =>
      .option spec (some ((chars.dropWhile (· ≠ '=')).drop 1)) (isShortName name)
    | none, none => clustered

def takeValues (specs : List OptionSpec) : Nat → List String → Option (List String × List String)
  | 0, words => some ([], words)
  | _ + 1, [] => none
  | count + 1, word :: words =>
    if WordKind.of specs word = .plain then
      (takeValues specs count words).map fun (values, rest) => (word :: values, rest)
    else none

/-- Takes an option with the text attached to it.  The last option of a cluster may have to take its
values from the words that follow: it is given back if so. -/
def takeAttached (specs : List OptionSpec) (spec : OptionSpec) (canCluster : Bool) :
    List Char → Option (List Occurrence × Option OptionSpec)
  | [] => if spec.values = 1 then some ([(spec.long, [""])], none) else none
  | c :: rest =>
    if spec.values = 1 then some ([(spec.long, [String.ofList (c :: rest)])], none)
    else if spec.values = 0 && canCluster then
      match findShort specs c with
      | none => none
      | some next =>
        if rest.isEmpty then some ([(spec.long, [])], some next)
        else
          (takeAttached specs next true rest).map fun (taken, last) =>
            ((spec.long, []) :: taken, last)
    else none

def takeOption (specs : List OptionSpec) (spec : OptionSpec) (attached : Option (List Char))
    (canCluster : Bool) (words : List String) : Option (List Occurrence × List String) := do
  let (taken, last) ← match attached with
    | none => some ([], some spec)
    | some attached => takeAttached specs spec canCluster attached
  match last with
  | none => return (taken, words)
  | some last =>
    let (values, rest) ← takeValues specs last.values words
    return (taken ++ [(last.long, values)], rest)

/-- Takes options up to the first plain word, at most `budget` of them.  Each option takes at least
one word, so the number of words is always enough. -/
def takeOptionsWithin (specs : List OptionSpec) :
    (budget : Nat) → List String → Option (List Occurrence × List String)
  | _, [] => some ([], [])
  | 0, _ :: _ => none
  | budget + 1, word :: words =>
    match WordKind.of specs word with
    | .plain => some ([], word :: words)
    | .unknown => none
    | .option spec attached canCluster => do
      let (taken, rest) ← takeOption specs spec attached canCluster words
      let (more, rest) ← takeOptionsWithin specs budget rest
      return (taken ++ more, rest)

def takeOptions (specs : List OptionSpec) (words : List String) :
    Option (List Occurrence × List String) :=
  takeOptionsWithin specs words.length words

namespace Occurrence

/-- The last value of an option, empty if it is not given. -/
def last (given : List Occurrence) (name : String) (default : String := "") : String :=
  match (given.filter (·.1 = name)).getLast? with
  | some (_, values) => values.head?.getD default
  | none => default

def all (given : List Occurrence) (name : String) : List String :=
  (given.filter (·.1 = name)).filterMap (·.2.head?)

def pairs (given : List Occurrence) (name : String) : List (String × String) :=
  (given.filter (·.1 = name)).filterMap fun
    | (_, [first, second]) => some (first, second)
    | _ => none

def count (given : List Occurrence) (name : String) : Nat := given.countP (·.1 = name)

def has (given : List Occurrence) (name : String) : Bool := given.any (·.1 = name)

end Occurrence

end ChunkPlan.CommandLine
