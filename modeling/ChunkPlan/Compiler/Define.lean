import ChunkPlan.Json.Basic
import ChunkPlan.Number.Numeral

/-!
# Defines

Named values that are fixed when a script is compiled.
-/

set_option autoImplicit false

namespace ChunkPlan

inductive DefineValue where
  | flag (value : Bool)
  | integer (value : Int)
  | number (value : Binary64)
  | text (value : String)
  deriving DecidableEq, Repr, Inhabited

namespace DefineValue

/-- Reads a value that is given without a type: a truth value, an integer or another number if it
looks like one, and otherwise a text. -/
def ofText (text : String) : DefineValue :=
  if text = "true" then .flag true
  else if text = "false" then .flag false
  else
    match Numeral.integer? text, Numeral.binary64? text with
    | some value, _ => .integer value
    | none, some value => .number value
    | none, none => .text text

def toText : DefineValue → String
  | .flag value => if value then "true" else "false"
  | .integer value => toString value
  | .number value => value.render .plain
  | .text value => value

/-- The value as the compiler reads it: texts are in single quotes. -/
def toArgument : DefineValue → String
  | .text value => s!"'{value}'"
  | value => value.toText

def toJson : DefineValue → Json
  | .flag value => .bool value
  | .integer value => .integer value
  | .number value => .number value
  | .text value => .string value

end DefineValue

abbrev Defines := Entries DefineValue

namespace Defines

/-- Reads a definition: a name, and a value after an equals sign.  A name alone is set to true. -/
def parseOne (item : String) : String × DefineValue :=
  let chars := item.toList
  let name := String.ofList (chars.takeWhile (· ≠ '='))
  match chars.dropWhile (· ≠ '=') with
  | [] => (name, .flag true)
  | _ :: value => (name, .ofText (String.ofList value))

/-- Reads definitions; of a repeated name the last value counts. -/
def parse (items : List String) : Defines := .ofPairs (items.map parseOne)

def argument (entry : String × DefineValue) : String := entry.1 ++ "=" ++ entry.2.toArgument

def toJson (defines : Defines) : Json :=
  .object (defines.map fun entry => (entry.1, entry.2.toJson))

end Defines

end ChunkPlan
