import ChunkPlan.Entries
import ChunkPlan.Number.Shortest
import ChunkPlan.Text.Quoted

/-!
# JSON values

Values of a JSON document.  Members keep their order, and whole numbers are kept apart from
numbers with a fraction or an exponent.
-/

set_option autoImplicit false

namespace ChunkPlan

inductive Json where
  | null
  | bool (value : Bool)
  | integer (value : Int)
  | number (value : Binary64)
  | string (value : String)
  | array (items : List Json)
  | object (members : List (String × Json))
  deriving Inhabited

namespace Json

/-- Values that stand for nothing given: `null`, `false`, zero, and whatever is empty. -/
def isEmpty : Json → Bool
  | .null => true
  | .bool value => !value
  | .integer value => value = 0
  | .number value => value.isZero
  | .string value => value.isEmpty
  | .array items => items.isEmpty
  | .object members => members.isEmpty

/-- The member of an object under a key, and `null` if it has none. -/
def member (members : Entries Json) (key : String) : Json := (members.find? key).getD .null

def string? : Json → Option String
  | .string value => some value
  | _ => none

def strings? : Json → Option (List String)
  | .array items => items.mapM string?
  | _ => none

def ofStrings (texts : List String) : Json := .array (texts.map .string)

/-- Whether a value is the given integer, or absent where none is given.  `true` and `false` count
as one and zero. -/
def isDate : Json → Option Int → Bool
  | .null, none => true
  | .bool value, some date => date = if value then 1 else 0
  | .integer value, some date => value = date
  | .number value, some date => value.equalsInt date
  | _, _ => false

mutual

/-- How a value is shown inside a longer value: texts are quoted. -/
def shown : Json → String
  | .null => "None"
  | .bool value => if value then "True" else "False"
  | .integer value => toString value
  | .number value => value.render .plain
  | .string value => Text.quoted value
  | .array items => "[" ++ ", ".intercalate (shownItems items) ++ "]"
  | .object members => "\x7b" ++ ", ".intercalate (shownMembers members) ++ "\x7d"

def shownItems : List Json → List String
  | [] => []
  | item :: items => shown item :: shownItems items

def shownMembers : List (String × Json) → List String
  | [] => []
  | (key, value) :: members => (Text.quoted key ++ ": " ++ shown value) :: shownMembers members

end

/-- The text of a value that is put into a message: a string stands for itself. -/
def text : Json → String
  | .string value => value
  | value => value.shown

end Json

end ChunkPlan
