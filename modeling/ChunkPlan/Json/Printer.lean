import ChunkPlan.Json.Basic

/-!
# Writing JSON

The text of a JSON value in ASCII: every character outside the printable range is an escape, in
two halves above `FFFF`.
-/

set_option autoImplicit false

namespace ChunkPlan.Json

/-- What is written between items and after keys. -/
structure Separators where
  item : String
  key : String

def Separators.spaced : Separators := ⟨", ", ": "⟩

def Separators.compact : Separators := ⟨",", ":"⟩

def unicodeEscape (code : Nat) : List Char := '\\' :: 'u' :: Text.hexDigits 4 code

def escapedChar (c : Char) : List Char :=
  if c = '"' || c = '\\' then ['\\', c]
  else if c = '\n' then ['\\', 'n']
  else if c = '\r' then ['\\', 'r']
  else if c = '\t' then ['\\', 't']
  else if c = '\x08' then ['\\', 'b']
  else if c = '\x0c' then ['\\', 'f']
  else if 32 ≤ c.toNat && c.toNat ≤ 126 then [c]
  else if c.toNat ≤ 0xFFFF then unicodeEscape c.toNat
  else
    let offset := c.toNat - 0x10000
    unicodeEscape (0xD800 + offset / 0x400) ++ unicodeEscape (0xDC00 + offset % 0x400)

def literal (s : String) : List Char := '"' :: s.toList.flatMap escapedChar ++ ['"']

mutual

def chars (separators : Separators) : Json → List Char
  | .null => "null".toList
  | .bool value => (if value then "true" else "false").toList
  | .integer value => (toString value).toList
  | .number value => (value.render .json).toList
  | .string value => literal value
  | .array items => '[' :: itemChars separators items ++ [']']
  | .object members => '\x7b' :: memberChars separators members ++ ['\x7d']

def itemChars (separators : Separators) : List Json → List Char
  | [] => []
  | [item] => chars separators item
  | item :: items => chars separators item ++ separators.item.toList ++ itemChars separators items

def memberChars (separators : Separators) : List (String × Json) → List Char
  | [] => []
  | [(key, value)] => literal key ++ separators.key.toList ++ chars separators value
  | (key, value) :: members =>
    literal key ++ separators.key.toList ++ chars separators value ++ separators.item.toList
      ++ memberChars separators members

end

def render (value : Json) (separators : Separators := .spaced) : String :=
  String.ofList (chars separators value)

end ChunkPlan.Json
