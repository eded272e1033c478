import ChunkPlan.Json.Token

/-!
# Reading JSON

The value of a JSON text, built token by token.  A key that is written twice keeps its first place
and its last value.
-/

set_option autoImplicit false

namespace ChunkPlan.Json

/-- A collection that is not closed yet. -/
inductive Frame where
  /-- The items so far, the last one first. -/
  | array (items : List Json)
  /-- The members so far, and the key whose value comes next. -/
  | object (members : Entries Json) (key : String)

/-- What may come next in a text. -/
inductive Reading where
  | value (outer : List Frame)
  /-- The first item of an array, or its end. -/
  | firstItem (outer : List Frame)
  /-- The first key of an object, or its end. -/
  | firstKey (outer : List Frame)
  | key (members : Entries Json) (outer : List Frame)
  | colon (members : Entries Json) (key : String) (outer : List Frame)
  | arrayGap (items : List Json) (outer : List Frame)
  | objectGap (members : Entries Json) (outer : List Frame)
  /-- Nothing: the value is complete. -/
  | done (value : Json)

namespace Reading

def accept (item : Json) : List Frame → Reading
  | [] => .done item
  | .array items :: outer => .arrayGap (item :: items) outer
  | .object members name :: outer => .objectGap (members.put name item) outer

def begin? (outer : List Frame) : Token → Option Reading
  | .openArray => some (.firstItem outer)
  | .openObject => some (.firstKey outer)
  | .scalar item => some (accept item outer)
  | _ => none

def step? : Reading → Token → Option Reading
  | .value outer, token => begin? outer token
  | .firstItem outer, .closeArray => some (accept (.array []) outer)
  | .firstItem outer, token => begin? (.array [] :: outer) token
  | .firstKey outer, .closeObject => some (accept (.object []) outer)
  | .firstKey outer, .scalar (.string name) => some (.colon [] name outer)
  | .key members outer, .scalar (.string name) => some (.colon members name outer)
  | .colon members name outer, .colon => some (.value (.object members name :: outer))
  | .arrayGap items outer, .comma => some (.value (.array items :: outer))
  | .arrayGap items outer, .closeArray => some (accept (.array items.reverse) outer)
  | .objectGap members outer, .comma => some (.key members outer)
  | .objectGap members outer, .closeObject => some (accept (.object members) outer)
  | _, _ => none

def run? (reading : Reading) (tokens : List Token) : Option Reading := tokens.foldlM step? reading

end Reading

def ofTokens? (tokens : List Token) : Option Json :=
  match Reading.run? (.value []) tokens with
  | some (.done value) => some value
  | _ => none

def parse? (text : String) : Option Json := (Token.list? text.toList).bind ofTokens?

end ChunkPlan.Json
