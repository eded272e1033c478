import ChunkPlan.Source.Script
import ChunkPlan.Text.CharClass
import ChunkPlan.Text.Substitution

/-!
# Namespaces named in documentation

A documentation comment names namespaces in the type expressions of its tags.
-/

set_option autoImplicit false

namespace ChunkPlan.DocType

/-- The tags whose first word is a type expression. -/
def typedTags : List String :=
  ["@const", "@define", "@extends", "@enum", "@implements", "@lends", "@param", "@private",
    "@protected", "@return", "@this", "@type", "@typedef"]

/-- Splits a text at the separators of alternatives; spaces around them are dropped. -/
def splitAlternatives (text : List Char) : List (List Char) :=
  let isSeparator (c : Char) : Bool := c = '|' || c = ',' || c = '/'
  let isSpace (c : Char) : Bool := c = ' '
  let pieces := Text.fields '|' (text.map fun c => if isSeparator c then '|' else c)
  let last := pieces.length - 1
  pieces.zipIdx.map fun (piece, index) =>
    let piece := if index = 0 then piece else piece.dropWhile isSpace
    if index = last then piece else Text.trimEnd isSpace piece

/-- The types of a type expression.  Braces have no meaning of their own. -/
def ofExpression (text : String) : List String :=
  let plain := text.toList.filter fun c => c ≠ '\x7b' && c ≠ '\x7d'
  (splitAlternatives (Text.trim CharClass.isBlank plain)).map String.ofList

/-- The words of a text: what stands between runs of spaces.  A text that begins or ends with a
space begins or ends with an empty word. -/
def words : List Char → List (List Char)
  | [] => [[]]
  | ' ' :: ' ' :: cs => words (' ' :: cs)
  | c :: cs =>
    if c = ' ' then [] :: words cs
    else
      match words cs with
      | [] => [[c]]
      | word :: rest => (c :: word) :: rest

/-- The types of a tag: those of its second word, if the first one is a tag with types. -/
def ofTag (tag : String) : List String :=
  match words tag.toList with
  | [] => []
  | name :: rest =>
    if typedTags.contains (String.ofList name) then
      ofExpression (String.ofList (rest.head?.getD []))
    else []

/-- Drops the decoration at the start of a line: an asterisk with the blanks before it and one
space after it. -/
def undecorated (line : List Char) : List Char :=
  match line.dropWhile (fun c => c = ' ' || c = '\t') with
  | '*' :: ' ' :: rest => rest
  | '*' :: rest => rest
  | _ => line

/-- A space in place of the first blank. -/
def flattenFirst : List Char → List Char
  | [] => []
  | c :: cs => if CharClass.isBlank c then ' ' :: cs else c :: flattenFirst cs

def ofBody (body : String) : List String :=
  let lines := (Text.fields '\n' body.toList).map undecorated
  let tags := (Text.fields '@' (Text.joinFields '\n' lines)).tail
  tags.flatMap fun tag => ofTag (String.ofList ('@' :: flattenFirst tag))

/-- Whether a comment is documentation: a block comment with exactly one more asterisk at its
start. -/
def isDocumentation (comment : Comment) : Bool :=
  comment.isBlock &&
    match comment.text.toList with
    | '*' :: c :: _ => c ≠ '*'
    | _ => false

/-- Letters, digits and the underscore of ASCII, and the dollar sign. -/
def isNamePart (c : Char) : Bool := c.isAlphanum || c = '_' || c = '$'

/-- Whether a namespace occurs in a text right after a character that can stand before a name, and
right before one that can stand after it. -/
def occursAsWord (name : List Char) : List Char → Bool
  | [] => false
  | c :: cs =>
    (!(isNamePart c || c = '.') && name.isPrefixOf cs
        && (cs.drop name.length).head?.any fun after => !isNamePart after)
      || occursAsWord name cs

def names (expression name : String) : Bool :=
  occursAsWord name.toList (' ' :: expression.toList ++ [' '])

def namespace? (expression : String) (candidates : List String) : Option String :=
  candidates.find? (names expression)

end ChunkPlan.DocType
