import ChunkPlan.Source.Script
import ChunkPlan.Source.Unit
import ChunkPlan.Text.Substitution

/-!
# Namespace declarations

A script declares what it provides and requires by calls such as `goog.provide('a.b')`.  They are
found in the token stream, so a call inside a comment or a literal declares nothing.
-/

set_option autoImplicit false

namespace ChunkPlan

inductive Declaration where
  | provide (name : String)
  | module (name : String)
  | require (name : String)
  deriving DecidableEq, Repr, Inhabited

namespace Declaration

/-- The declaration that a method of the `goog` object makes. -/
def ofMethod? (method name : String) : Option Declaration :=
  if method = "provide" then some (.provide name)
  else if method = "module" then some (.module name)
  else if method = "require" then some (.require name)
  else none

/-- The declaration that begins with the first token, where `before` is the token before it.  A
call on a member that happens to be named `goog` is none. -/
def at? (before : Option Token) : List Token → Option Declaration
  | owner :: dot :: method :: paren :: name :: _ =>
    if owner.kind = .identifier && owner.text = "goog" && dot.isPunctuation "."
        && method.kind = .identifier && paren.isPunctuation "(" && name.kind = .string
        && !before.any (·.isPunctuation ".") then
      ofMethod? method.text name.text
    else none
  | _ => none

def list (before : Option Token) : List Token → List Declaration
  | [] => []
  | token :: rest =>
    match at? before (token :: rest) with
    | some declaration => declaration :: list (some token) rest
    | none => list (some token) rest

def provided? : Declaration → Option String
  | .provide name => some name
  | .module name => some name
  | .require _ => none

def required? : Declaration → Option String
  | .require name => some name
  | _ => none

def isModule : Declaration → Bool
  | .module _ => true
  | _ => false

end Declaration

namespace Comment

/-- The mark of a comment by which a file provides the bootstrap namespace. -/
def bootstrapMark : String := "@provideGoog"

/-- Whether a comment carries the mark; only block comments do. -/
def marksBootstrap (comment : Comment) : Bool :=
  comment.isBlock && Text.occursIn bootstrapMark.toList comment.text.toList

end Comment

namespace Script

/-- The unit of a script.  A namespace that is declared twice counts once. -/
def toUnit (path : String) (script : Script) : SourceUnit :=
  let declarations := Declaration.list none script.tokens
  let provides := (declarations.filterMap (·.provided?)).eraseDups
  let marked := script.comments.any (·.marksBootstrap)
  let bootstrap := SourceUnit.bootstrapNamespace
  .create path
    (if marked && !provides.contains bootstrap then provides ++ [bootstrap] else provides)
    (declarations.filterMap (·.required?)).eraseDups
    (declarations.any (·.isModule))

end Script

end ChunkPlan
