import ChunkPlan.Source.Script
import ChunkPlan.Text.CharClass

/-!
# Namespaces used in code

Code uses a namespace through a chain of identifiers with dots between them, such as `a.b.c()`.
-/

set_option autoImplicit false

namespace ChunkPlan

namespace IdentifierChain

def reservedWords : List String :=
  ["break", "case", "catch", "class", "const", "continue", "debugger", "default", "delete", "do",
    "else", "export", "extends", "false", "finally", "for", "function", "if", "import", "in",
    "instanceof", "let", "new", "null", "return", "super", "switch", "this", "throw", "true",
    "try", "typeof", "var", "void", "while", "with", "yield", "await", "of"]

/-- Splits the rest of a chain off: the identifiers that follow, each one after a dot. -/
def takeLinks : List Token → List String × List Token
  | dot :: name :: tokens =>
    if dot.isPunctuation "." && name.kind = .identifier then
      let (links, rest) := takeLinks tokens
      (name.text :: links, rest)
    else ([], dot :: name :: tokens)
  | tokens => ([], tokens)

theorem length_takeLinks_le (tokens : List Token) :
    (takeLinks tokens).2.length ≤ tokens.length := by
  fun_induction takeLinks tokens with
  | case1 dot name tokens _ links rest h ih =>
    simp only [h] at ih
    simp only [List.length_cons]
    omega
  | case2 => simp
  | case3 => simp

/-- The name that a chain uses: what stands before a prototype.  A chain that begins with a word of
the language uses none. -/
def name? (parts : List String) : Option String :=
  if parts.head?.any reservedWords.contains then none
  else
    let name := ".".intercalate (parts.takeWhile (· ≠ "prototype"))
    if name.isEmpty then none else some name

/-- The names of all chains in order, where `afterDot` tells whether a dot stands before the
tokens.  A name after a dot belongs to an expression and begins no chain. -/
def names (afterDot : Bool) : List Token → List String
  | [] => []
  | token :: tokens =>
    if token.kind = .identifier && !afterDot then
      let chain := takeLinks tokens
      match name? (token.text :: chain.1) with
      | some name => name :: names false chain.2
      | none => names false chain.2
    else names (token.isPunctuation ".") tokens
termination_by tokens => tokens.length
decreasing_by
  all_goals
    have := length_takeLinks_le tokens
    simp only [List.length_cons]
    omega

/-- The names that some code uses, each one once, in the order of first use. -/
def used (tokens : List Token) : List String := (names false tokens).eraseDups

/-- Whether a chain lives under a namespace: it is the namespace, or goes on after it with a
character that is part of no name. -/
def livesUnder (identifier name : String) : Bool :=
  identifier = name ||
    (name.toList.isPrefixOf identifier.toList &&
      match identifier.toList[name.length]? with
      | some c => !(CharClass.isWordChar c || c = '$')
      | none => false)

def namespace? (identifier : String) (names : List String) : Option String :=
  names.find? (livesUnder identifier)

end IdentifierChain

end ChunkPlan
