import ChunkPlan.Text.CharClass

/-!
# Lexemes

The words of a script: what a token looks like in the source, and what text it stands for.  For
each kind of delimited literal, a function finds the end of the literal; its lemma says that what
it splits is put together again by the delimiters.
-/

set_option autoImplicit false

namespace ChunkPlan

inductive TokenKind where
  | endOfFile
  | identifier
  | number
  | string
  | template
  | regex
  | punctuation
  deriving DecidableEq, Repr, Inhabited

/-- A token as it is written. -/
inductive Lexeme where
  | identifier (chars : List Char)
  | number (chars : List Char)
  | string (quote : Char) (body : List Char)
  /-- A literal in backticks, with the escapes and substitutions of its body. -/
  | template (body : List Char)
  | regex (chars : List Char)
  | punctuation (chars : List Char)
  deriving DecidableEq, Repr, Inhabited

/-- A literal or comment that is opened and never closed. -/
inductive Unclosed where
  | string
  | blockComment
  | template
  | regex
  deriving DecidableEq, Repr, Inhabited

namespace Lexeme

/-! ## Classes of characters -/

def isIdentifierStart (c : Char) : Bool := CharClass.isLetter c || c = '_' || c = '$'

def isIdentifierPart (c : Char) : Bool := CharClass.isAlphanumeric c || c = '_' || c = '$'

def isNumberPart (c : Char) : Bool := isIdentifierPart c || c = '.'

/-! ## Text and source -/

/-- The text of a string literal: an escaped line break is nothing, any other escaped character is
itself. -/
def unescape : List Char → List Char
  | [] => []
  | '\\' :: c :: rest => if c = '\n' then unescape rest else c :: unescape rest
  | c :: rest => c :: unescape rest

def kind : Lexeme → TokenKind
  | .identifier _ => .identifier
  | .number _ => .number
  | .string .. => .string
  | .template _ => .template
  | .regex _ => .regex
  | .punctuation _ => .punctuation

def text : Lexeme → List Char
  | .identifier chars => chars
  | .number chars => chars
  | .string _ body => unescape body
  | .template body => body
  | .regex chars => chars
  | .punctuation chars => chars

def source : Lexeme → List Char
  | .string quote body => quote :: body ++ [quote]
  | .template body => '`' :: body ++ ['`']
  | .identifier chars => chars
  | .number chars => chars
  | .regex chars => chars
  | .punctuation chars => chars

/-! ## Ends of literals -/

/-- Splits what follows an opening quote into the body and what follows the closing quote.  A line
break ends the search unless it is escaped. -/
def closeString? (quote : Char) : List Char → Option (List Char × List Char)
  | [] => none
  | '\\' :: c :: rest => (closeString? quote rest).map fun (body, rest) => ('\\' :: c :: body, rest)
  | ['\\'] => none
  | c :: rest =>
    if c = '\n' then none
    else if c = quote then some ([], rest)
    else (closeString? quote rest).map fun (body, rest) => (c :: body, rest)

def depthAfter (depth : Nat) (c : Char) : Nat :=
  if c = '\x7b' then depth + 1 else if c = '\x7d' then depth - 1 else depth

/-- Splits what follows an opening backtick into the body and what follows the closing one.
`depth` counts the open braces of a substitution; inside one, no backtick closes the literal. -/
def closeTemplate? : (depth : Nat) → List Char → Option (List Char × List Char)
  | _, [] => none
  | depth, '\\' :: c :: rest =>
    (closeTemplate? depth rest).map fun (body, rest) => ('\\' :: c :: body, rest)
  | depth, '$' :: '\x7b' :: rest =>
    (closeTemplate? (depth + 1) rest).map fun (body, rest) => ('$' :: '\x7b' :: body, rest)
  | 0, c :: rest =>
    if c = '`' then some ([], rest)
    else (closeTemplate? 0 rest).map fun (body, rest) => (c :: body, rest)
  | depth + 1, c :: rest =>
    (closeTemplate? (depthAfter (depth + 1) c) rest).map fun (body, rest) => (c :: body, rest)

def classAfter (inClass : Bool) (c : Char) : Bool :=
  if c = '[' then true else if c = ']' then false else inClass

/-- Splits what follows the opening slash of a regular expression into what goes up to the closing
slash and what follows it.  A slash inside a class in brackets closes nothing. -/
def closeRegex? : (inClass : Bool) → List Char → Option (List Char × List Char)
  | _, [] => none
  | inClass, '\\' :: c :: rest =>
    (closeRegex? inClass rest).map fun (body, rest) => ('\\' :: c :: body, rest)
  | inClass, c :: rest =>
    if c = '\n' then none
    else if c = '/' && !inClass then some (['/'], rest)
    else (closeRegex? (classAfter inClass c) rest).map fun (body, rest) => (c :: body, rest)

/-- Splits what follows the opening of a block comment at its first closing mark. -/
def closeComment? : List Char → Option (List Char × List Char)
  | [] => none
  | '*' :: '/' :: rest => some ([], rest)
  | c :: rest => (closeComment? rest).map fun (body, rest) => (c :: body, rest)

theorem closeString?_eq_some {quote : Char} {chars body rest : List Char}
    (h : closeString? quote chars = some (body, rest)) : chars = body ++ quote :: rest := by
  fun_induction closeString? quote chars generalizing body rest with
  | case1 => simp at h
  | case2 c cs ih =>
    obtain ⟨⟨b, r⟩, hb, he⟩ := Option.map_eq_some_iff.1 h
    cases he
    simp [ih hb]
  | case3 => simp at h
  | case4 => simp at h
  | case5 => simp_all
  | case6 c cs _ _ _ _ ih =>
    obtain ⟨⟨b, r⟩, hb, he⟩ := Option.map_eq_some_iff.1 h
    cases he
    simp [ih hb]

theorem closeTemplate?_eq_some {depth : Nat} {chars body rest : List Char}
    (h : closeTemplate? depth chars = some (body, rest)) : chars = body ++ '`' :: rest := by
  fun_induction closeTemplate? depth chars generalizing body rest with
  | case1 => simp at h
  | case2 depth c cs ih =>
    obtain ⟨⟨b, r⟩, hb, he⟩ := Option.map_eq_some_iff.1 h
    cases he
    simp [ih hb]
  | case3 depth cs ih =>
    obtain ⟨⟨b, r⟩, hb, he⟩ := Option.map_eq_some_iff.1 h
    cases he
    simp [ih hb]
  | case4 => simp_all
  | case5 c cs _ _ _ ih =>
    obtain ⟨⟨b, r⟩, hb, he⟩ := Option.map_eq_some_iff.1 h
    cases he
    simp [ih hb]
  | case6 depth c cs _ _ ih =>
    obtain ⟨⟨b, r⟩, hb, he⟩ := Option.map_eq_some_iff.1 h
    cases he
    simp [ih hb]

theorem closeRegex?_eq_some {inClass : Bool} {chars body rest : List Char}
    (h : closeRegex? inClass chars = some (body, rest)) : chars = body ++ rest := by
  fun_induction closeRegex? inClass chars generalizing body rest with
  | case1 => simp at h
  | case2 inClass c cs ih =>
    obtain ⟨⟨b, r⟩, hb, he⟩ := Option.map_eq_some_iff.1 h
    cases he
    simp [ih hb]
  | case3 => simp at h
  | case4 =>
    simp only [Option.some.injEq, Prod.mk.injEq] at h
    simp_all [← h.1]
  | case5 inClass c cs _ _ _ ih =>
    obtain ⟨⟨b, r⟩, hb, he⟩ := Option.map_eq_some_iff.1 h
    cases he
    simp [ih hb]

theorem closeComment?_eq_some {chars body rest : List Char}
    (h : closeComment? chars = some (body, rest)) : chars = body ++ '*' :: '/' :: rest := by
  fun_induction closeComment? chars generalizing body rest with
  | case1 => simp at h
  | case2 => simp_all
  | case3 c cs _ ih =>
    obtain ⟨⟨b, r⟩, hb, he⟩ := Option.map_eq_some_iff.1 h
    cases he
    simp [ih hb]

end Lexeme

end ChunkPlan
