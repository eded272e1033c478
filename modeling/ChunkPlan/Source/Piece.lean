import ChunkPlan.Source.Lexeme

/-!
# Pieces of a script

A script is cut into pieces from left to right: blanks, comments and lexemes.  Only one decision
needs more than the characters ahead: whether a slash divides or opens a regular expression, which
`Memory` settles from the lexemes before it.
-/

set_option autoImplicit false

namespace ChunkPlan

/-- A piece of a script. -/
inductive Piece where
  | interpreter (chars : List Char)
  | blank (c : Char)
  | lineComment (body : List Char)
  | blockComment (body : List Char)
  | token (lexeme : Lexeme)
  deriving DecidableEq, Repr, Inhabited

def Piece.source : Piece → List Char
  | .interpreter chars => chars
  | .blank c => [c]
  | .lineComment body => '/' :: '/' :: body
  | .blockComment body => '/' :: '*' :: body ++ ['*', '/']
  | .token lexeme => lexeme.source

/-- What is remembered from lexeme to lexeme. -/
structure Memory where
  last : Option Lexeme := none
  /-- For each open parenthesis, the innermost first, whether it opens the header of a
  statement. -/
  headers : List Bool := []
  /-- Whether the parenthesis closed last had opened a header. -/
  closedHeader : Bool := false
  deriving DecidableEq, Repr, Inhabited

namespace Memory

/-- Words after which a slash opens a regular expression. -/
def expressionWords : List String :=
  ["return", "typeof", "instanceof", "in", "of", "new", "delete", "void", "throw", "case", "do",
    "else", "yield", "await"]

def headerWords : List String := ["if", "while", "for", "with"]

/-- Punctuation that ends an operand. -/
def operandEnds : List String := [")", "]", "\x7d", "++", "--"]

def isWordOf (words : List String) : Lexeme → Bool
  | .identifier chars => words.contains (String.ofList chars)
  | _ => false

/-- Whether a slash opens a regular expression here: where an operand may begin. -/
def opensRegex (memory : Memory) : Bool :=
  match memory.last with
  | none => true
  | some (.punctuation chars) =>
    if chars = [')'] then memory.closedHeader else !operandEnds.contains (String.ofList chars)
  | some lexeme => isWordOf expressionWords lexeme

def after (memory : Memory) (lexeme : Lexeme) : Memory :=
  if lexeme = .punctuation ['('] then
    { memory with
      last := some lexeme
      headers := memory.last.any (isWordOf headerWords) :: memory.headers }
  else if lexeme = .punctuation [')'] then
    { last := some lexeme
      headers := memory.headers.tail
      closedHeader := memory.headers.head?.getD false }
  else { memory with last := some lexeme }

def afterPiece (memory : Memory) : Piece → Memory
  | .token lexeme => memory.after lexeme
  | _ => memory

end Memory

/-- Reads the lexeme that begins with `c` and goes on with `chars`. -/
def Lexeme.next (memory : Memory) (c : Char) (chars : List Char) :
    Except Unclosed (Lexeme × List Char) :=
  if isIdentifierStart c then
    .ok (.identifier (c :: chars.takeWhile isIdentifierPart), chars.dropWhile isIdentifierPart)
  else if CharClass.isDigit c || (c = '.' && chars.head?.any CharClass.isDigit) then
    .ok (.number (c :: chars.takeWhile isNumberPart), chars.dropWhile isNumberPart)
  else if c = '\'' || c = '"' then
    match closeString? c chars with
    | some (body, rest) => .ok (.string c body, rest)
    | none => .error .string
  else if c = '`' then
    match closeTemplate? 0 chars with
    | some (body, rest) => .ok (.template body, rest)
    | none => .error .template
  else if c = '/' && memory.opensRegex then
    match closeRegex? false chars with
    | some (body, rest) =>
      .ok (.regex (c :: body ++ rest.takeWhile isIdentifierPart), rest.dropWhile isIdentifierPart)
    | none => .error .regex
  else if (c = '+' || c = '-') && chars.head? = some c then
    .ok (.punctuation [c, c], chars.tail)
  else .ok (.punctuation [c], chars)

/-- Reads the piece that begins with `c` and goes on with `chars`. -/
def Piece.next (memory : Memory) (c : Char) (chars : List Char) :
    Except Unclosed (Piece × List Char) :=
  if CharClass.isBlank c then .ok (.blank c, chars)
  else if c = '/' && chars.head? = some '/' then
    .ok (.lineComment (chars.tail.takeWhile (· ≠ '\n')), chars.tail.dropWhile (· ≠ '\n'))
  else if c = '/' && chars.head? = some '*' then
    match Lexeme.closeComment? chars.tail with
    | some (body, rest) => .ok (.blockComment body, rest)
    | none => .error .blockComment
  else
    match Lexeme.next memory c chars with
    | .ok (lexeme, rest) => .ok (.token lexeme, rest)
    | .error fault => .error fault

private theorem eq_cons_tail_of_head? {chars : List Char} {c : Char} (h : chars.head? = some c) :
    chars = c :: chars.tail := by
  cases chars with
  | nil => simp at h
  | cons d rest => simp_all

/-- A lexeme begins at its first character, and with what follows it is what was there. -/
theorem Lexeme.next_eq_ok {memory : Memory} {c : Char} {chars rest : List Char} {lexeme : Lexeme}
    (h : Lexeme.next memory c chars = .ok (lexeme, rest)) :
    ∃ tail, lexeme.source = c :: tail ∧ chars = tail ++ rest := by
  unfold Lexeme.next at h
  repeat' split at h
  all_goals
    simp only [Except.ok.injEq, Prod.mk.injEq, reduceCtorEq] at h
  all_goals
    obtain ⟨rfl, rfl⟩ := h
  · exact ⟨_, rfl, List.takeWhile_append_dropWhile.symm⟩
  · exact ⟨_, rfl, List.takeWhile_append_dropWhile.symm⟩
  · rename_i he
    exact ⟨_, rfl, by simp [closeString?_eq_some he]⟩
  · rename_i hc _ body rest he
    simp only [source, hc, List.cons_append, List.cons.injEq, true_and, exists_eq_left']
    simp [closeTemplate?_eq_some he]
  · rename_i body rest he
    refine ⟨body ++ rest.takeWhile isIdentifierPart, by simp [source], ?_⟩
    simp [closeRegex?_eq_some he, List.takeWhile_append_dropWhile]
  · rename_i h
    have hh : chars.head? = some c := by simp_all
    exact ⟨[c], rfl, by simpa using eq_cons_tail_of_head? hh⟩
  · exact ⟨[], rfl, rfl⟩

/-- A piece begins at its first character, and with what follows it is what was there. -/
theorem Piece.next_eq_ok {memory : Memory} {c : Char} {chars rest : List Char} {piece : Piece}
    (h : Piece.next memory c chars = .ok (piece, rest)) :
    ∃ tail, piece.source = c :: tail ∧ chars = tail ++ rest := by
  unfold Piece.next at h
  repeat' split at h
  all_goals
    simp only [Except.ok.injEq, Prod.mk.injEq, reduceCtorEq] at h
  all_goals
    obtain ⟨rfl, rfl⟩ := h
  · exact ⟨[], rfl, rfl⟩
  · rename_i h
    have hh : chars.head? = some '/' := by simp_all
    have hc : c = '/' := by simp_all
    exact ⟨_, by rw [source, hc], (eq_cons_tail_of_head? hh).trans
      (by simp [List.takeWhile_append_dropWhile])⟩
  · rename_i h _ _ _ he
    have hh : chars.head? = some '*' := by simp_all
    have hc : c = '/' := by simp_all
    exact ⟨_, by rw [source, hc]; rfl, (eq_cons_tail_of_head? hh).trans
      (by simp [Lexeme.closeComment?_eq_some he])⟩
  · rename_i he
    simpa [source] using Lexeme.next_eq_ok he

/-- Reading a piece leaves less to read. -/
theorem Piece.length_lt_of_next {memory : Memory} {c : Char} {chars rest : List Char}
    {piece : Piece} (h : Piece.next memory c chars = .ok (piece, rest)) :
    rest.length < (c :: chars).length := by
  obtain ⟨tail, -, rfl⟩ := Piece.next_eq_ok h
  simp only [List.length_cons, List.length_append]
  omega

/-- What a script is cut into: its pieces, and what is left when a literal or comment opened there
is never closed. -/
structure Cut where
  pieces : List Piece
  unclosed : Option (Unclosed × List Char)
  deriving Repr, Inhabited

namespace Cut

def ofChars (memory : Memory) (chars : List Char) : Cut :=
  match chars with
  | [] => ⟨[], none⟩
  | c :: rest =>
    match _h : Piece.next memory c rest with
    | .error fault => ⟨[], some (fault, c :: rest)⟩
    | .ok (piece, rest') =>
      let cut := ofChars (memory.afterPiece piece) rest'
      { cut with pieces := piece :: cut.pieces }
  termination_by chars.length
  decreasing_by exact Piece.length_lt_of_next ‹_›

def endsInterpreter (c : Char) : Bool := c = '\n' || c = '\x00'

def ofSource (chars : List Char) : Cut :=
  if chars.take 2 = ['#', '!'] then
    let cut := ofChars {} (chars.dropWhile (!endsInterpreter ·))
    { cut with pieces := .interpreter (chars.takeWhile (!endsInterpreter ·)) :: cut.pieces }
  else ofChars {} chars

end Cut

end ChunkPlan
