import ChunkPlan.Proofs.Cuts

/-!
# Slashes behind parentheses

A slash behind a closing parenthesis opens a regular expression if the parentheses are the header
of a statement, and divides otherwise.  No parenthesis is kept to tell these apart, only a mark for
each one that is open; the marks agree with the parentheses that the lexemes before leave open.
-/

set_option autoImplicit false

namespace ChunkPlan

variable {memory : Memory} {lexeme : Lexeme} {front more : List Lexeme}
  {headers : List Bool} {chars : List Char} {pieces left : List Piece}

/-! ## Parentheses that match -/

namespace Lexeme

def openParenthesis : Lexeme := .punctuation ['(']

def closeParenthesis : Lexeme := .punctuation [')']

/-- Lexemes in which every parenthesis is matched by another one. -/
inductive Matched : List Lexeme → Prop where
  | nil : Matched []
  | other {lexeme : Lexeme} {rest : List Lexeme} : lexeme ≠ openParenthesis →
      lexeme ≠ closeParenthesis → Matched rest → Matched (lexeme :: rest)
  | parentheses {inner rest : List Lexeme} : Matched inner → Matched rest →
      Matched (openParenthesis :: (inner ++ closeParenthesis :: rest))

/-- Whether lexemes end with the header of a statement: the parenthesis at the end closes the one
behind a header word, because all parentheses in between are matched. -/
def ClosesHeader (lexemes : List Lexeme) : Prop :=
  ∃ before word inner, word ∈ Memory.headerWords ∧ Matched inner ∧
    lexemes = before ++ .identifier word.toList :: openParenthesis :: (inner ++ [closeParenthesis])

theorem Matched.append (matched : Matched front) (others : Matched more) :
    Matched (front ++ more) := by
  induction matched with
  | nil => exact others
  | other opens closes _ ih => exact .other opens closes ih
  | parentheses inside _ _ ih =>
    rw [List.cons_append, List.append_assoc]
    exact .parentheses inside ih

end Lexeme

open Lexeme (openParenthesis closeParenthesis Matched ClosesHeader)

/-! ## Marks of open parentheses -/

namespace Memory

/-- What is remembered behind some lexemes. -/
def behind (front : List Lexeme) : Memory := front.foldl after {}

theorem behind_concat : behind (front ++ [lexeme]) = (behind front).after lexeme :=
  List.foldl_concat ..

private theorem last_after : (memory.after lexeme).last = some lexeme := by
  unfold after
  split
  · rfl
  · split <;> rfl

theorem last_behind : (behind front).last = front.getLast? := by
  rcases List.eq_nil_or_concat front with rfl | ⟨front, lexeme, rfl⟩
  · rfl
  · rw [List.concat_eq_append, behind_concat, last_after, List.getLast?_concat]

theorem headers_after_other (opens : lexeme ≠ openParenthesis)
    (closes : lexeme ≠ closeParenthesis) :
    (memory.after lexeme).headers = memory.headers := by
  have opens : lexeme ≠ .punctuation ['('] := opens
  have closes : lexeme ≠ .punctuation [')'] := closes
  rw [after, if_neg opens, if_neg closes]

theorem headers_after_open : (memory.after openParenthesis).headers =
    memory.last.any (isWordOf headerWords) :: memory.headers := rfl

theorem headers_after_close : (memory.after closeParenthesis).headers = memory.headers.tail := rfl

/-- Parentheses that are matched leave the marks of those around them as they are. -/
theorem headers_matched (matched : Matched front) :
    (front.foldl after memory).headers = memory.headers := by
  induction matched generalizing memory with
  | nil => rfl
  | other opens closes _ ih => exact ih.trans (headers_after_other opens closes)
  | parentheses _ _ inside ih =>
    -- What is inside leaves the mark of the pair on top, and closing the pair takes it away.
    rw [List.foldl_cons, List.foldl_append, List.foldl_cons, ih, headers_after_close, inside,
      headers_after_open, List.tail_cons]

/-- Marks that tell of parentheses left open whether each of them stands behind a header word, the
innermost first. -/
inductive Marks : List Lexeme → List Bool → Prop where
  | none {front : List Lexeme} : Marks front []
  | opened {before inner : List Lexeme} {headers : List Bool} : Marks before headers →
      Matched inner → Marks (before ++ openParenthesis :: inner)
        (before.getLast?.any (isWordOf headerWords) :: headers)

theorem Marks.append (marks : Marks front headers) (matched : Matched more) :
    Marks (front ++ more) headers := by
  cases marks with
  | none => exact .none
  | opened around inside =>
    rw [List.append_assoc, List.cons_append]
    exact .opened around (inside.append matched)

/-- A closing parenthesis takes the innermost mark away; without any it closes nothing. -/
theorem Marks.close (marks : Marks front headers) :
    Marks (front ++ [closeParenthesis]) headers.tail := by
  cases marks with
  | none => exact .none
  | opened around inside =>
    rw [List.append_assoc, List.cons_append]
    exact around.append (.parentheses inside .nil)

private theorem marks_behind (front : List Lexeme) : Marks front (behind front).headers := by
  -- The memory grows at the end, so the lexemes are taken from there.
  induction front using List.reverseRecOn with
  | nil => exact .none
  | append_singleton front lexeme ih =>
    rw [behind_concat]
    by_cases opens : lexeme = openParenthesis
    · rw [opens, headers_after_open, last_behind]
      exact .opened ih .nil
    by_cases closes : lexeme = closeParenthesis
    · rw [closes, headers_after_close]
      exact ih.close
    · rw [headers_after_other opens closes]
      exact ih.append (.other opens closes .nil)

theorem isWordOf_iff {words : List String} :
    isWordOf words lexeme = true ↔ ∃ word ∈ words, lexeme = .identifier word.toList := by
  cases lexeme with
  | identifier chars =>
    simp only [isWordOf, List.contains_iff_mem, Lexeme.identifier.injEq]
    constructor
    · exact fun member => ⟨_, member, String.toList_ofList.symm⟩
    · rintro ⟨word, member, rfl⟩
      rwa [String.ofList_toList]
  | _ => simp [isWordOf]

/-- The mark that is remembered of the parenthesis closed last tells whether it closes a header. -/
theorem closedHeader_iff :
    (behind (front ++ [closeParenthesis])).closedHeader = true ↔
      ClosesHeader (front ++ [closeParenthesis]) := by
  have closed : (behind (front ++ [closeParenthesis])).closedHeader =
      (behind front).headers.head?.getD false := by
    rw [behind_concat]
    rfl
  rw [closed]
  constructor
  · intro marked
    -- The innermost mark is that of the parenthesis which is closed here.
    have marks := marks_behind front
    generalize (behind front).headers = headers at marked marks
    cases marks with
    | none => cases marked
    | @opened before inner headers around inside =>
      obtain ⟨last, ends, header⟩ := (Option.any_eq_true ..).mp marked
      obtain ⟨word, member, rfl⟩ := isWordOf_iff.mp header
      obtain ⟨before, rfl⟩ := List.getLast?_eq_some_iff.mp ends
      exact ⟨before, word, inner, member, inside, by simp⟩
  · rintro ⟨before, word, inner, member, inside, same⟩
    have ended : front ++ [closeParenthesis] =
        before ++ [.identifier word.toList] ++ [openParenthesis] ++ inner ++ [closeParenthesis] :=
      same.trans (by simp)
    have whole := List.append_cancel_right ended
    have header : isWordOf headerWords (.identifier word.toList) = true :=
      isWordOf_iff.mpr ⟨word, member, rfl⟩
    rw [whole, behind, List.foldl_append, headers_matched inside]
    change (behind (before ++ [_] ++ [openParenthesis])).headers.head?.getD false = true
    rw [behind_concat, headers_after_open, last_behind, List.getLast?_concat]
    exact header

end Memory

/-! ## Readings -/

namespace Piece

def lexeme? : Piece → Option Lexeme
  | .token lexeme => some lexeme
  | _ => none

def lexemes (pieces : List Piece) : List Lexeme := pieces.filterMap lexeme?

private theorem foldl_afterPiece :
    pieces.foldl Memory.afterPiece memory = (lexemes pieces).foldl Memory.after memory := by
  induction pieces generalizing memory with
  | nil => rfl
  | cons piece pieces ih =>
    cases piece with
    | token lexeme => exact ih
    | _ => exact ih

private theorem next_slash (code : ¬Lexeme.opensComment '/' chars.head?) :
    Piece.next memory '/' chars =
      if memory.opensRegex then
        match Lexeme.closeRegex? false chars with
        | some (body, rest) => .ok (.token (.regex ('/' :: body ++
            rest.takeWhile Lexeme.isIdentifierPart)), rest.dropWhile Lexeme.isIdentifierPart)
        | none => .error .regex
      else .ok (.token (.punctuation ['/']), chars) := by
  have blank : CharClass.isBlank '/' = false := by decide
  have start : Lexeme.isIdentifierStart '/' = false := by decide
  have digit : CharClass.isDigit '/' = false := by decide
  have line : chars.head? ≠ some '/' := fun next => code ⟨rfl, .inl next⟩
  have block : chars.head? ≠ some '*' := fun next => code ⟨rfl, .inr next⟩
  cases opens : memory.opensRegex <;> cases closed : Lexeme.closeRegex? false chars <;>
    simp [Piece.next, Lexeme.next, blank, start, digit, line, block, opens, closed]

end Piece

namespace Cut

/-- What is read behind some pieces of a cut: the next piece, or what is opened there and never
closed. -/
inductive ReadsBehind (cut : Cut) (left : List Piece) : Except Unclosed Piece → Prop where
  | piece {piece : Piece} {right : List Piece} : cut.pieces = left ++ piece :: right →
      ReadsBehind cut left (.ok piece)
  | unclosed {fault : Unclosed} {chars : List Char} : cut.pieces = left →
      cut.unclosed = some (fault, chars) → ReadsBehind cut left (.error fault)

/-- Whether what is read is a regular expression, closed or not. -/
def IsRegex (reading : Except Unclosed Piece) : Prop :=
  (∃ text, reading = .ok (.token (.regex text))) ∨ reading = .error .regex

variable {right : List Piece} {unclosed : Option (Unclosed × List Char)}

private theorem readsBehind_of_ofChars {cut : Cut} {c : Char} (behind : cut.pieces = left ++ right)
    (onward : ofChars memory (c :: chars) = ⟨right, cut.unclosed⟩) :
    cut.ReadsBehind left ((Piece.next memory c chars).map (·.1)) := by
  rw [ofChars_cons] at onward
  cases read : Piece.next memory c chars with
  | error fault =>
    rw [read] at onward
    obtain ⟨rfl, fails⟩ := Cut.mk.inj onward
    exact .unclosed (behind.trans (List.append_nil left)) fails.symm
  | ok next =>
    rw [read] at onward
    obtain ⟨rfl, -⟩ := Cut.mk.inj onward
    exact .piece behind

end Cut

/-! ## Slashes -/

private theorem Memory.opensRegex_behind (closes : front.getLast? = some closeParenthesis) :
    (behind front).opensRegex = true ↔ ClosesHeader front := by
  obtain ⟨before, rfl⟩ := List.getLast?_eq_some_iff.mp closes
  rw [← closedHeader_iff, opensRegex, last_behind, closes]
  rfl

/-- Wherever a source is read on with a slash that opens no comment, right behind a closing
parenthesis, a regular expression is read exactly if this parenthesis closes the header of a
statement.  Otherwise the slash is read alone. -/
theorem Cut.slash_behind_parenthesis (source : String) (left : List Piece) (chars : List Char)
    (point : left <+: (ofSource source.toList).pieces)
    (slash : source.toList = Piece.sources left ++ '/' :: chars)
    (code : ¬Lexeme.opensComment '/' chars.head?)
    (closes : (Piece.lexemes left).getLast? = some closeParenthesis) :
    ∃ reading, (ofSource source.toList).ReadsBehind left reading ∧
      (IsRegex reading ↔ ClosesHeader (Piece.lexemes left)) ∧
      (¬ClosesHeader (Piece.lexemes left) → reading = .ok (.token (.punctuation ['/']))) := by
  obtain ⟨right, behind⟩ := point
  have cut : ofSource source.toList = ⟨left ++ right, (ofSource source.toList).unclosed⟩ := by
    rw [behind]
  have begun : left = [] → ¬['#', '!'] <+: source.toList := by
    rintro rfl
    cases closes
  obtain ⟨rest, split, onward⟩ := ofSource_behind cut begun
  obtain rfl : '/' :: chars = rest := List.append_cancel_left (slash.symm.trans split)
  refine ⟨_, readsBehind_of_ofChars behind.symm onward, ?_⟩
  rw [Piece.foldl_afterPiece, Piece.next_slash code]
  rw [← Memory.opensRegex_behind closes, Memory.behind]
  cases opens : ((Piece.lexemes left).foldl Memory.after {}).opensRegex with
  | true =>
    refine ⟨iff_of_true ?_ rfl, fun other => absurd rfl other⟩
    cases Lexeme.closeRegex? false chars with
    | none => exact .inr rfl
    | some closed => exact .inl ⟨_, rfl⟩
  | false =>
    refine ⟨iff_of_false ?_ Bool.false_ne_true, fun _ => rfl⟩
    rintro (⟨text, same⟩ | same)
    · cases same
    · cases same

/-- A condition around a call, up to a slash. -/
def calledCondition : List Piece :=
  [.token (.identifier ['i', 'f']), .token openParenthesis, .token (.identifier ['f']),
    .token openParenthesis, .token closeParenthesis, .token closeParenthesis, .blank ' ']

theorem Cut.slash_behind_parenthesis_calledCondition :
    calledCondition <+: (ofSource "if(f()) /)/.test(g)/2".toList).pieces ∧
      "if(f()) /)/.test(g)/2".toList =
        Piece.sources calledCondition ++ '/' :: ")/.test(g)/2".toList ∧
      ¬Lexeme.opensComment '/' ")/.test(g)/2".toList.head? ∧
      (Piece.lexemes calledCondition).getLast? = some closeParenthesis ∧
      ClosesHeader (Piece.lexemes calledCondition) ∧
      ∃ reading, (ofSource "if(f()) /)/.test(g)/2".toList).ReadsBehind calledCondition reading ∧
        IsRegex reading := by
  have point : calledCondition <+: (ofSource "if(f()) /)/.test(g)/2".toList).pieces := by
    decide +kernel
  have slash : "if(f()) /)/.test(g)/2".toList =
      Piece.sources calledCondition ++ '/' :: ")/.test(g)/2".toList := by decide
  have code : ¬Lexeme.opensComment '/' ")/.test(g)/2".toList.head? := by
    simp [Lexeme.opensComment]
  have closes : (Piece.lexemes calledCondition).getLast? = some closeParenthesis := by decide
  have header : ClosesHeader (Piece.lexemes calledCondition) :=
    ⟨[], "if", [.identifier ['f'], openParenthesis, closeParenthesis], by decide,
      .other (by decide) (by decide) (.parentheses .nil .nil), rfl⟩
  obtain ⟨reading, reads, regex, -⟩ := slash_behind_parenthesis _ _ _ point slash code closes
  exact ⟨point, slash, code, closes, header, reading, reads, regex.mpr header⟩

end ChunkPlan
