import ChunkPlan.Proofs.CharClasses
import ChunkPlan.Proofs.Literals
import ChunkPlan.Source.Piece

/-!
# Lexical grammar

Which pieces a source may be cut into, and where each of them ends: where the next character does
not go on with it.  These rules look at one piece and one character at a time, and still there is
no other cut than the one that is read.
-/

set_option autoImplicit false

namespace ChunkPlan

variable {memory : Memory} {c : Char} {chars rest tail : List Char} {lexeme : Lexeme} {piece : Piece}
  {pieces : List Piece}

/-! ## Lexemes -/

namespace Lexeme

/-- Whether two characters are read together where the first one alone would be punctuation. -/
def joins (c d : Char) : Bool :=
  c = '.' && CharClass.isDigit d || (c = '+' || c = '-') && d = c || c = '/' && (d = '/' || d = '*')

/-- Whether a lexeme would be read on over the next character. -/
def goesOn : Lexeme → Char → Bool
  | .identifier _, d => isIdentifierPart d
  | .number _, d => isNumberPart d
  | .regex _, d => isIdentifierPart d
  | .punctuation [c], d => joins c d
  | _, _ => false

/-- Characters that begin no other piece than punctuation.  A slash can begin others. -/
structure IsMark (c : Char) : Prop where
  blank : CharClass.isBlank c = false
  word : isIdentifierStart c = false
  digit : CharClass.isDigit c = false
  quote : c ≠ '\'' ∧ c ≠ '"' ∧ c ≠ '`'

/-- A lexeme as it may be written. -/
inductive Legal (memory : Memory) : Lexeme → Prop where
  | identifier {c : Char} {chars : List Char} : isIdentifierStart c = true →
      (∀ d ∈ chars, isIdentifierPart d = true) → Legal memory (.identifier (c :: chars))
  | number {c : Char} {chars : List Char} : CharClass.isDigit c = true →
      (∀ d ∈ chars, isNumberPart d = true) → Legal memory (.number (c :: chars))
  | fraction {c : Char} {chars : List Char} : CharClass.isDigit c = true →
      (∀ d ∈ chars, isNumberPart d = true) → Legal memory (.number ('.' :: c :: chars))
  | string {quote : Char} {body : List Char} : quote = '\'' ∨ quote = '"' →
      StringBody quote body (unescape body) → Legal memory (.string quote body)
  | template {body : List Char} : TemplateBody 0 body → Legal memory (.template body)
  | regex {body flags : List Char} : memory.opensRegex = true → RegexBody false body → body ≠ [] →
      body.head? ≠ some '*' → (∀ d ∈ flags, isIdentifierPart d = true) →
      Legal memory (.regex ('/' :: body ++ '/' :: flags))
  | twice {c : Char} : c = '+' ∨ c = '-' → Legal memory (.punctuation [c, c])
  | mark {c : Char} : IsMark c → (c = '/' → memory.opensRegex = false) →
      Legal memory (.punctuation [c])

theorem takeWhile_exact {part : Char → Bool} {front : List Char}
    (inside : ∀ d ∈ front, part d = true) (ends : ∀ d ∈ rest.head?, part d = false) :
    (front ++ rest).takeWhile part = front ∧ (front ++ rest).dropWhile part = rest := by
  rw [List.takeWhile_append_of_pos inside, List.dropWhile_append_of_pos inside]
  cases rest with
  | nil => simp
  | cons d rest =>
    have stops : part d = false := ends d rfl
    simp [stops]

theorem head?_dropWhile_not {part : Char → Bool} :
    ∀ d ∈ (chars.dropWhile part).head?, part d = false := by
  intro d first
  have stops := List.head?_dropWhile_not part chars
  rw [first] at stops
  simpa using stops

theorem isNumberPart_of_isDigit (digit : CharClass.isDigit c = true) : isNumberPart c = true := by
  simp [isNumberPart, isIdentifierPart, CharClass.isAlphanumeric_of_isDigit digit]

theorem isIdentifierStart_of_isDigit (digit : CharClass.isDigit c = true) :
    isIdentifierStart c = false := by
  have score : c ≠ '_' := by
    rintro rfl
    exact absurd digit (by decide)
  have dollar : c ≠ '$' := by
    rintro rfl
    exact absurd digit (by decide)
  simp [isIdentifierStart, CharClass.isLetter_eq_false_of_isDigit digit, score, dollar]

private theorem isBlank_of_isIdentifierStart (start : isIdentifierStart c = true) :
    CharClass.isBlank c = false := by
  refine Bool.eq_false_iff.mpr fun blank => ?_
  simp only [isIdentifierStart, (CharClass.isLetter_and_isDigit_of_isBlank blank).1, Bool.false_or,
    Bool.or_eq_true, decide_eq_true_eq] at start
  rcases start with rfl | rfl <;> exact absurd blank (by decide)

private theorem isBlank_of_isDigit (digit : CharClass.isDigit c = true) :
    CharClass.isBlank c = false :=
  Bool.eq_false_iff.mpr fun blank =>
    Bool.eq_false_iff.mp ((CharClass.isLetter_and_isDigit_of_isBlank blank).2) digit

def opensComment (c : Char) (next : Option Char) : Prop :=
  c = '/' ∧ (next = some '/' ∨ next = some '*')

theorem joins_eq_false_iff {d : Char} : joins c d = false ↔ ¬opensComment c (some d) ∧
    ¬(c = '.' ∧ CharClass.isDigit d = true) ∧ ¬((c = '+' ∨ c = '-') ∧ d = c) := by
  rw [Bool.eq_false_iff, ← not_or, ← not_or]
  refine not_congr ?_
  simp only [joins, opensComment, Bool.or_eq_true, Bool.and_eq_true, decide_eq_true_eq,
    Option.some.injEq]
  constructor
  · rintro ((point | same) | slash)
    · exact .inr (.inl point)
    · exact .inr (.inr same)
    · exact .inl slash
  · rintro (slash | point | same)
    · exact .inr slash
    · exact .inl (.inl point)
    · exact .inl (.inr same)

private theorem legal_of_next (blank : CharClass.isBlank c = false)
    (code : ¬opensComment c chars.head?)
    (read : Lexeme.next memory c chars = .ok (lexeme, rest)) :
    lexeme.Legal memory ∧ ∀ d ∈ rest.head?, lexeme.goesOn d = false := by
  have inside {part : Char → Bool} {chars : List Char} :
      ∀ d ∈ chars.takeWhile part, part d = true := fun d => List.mem_takeWhile_imp
  unfold Lexeme.next at read
  split at read
  · next start =>
    cases read
    exact ⟨.identifier start inside, head?_dropWhile_not⟩
  next word =>
  split at read
  · next digits =>
    cases read
    refine ⟨?_, head?_dropWhile_not⟩
    rw [Bool.or_eq_true, Bool.and_eq_true, decide_eq_true_eq] at digits
    rcases digits with digit | ⟨point, digit⟩
    · exact .number digit inside
    · cases chars with
      | nil => cases digit
      | cons d chars =>
        have digit : CharClass.isDigit d = true := digit
        rw [List.takeWhile_cons_of_pos (isNumberPart_of_isDigit digit), point]
        exact .fraction digit inside
  next digits =>
  rw [Bool.or_eq_true, not_or, Bool.and_eq_true, decide_eq_true_eq] at digits
  split at read
  · next quote =>
    rw [Bool.or_eq_true, decide_eq_true_eq, decide_eq_true_eq] at quote
    split at read
    · next closed =>
      cases read
      exact ⟨.string quote (stringBody_of_closes closed), fun _ _ => rfl⟩
    · cases read
  next quote =>
  rw [Bool.or_eq_true, decide_eq_true_eq, decide_eq_true_eq, not_or] at quote
  split at read
  · split at read
    · next closed =>
      cases read
      exact ⟨.template (templateBody_of_closes closed), fun _ _ => rfl⟩
    · cases read
  next tick =>
  split at read
  · next opens =>
    rw [Bool.and_eq_true, decide_eq_true_eq] at opens
    obtain ⟨rfl, opens⟩ := opens
    split at read
    · next body tail closed =>
      cases read
      obtain ⟨inner, rfl, legal⟩ := regexBody_of_closes closed
      obtain rfl := closeRegex?_eq_some closed
      refine ⟨?_, head?_dropWhile_not⟩
      have same : '/' :: (inner ++ ['/']) ++ tail.takeWhile isIdentifierPart =
          '/' :: inner ++ '/' :: tail.takeWhile isIdentifierPart := by simp
      rw [same]
      refine .regex opens legal ?_ ?_ inside
      · rintro rfl
        exact code ⟨rfl, .inl rfl⟩
      · intro star
        obtain ⟨more, rfl⟩ := List.head?_eq_some_iff.mp star
        exact code ⟨rfl, .inr rfl⟩
    · cases read
  next opens =>
  rw [Bool.and_eq_true, decide_eq_true_eq, not_and, Bool.not_eq_true] at opens
  split at read
  · next sign =>
    cases read
    rw [Bool.and_eq_true, Bool.or_eq_true, decide_eq_true_eq, decide_eq_true_eq] at sign
    exact ⟨.twice sign.1, fun _ _ => rfl⟩
  · next sign =>
    cases read
    rw [Bool.and_eq_true, Bool.or_eq_true, decide_eq_true_eq, decide_eq_true_eq,
      decide_eq_true_eq] at sign
    have mark : IsMark c := ⟨blank, Bool.not_eq_true _ ▸ word, Bool.not_eq_true _ ▸ digits.1,
      quote.1, quote.2, tick⟩
    refine ⟨.mark mark opens, fun d next => ?_⟩
    have first : chars.head? = some d := next
    rw [first] at code digits sign
    exact joins_eq_false_iff.mpr
      ⟨code, digits.2, fun same => sign ⟨same.1, congrArg some same.2⟩⟩

theorem Legal.next (legal : lexeme.Legal memory)
    (ends : ∀ d ∈ rest.head?, lexeme.goesOn d = false) (begins : lexeme.source = c :: tail) :
    Lexeme.next memory c (tail ++ rest) = .ok (lexeme, rest) := by
  cases legal with
  | @identifier _ chars start inside =>
    cases begins
    obtain ⟨taken, left⟩ := takeWhile_exact inside ends
    rw [Lexeme.next, if_pos start, taken, left]
  | @number _ chars digit inside =>
    cases begins
    obtain ⟨taken, left⟩ := takeWhile_exact inside ends
    rw [Lexeme.next, if_neg (by simp [isIdentifierStart_of_isDigit digit]), if_pos (by simp [digit]),
      taken, left]
  | @fraction d chars digit inside =>
    cases begins
    have inside : ∀ e ∈ d :: chars, isNumberPart e = true :=
      List.forall_mem_cons.mpr ⟨isNumberPart_of_isDigit digit, inside⟩
    obtain ⟨taken, left⟩ := takeWhile_exact inside ends
    have point : (CharClass.isDigit '.' ||
        ('.' = '.' && ((d :: chars) ++ rest).head?.any CharClass.isDigit)) = true := by
      simp [digit]
    rw [Lexeme.next, if_neg (by decide), if_pos point, taken, left]
  | @string quote body either closed =>
    have begins : quote :: (body ++ [quote]) = c :: tail := begins
    obtain ⟨rfl, rfl⟩ := List.cons.inj begins
    have apart : quote ≠ '\\' ∧ quote ≠ '\n' := by rcases either with rfl | rfl <;> decide
    have word : ¬isIdentifierStart quote = true := by rcases either with rfl | rfl <;> decide
    have digit : CharClass.isDigit quote = false ∧ quote ≠ '.' := by
      rcases either with rfl | rfl <;> decide
    rw [List.append_assoc, List.singleton_append, Lexeme.next, if_neg word, if_neg (by simp [digit]),
      if_pos (by simpa using either), closed.closes apart.1 apart.2]
  | @template body closed =>
    have begins : '`' :: (body ++ ['`']) = c :: tail := begins
    obtain ⟨rfl, rfl⟩ := List.cons.inj begins
    have digit : CharClass.isDigit '`' = false := by decide
    rw [List.append_assoc, List.singleton_append, Lexeme.next, if_neg (by decide),
      if_neg (by simp [digit]), if_neg (by decide), if_pos rfl, closed.closes]
  | @regex body flags opens closed filled star inside =>
    have begins : '/' :: (body ++ '/' :: flags) = c :: tail := begins
    obtain ⟨rfl, rfl⟩ := List.cons.inj begins
    have digit : CharClass.isDigit '/' = false := by decide
    obtain ⟨taken, left⟩ := takeWhile_exact inside ends
    rw [List.append_assoc, List.cons_append, Lexeme.next, if_neg (by decide),
      if_neg (by simp [digit]), if_neg (by decide), if_neg (by decide), if_pos (by simp [opens]),
      closed.closes]
    simp only [taken, left]
    simp
  | @twice _ sign =>
    cases begins
    rcases sign with rfl | rfl
    · rfl
    · rfl
  | @mark first mark slash =>
    obtain ⟨rfl, rfl⟩ := List.cons.inj begins
    obtain ⟨single, double, tick⟩ := mark.quote
    have opens : ¬(first = '/' && memory.opensRegex) = true := by simpa using slash
    have apart (d : Char) (next : rest.head? = some d) := joins_eq_false_iff.mp (ends d next)
    have number : ¬(CharClass.isDigit first ||
        (first = '.' && rest.head?.any CharClass.isDigit)) = true := by
      rw [mark.digit, Bool.false_or, Bool.and_eq_true, decide_eq_true_eq, Option.any_eq_true]
      exact fun ⟨point, d, next, digit⟩ => (apart d next).2.1 ⟨point, digit⟩
    have sign : ¬((first = '+' || first = '-') && rest.head? = some first) = true := by
      rw [Bool.and_eq_true, Bool.or_eq_true, decide_eq_true_eq, decide_eq_true_eq, decide_eq_true_eq]
      exact fun ⟨sign, next⟩ => (apart first next).2.2 ⟨sign, rfl⟩
    rw [List.nil_append, Lexeme.next, if_neg (by simp [mark.word]), if_neg number,
      if_neg (by simp [single, double]), if_neg tick, if_neg opens, if_neg sign]

theorem Legal.source_ne_nil (legal : lexeme.Legal memory) : lexeme.source ≠ [] := by
  cases legal <;> simp [source]

private theorem RegexBody.head_ne (legal : RegexBody false chars) : chars.head? ≠ some '/' := by
  cases legal with
  | nil => exact nofun
  | escape _ => simp
  | openClass _ => simp
  | closeClass _ => simp
  | plain _ _ _ _ slash _ =>
    intro same
    exact absurd (slash (Option.some.inj same)) (by decide)

theorem Legal.begins (legal : lexeme.Legal memory)
    (ends : ∀ d ∈ rest.head?, lexeme.goesOn d = false) (begins : lexeme.source = c :: tail) :
    CharClass.isBlank c = false ∧ ¬opensComment c (tail ++ rest).head? := by
  have other {c : Char} {next : Option Char} (blank : CharClass.isBlank c = false) (apart : c ≠ '/') :
      CharClass.isBlank c = false ∧ ¬opensComment c next := ⟨blank, fun opens => apart opens.1⟩
  cases legal with
  | identifier start inside =>
    obtain ⟨rfl, rfl⟩ := List.cons.inj begins
    refine other (isBlank_of_isIdentifierStart start) ?_
    rintro rfl
    exact absurd start (by decide)
  | number digit inside =>
    obtain ⟨rfl, rfl⟩ := List.cons.inj begins
    refine other (isBlank_of_isDigit digit) ?_
    rintro rfl
    exact absurd digit (by decide)
  | fraction digit inside =>
    obtain ⟨rfl, rfl⟩ := List.cons.inj begins
    exact other (by decide) (by decide)
  | @string quote body either closed =>
    have begins : quote :: (body ++ [quote]) = c :: tail := begins
    obtain ⟨rfl, rfl⟩ := List.cons.inj begins
    rcases either with rfl | rfl
    · exact other (by decide) (by decide)
    · exact other (by decide) (by decide)
  | @template body closed =>
    have begins : '`' :: (body ++ ['`']) = c :: tail := begins
    obtain ⟨rfl, rfl⟩ := List.cons.inj begins
    exact other (by decide) (by decide)
  | @regex body flags opens closed filled star inside =>
    have begins : '/' :: (body ++ '/' :: flags) = c :: tail := begins
    obtain ⟨rfl, rfl⟩ := List.cons.inj begins
    refine ⟨by decide, fun comment => ?_⟩
    obtain ⟨first, body, rfl⟩ := List.exists_cons_of_ne_nil filled
    exact comment.2.elim closed.head_ne star
  | twice sign =>
    obtain ⟨rfl, rfl⟩ := List.cons.inj begins
    rcases sign with rfl | rfl
    · exact other (by decide) (by decide)
    · exact other (by decide) (by decide)
  | mark mark slash =>
    obtain ⟨rfl, rfl⟩ := List.cons.inj begins
    refine ⟨mark.blank, fun comment => ?_⟩
    obtain ⟨d, next⟩ : ∃ d, rest.head? = some d := comment.2.elim (⟨_, ·⟩) (⟨_, ·⟩)
    have alone := joins_eq_false_iff.mp (ends d next)
    rw [List.nil_append, next] at comment
    exact alone.1 comment

end Lexeme

/-! ## Pieces -/

namespace Piece

/-- Whether a piece would be read on over the next character. -/
def goesOn : Piece → Char → Bool
  | .interpreter _, d => !Cut.endsInterpreter d
  | .lineComment _, d => d ≠ '\n'
  | .token lexeme, d => lexeme.goesOn d
  | _, _ => false

/-- A piece as it may be written anywhere but in the first line for the interpreter. -/
inductive Legal (memory : Memory) : Piece → Prop where
  | blank {c : Char} : CharClass.isBlank c = true → Legal memory (.blank c)
  | lineComment {body : List Char} : '\n' ∉ body → Legal memory (.lineComment body)
  | blockComment {body : List Char} :
      ¬Lexeme.commentEnd <:+: body → Legal memory (.blockComment body)
  | token {lexeme : Lexeme} : lexeme.Legal memory → Legal memory (.token lexeme)

private theorem legal_of_next (read : Piece.next memory c chars = .ok (piece, rest)) :
    piece.Legal memory ∧ ∀ d ∈ rest.head?, piece.goesOn d = false := by
  unfold Piece.next at read
  split at read
  · next blank =>
    cases read
    exact ⟨.blank blank, fun _ _ => rfl⟩
  next blank =>
  split at read
  · cases read
    refine ⟨.lineComment fun member => ?_, Lexeme.head?_dropWhile_not⟩
    have other := List.mem_takeWhile_imp member
    exact absurd rfl (of_decide_eq_true other)
  next line =>
  split at read
  · split at read
    · next closed =>
      cases read
      exact ⟨.blockComment (Lexeme.free_of_closeComment? closed), fun _ _ => rfl⟩
    · cases read
  next block =>
  rw [Bool.and_eq_true, decide_eq_true_eq, decide_eq_true_eq] at line block
  have code : ¬Lexeme.opensComment c chars.head? := fun ⟨slash, next⟩ =>
    next.elim (fun next => line ⟨slash, next⟩) (fun next => block ⟨slash, next⟩)
  split at read
  · next lexeme tail lexed =>
    cases read
    obtain ⟨legal, ends⟩ := Lexeme.legal_of_next (Bool.eq_false_iff.mpr blank) code lexed
    exact ⟨.token legal, ends⟩
  · cases read

theorem Legal.next (legal : piece.Legal memory) (ends : ∀ d ∈ rest.head?, piece.goesOn d = false)
    (begins : piece.source = c :: tail) : Piece.next memory c (tail ++ rest) = .ok (piece, rest) := by
  cases legal with
  | blank blank =>
    obtain ⟨rfl, rfl⟩ := List.cons.inj begins
    rw [Piece.next, if_pos blank]
    rfl
  | @lineComment body free =>
    obtain ⟨rfl, rfl⟩ := List.cons.inj begins
    have inside : ∀ d ∈ body, decide (d ≠ '\n') = true := fun d member =>
      decide_eq_true fun line => free (line ▸ member)
    obtain ⟨taken, left⟩ := Lexeme.takeWhile_exact inside ends
    rw [Piece.next, if_neg (by decide), if_pos (by simp)]
    simp only [List.cons_append, List.tail_cons, taken, left]
  | @blockComment body free =>
    have begins : '/' :: '*' :: (body ++ ['*', '/']) = c :: tail := begins
    obtain ⟨rfl, rfl⟩ := List.cons.inj begins
    rw [Piece.next, if_neg (by decide), if_neg (by simp), if_pos (by simp)]
    simp only [List.cons_append, List.tail_cons, List.append_assoc, List.nil_append,
      Lexeme.closeComment?_of_free free]
  | @token lexeme legal =>
    obtain ⟨blank, code⟩ := legal.begins ends begins
    unfold Lexeme.opensComment at code
    rw [Piece.next, if_neg (by simp [blank]), if_neg, if_neg, legal.next ends begins]
    · simpa using fun slash next => code ⟨slash, .inr next⟩
    · simpa using fun slash next => code ⟨slash, .inl next⟩

theorem Legal.source_ne_nil (legal : piece.Legal memory) : piece.source ≠ [] := by
  cases legal with
  | token legal => exact legal.source_ne_nil
  | _ => simp [source]

/-- A piece is read exactly if it may be written so and the next character does not go on with
it. -/
theorem next_eq_ok_iff : Piece.next memory c chars = .ok (piece, rest) ↔
    piece.source ++ rest = c :: chars ∧ piece.Legal memory ∧
      ∀ d ∈ rest.head?, piece.goesOn d = false := by
  constructor
  · intro read
    obtain ⟨tail, begins, rfl⟩ := Piece.next_eq_ok read
    exact ⟨by rw [begins, List.cons_append], legal_of_next read⟩
  · rintro ⟨split, legal, ends⟩
    obtain ⟨first, tail, begins⟩ := List.exists_cons_of_ne_nil legal.source_ne_nil
    rw [begins, List.cons_append] at split
    obtain ⟨rfl, rfl⟩ := List.cons.inj split
    exact legal.next ends begins

end Piece

end ChunkPlan
