import ChunkPlan.FileSystem.Sources
import ChunkPlan.Proofs.Cuts

/-!
# Layout

Blanks and comments between the tokens of a source.  More of them before a token leave all tokens
as they are, because no piece is read on over a blank and no comment is remembered.
-/

set_option autoImplicit false

namespace ChunkPlan

variable {memory : Memory} {c : Char} {before : List Char} {piece : Piece} {lexeme : Lexeme}
  {more left right : List Piece} {position : Position}

theorem Text.occursIn_iff {pattern text : List Char} :
    occursIn pattern text = true ↔ pattern <:+: text := by
  induction text with
  | nil => simp [occursIn]
  | cons c text ih =>
    rw [occursIn, Bool.or_eq_true, List.isPrefixOf_iff_prefix, ih, List.infix_cons_iff]

/-! ## Gaps -/

/-- A part of a gap between tokens.  A line comment comes with the line break that ends it. -/
inductive Filler where
  | blank (c : Char) (isBlank : CharClass.isBlank c = true)
  | lineComment (body : List Char) (free : '\n' ∉ body)
  | blockComment (body : List Char) (free : ¬Lexeme.commentEnd <:+: body)

namespace Filler

def source : Filler → List Char
  | .blank c _ => [c]
  | .lineComment body _ => '/' :: '/' :: body ++ ['\n']
  | .blockComment body _ => '/' :: '*' :: body ++ ['*', '/']

def pieces : Filler → List Piece
  | .blank c _ => [.blank c]
  | .lineComment body _ => [.lineComment body, .blank '\n']
  | .blockComment body _ => [.blockComment body]

private theorem sources_pieces (filler : Filler) : Piece.sources filler.pieces = filler.source := by
  cases filler <;> simp [pieces, source, Piece.sources, Piece.source]

theorem lawful_append (filler : Filler) (lawful : Cut.Lawful memory more) :
    Cut.Lawful memory (filler.pieces ++ more) := by
  cases filler with
  | blank c isBlank => exact .cons (.blank isBlank) (fun _ _ => rfl) lawful
  | lineComment body free =>
    refine .cons (.lineComment free) ?_ (.cons (.blank (by decide)) (fun _ _ => rfl) lawful)
    rintro d ⟨⟩
    rfl
  | blockComment body free => exact .cons (.blockComment free) (fun _ _ => rfl) lawful

end Filler

/-- Blanks and closed comments after a first blank. -/
structure Gap where
  first : Char
  isBlank : CharClass.isBlank first = true
  rest : List Filler

namespace Gap

def source (gap : Gap) : List Char := gap.first :: gap.rest.flatMap Filler.source

def text (gap : Gap) : String := String.ofList gap.source

def pieces (gap : Gap) : List Piece := .blank gap.first :: gap.rest.flatMap Filler.pieces

private theorem sources_pieces (gap : Gap) : Piece.sources gap.pieces = gap.source := by
  rw [pieces, source, Piece.sources_cons, Piece.sources, List.flatMap_assoc]
  exact congrArg _ (List.flatMap_congr fun filler _ => filler.sources_pieces)

theorem lawful_append (gap : Gap) (lawful : Cut.Lawful memory more) :
    Cut.Lawful memory (gap.pieces ++ more) := by
  have fillers (rest : List Filler) :
      Cut.Lawful memory (rest.flatMap Filler.pieces ++ more) := by
    induction rest with
    | nil => exact lawful
    | cons filler rest ih =>
      rw [List.flatMap_cons, List.append_assoc]
      exact filler.lawful_append ih
  exact .cons (.blank gap.isBlank) (fun _ _ => rfl) (fillers gap.rest)

end Gap

/-! ## Insertion into a cut -/

private theorem Lexeme.goesOn_eq_false_of_isBlank (blank : CharClass.isBlank c = true)
    (lexeme : Lexeme) :
    lexeme.goesOn c = false := by
  have apart {d : Char} (other : CharClass.isBlank d = false) : c ≠ d := by
    rintro rfl
    rw [blank] at other
    cases other
  have part : isIdentifierPart c = false := by
    simp [isIdentifierPart, CharClass.isAlphanumeric_eq_false_of_isBlank blank,
      apart (show CharClass.isBlank '_' = false by decide),
      apart (show CharClass.isBlank '$' = false by decide)]
  cases lexeme with
  | identifier => exact part
  | number =>
    simp [goesOn, isNumberPart, part, apart (show CharClass.isBlank '.' = false by decide)]
  | string => rfl
  | template => rfl
  | regex => exact part
  | punctuation chars =>
    rcases chars with _ | ⟨mark, _ | ⟨next, chars⟩⟩
    · rfl
    · refine joins_eq_false_iff.mpr ⟨?_, ?_, ?_⟩
      · rintro ⟨-, next | next⟩
        · exact apart (by decide) (Option.some.inj next)
        · exact apart (by decide) (Option.some.inj next)
      · rintro ⟨-, digit⟩
        rw [(CharClass.isLetter_and_isDigit_of_isBlank blank).2] at digit
        cases digit
      · rintro ⟨rfl | rfl, same⟩
        · exact apart (by decide) same
        · exact apart (by decide) same
    · rfl

namespace Cut

/-- Before a token, every piece ends where a blank begins: only a line comment would go on, and
behind that there is no token before the line break. -/
theorem goesOn_blank_of_token (legal : piece.Legal memory) (blank : CharClass.isBlank c = true)
    (lawful : Lawful (memory.afterPiece piece) (.token lexeme :: right))
    (ends : ∀ d ∈ (Piece.sources (.token lexeme :: right)).head?, piece.goesOn d = false) :
    piece.goesOn c = false := by
  cases legal with
  | blank => rfl
  | blockComment => rfl
  | token => exact Lexeme.goesOn_eq_false_of_isBlank blank _
  | lineComment =>
    cases lawful with
    | cons token next _ =>
      cases token with
      | token token =>
        obtain ⟨d, tail, begins⟩ := List.exists_cons_of_ne_nil token.source_ne_nil
        have line : d = '\n' := by
          simpa [Piece.source, begins, Piece.goesOn] using ends
        have other := (token.begins next begins).1
        rw [line] at other
        exact absurd other (by decide)

private theorem Lawful.head?_sources (lawful : Lawful memory (piece :: more)) :
    (Piece.sources (piece :: more)).head? = piece.source.head? := by
  cases lawful with
  | cons legal _ _ =>
    obtain ⟨d, tail, begins⟩ := List.exists_cons_of_ne_nil legal.source_ne_nil
    rw [Piece.sources_cons, begins]
    rfl

private theorem Lawful.insert (gap : Gap)
    (lawful : Lawful memory (left ++ .token lexeme :: right)) :
    Lawful memory (left ++ (gap.pieces ++ .token lexeme :: right)) := by
  induction left generalizing memory with
  | nil => exact gap.lawful_append lawful
  | cons piece left ih =>
    cases lawful with
    | cons legal ends rest =>
      refine .cons legal ?_ (ih rest)
      cases left with
      | nil =>
        rintro d ⟨⟩
        exact goesOn_blank_of_token legal gap.isBlank rest ends
      | cons next left =>
        have before := rest.head?_sources
        have after := (ih rest).head?_sources
        exact fun d first => ends d ((before.trans after.symm).trans first)

end Cut

/-! ## Tokens -/

/-- What a token is, wherever it stands. -/
def Token.word (token : Token) : TokenKind × String := (token.kind, token.text)

namespace Piece

def word? : Piece → Option (TokenKind × String)
  | .token lexeme => some (lexeme.kind, String.ofList lexeme.text)
  | _ => none

def marksBootstrap : Piece → Bool
  | .blockComment body => Text.occursIn Comment.bootstrapMark.toList body
  | _ => false

theorem words_tokensFrom {pieces : List Piece} :
    (tokensFrom position pieces).map Token.word = pieces.filterMap word? ++ [(.endOfFile, "")] := by
  induction pieces generalizing position with
  | nil => rfl
  | cons piece pieces ih =>
    cases piece with
    | token lexeme => exact congrArg ((lexeme.kind, String.ofList lexeme.text) :: ·) ih
    | _ => exact ih

theorem any_commentsFrom {pieces : List Piece} :
    (commentsFrom position pieces).any Comment.marksBootstrap = pieces.any marksBootstrap := by
  induction pieces generalizing position with
  | nil => rfl
  | cons piece pieces ih =>
    cases piece with
    | blockComment body =>
      rw [List.any_cons, commentsFrom, List.any_cons, ih]
      simp [marksBootstrap, Comment.marksBootstrap]
    | _ => exact ih

private theorem exists_of_mem_tokensFrom {pieces : List Piece} {token : Token}
    (member : token ∈ tokensFrom (.behind before) pieces) (inner : token.kind ≠ .endOfFile) :
    ∃ left lexeme right, pieces = left ++ .token lexeme :: right ∧
      token.position = .behind (before ++ sources left) := by
  induction pieces generalizing before with
  | nil =>
    obtain rfl := List.mem_singleton.mp member
    exact absurd rfl inner
  | cons piece pieces ih =>
    have later (member : token ∈ tokensFrom (.behind (before ++ piece.source)) pieces) :
        ∃ left lexeme right, piece :: pieces = left ++ .token lexeme :: right ∧
          token.position = .behind (before ++ sources left) := by
      obtain ⟨left, lexeme, right, rfl, stands⟩ := ih member
      exact ⟨piece :: left, lexeme, right, rfl, by rw [stands, sources_cons, List.append_assoc]⟩
    rw [← Position.after_behind] at later
    cases piece with
    | token lexeme =>
      rcases List.mem_cons.mp member with first | member
      · exact ⟨[], lexeme, pieces, rfl, by rw [first, sources_nil, List.append_nil]⟩
      · exact later member
    | _ => exact later member

end Piece

namespace Gap

variable {gap : Gap}

theorem mem_pieces (member : piece ∈ gap.pieces) : (∃ c, piece = .blank c) ∨
    (∃ body, piece = .lineComment body) ∨
    ∃ body free, piece = .blockComment body ∧ .blockComment body free ∈ gap.rest := by
  rcases List.mem_cons.mp member with rfl | member
  · exact .inl ⟨gap.first, rfl⟩
  obtain ⟨filler, present, inside⟩ := List.mem_flatMap.mp member
  cases filler with
  | blank c =>
    obtain rfl := List.mem_singleton.mp inside
    exact .inl ⟨c, rfl⟩
  | lineComment body =>
    rcases List.mem_pair.mp inside with rfl | rfl
    · exact .inr (.inl ⟨body, rfl⟩)
    · exact .inl ⟨'\n', rfl⟩
  | blockComment body free =>
    obtain rfl := List.mem_singleton.mp inside
    exact .inr (.inr ⟨body, free, rfl, present⟩)

private theorem filterMap_word? : gap.pieces.filterMap Piece.word? = [] := by
  refine List.filterMap_eq_nil_iff.mpr fun piece member => ?_
  rcases mem_pieces member with ⟨c, rfl⟩ | ⟨body, rfl⟩ | ⟨body, free, rfl, -⟩ <;> rfl

private theorem any_marksBootstrap
    (unmarked : ∀ body free, .blockComment body free ∈ gap.rest →
      ¬Comment.bootstrapMark.toList <:+: body) : gap.pieces.any Piece.marksBootstrap = false := by
  refine List.any_eq_false.mpr fun piece member => ?_
  rcases mem_pieces member with ⟨c, rfl⟩ | ⟨body, rfl⟩ | ⟨body, free, rfl, present⟩
  · exact Bool.false_ne_true
  · exact Bool.false_ne_true
  · rw [Piece.marksBootstrap, Text.occursIn_iff]
    exact unmarked body free present

end Gap

/-! ## Declarations -/

namespace Token

/-- A token without its place. -/
def unplaced (token : Token) : Token := { token with position := .start }

private theorem map_unplaced_of_words {tokens others : List Token}
    (same : tokens.map word = others.map word) : tokens.map unplaced = others.map unplaced := by
  have factors : unplaced = (fun word => ⟨word.1, word.2, .start⟩) ∘ word := rfl
  rw [factors, ← List.map_map, same, List.map_map]

end Token

namespace Declaration

private theorem at?_unplaced (before : Option Token) (tokens : List Token) :
    at? (before.map Token.unplaced) (tokens.map Token.unplaced) = at? before tokens := by
  match tokens with
  | [] => rfl
  | [_] => rfl
  | [_, _] => rfl
  | [_, _, _] => rfl
  | [_, _, _, _] => rfl
  | _ :: _ :: _ :: _ :: _ :: _ => cases before <;> rfl

private theorem list_unplaced (before : Option Token) (tokens : List Token) :
    list (before.map Token.unplaced) (tokens.map Token.unplaced) = list before tokens := by
  induction tokens generalizing before with
  | nil => rfl
  | cons token tokens ih =>
    have found := at?_unplaced before (token :: tokens)
    rw [List.map_cons] at found
    rw [List.map_cons, list, list, found, ← ih (some token)]
    rfl

private theorem list_of_words {tokens others : List Token}
    (same : tokens.map Token.word = others.map Token.word) : list none tokens = list none others := by
  rw [← list_unplaced none tokens, Token.map_unplaced_of_words same]
  exact list_unplaced none others

theorem list_eq_nil {before : Option Token} {tokens : List Token}
    (plain : ∀ token ∈ tokens, token.kind = .identifier → ∀ name, ofMethod? token.text name = none) :
    list before tokens = [] := by
  induction tokens generalizing before with
  | nil => rfl
  | cons token tokens ih =>
    have none_here : at? before (token :: tokens) = none := by
      match tokens with
      | [] => rfl
      | [_] => rfl
      | [_, _] => rfl
      | [_, _, _] => rfl
      | dot :: method :: paren :: name :: rest =>
        rw [at?]
        split
        · next call =>
          simp only [Bool.and_eq_true, decide_eq_true_eq] at call
          exact plain method (by simp) call.1.1.1.2 name.text
        · rfl
    rw [list, none_here]
    exact ih fun other member => plain other (List.mem_cons_of_mem _ member)

end Declaration

private theorem Script.toUnit_eq {path : String} {script other : Script}
    (words : script.tokens.map Token.word = other.tokens.map Token.word)
    (marks : script.comments.any Comment.marksBootstrap = other.comments.any Comment.marksBootstrap) :
    script.toUnit path = other.toUnit path := by
  unfold Script.toUnit
  rw [Declaration.list_of_words words, marks]

theorem SourceUnit.ofText_of_read {path text : String} {script : Script}
    (read : Script.read text = .ok script) : ofText path text = .ok (script.toUnit path) := by
  rw [ofText, Script.readAs, read]
  rfl

/-! ## Sources -/

theorem Gap.not_marks_append {front back : List Char} (gap : Gap)
    (plain : ¬['#', '!'] <+: front ++ back) : ¬['#', '!'] <+: front ++ (gap.source ++ back) := by
  have apart {c : Char} (other : CharClass.isBlank c = false) : c ≠ gap.first := by
    rintro rfl
    rw [gap.isBlank] at other
    cases other
  match front with
  | [] =>
    rintro ⟨_, same⟩
    exact apart (by decide) (List.cons.inj same).1
  | [c] =>
    rintro ⟨_, same⟩
    exact apart (by decide) (List.cons.inj (List.cons.inj same).2).1
  | c :: d :: front => simpa [List.cons_prefix_cons] using plain

namespace Script

/-- A gap directly before a token changes no token but its place.  The unit of the source is then
the same too, unless a comment of the gap marks the bootstrap file. -/
theorem read_insert (front back : String) (gap : Gap) (script : Script) (token : Token)
    (plain : ¬['#', '!'] <+: (front ++ back).toList) (read : Script.read (front ++ back) = .ok script)
    (member : token ∈ script.tokens) (inner : token.kind ≠ .endOfFile)
    (stands : token.position = .behind front.toList) :
    ∃ later, Script.read (front ++ gap.text ++ back) = .ok later ∧
      later.tokens.map Token.word = script.tokens.map Token.word ∧
      ((∀ body free, .blockComment body free ∈ gap.rest →
          ¬Comment.bootstrapMark.toList <:+: body) → ∀ path, ∃ unit,
        SourceUnit.ofText path (front ++ back) = .ok unit ∧
        SourceUnit.ofText path (front ++ gap.text ++ back) = .ok unit) := by
  obtain ⟨pieces, cut, rfl⟩ := read_eq_ok.mp read
  obtain ⟨split, whole⟩ := Cut.ofSource_eq_iff.mp cut
  rw [String.toList_append] at plain split
  cases whole with
  | interpreted marks =>
    rw [← split] at plain
    exact absurd (marks.trans (List.prefix_append _ _)) plain
  | plain _ lawful =>
    have member : token ∈ Piece.tokensFrom (.behind []) pieces := member
    obtain ⟨left, lexeme, right, rfl, place⟩ := Piece.exists_of_mem_tokensFrom member inner
    rw [Piece.sources, List.flatMap_append] at split
    -- The characters before the token are those of the pieces before it.
    have front_eq : front.toList = Piece.sources left := Position.eq_of_behind_eq
      (List.prefix_append _ back.toList) ⟨_, split⟩ (stands.symm.trans place)
    have back_eq : back.toList = Piece.sources (.token lexeme :: right) := by
      rw [front_eq] at split
      exact (List.append_cancel_left split).symm
    have grown : Cut.ofSource (front ++ gap.text ++ back).toList =
        ⟨left ++ (gap.pieces ++ .token lexeme :: right), none⟩ := by
      have whole : Piece.sources (left ++ (gap.pieces ++ .token lexeme :: right)) =
          front.toList ++ (gap.source ++ back.toList) := by
        rw [front_eq, back_eq, ← gap.sources_pieces]
        simp only [Piece.sources, List.flatMap_append]
      refine Cut.ofSource_eq_iff.mpr ⟨?_, .plain ?_ (lawful.insert gap)⟩
      · rw [whole, Gap.text, String.toList_append, String.toList_append, String.toList_ofList,
          List.append_assoc]
      · rw [whole]
        exact gap.not_marks_append plain
    have words :
        (Piece.tokensFrom .start (left ++ (gap.pieces ++ .token lexeme :: right))).map Token.word =
          (Piece.tokensFrom .start (left ++ .token lexeme :: right)).map Token.word := by
      rw [Piece.words_tokensFrom, Piece.words_tokensFrom, List.filterMap_append,
        List.filterMap_append, List.filterMap_append, Gap.filterMap_word?, List.nil_append]
    have later := read_eq_ok.mpr ⟨_, grown, rfl⟩
    refine ⟨_, later, words, fun unmarked path => ⟨_, SourceUnit.ofText_of_read read, ?_⟩⟩
    rw [SourceUnit.ofText_of_read later]
    refine congrArg _ (toUnit_eq words ?_)
    rw [Piece.any_commentsFrom, Piece.any_commentsFrom, List.any_append, List.any_append,
      List.any_append, Gap.any_marksBootstrap unmarked, Bool.false_or]

/-- A gap whose comments hold what would begin literals and divisions. -/
def slashGap : Gap where
  first := '\t'
  isBlank := by decide
  rest := [.lineComment "/'b'".toList (by decide), .blockComment "`/*".toList (by decide)]

/-- A quotient of a call and two names. -/
def quotient : Script where
  tokens := [⟨.identifier, "goog", ⟨1, 1⟩⟩, ⟨.punctuation, ".", ⟨1, 5⟩⟩,
    ⟨.identifier, "provide", ⟨1, 6⟩⟩, ⟨.punctuation, "(", ⟨1, 13⟩⟩, ⟨.string, "a", ⟨1, 14⟩⟩,
    ⟨.punctuation, ")", ⟨1, 17⟩⟩, ⟨.punctuation, "/", ⟨1, 18⟩⟩, ⟨.identifier, "b", ⟨1, 19⟩⟩,
    ⟨.punctuation, "/", ⟨1, 20⟩⟩, ⟨.identifier, "g", ⟨1, 21⟩⟩, ⟨.endOfFile, "", ⟨1, 22⟩⟩]
  comments := []

theorem read_insert_slashGap :
    Script.read ("goog.provide('a')" ++ "/b/g") = .ok quotient ∧
    ∃ later, Script.read ("goog.provide('a')" ++ slashGap.text ++ "/b/g") = .ok later ∧
      later.tokens.map Token.word = quotient.tokens.map Token.word ∧
      ∃ unit, SourceUnit.ofText "a.js" ("goog.provide('a')" ++ "/b/g") = .ok unit ∧
        SourceUnit.ofText "a.js" ("goog.provide('a')" ++ slashGap.text ++ "/b/g") = .ok unit := by
  have read : Script.read ("goog.provide('a')" ++ "/b/g") = .ok quotient := by decide +kernel
  obtain ⟨later, reread, words, units⟩ := read_insert "goog.provide('a')" "/b/g" slashGap quotient
    ⟨.punctuation, "/", ⟨1, 18⟩⟩ (by decide) read (by decide) (by decide) (by decide)
  refine ⟨read, later, reread, words, units ?_ "a.js"⟩
  intro body free present
  obtain rfl : body = "`/*".toList := by simpa [slashGap] using present
  decide

end Script

end ChunkPlan
