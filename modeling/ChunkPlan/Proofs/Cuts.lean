import ChunkPlan.Proofs.Grammar
import ChunkPlan.Proofs.Positions
import ChunkPlan.Source.Script

/-!
# Cuts of a source

A source that can be read has one cut into pieces that follow the lexical grammar.  Its tokens and
comments are the lexemes and comments of this cut, each where it begins.
-/

set_option autoImplicit false

namespace ChunkPlan

variable {memory : Memory} {c : Char} {chars before : List Char} {piece : Piece}
  {pieces left right : List Piece} {unclosed : Option (Unclosed × List Char)}

namespace Piece

@[simp] theorem sources_nil : sources [] = [] := rfl

@[simp] theorem sources_cons : sources (piece :: pieces) = piece.source ++ sources pieces :=
  List.flatMap_cons

end Piece

namespace Cut

/-- Pieces that may follow each other: each may be written so behind those before it, and ends
where the next one begins. -/
inductive Lawful : Memory → List Piece → Prop where
  | nil {memory : Memory} : Lawful memory []
  | cons {memory : Memory} {piece : Piece} {pieces : List Piece} : piece.Legal memory →
      (∀ d ∈ (Piece.sources pieces).head?, piece.goesOn d = false) →
      Lawful (memory.afterPiece piece) pieces → Lawful memory (piece :: pieces)

/-- The pieces of a whole source.  Two marks at its beginning make a line for the interpreter. -/
inductive Whole : List Piece → Prop where
  | plain {pieces : List Piece} : ¬['#', '!'] <+: Piece.sources pieces → Lawful {} pieces →
      Whole pieces
  | interpreted {line : List Char} {pieces : List Piece} : ['#', '!'] <+: line →
      (∀ c ∈ line, endsInterpreter c = false) →
      (∀ c ∈ (Piece.sources pieces).head?, endsInterpreter c = true) → Lawful {} pieces →
      Whole (.interpreter line :: pieces)

theorem ofChars_cons : ofChars memory (c :: chars) = match Piece.next memory c chars with
    | .error fault => ⟨[], some (fault, c :: chars)⟩
    | .ok (piece, rest) =>
      ⟨piece :: (ofChars (memory.afterPiece piece) rest).pieces,
        (ofChars (memory.afterPiece piece) rest).unclosed⟩ := by
  rw [ofChars]
  split <;> simp_all

private theorem Lawful.ofChars_sources (lawful : Lawful memory pieces) :
    ofChars memory (Piece.sources pieces) = ⟨pieces, none⟩ := by
  induction lawful with
  | nil => rw [Piece.sources_nil, ofChars]
  | @cons memory piece pieces legal ends _ ih =>
    obtain ⟨c, tail, begins⟩ := List.exists_cons_of_ne_nil legal.source_ne_nil
    have read := Piece.next_eq_ok_iff.mpr ⟨by rw [begins, List.cons_append], legal, ends⟩
    rw [Piece.sources_cons, begins, List.cons_append, ofChars_cons, read]
    simp only [ih]

/-- A cut that begins with a piece is the cut of what follows that piece. -/
theorem ofChars_eq_cons (cut : ofChars memory chars = ⟨piece :: pieces, unclosed⟩) :
    ∃ c ahead rest, chars = c :: ahead ∧ Piece.next memory c ahead = .ok (piece, rest) ∧
      ofChars (memory.afterPiece piece) rest = ⟨pieces, unclosed⟩ := by
  cases chars with
  | nil =>
    rw [ofChars] at cut
    cases cut
  | cons c ahead =>
    rw [ofChars_cons] at cut
    cases read : Piece.next memory c ahead with
    | error fault =>
      rw [read] at cut
      cases cut
    | ok next =>
      obtain ⟨first, rest⟩ := next
      rw [read] at cut
      obtain ⟨same, rfl⟩ := Cut.mk.inj cut
      obtain ⟨rfl, rfl⟩ := List.cons.inj same
      exact ⟨c, ahead, rest, rfl, read, rfl⟩

/-- Behind some of its pieces a cut goes on as the cut of what is left, with what is remembered
there. -/
theorem ofChars_behind (cut : ofChars memory chars = ⟨left ++ right, unclosed⟩) :
    ∃ rest, chars = Piece.sources left ++ rest ∧
      ofChars (left.foldl Memory.afterPiece memory) rest = ⟨right, unclosed⟩ := by
  induction left generalizing memory chars with
  | nil => exact ⟨chars, rfl, cut⟩
  | cons piece left ih =>
    obtain ⟨c, ahead, rest, rfl, read, onward⟩ := ofChars_eq_cons cut
    obtain ⟨last, split, behind⟩ := ih onward
    refine ⟨last, ?_, behind⟩
    rw [Piece.sources_cons, List.append_assoc, ← split]
    exact (Piece.next_eq_ok_iff.mp read).1.symm

/-- The pieces of a cut are lawful, also when something behind them is never closed. -/
theorem lawful_of_ofChars (cut : ofChars memory chars = ⟨pieces, unclosed⟩) :
    Lawful memory pieces := by
  induction pieces generalizing memory chars with
  | nil => exact .nil
  | cons piece pieces ih =>
    obtain ⟨c, ahead, rest, rfl, read, onward⟩ := ofChars_eq_cons cut
    obtain ⟨-, legal, ends⟩ := Piece.next_eq_ok_iff.mp read
    rw [← List.append_nil pieces] at onward
    obtain ⟨last, split, -⟩ := ofChars_behind onward
    rw [List.append_nil] at onward
    refine .cons legal (fun d first => ends d ?_) (ih onward)
    rw [split, List.head?_append, first]
    rfl

theorem ofChars_eq_nil (cut : ofChars memory chars = ⟨[], none⟩) : chars = [] := by
  cases chars with
  | nil => rfl
  | cons c ahead =>
    rw [ofChars_cons] at cut
    split at cut <;> cases cut

theorem marked_iff : chars.take 2 = ['#', '!'] ↔ ['#', '!'] <+: chars := by
  rw [List.prefix_iff_eq_take]
  exact eq_comm

/-- A source is cut with what it begins with: a line for the interpreter or not. -/
theorem ofSource_cases (cut : ofSource chars = ⟨pieces, unclosed⟩) :
    (¬['#', '!'] <+: chars ∧ ofChars {} chars = ⟨pieces, unclosed⟩) ∨
      ∃ line rest more, chars = line ++ rest ∧ pieces = .interpreter line :: more ∧
        ['#', '!'] <+: line ∧ (∀ c ∈ line, endsInterpreter c = false) ∧
        (∀ c ∈ rest.head?, endsInterpreter c = true) ∧ ofChars {} rest = ⟨more, unclosed⟩ := by
  unfold ofSource at cut
  split at cut
  · next marks =>
    obtain ⟨rfl, same⟩ := Cut.mk.inj cut
    refine .inr ⟨_, _, _, List.takeWhile_append_dropWhile.symm, rfl, ?_, fun c member => ?_,
      fun c first => ?_, by rw [← same]⟩
    · obtain ⟨more, rfl⟩ := marked_iff.mp marks
      have inside : ∀ c ∈ ['#', '!'], (!endsInterpreter c) = true :=
        List.forall_mem_cons.mpr ⟨rfl, List.forall_mem_singleton.mpr rfl⟩
      rw [List.takeWhile_append_of_pos inside]
      exact List.prefix_append _ _
    · simpa using List.mem_takeWhile_imp member
    · simpa using Lexeme.head?_dropWhile_not c first
  · next marks => exact .inl ⟨marked_iff.not.mp marks, cut⟩

/-- Behind some of its pieces a source is cut on as what is left of it, once the line for the
interpreter is cut off. -/
theorem ofSource_behind (cut : ofSource chars = ⟨left ++ right, unclosed⟩)
    (begun : left = [] → ¬['#', '!'] <+: chars) :
    ∃ rest, chars = Piece.sources left ++ rest ∧
      ofChars (left.foldl Memory.afterPiece {}) rest = ⟨right, unclosed⟩ := by
  rcases ofSource_cases cut with ⟨-, cut⟩ | ⟨line, rest, more, rfl, same, marks, -, -, cut⟩
  · exact ofChars_behind cut
  · cases left with
    | nil => exact absurd (marks.trans (List.prefix_append _ _)) (begun rfl)
    | cons piece left =>
      obtain ⟨rfl, rfl⟩ := List.cons.inj same
      obtain ⟨last, split, behind⟩ := ofChars_behind cut
      exact ⟨last, by rw [Piece.sources_cons, List.append_assoc, ← split]; rfl, behind⟩

theorem whole_of_ofSource (cut : ofSource chars = ⟨pieces, unclosed⟩) : Whole pieces := by
  rcases ofSource_cases cut with
    ⟨plain, cut⟩ | ⟨line, rest, more, rfl, rfl, marks, inside, ends, cut⟩
  · refine .plain (fun marks => plain ?_) (lawful_of_ofChars cut)
    rw [← List.append_nil pieces] at cut
    obtain ⟨rest, rfl, -⟩ := ofChars_behind cut
    exact marks.trans (List.prefix_append _ _)
  · refine .interpreted marks inside (fun c first => ends c ?_) (lawful_of_ofChars cut)
    rw [← List.append_nil more] at cut
    obtain ⟨last, rfl, -⟩ := ofChars_behind cut
    rw [List.head?_append, first]
    rfl

/-- A cut ends where the source does or where something is opened that is never closed. -/
theorem ofSource_ends (cut : ofSource chars = ⟨pieces, unclosed⟩) :
    ∃ rest, chars = Piece.sources pieces ++ rest ∧
      ofChars (pieces.foldl Memory.afterPiece {}) rest = ⟨[], unclosed⟩ := by
  refine ofSource_behind (cut.trans (by rw [List.append_nil])) ?_
  rintro rfl
  rcases ofSource_cases cut with ⟨plain, -⟩ | ⟨_, _, _, -, same, -⟩
  · exact plain
  · cases same

private theorem sources_of_ofSource (cut : ofSource chars = ⟨pieces, none⟩) :
    Piece.sources pieces = chars := by
  obtain ⟨rest, rfl, onward⟩ := ofSource_ends cut
  rw [ofChars_eq_nil onward, List.append_nil]

/-- A source can be read to its end exactly if it can be cut so, and then in one way only. -/
theorem ofSource_eq_iff : ofSource chars = ⟨pieces, none⟩ ↔
    Piece.sources pieces = chars ∧ Whole pieces := by
  constructor
  · exact fun cut => ⟨sources_of_ofSource cut, whole_of_ofSource cut⟩
  · rintro ⟨rfl, whole⟩
    unfold ofSource
    cases whole with
    | plain unmarked lawful =>
      rw [if_neg (marked_iff.not.mpr unmarked)]
      exact lawful.ofChars_sources
    | @interpreted line pieces marks inside ends lawful =>
      have inside : ∀ c ∈ line, (!endsInterpreter c) = true := by simpa using inside
      have ends : ∀ c ∈ (Piece.sources pieces).head?, (!endsInterpreter c) = false := by
        simpa using ends
      obtain ⟨taken, left⟩ := Lexeme.takeWhile_exact inside ends
      have begins : ['#', '!'] <+: Piece.sources (.interpreter line :: pieces) :=
        marks.trans (List.prefix_append _ _)
      rw [if_pos (marked_iff.mpr begins)]
      simp only [Piece.sources_cons, Piece.source, taken, left, lawful.ofChars_sources]

end Cut

/-! ## Scripts -/

/-- What a lexeme is read as.  Only in a string literal does a text differ from what is written. -/
inductive Lexeme.Denotes : Lexeme → TokenKind → (text : List Char) → Prop where
  | identifier {chars : List Char} : Denotes (.identifier chars) .identifier chars
  | number {chars : List Char} : Denotes (.number chars) .number chars
  | punctuation {chars : List Char} : Denotes (.punctuation chars) .punctuation chars
  | regex {chars : List Char} : Denotes (.regex chars) .regex chars
  | template {body : List Char} : Denotes (.template body) .template body
  | string {quote : Char} {body text : List Char} :
      StringBody quote body text → Denotes (.string quote body) .string text

theorem Lexeme.Legal.denotes_iff {lexeme : Lexeme} {kind : TokenKind} {text : List Char}
    (legal : lexeme.Legal memory) :
    lexeme.Denotes kind text ↔ kind = lexeme.kind ∧ text = lexeme.text := by
  constructor
  · intro denotes
    cases denotes with
    | string body => exact ⟨rfl, body.unescape_eq.symm⟩
    | _ => exact ⟨rfl, rfl⟩
  · rintro ⟨rfl, rfl⟩
    cases legal with
    | string _ body => exact .string body
    | identifier => exact .identifier
    | number => exact .number
    | fraction => exact .number
    | template => exact .template
    | regex => exact .regex
    | twice => exact .punctuation
    | mark => exact .punctuation

namespace Script

/-- The tokens and comments of pieces that stand behind some characters of a source. -/
inductive Lists : (before : List Char) → List Piece → List Token → List Comment → Prop where
  | done {before : List Char} : Lists before [] [⟨.endOfFile, "", .behind before⟩] []
  | interpreter {before line : List Char} {pieces : List Piece} {tokens : List Token}
      {comments : List Comment} : Lists (before ++ line) pieces tokens comments →
      Lists before (.interpreter line :: pieces) tokens comments
  | blank {before : List Char} {c : Char} {pieces : List Piece} {tokens : List Token}
      {comments : List Comment} : Lists (before ++ [c]) pieces tokens comments →
      Lists before (.blank c :: pieces) tokens comments
  | lineComment {before body : List Char} {pieces : List Piece} {tokens : List Token}
      {comments : List Comment} : Lists (before ++ '/' :: '/' :: body) pieces tokens comments →
      Lists before (.lineComment body :: pieces) tokens
        (⟨String.ofList body, false, .behind before⟩ :: comments)
  | blockComment {before body : List Char} {pieces : List Piece} {tokens : List Token}
      {comments : List Comment} :
      Lists (before ++ '/' :: '*' :: body ++ ['*', '/']) pieces tokens comments →
      Lists before (.blockComment body :: pieces) tokens
        (⟨String.ofList body, true, .behind before⟩ :: comments)
  | token {before text : List Char} {lexeme : Lexeme} {kind : TokenKind} {pieces : List Piece}
      {tokens : List Token} {comments : List Comment} : lexeme.Denotes kind text →
      Lists (before ++ lexeme.source) pieces tokens comments →
      Lists before (.token lexeme :: pieces)
        (⟨kind, String.ofList text, .behind before⟩ :: tokens) comments

theorem read_eq_ok {source : String} {script : Script} : Script.read source = .ok script ↔
    ∃ pieces, Cut.ofSource source.toList = ⟨pieces, none⟩ ∧
      script = ⟨Piece.tokensFrom .start pieces, Piece.commentsFrom .start pieces⟩ := by
  unfold Script.read
  simp only
  generalize Cut.ofSource source.toList = cut
  obtain ⟨pieces, unclosed⟩ := cut
  cases unclosed with
  | none => simp [eq_comm]
  | some left => simp

variable {tokens : List Token} {comments : List Comment}

private theorem lists_of_lawful (lawful : Cut.Lawful memory pieces) :
    Lists before pieces tokens comments ↔ tokens = Piece.tokensFrom (.behind before) pieces ∧
      comments = Piece.commentsFrom (.behind before) pieces := by
  induction lawful generalizing before tokens comments with
  | nil =>
    constructor
    · intro lists
      cases lists
      exact ⟨rfl, rfl⟩
    · rintro ⟨rfl, rfl⟩
      exact .done
  | cons legal _ _ ih =>
    simp only [Piece.tokensFrom, Piece.commentsFrom, Position.after_behind]
    cases legal with
    | blank =>
      constructor
      · intro lists
        cases lists with
        | blank lists => exact ih.mp lists
      · exact fun same => .blank (ih.mpr same)
    | lineComment =>
      constructor
      · intro lists
        cases lists with
        | lineComment lists =>
          obtain ⟨rfl, rfl⟩ := ih.mp lists
          exact ⟨rfl, rfl⟩
      · rintro ⟨rfl, rfl⟩
        exact .lineComment (ih.mpr ⟨rfl, rfl⟩)
    | blockComment =>
      constructor
      · intro lists
        cases lists with
        | blockComment lists =>
          obtain ⟨rfl, rfl⟩ := ih.mp lists
          exact ⟨by simp [Piece.source], by simp [Piece.source]⟩
      · rintro ⟨rfl, rfl⟩
        exact .blockComment (ih.mpr ⟨by simp [Piece.source], by simp [Piece.source]⟩)
    | token legal =>
      constructor
      · intro lists
        cases lists with
        | token denotes lists =>
          obtain ⟨rfl, rfl⟩ := legal.denotes_iff.mp denotes
          obtain ⟨rfl, rfl⟩ := ih.mp lists
          exact ⟨rfl, rfl⟩
      · rintro ⟨rfl, rfl⟩
        exact .token (legal.denotes_iff.mpr ⟨rfl, rfl⟩) (ih.mpr ⟨rfl, rfl⟩)

private theorem lists_of_whole (whole : Cut.Whole pieces) :
    Lists [] pieces tokens comments ↔ tokens = Piece.tokensFrom .start pieces ∧
      comments = Piece.commentsFrom .start pieces := by
  rw [Position.start_eq]
  cases whole with
  | plain _ lawful => exact lists_of_lawful lawful
  | @interpreted line pieces _ _ _ lawful =>
    simp only [Piece.tokensFrom, Piece.commentsFrom, Position.after_behind]
    rw [Piece.source, ← lists_of_lawful lawful]
    constructor
    · intro lists
      cases lists with
      | interpreter lists => exact lists
    · exact .interpreter

/-- A source is read exactly if it can be cut into pieces one after the other, and then as the
tokens and comments of this cut. -/
theorem read_eq_ok_iff (source : String) (script : Script) : Script.read source = .ok script ↔
    ∃ pieces, Piece.sources pieces = source.toList ∧ Cut.Whole pieces ∧
      Lists [] pieces script.tokens script.comments := by
  rw [read_eq_ok]
  constructor
  · rintro ⟨pieces, cut, rfl⟩
    obtain ⟨split, whole⟩ := Cut.ofSource_eq_iff.mp cut
    exact ⟨pieces, split, whole, (lists_of_whole whole).mpr ⟨rfl, rfl⟩⟩
  · rintro ⟨pieces, split, whole, lists⟩
    refine ⟨pieces, Cut.ofSource_eq_iff.mpr ⟨split, whole⟩, ?_⟩
    obtain ⟨tokens, comments⟩ := (lists_of_whole whole).mp lists
    rw [← tokens, ← comments]

end Script

end ChunkPlan
