import ChunkPlan.Source.Piece
import ChunkPlan.Source.Position

/-!
# Scripts

A script as tokens and comments with their positions, which are counted over the pieces that the
source is cut into.
-/

set_option autoImplicit false

namespace ChunkPlan

structure Token where
  kind : TokenKind
  text : String
  position : Position
  deriving DecidableEq, Repr, Inhabited

structure Comment where
  text : String
  isBlock : Bool
  position : Position
  deriving DecidableEq, Repr, Inhabited

namespace Token

def isPunctuation (token : Token) (text : String) : Bool :=
  token.kind = .punctuation && token.text = text

end Token

namespace Piece

/-- The tokens of pieces that begin at a position, and a last one that marks the end. -/
def tokensFrom (position : Position) : List Piece → List Token
  | [] => [⟨.endOfFile, "", position⟩]
  | piece :: pieces =>
    let rest := tokensFrom (position.after piece.source) pieces
    match piece with
    | .token lexeme => ⟨lexeme.kind, String.ofList lexeme.text, position⟩ :: rest
    | _ => rest

def commentsFrom (position : Position) : List Piece → List Comment
  | [] => []
  | piece :: pieces =>
    let rest := commentsFrom (position.after piece.source) pieces
    match piece with
    | .lineComment body => ⟨String.ofList body, false, position⟩ :: rest
    | .blockComment body => ⟨String.ofList body, true, position⟩ :: rest
    | _ => rest

def sources (pieces : List Piece) : List Char := pieces.flatMap source

end Piece

/-- A script that is read. -/
structure Script where
  tokens : List Token
  comments : List Comment
  deriving DecidableEq, Repr, Inhabited

/-- Why a script cannot be read: what is not closed, where it is opened, and the comments before
it. -/
structure Script.Failure where
  unclosed : Unclosed
  position : Position
  comments : List Comment
  deriving DecidableEq, Repr, Inhabited

def Script.read (source : String) : Except Script.Failure Script :=
  let cut := Cut.ofSource source.toList
  let comments := Piece.commentsFrom .start cut.pieces
  match cut.unclosed with
  | none => .ok ⟨Piece.tokensFrom .start cut.pieces, comments⟩
  | some (unclosed, _) =>
    .error ⟨unclosed, Position.start.after (Piece.sources cut.pieces), comments⟩

end ChunkPlan
