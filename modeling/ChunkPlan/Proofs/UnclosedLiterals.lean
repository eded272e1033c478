import ChunkPlan.BuildError
import ChunkPlan.Proofs.Cuts

/-!
# Literals that are never closed

A source that cannot be read has a literal or a comment that is opened and never closed.  The error
stands where it is opened, and what comes before is read as if the source ended there.
-/

set_option autoImplicit false

namespace ChunkPlan

variable {memory : Memory} {quote c : Char} {depth : Nat} {inClass : Bool}
  {chars bare front back rest : List Char} {fault : Unclosed} {pieces : List Piece}

namespace Lexeme

/-! ## Marks that close nothing -/

/-- The characters of a text that are not escaped, where the text does not end within an escape: a
character behind it is then not escaped either. -/
inductive Bare : (chars bare : List Char) → Prop where
  | nil : Bare [] []
  | plain {c : Char} {chars bare : List Char} : c ≠ '\\' → Bare chars bare →
      Bare (c :: chars) (c :: bare)
  | escape {c : Char} {chars bare : List Char} : Bare chars bare → Bare ('\\' :: c :: chars) bare

/-- Whether a class in brackets is open behind characters that are not escaped. -/
def InClass (bare : List Char) : Prop :=
  ∃ before inside, bare = before ++ '[' :: inside ∧ ']' ∉ inside

/-- The number of braces of substitutions that are open behind a part of a template literal, if
`depth` are open before it.  Outside of substitutions only a brace behind a dollar sign counts. -/
def openBraces : (depth : Nat) → List Char → Nat
  | depth, [] => depth
  | depth, '\\' :: _ :: rest => openBraces depth rest
  | depth, '$' :: '\x7b' :: rest => openBraces (depth + 1) rest
  | 0, _ :: rest => openBraces 0 rest
  | depth + 1, c :: rest => openBraces (depthAfter (depth + 1) c) rest

/-- Whether a text begins with what opens a literal or a comment, and nothing behind that closes it.
Each has the code of the error that tells so. -/
inductive StandsOpen : (code : String) → List Char → Prop where
  /-- Every such quote that is not escaped comes behind a line break that is not. -/
  | string {quote : Char} {rest : List Char} : quote = '\'' ∨ quote = '"' →
      (∀ front bare back, rest = front ++ quote :: back → Bare front bare → '\n' ∈ bare) →
      StandsOpen "SRC-0010" (quote :: rest)
  | blockComment {rest : List Char} : ¬commentEnd <:+: rest →
      StandsOpen "SRC-0020" ('/' :: '*' :: rest)
  /-- Every backtick that is not escaped stands inside a substitution. -/
  | template {rest : List Char} :
      (∀ front bare back, rest = front ++ '`' :: back → Bare front bare → 0 < openBraces 0 front) →
      StandsOpen "SRC-0030" ('`' :: rest)
  /-- Every slash that is not escaped stands in a class or comes behind a line break that is not
  escaped. -/
  | regex {rest : List Char} :
      (∀ front bare back, rest = front ++ '/' :: back → Bare front bare →
        '\n' ∈ bare ∨ InClass bare) → StandsOpen "SRC-0040" ('/' :: rest)

private theorem lineBreak_of_closeString? (mark : quote ≠ '\\') (ends : quote ≠ '\n')
    (unclosed : closeString? quote (front ++ quote :: back) = none) (isBare : Bare front bare) :
    '\n' ∈ bare := by
  induction isBare with
  | nil =>
    rw [List.nil_append, closeString?_cons mark, if_neg ends, if_pos rfl] at unclosed
    cases unclosed
  | @plain c chars bare plain _ ih =>
    rw [List.cons_append, closeString?_cons plain] at unclosed
    split at unclosed
    · next line => exact line ▸ List.mem_cons_self
    · split at unclosed
      · cases unclosed
      · exact List.mem_cons_of_mem c (ih (Option.map_eq_none_iff.mp unclosed))
  | escape _ ih =>
    rw [List.cons_append, List.cons_append, closeString?] at unclosed
    exact ih (Option.map_eq_none_iff.mp unclosed)

/-- A slash that closes nothing comes behind a line break, or in a class that was open before or is
opened on the way. -/
theorem shielded_of_closeRegex? (unclosed : closeRegex? inClass (front ++ '/' :: back) = none)
    (isBare : Bare front bare) :
    '\n' ∈ bare ∨ (inClass = true ∧ ']' ∉ bare) ∨ InClass bare := by
  induction isBare generalizing inClass with
  | nil =>
    rw [List.nil_append, closeRegex?_cons (by decide), if_neg (by decide)] at unclosed
    cases inClass with
    | false => cases unclosed
    | true => exact .inr (.inl ⟨rfl, List.not_mem_nil⟩)
  | @plain c chars bare plain _ ih =>
    rw [List.cons_append, closeRegex?_cons plain] at unclosed
    split at unclosed
    · next line => exact .inl (line ▸ List.mem_cons_self)
    split at unclosed
    · cases unclosed
    -- A class that is open behind this character was open before it, or is opened by it.
    rcases ih (Option.map_eq_none_iff.mp unclosed) with
      line | ⟨opened, free⟩ | ⟨before, inside, rfl, free⟩
    · exact .inl (List.mem_cons_of_mem c line)
    · unfold classAfter at opened
      split at opened
      · next opens => exact .inr (.inr ⟨[], bare, congrArg (· :: bare) opens, free⟩)
      split at opened
      · cases opened
      · next closes =>
        exact .inr (.inl ⟨opened, List.not_mem_cons_of_ne_of_not_mem (Ne.symm closes) free⟩)
    · exact .inr (.inr ⟨c :: before, inside, rfl, free⟩)
  | escape _ ih =>
    rw [List.cons_append, List.cons_append, closeRegex?] at unclosed
    exact ih (Option.map_eq_none_iff.mp unclosed)

private theorem openBraces_of_closeTemplate?
    (unclosed : closeTemplate? depth (front ++ '`' :: back) = none)
    (isBare : Bare front bare) : 0 < openBraces depth front := by
  -- The backtick is no brace, so a dollar sign at the end of the front opens nothing with it.
  have free {c : Char} {rest : List Char}
      (brace : ∀ tail, c = '$' → rest = '\x7b' :: tail → False) : c = '$' → (rest ++ '`' :: back).head? ≠ some '\x7b' := by
    refine fun dollar => head?_append_mark (fun first => ?_) (by decide)
    obtain ⟨tail, same⟩ := List.head?_eq_some_iff.mp first
    exact brace tail dollar same
  fun_induction openBraces depth front generalizing bare with
  | case1 depth =>
    cases depth with
    | zero => cases unclosed
    | succ depth => exact Nat.succ_pos depth
  | case2 depth c rest ih =>
    rw [List.cons_append, List.cons_append, closeTemplate?] at unclosed
    cases isBare with
    | plain plain _ => exact absurd rfl plain
    | escape isBare => exact ih (Option.map_eq_none_iff.mp unclosed) isBare
  | case3 depth rest ih =>
    rw [List.cons_append, List.cons_append, closeTemplate?] at unclosed
    cases isBare with
    | plain _ isBare =>
      cases isBare with
      | plain _ isBare => exact ih (Option.map_eq_none_iff.mp unclosed) isBare
  | case4 c rest pair brace ih =>
    cases isBare with
    | plain plain isBare =>
      rw [List.cons_append, closeTemplate?_outer plain (free brace)] at unclosed
      split at unclosed
      · cases unclosed
      · exact ih (Option.map_eq_none_iff.mp unclosed) isBare
    | escape _ => exact absurd rfl (pair _ _ rfl)
  | case5 depth c rest pair brace ih =>
    cases isBare with
    | plain plain isBare =>
      rw [List.cons_append, closeTemplate?_inner plain (free brace)] at unclosed
      exact ih (Option.map_eq_none_iff.mp unclosed) isBare
    | escape _ => exact absurd rfl (pair _ _ rfl)

private theorem commentEnd_of_closeComment? (unclosed : closeComment? chars = none) :
    ¬commentEnd <:+: chars := by
  fun_induction closeComment? chars with
  | case1 => decide
  | case2 => cases unclosed
  | case3 c chars goes ih =>
    rw [commentEnd_infix_cons, not_or]
    refine ⟨?_, ih (Option.map_eq_none_iff.mp unclosed)⟩
    rintro ⟨star, slash⟩
    obtain ⟨tail, rfl⟩ := List.head?_eq_some_iff.mp slash
    exact goes _ star rfl

end Lexeme

open Lexeme (StandsOpen)

/-! ## Sources that cannot be read -/

private theorem Lexeme.standsOpen_of_next (failed : Lexeme.next memory c chars = .error fault) :
    StandsOpen fault.statement.code (c :: chars) := by
  unfold Lexeme.next at failed
  split at failed
  · cases failed
  split at failed
  · cases failed
  split at failed
  · next quoted =>
    rw [Bool.or_eq_true, decide_eq_true_eq, decide_eq_true_eq] at quoted
    split at failed
    · cases failed
    · next unclosed =>
      cases failed
      have apart : c ≠ '\\' ∧ c ≠ '\n' := by rcases quoted with rfl | rfl <;> decide
      refine .string quoted fun front bare back split isBare => ?_
      exact lineBreak_of_closeString? apart.1 apart.2 (split ▸ unclosed) isBare
  split at failed
  · next tick =>
    split at failed
    · cases failed
    · next unclosed =>
      cases failed
      rw [tick]
      exact .template fun front bare back split isBare =>
        openBraces_of_closeTemplate? (split ▸ unclosed) isBare
  split at failed
  · next opens =>
    split at failed
    · cases failed
    · next unclosed =>
      cases failed
      rw [Bool.and_eq_true, decide_eq_true_eq] at opens
      rw [opens.1]
      refine .regex fun front bare back split isBare => ?_
      exact (shielded_of_closeRegex? (split ▸ unclosed) isBare).imp_right fun shielded =>
        shielded.resolve_left fun inside => Bool.false_ne_true inside.1
  split at failed
  · cases failed
  · cases failed

private theorem Piece.standsOpen_of_next (failed : Piece.next memory c chars = .error fault) :
    StandsOpen fault.statement.code (c :: chars) := by
  unfold Piece.next at failed
  split at failed
  · cases failed
  split at failed
  · cases failed
  split at failed
  · next opens =>
    split at failed
    · cases failed
    · next unclosed =>
      cases failed
      rw [Bool.and_eq_true, decide_eq_true_eq, decide_eq_true_eq] at opens
      obtain ⟨rfl, star⟩ := opens
      obtain ⟨body, rfl⟩ := List.head?_eq_some_iff.mp star
      exact .blockComment (Lexeme.commentEnd_of_closeComment? unclosed)
  split at failed
  · cases failed
  · next lexed =>
    cases failed
    exact Lexeme.standsOpen_of_next lexed

private theorem Cut.standsOpen_of_ofChars (cut : ofChars memory rest = ⟨[], some (fault, chars)⟩) :
    StandsOpen fault.statement.code rest := by
  cases rest with
  | nil =>
    rw [ofChars] at cut
    cases cut
  | cons c ahead =>
    rw [ofChars_cons] at cut
    split at cut
    · next failed =>
      cases cut
      exact Piece.standsOpen_of_next failed
    · cases cut

namespace Script

private theorem read_eq_error {source : String} {failure : Failure} :
    Script.read source = .error failure ↔ ∃ pieces fault chars,
      Cut.ofSource source.toList = ⟨pieces, some (fault, chars)⟩ ∧
      failure = ⟨fault, Position.start.after (Piece.sources pieces),
        Piece.commentsFrom .start pieces⟩ := by
  unfold Script.read
  simp only
  generalize Cut.ofSource source.toList = cut
  obtain ⟨pieces, unclosed⟩ := cut
  cases unclosed with
  | none => simp
  | some left =>
    obtain ⟨fault, chars⟩ := left
    simp [eq_comm]

/-- A source that cannot be read can be read up to where the error stands, with the comments that
the error comes with.  There a literal or a comment is opened, the one that the code of the error is
for, and nothing that follows closes it. -/
theorem read_error_stands_open (source : String) (failure : Failure)
    (failed : Script.read source = .error failure) :
    ∃ front rest script, source = front ++ rest ∧ failure.position = .behind front.toList ∧
      Script.read front = .ok script ∧ script.comments = failure.comments ∧
      StandsOpen failure.unclosed.statement.code rest.toList := by
  obtain ⟨pieces, fault, chars, cut, rfl⟩ := read_eq_error.mp failed
  obtain ⟨rest, split, onward⟩ := Cut.ofSource_ends cut
  refine ⟨String.ofList (Piece.sources pieces), String.ofList rest, _, ?_, ?_,
    read_eq_ok.mpr ⟨pieces, Cut.ofSource_eq_iff.mpr ⟨?_, Cut.whole_of_ofSource cut⟩, rfl⟩, rfl, ?_⟩
  · rw [← String.ofList_append, ← split, String.ofList_toList]
  · rw [Position.start_eq, Position.after_behind, String.toList_ofList, List.nil_append]
  · rw [String.toList_ofList]
  · rw [String.toList_ofList]
    exact Cut.standsOpen_of_ofChars onward

/-- A comment and a regular expression with a slash in a class, an escaped one, and one behind the
end of the line. -/
def lostRegex : String := "/*a*/ f = /[/]\\/\n/"

theorem read_error_stands_open_lostRegex :
    Script.read lostRegex = .error ⟨.regex, ⟨1, 11⟩, [⟨"a", true, ⟨1, 1⟩⟩]⟩ ∧
      ∃ front rest script, lostRegex = front ++ rest ∧ ⟨1, 11⟩ = Position.behind front.toList ∧
        Script.read front = .ok script ∧ script.comments = [⟨"a", true, ⟨1, 1⟩⟩] ∧
        StandsOpen "SRC-0040" rest.toList := by
  have failed : Script.read lostRegex = .error ⟨.regex, ⟨1, 11⟩, [⟨"a", true, ⟨1, 1⟩⟩]⟩ := by
    decide +kernel
  exact ⟨failed, read_error_stands_open lostRegex _ failed⟩

end Script

end ChunkPlan
