import ChunkPlan.BuildError
import ChunkPlan.Proofs.Cuts
import ChunkPlan.Source.Declaration

/-!
# Template literals with substitutions

The end of a template literal is found by counting braces, and those in quotes count too.  So a
literal is read whole where what is quoted in its substitutions has balanced braces, whatever else
stands there; a lone quoted brace can end the literal early or keep it open.
-/

set_option autoImplicit false

namespace ChunkPlan

namespace Lexeme

variable {c quote : Char} {depth : Nat} {body text inner rest : List Char}
  {quotable : List Char → Prop}

/-- A text in which every opening brace is closed and no other is. -/
inductive Balanced : List Char → Prop where
  | nil : Balanced []
  | plain {c : Char} {rest : List Char} : c ≠ '\x7b' → c ≠ '\x7d' → Balanced rest →
      Balanced (c :: rest)
  | braces {inner rest : List Char} : Balanced inner → Balanced rest →
      Balanced ('\x7b' :: (inner ++ '\x7d' :: rest))

/-- Characters that stand in a substitution only as braces, as quotes, or quoted. -/
def expressionMarks : List Char := ['\'', '"', '`', '\\', '/', '\x7b', '\x7d']

/-- What stands between the braces of a substitution: other characters, braces that are balanced,
and quoted texts that meet a condition. -/
inductive Expression (quotable : List Char → Prop) : List Char → Prop where
  | nil : Expression quotable []
  | plain {c : Char} {rest : List Char} : c ∉ expressionMarks → Expression quotable rest →
      Expression quotable (c :: rest)
  | braces {inner rest : List Char} : Expression quotable inner → Expression quotable rest →
      Expression quotable ('\x7b' :: (inner ++ '\x7d' :: rest))
  | quoted {quote : Char} {text rest : List Char} : quote = '\'' ∨ quote = '"' → quote ∉ text →
      '\\' ∉ text → '\n' ∉ text → quotable text → Expression quotable rest →
      Expression quotable (quote :: (text ++ quote :: rest))

/-- The body of a template literal without escapes: plain characters and substitutions. -/
inductive Interpolated (quotable : List Char → Prop) : List Char → Prop where
  | nil : Interpolated quotable []
  | plain {c : Char} {rest : List Char} : c ≠ '`' → c ≠ '\\' →
      (c = '$' → rest.head? ≠ some '\x7b') → Interpolated quotable rest →
      Interpolated quotable (c :: rest)
  | substitution {inner rest : List Char} : Expression quotable inner →
      Interpolated quotable rest →
      Interpolated quotable ('$' :: '\x7b' :: (inner ++ '\x7d' :: rest))

/-! ## Counting braces -/

/-- Inside a substitution any character but an escape is counted alone.  A dollar sign before a brace
is read together with it, which comes to the same. -/
theorem templateBody_cons (plain : c ≠ '\\') (legal : TemplateBody (depthAfter (depth + 1) c) rest) :
    TemplateBody (depth + 1) (c :: rest) := by
  by_cases pair : c = '$' ∧ rest.head? = some '\x7b'
  · obtain ⟨rfl, first⟩ := pair
    obtain ⟨tail, rfl⟩ := List.head?_eq_some_iff.mp first
    have legal : TemplateBody (depth + 1) ('\x7b' :: tail) := legal
    cases legal with
    | openBrace legal => exact .substitution legal
    | inner _ opens => exact absurd rfl opens
  · exact templateBody_inner plain (fun dollar first => pair ⟨dollar, first⟩) legal

private theorem Balanced.templateBody (balanced : Balanced text) (plain : '\\' ∉ text)
    (legal : TemplateBody (depth + 1) rest) : TemplateBody (depth + 1) (text ++ rest) := by
  induction balanced generalizing depth rest with
  | nil => exact legal
  | @plain c tail opens closes _ ih =>
    obtain ⟨apart, plain⟩ := not_or.mp (List.mem_cons.not.mp plain)
    refine templateBody_cons (Ne.symm apart) ?_
    rw [depthAfter, if_neg opens, if_neg closes]
    exact ih plain legal
  | @braces inner tail _ _ innerIH tailIH =>
    simp only [List.mem_cons, List.mem_append, not_or] at plain
    rw [List.cons_append, List.append_assoc, List.cons_append]
    exact .openBrace (innerIH plain.2.1 (.closeBrace (tailIH plain.2.2.2 legal)))

private theorem Expression.templateBody (expression : Expression Balanced inner)
    (legal : TemplateBody (depth + 1) rest) : TemplateBody (depth + 1) (inner ++ rest) := by
  induction expression generalizing depth rest with
  | nil => exact legal
  | @plain c tail free _ ih =>
    simp only [expressionMarks, List.mem_cons, not_or] at free
    refine templateBody_cons free.2.2.2.1 ?_
    rw [depthAfter, if_neg free.2.2.2.2.2.1, if_neg free.2.2.2.2.2.2.1]
    exact ih legal
  | braces _ _ innerIH tailIH =>
    rw [List.cons_append, List.append_assoc, List.cons_append]
    exact .openBrace (innerIH (.closeBrace (tailIH legal)))
  | @quoted quote text tail marks _ plain _ balanced _ ih =>
    have mark {after : List Char} (legal : TemplateBody (depth + 1) after) :
        TemplateBody (depth + 1) (quote :: after) := by
      rcases marks with rfl | rfl
      · exact templateBody_cons (by decide) legal
      · exact templateBody_cons (by decide) legal
    rw [List.cons_append, List.append_assoc, List.cons_append]
    exact mark (balanced.templateBody plain (mark (ih legal)))

private theorem Interpolated.templateBody (legal : Interpolated Balanced body) :
    TemplateBody 0 body := by
  induction legal with
  | nil => exact .nil
  | plain apart plain free _ ih => exact .outer plain apart free ih
  | substitution expression _ ih => exact .substitution (expression.templateBody (.closeBrace ih))

end Lexeme

/-! ## Scripts of one literal -/

private theorem Piece.next_template (memory : Memory) (chars : List Char) :
    Piece.next memory '`' chars = match Lexeme.closeTemplate? 0 chars with
      | some (body, rest) => .ok (.token (.template body), rest)
      | none => .error .template := by
  have blank : CharClass.isBlank '`' = false := by decide
  have start : Lexeme.isIdentifierStart '`' = false := by decide
  have digit : CharClass.isDigit '`' = false := by decide
  cases closed : Lexeme.closeTemplate? 0 chars <;>
    simp [Piece.next, Lexeme.next, blank, start, digit, closed]

namespace Script

/-- Whether a text between backticks is read as one template literal and nothing else. -/
def ReadsTemplate (body : String) : Prop :=
  ∃ script, Script.read ("`" ++ body ++ "`") = .ok script ∧
    script.tokens.map (fun token => (token.kind, token.text)) =
      [(.template, body), (.endOfFile, "")]

theorem readsTemplate_iff {body : String} :
    ReadsTemplate body ↔ Lexeme.TemplateBody 0 body.toList := by
  have chars : ("`" ++ body ++ "`").toList = '`' :: (body.toList ++ ['`']) := by simp
  have cut : Cut.ofSource ("`" ++ body ++ "`").toList =
      Cut.ofChars {} ('`' :: (body.toList ++ ['`'])) := by
    rw [chars, Cut.ofSource, if_neg (by simp)]
  simp only [ReadsTemplate, read_eq_ok, cut, Cut.ofChars_cons, Piece.next_template]
  constructor
  · rintro ⟨script, ⟨pieces, whole, rfl⟩, tokens⟩
    cases closed : Lexeme.closeTemplate? 0 (body.toList ++ ['`']) with
    | none => simp [closed] at whole
    | some split =>
      obtain ⟨front, rest⟩ := split
      simp only [closed, Cut.mk.injEq] at whole
      obtain ⟨rfl, -⟩ := whole
      simp only [Piece.tokensFrom, List.map_cons, List.cons.injEq, Prod.mk.injEq] at tokens
      have same : String.ofList front = body := tokens.1.2
      rw [← same, String.toList_ofList]
      exact Lexeme.templateBody_of_closes closed
  · intro legal
    have whole : Cut.ofChars ((Memory.mk none [] false).afterPiece (.token (.template body.toList))) [] =
        ⟨[], none⟩ := by rw [Cut.ofChars]
    simp only [legal.closes, whole]
    refine ⟨_, ⟨_, rfl, rfl⟩, ?_⟩
    simp [Piece.tokensFrom, Lexeme.kind, Lexeme.text]

/-- A text of plain characters and substitutions is read as one template literal if every quoted
text in it has balanced braces.  In general it is so exactly if the braces close when they are
counted wherever they stand. -/
theorem interpolated_readsTemplate (body : String) :
    (Lexeme.Interpolated Lexeme.Balanced body.toList → ReadsTemplate body) ∧
    (ReadsTemplate body ↔ Lexeme.TemplateBody 0 body.toList) :=
  ⟨fun legal => readsTemplate_iff.mpr legal.templateBody, readsTemplate_iff⟩

/-- A substitution with braces around a quoted backtick in braces. -/
def nestedBody : String := "a$\x7b\x7b'\x7b`\x7d'\x7d\x7d$"

theorem interpolated_readsTemplate_nestedBody :
    Lexeme.Interpolated Lexeme.Balanced nestedBody.toList ∧ ReadsTemplate nestedBody := by
  have legal : Lexeme.Interpolated Lexeme.Balanced nestedBody.toList := by
    have tick : Lexeme.Balanced "\x7b`\x7d".toList :=
      .braces (.plain (by decide) (by decide) .nil) .nil
    have quoted : Lexeme.Expression Lexeme.Balanced "'\x7b`\x7d'".toList :=
      .quoted (.inl rfl) (by decide) (by decide) (by decide) tick .nil
    exact .plain (by decide) (by decide) (by decide)
      (.substitution (.braces quoted .nil)
        (.plain (by decide) (by decide) (by decide) .nil))
  exact ⟨legal, (interpolated_readsTemplate nestedBody).1 legal⟩

/-- A substitution with one quoted text, in which a brace stands before a backtick. -/
def quotedCallBody : String := "$\x7b'\x7d`;goog.require(\"x\");`'\x7d"

/-- The quoted brace ends the substitution, so the literal ends in the quoted text and what stands
there is read as code: a require that is only quoted is found. -/
theorem not_readsTemplate_quotedCallBody :
    Lexeme.Interpolated (fun _ => True) quotedCallBody.toList ∧ ¬ReadsTemplate quotedCallBody ∧
      ∃ script, Script.read ("`" ++ quotedCallBody ++ "`") = .ok script ∧
        (script.toUnit "/quoted.js").requires = ["x"] := by
  have legal : Lexeme.Interpolated (fun _ => True) quotedCallBody.toList := by
    have quoted : Lexeme.Expression (fun _ => True)
        ('\'' :: ("\x7d`;goog.require(\"x\");`".toList ++ '\'' :: [])) :=
      .quoted (.inl rfl) (by decide) (by decide) (by decide) trivial .nil
    exact .substitution quoted .nil
  have found : (Script.read ("`" ++ quotedCallBody ++ "`")).toOption.map
      (fun script => (script.tokens.length, (script.toUnit "/quoted.js").requires)) =
        some (11, ["x"]) := by decide +kernel
  obtain ⟨script, read, same⟩ := Option.map_eq_some_iff.mp found
  obtain ⟨count, requires⟩ := Prod.mk.inj same
  have read := eq_ok_of_toOption read
  refine ⟨legal, ?_, script, read, requires⟩
  rintro ⟨other, alsoRead, tokens⟩
  cases read.symm.trans alsoRead
  have two := congrArg List.length tokens
  rw [List.length_map, count] at two
  cases two

end Script

end ChunkPlan
