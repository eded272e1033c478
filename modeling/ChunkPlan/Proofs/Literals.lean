import ChunkPlan.Source.Lexeme
import Mathlib.Data.List.Infix

/-!
# Bodies of literals and comments

What may stand between the delimiters of a literal.  A search for the closing delimiter succeeds
exactly on such a body that is closed, so the delimiter found is the first one that closes.
-/

set_option autoImplicit false

namespace ChunkPlan.Lexeme

variable {quote c : Char} {depth : Nat} {inClass : Bool} {chars body rest text : List Char}

/-- The body of a string literal with the text that it stands for. -/
inductive StringBody (quote : Char) : (body text : List Char) → Prop where
  | nil : StringBody quote [] []
  | plain {c : Char} {body text : List Char} : c ≠ '\\' → c ≠ '\n' → c ≠ quote →
      StringBody quote body text → StringBody quote (c :: body) (c :: text)
  | lineBreak {body text : List Char} :
      StringBody quote body text → StringBody quote ('\\' :: '\n' :: body) text
  | escape {c : Char} {body text : List Char} : c ≠ '\n' →
      StringBody quote body text → StringBody quote ('\\' :: c :: body) (c :: text)

/-- The rest of the body of a template literal behind `depth` open braces of a substitution. -/
inductive TemplateBody : (depth : Nat) → List Char → Prop where
  | nil : TemplateBody 0 []
  | escape {depth : Nat} {c : Char} {body : List Char} :
      TemplateBody depth body → TemplateBody depth ('\\' :: c :: body)
  | substitution {depth : Nat} {body : List Char} :
      TemplateBody (depth + 1) body → TemplateBody depth ('$' :: '\x7b' :: body)
  | outer {c : Char} {body : List Char} : c ≠ '\\' → c ≠ '`' →
      (c = '$' → body.head? ≠ some '\x7b') → TemplateBody 0 body → TemplateBody 0 (c :: body)
  | openBrace {depth : Nat} {body : List Char} :
      TemplateBody (depth + 2) body → TemplateBody (depth + 1) ('\x7b' :: body)
  | closeBrace {depth : Nat} {body : List Char} :
      TemplateBody depth body → TemplateBody (depth + 1) ('\x7d' :: body)
  | inner {depth : Nat} {c : Char} {body : List Char} : c ≠ '\\' → c ≠ '\x7b' → c ≠ '\x7d' →
      (c = '$' → body.head? ≠ some '\x7b') →
      TemplateBody (depth + 1) body → TemplateBody (depth + 1) (c :: body)

/-- The rest of what stands between the slashes of a regular expression, within a class in brackets
or not. -/
inductive RegexBody : (inClass : Bool) → List Char → Prop where
  | nil : RegexBody false []
  | escape {inClass : Bool} {c : Char} {body : List Char} :
      RegexBody inClass body → RegexBody inClass ('\\' :: c :: body)
  | openClass {inClass : Bool} {body : List Char} :
      RegexBody true body → RegexBody inClass ('[' :: body)
  | closeClass {inClass : Bool} {body : List Char} :
      RegexBody false body → RegexBody inClass (']' :: body)
  | plain {inClass : Bool} {c : Char} {body : List Char} : c ≠ '\\' → c ≠ '\n' → c ≠ '[' →
      c ≠ ']' → (c = '/' → inClass = true) → RegexBody inClass body → RegexBody inClass (c :: body)

/-! ## Strings -/

theorem closeString?_cons (plain : c ≠ '\\') : closeString? quote (c :: rest) =
    if c = '\n' then none
    else if c = quote then some ([], rest)
    else (closeString? quote rest).map fun (body, rest) => (c :: body, rest) := by
  rw [closeString?.eq_4]
  · exact fun _ _ same _ => plain same
  · exact fun same _ => plain same

/-- A body without marks and escapes is its own text. -/
theorem stringBody_self (closed : quote ∉ body) (plain : '\\' ∉ body) (line : '\n' ∉ body) :
    StringBody quote body body := by
  induction body with
  | nil => exact .nil
  | cons c body ih =>
    rw [List.mem_cons, not_or] at closed plain line
    exact .plain (Ne.symm plain.1) (Ne.symm line.1) (Ne.symm closed.1)
      (ih closed.2 plain.2 line.2)

theorem StringBody.unescape_eq (legal : StringBody quote body text) : unescape body = text := by
  induction legal with
  | nil => rfl
  | @plain c body text apart _ _ _ ih =>
    rw [unescape.eq_3 _ _ fun _ _ same _ => apart same, ih]
  | lineBreak _ ih => rw [unescape, if_pos rfl, ih]
  | escape apart _ ih => rw [unescape, if_neg apart, ih]

theorem StringBody.closes (legal : StringBody quote body text) (mark : quote ≠ '\\')
    (ends : quote ≠ '\n') : closeString? quote (body ++ quote :: rest) = some (body, rest) := by
  induction legal with
  | nil => rw [List.nil_append, closeString?_cons mark, if_neg ends, if_pos rfl]
  | plain apart line other _ ih =>
    rw [List.cons_append, closeString?_cons apart, if_neg line, if_neg other, ih]
    rfl
  | lineBreak _ ih =>
    rw [List.cons_append, List.cons_append, closeString?, ih]
    rfl
  | escape _ _ ih =>
    rw [List.cons_append, List.cons_append, closeString?, ih]
    rfl

theorem stringBody_of_closes (closed : closeString? quote chars = some (body, rest)) :
    StringBody quote body (unescape body) := by
  fun_induction closeString? quote chars generalizing body rest with
  | case1 => cases closed
  | case2 c chars ih =>
    obtain ⟨⟨inner, left⟩, inside, same⟩ := Option.map_eq_some_iff.mp closed
    cases same
    rw [unescape]
    split
    · next line =>
      rw [line]
      exact .lineBreak (ih inside)
    · next apart => exact .escape apart (ih inside)
  | case3 => cases closed
  | case4 => cases closed
  | case5 =>
    cases closed
    exact .nil
  | case6 c chars pair single line other ih =>
    obtain ⟨⟨inner, left⟩, inside, same⟩ := Option.map_eq_some_iff.mp closed
    cases same
    have plain : c ≠ '\\' := by
      intro same
      cases chars with
      | nil => exact single same rfl
      | cons next chars => exact pair _ _ same rfl
    rw [unescape.eq_3 _ _ fun _ _ same _ => plain same]
    exact .plain plain line other (ih inside)

/-! ## Templates -/

theorem closeTemplate?_outer (plain : c ≠ '\\') (free : c = '$' → rest.head? ≠ some '\x7b') :
    closeTemplate? 0 (c :: rest) =
      if c = '`' then some ([], rest)
      else (closeTemplate? 0 rest).map fun (body, rest) => (c :: body, rest) := by
  rw [closeTemplate?.eq_4]
  · exact fun _ _ same _ => plain same
  · exact fun _ same next => free same (by rw [next]; rfl)

theorem closeTemplate?_inner (plain : c ≠ '\\') (free : c = '$' → rest.head? ≠ some '\x7b') :
    closeTemplate? (depth + 1) (c :: rest) =
      (closeTemplate? (depthAfter (depth + 1) c) rest).map
        fun (body, rest) => (c :: body, rest) := by
  rw [closeTemplate?.eq_5]
  · exact fun _ _ same _ => plain same
  · exact fun _ same next => free same (by rw [next]; rfl)

theorem head?_append_mark {mark : Char} (free : body.head? ≠ some c) (apart : mark ≠ c) :
    (body ++ mark :: rest).head? ≠ some c := by
  cases body with
  | nil => simpa using apart
  | cons first body => simpa using free

theorem TemplateBody.closes (legal : TemplateBody depth body) :
    closeTemplate? depth (body ++ '`' :: rest) = some (body, rest) := by
  induction legal with
  | nil => rfl
  | escape _ ih =>
    rw [List.cons_append, List.cons_append, closeTemplate?, ih]
    rfl
  | substitution _ ih =>
    rw [List.cons_append, List.cons_append, closeTemplate?, ih]
    rfl
  | outer plain apart free _ ih =>
    rw [List.cons_append, closeTemplate?_outer plain, if_neg apart, ih]
    · rfl
    · exact fun same => head?_append_mark (free same) (by decide)
  | openBrace _ ih =>
    rw [List.cons_append, closeTemplate?_inner (by decide) (by simp)]
    exact congrArg _ ih
  | closeBrace _ ih =>
    rw [List.cons_append, closeTemplate?_inner (by decide) (by simp)]
    exact congrArg _ ih
  | inner plain opens closes free _ ih =>
    rw [List.cons_append, closeTemplate?_inner plain, depthAfter, if_neg opens, if_neg closes, ih]
    · rfl
    · exact fun same => head?_append_mark (free same) (by decide)

theorem templateBody_inner (plain : c ≠ '\\') (free : c = '$' → body.head? ≠ some '\x7b')
    (legal : TemplateBody (depthAfter (depth + 1) c) body) : TemplateBody (depth + 1) (c :: body) := by
  unfold depthAfter at legal
  split at legal
  · next same =>
    rw [same]
    exact .openBrace legal
  · next opens =>
    split at legal
    · next same =>
      rw [same]
      exact .closeBrace legal
    · next closes => exact .inner plain opens closes free legal

theorem templateBody_of_closes (closed : closeTemplate? depth chars = some (body, rest)) :
    TemplateBody depth body := by
  -- A plain character is neither a backslash nor a dollar sign before a brace.
  have plain {c : Char} {chars inner left : List Char} {depth : Nat}
      (pair : ∀ d tail, c = '\\' → chars = d :: tail → False)
      (inside : closeTemplate? depth chars = some (inner, left)) : c ≠ '\\' := by
    intro same
    cases chars with
    | nil => cases inside
    | cons next chars => exact pair _ _ same rfl
  have free {c : Char} {chars inner left : List Char} {depth : Nat}
      (brace : ∀ tail, c = '$' → chars = '\x7b' :: tail → False)
      (inside : closeTemplate? depth chars = some (inner, left)) :
      c = '$' → inner.head? ≠ some '\x7b' := by
    intro same next
    obtain ⟨tail, rfl⟩ := List.head?_eq_some_iff.mp next
    exact brace _ same (closeTemplate?_eq_some inside)
  fun_induction closeTemplate? depth chars generalizing body rest with
  | case1 => cases closed
  | case2 depth c chars ih =>
    obtain ⟨⟨inner, left⟩, inside, same⟩ := Option.map_eq_some_iff.mp closed
    cases same
    exact .escape (ih inside)
  | case3 depth chars ih =>
    obtain ⟨⟨inner, left⟩, inside, same⟩ := Option.map_eq_some_iff.mp closed
    cases same
    exact .substitution (ih inside)
  | case4 =>
    cases closed
    exact .nil
  | case5 c chars pair brace apart ih =>
    obtain ⟨⟨inner, left⟩, inside, same⟩ := Option.map_eq_some_iff.mp closed
    cases same
    exact .outer (plain pair inside) apart (free brace inside) (ih inside)
  | case6 depth c chars pair brace ih =>
    obtain ⟨⟨inner, left⟩, inside, same⟩ := Option.map_eq_some_iff.mp closed
    cases same
    exact templateBody_inner (plain pair inside) (free brace inside) (ih inside)

/-! ## Regular expressions -/

theorem closeRegex?_cons (plain : c ≠ '\\') : closeRegex? inClass (c :: rest) =
    if c = '\n' then none
    else if c = '/' && !inClass then some (['/'], rest)
    else (closeRegex? (classAfter inClass c) rest).map fun (body, rest) => (c :: body, rest) := by
  rw [closeRegex?.eq_3]
  exact fun _ _ same _ => plain same

theorem RegexBody.closes (legal : RegexBody inClass body) :
    closeRegex? inClass (body ++ '/' :: rest) = some (body ++ ['/'], rest) := by
  induction legal with
  | nil => rfl
  | escape _ ih =>
    rw [List.cons_append, List.cons_append, closeRegex?, ih]
    rfl
  | openClass _ ih =>
    rw [List.cons_append, closeRegex?_cons (by decide), if_neg (by decide), if_neg (by simp)]
    exact congrArg _ ih
  | closeClass _ ih =>
    rw [List.cons_append, closeRegex?_cons (by decide), if_neg (by decide), if_neg (by simp)]
    exact congrArg _ ih
  | @plain inClass c body plain line opens closes slash _ ih =>
    have goes : ¬((c = '/' && !inClass) = true) := by
      intro ends
      rw [Bool.and_eq_true, decide_eq_true_eq, Bool.not_eq_true'] at ends
      rw [slash ends.1] at ends
      exact absurd ends.2 (by decide)
    rw [List.cons_append, closeRegex?_cons plain, if_neg line, if_neg goes, classAfter,
      if_neg opens, if_neg closes, ih]
    rfl

theorem regexBody_of_closes (closed : closeRegex? inClass chars = some (body, rest)) :
    ∃ inner, body = inner ++ ['/'] ∧ RegexBody inClass inner := by
  fun_induction closeRegex? inClass chars generalizing body rest with
  | case1 => cases closed
  | case2 inClass c chars ih =>
    obtain ⟨⟨inner, left⟩, inside, same⟩ := Option.map_eq_some_iff.mp closed
    cases same
    obtain ⟨inner, rfl, legal⟩ := ih inside
    exact ⟨'\\' :: c :: inner, rfl, .escape legal⟩
  | case3 => cases closed
  | case4 inClass c chars _ _ ends =>
    cases closed
    rw [Bool.and_eq_true, decide_eq_true_eq, Bool.not_eq_true'] at ends
    rw [ends.2]
    exact ⟨[], rfl, .nil⟩
  | case5 inClass c chars pair line goes ih =>
    obtain ⟨⟨inner, left⟩, inside, same⟩ := Option.map_eq_some_iff.mp closed
    cases same
    obtain ⟨inner, rfl, legal⟩ := ih inside
    refine ⟨c :: inner, rfl, ?_⟩
    unfold classAfter at legal
    split at legal
    · next same =>
      rw [same]
      exact .openClass legal
    · next opens =>
      split at legal
      · next same =>
        rw [same]
        exact .closeClass legal
      · next closes =>
        refine .plain ?_ line opens closes (fun slash => ?_) legal
        · intro same
          cases chars with
          | nil => cases inside
          | cons next chars => exact pair _ _ same rfl
        · simpa [slash] using goes

/-! ## Comments -/

def commentEnd : List Char := ['*', '/']

theorem commentEnd_infix_cons : commentEnd <:+: c :: body ↔
    (c = '*' ∧ body.head? = some '/') ∨ commentEnd <:+: body := by
  rw [List.infix_cons_iff]
  refine or_congr_left ?_
  cases body with
  | nil => simp [commentEnd]
  | cons next body => simp [commentEnd, List.cons_prefix_cons, eq_comm]

theorem closeComment?_cons (free : ¬(c = '*' ∧ rest.head? = some '/')) :
    closeComment? (c :: rest) =
      (closeComment? rest).map fun (body, rest) => (c :: body, rest) := by
  rw [closeComment?.eq_3]
  exact fun _ same next => free ⟨same, by rw [next]; rfl⟩

theorem closeComment?_of_free (free : ¬commentEnd <:+: body) :
    closeComment? (body ++ '*' :: '/' :: rest) = some (body, rest) := by
  induction body with
  | nil => rfl
  | cons c body ih =>
    rw [commentEnd_infix_cons, not_or] at free
    rw [List.cons_append, closeComment?_cons, ih free.2]
    · rfl
    · exact fun ends => head?_append_mark (fun next => free.1 ⟨ends.1, next⟩) (by decide) ends.2

theorem free_of_closeComment? (closed : closeComment? chars = some (body, rest)) :
    ¬commentEnd <:+: body := by
  fun_induction closeComment? chars generalizing body rest with
  | case1 => cases closed
  | case2 =>
    cases closed
    simp [commentEnd]
  | case3 c chars goes ih =>
    obtain ⟨⟨inner, left⟩, inside, same⟩ := Option.map_eq_some_iff.mp closed
    cases same
    rw [commentEnd_infix_cons, not_or]
    refine ⟨?_, ih inside⟩
    rintro ⟨star, slash⟩
    obtain ⟨tail, rfl⟩ := List.head?_eq_some_iff.mp slash
    exact goes _ star (closeComment?_eq_some inside)

end ChunkPlan.Lexeme
