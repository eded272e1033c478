import ChunkPlan.Proofs.JsonText

/-!
# Characters of JSON texts

A character that is neither a letter nor a digit nor one of the marks of the format stands in a JSON
text only where a string has it, and there only if it is printable.
-/

set_option autoImplicit false

namespace ChunkPlan.Json

variable {x c : Char} {value : Json} {separators : Separators}

/-- Characters that the format itself does not use, whatever the separators. -/
def Foreign (x : Char) : Prop := x.isAlphanum = false ∧ x ∉ "[]\x7b\x7d+-.\\\"/".toList

instance (x : Char) : Decidable (Foreign x) := inferInstanceAs (Decidable (_ ∧ _))

namespace Foreign

theorem ne_alphanum (foreign : Foreign x) (other : c.isAlphanum = true) : x ≠ c := by
  rintro rfl
  rw [foreign.1] at other
  cases other

theorem ne_mark (foreign : Foreign x) (mark : c ∈ "[]\x7b\x7d+-.\\\"/".toList) : x ≠ c := by
  rintro rfl
  exact foreign.2 mark

theorem not_mem_word (foreign : Foreign x) {word : List Char}
    (alphanum : word.all Char.isAlphanum = true) : x ∉ word :=
  fun member => foreign.ne_alphanum (List.all_eq_true.mp alphanum x member) rfl

theorem not_mem_digits (foreign : Foreign x) (n : Nat) : x ∉ Nat.toDigits 10 n := by
  refine foreign.not_mem_word (List.all_eq_true.mpr fun c member => ?_)
  have digit := Nat.isDigit_of_mem_toDigits (by decide) (by decide) member
  simp [Char.isAlphanum, digit]

/-! ## Numbers -/

private theorem not_mem_toString (foreign : Foreign x) (value : Int) :
    x ∉ (toString value).toList := by
  rw [Int.toString_eq_repr, Int.repr_eq_if]
  split <;> simp [foreign.not_mem_digits, foreign.ne_mark (c := '-') (by decide)]

private theorem not_mem_layout (foreign : Foreign x) (decimal : Binary64.Decimal) :
    x ∉ decimal.layout.toList := by
  have zeros (n : Nat) : x ∉ List.replicate n '0' := fun member =>
    foreign.ne_alphanum (by decide) (List.eq_of_mem_replicate member)
  have zero : x ≠ '0' := foreign.ne_alphanum (by decide)
  have letter : x ≠ 'e' := foreign.ne_alphanum (by decide)
  have point : x ≠ '.' := foreign.ne_mark (by decide)
  have plus : x ≠ '+' := foreign.ne_mark (by decide)
  have minus : x ≠ '-' := foreign.ne_mark (by decide)
  unfold Binary64.Decimal.layout
  extract_lets all _ digits position text fraction power powerDigits sign
  have kept : x ∉ digits := fun member =>
    foreign.not_mem_digits decimal.digits (List.mem_reverse.mp
      ((List.dropWhile_sublist _).subset (List.mem_reverse.mp member)))
  have taken (n : Nat) : x ∉ digits.take n := fun member => kept (List.mem_of_mem_take member)
  have dropped (n : Nat) : x ∉ digits.drop n := fun member => kept (List.mem_of_mem_drop member)
  have positional : x ∉ text := by
    unfold text
    split
    · simp [zero, point, zeros, kept]
    · split
      · simp [zero, point, zeros, kept]
      · simp [point, taken, dropped]
  have signed : x ≠ sign := by
    unfold sign
    split
    · exact minus
    · exact plus
  have behind : x ∉ if fraction.isEmpty then [] else '.' :: fraction := by
    split
    · simp
    · exact List.not_mem_cons_of_ne_of_not_mem point (dropped 1)
  split
  · rwa [String.toList_ofList]
  · rw [String.toList_ofList]
    simp only [List.mem_append, List.mem_cons, List.not_mem_nil, or_false, not_or]
    exact ⟨⟨⟨⟨taken 1, behind⟩, letter, signed⟩, zeros _⟩, foreign.not_mem_digits _⟩

private theorem not_mem_render (foreign : Foreign x) (value : Binary64) :
    x ∉ (value.render .json).toList := by
  have minus : x ≠ '-' := foreign.ne_mark (by decide)
  have sign (negative : Bool) : x ∉ (if negative then "-" else "").toList := by
    cases negative <;> simp [minus]
  cases value with
  | nan => exact foreign.not_mem_word (by decide)
  | infinite negative =>
    rw [Binary64.render, String.toList_append, List.mem_append, not_or]
    exact ⟨sign negative, foreign.not_mem_word (by decide)⟩
  | finite negative mantissa exponent =>
    rw [Binary64.render, String.toList_append, List.mem_append, not_or]
    refine ⟨sign negative, ?_⟩
    split
    · have zero : x ≠ '0' := foreign.ne_alphanum (by decide)
      have point : x ≠ '.' := foreign.ne_mark (by decide)
      simp [zero, point]
    · exact foreign.not_mem_layout _

/-! ## Strings -/

private theorem not_mem_unicodeEscape (foreign : Foreign x) (code : Nat) :
    x ∉ unicodeEscape code := by
  have digit (n : Nat) : x ≠ Text.hexDigit (n % 16) := by
    have all : ∀ digit : Fin 16, (Text.hexDigit digit).isAlphanum = true := by decide
    exact foreign.ne_alphanum (all ⟨n % 16, Nat.mod_lt n (by decide)⟩)
  have backslash : x ≠ '\\' := foreign.ne_mark (by decide)
  have letter : x ≠ 'u' := foreign.ne_alphanum (by decide)
  rw [unicodeEscape, hexDigits_four]
  simp [digit, backslash, letter]

/-- Only what is printable is written as itself. -/
theorem eq_of_mem_escapedChar (foreign : Foreign x) (member : x ∈ escapedChar c) :
    x = c ∧ 32 ≤ x.toNat := by
  have backslash : x ≠ '\\' := foreign.ne_mark (by decide)
  rcases escapedChar_cases c with ⟨letter, written, escapes, _⟩ | ⟨written, _, _, printed, _⟩ |
    ⟨written, _⟩
  · rw [written] at member
    have same : x = letter := by simpa [backslash] using member
    have known : letter.isAlphanum = true ∨ letter ∈ "[]\x7b\x7d+-.\\\"/".toList := by
      unfold Token.simpleEscape? at escapes
      split at escapes <;> cases escapes <;> decide
    exact absurd same (known.elim foreign.ne_alphanum foreign.ne_mark)
  · rw [written, List.mem_singleton] at member
    exact ⟨member, member ▸ printed⟩
  · rw [written, List.mem_flatMap] at member
    obtain ⟨code, -, inside⟩ := member
    exact absurd inside (foreign.not_mem_unicodeEscape code)

theorem not_mem_literal (foreign : Foreign x) {text : String}
    (absent : x.toNat < 32 ∨ x ∉ text.toList) : x ∉ literal text := by
  have quote : x ≠ '"' := foreign.ne_mark (by decide)
  have inside : x ∉ text.toList.flatMap escapedChar := by
    intro member
    obtain ⟨c, listed, member⟩ := List.mem_flatMap.mp member
    obtain ⟨rfl, printed⟩ := foreign.eq_of_mem_escapedChar member
    exact absent.elim (fun small => absurd printed (Nat.not_le.mpr small)) fun free => free listed
  simp [literal, quote, inside]

end Foreign

/-! ## Values -/

/-- Whether a character is written for no string of a value. -/
inductive Lacks (x : Char) : Json → Prop
  | null : Lacks x .null
  | bool (value : Bool) : Lacks x (.bool value)
  | integer (value : Int) : Lacks x (.integer value)
  | number (value : Binary64) : Lacks x (.number value)
  | string {text : String} (absent : x ∉ literal text) : Lacks x (.string text)
  | array {items : List Json} (each : ∀ item ∈ items, Lacks x item) : Lacks x (.array items)
  | object {members : List (String × Json)} (keys : ∀ member ∈ members, x ∉ literal member.1)
      (each : ∀ member ∈ members, Lacks x member.2) : Lacks x (.object members)

private theorem not_mem_itemChars {items : List Json} (item : x ∉ separators.item.toList)
    (each : ∀ item ∈ items, x ∉ chars separators item) : x ∉ itemChars separators items := by
  induction items with
  | nil => simp [itemChars]
  | cons first items ih =>
    obtain ⟨free, others⟩ := List.forall_mem_cons.mp each
    cases items with
    | nil => simpa [itemChars] using free
    | cons second items =>
      rw [itemChars]
      · simp [free, item, ih others]
      · simp

private theorem not_mem_memberChars {members : List (String × Json)}
    (item : x ∉ separators.item.toList)
    (key : x ∉ separators.key.toList) (keys : ∀ member ∈ members, x ∉ literal member.1)
    (each : ∀ member ∈ members, x ∉ chars separators member.2) :
    x ∉ memberChars separators members := by
  induction members with
  | nil => simp [memberChars]
  | cons first members ih =>
    obtain ⟨name, value⟩ := first
    obtain ⟨named, otherKeys⟩ := List.forall_mem_cons.mp keys
    obtain ⟨free, others⟩ := List.forall_mem_cons.mp each
    cases members with
    | nil => simp [memberChars, named, key, free]
    | cons second members =>
      rw [memberChars]
      · simp [named, key, free, item, ih otherKeys others]
      · simp

theorem Lacks.not_mem_chars (lacks : Lacks x value) (foreign : Foreign x)
    (item : x ∉ separators.item.toList) (key : x ∉ separators.key.toList) :
    x ∉ chars separators value := by
  have mark {c : Char} (known : c ∈ "[]\x7b\x7d+-.\\\"/".toList) : x ≠ c := foreign.ne_mark known
  induction lacks with
  | null =>
    have letters : "null".toList.all Char.isAlphanum = true := by decide
    exact foreign.not_mem_word letters
  | bool value =>
    have words : (if value then "true" else "false").toList.all Char.isAlphanum = true := by
      cases value <;> decide
    exact foreign.not_mem_word words
  | integer value => exact foreign.not_mem_toString value
  | number value => exact foreign.not_mem_render value
  | string absent => exact absent
  | array _ ih =>
    simp [chars, not_mem_itemChars item ih, mark (c := '[') (by decide), mark (c := ']') (by decide)]
  | object keys _ ih =>
    simp [chars, not_mem_memberChars item key keys ih, mark (c := '\x7b') (by decide),
      mark (c := '\x7d') (by decide)]

/-- A line break is never written as itself. -/
theorem Plain.lacks_return (plain : Plain value) : Lacks '\r' value := by
  have absent (text : String) : '\r' ∉ literal text :=
    Foreign.not_mem_literal (by decide) (.inl (by decide))
  induction plain with
  | null => exact .null
  | bool value => exact .bool value
  | integer _ => exact .integer _
  | string text => exact .string (absent text)
  | array _ ih => exact .array ih
  | object _ _ ih => exact .object (fun member _ => absent member.1) ih

end ChunkPlan.Json
