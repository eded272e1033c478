import ChunkPlan.Json.Printer
import ChunkPlan.Json.Token
import Mathlib.Algebra.Group.Nat.Defs

/-!
# Strings and whole numbers in JSON texts

Every string that is written can be read back: each character comes back from its escape, whether it
is written as itself, with a letter, or with one or two groups of digits.  A whole number can be read
back unless it has too many digits to be read at all.
-/

set_option autoImplicit false

namespace ChunkPlan.Json

variable {c : Char} {rest : List Char} {value : Json}

/-! ## Digits -/

private theorem hexValue?_hexDigit {digit : Nat} (small : digit < 16) :
    Token.hexValue? (Text.hexDigit digit) = some digit := by
  have all : ∀ digit : Fin 16, Token.hexValue? (Text.hexDigit digit) = some digit.val := by decide
  exact all ⟨digit, small⟩

theorem hexDigits_four (code : Nat) :
    Text.hexDigits 4 code = [Text.hexDigit (code / 16 / 16 / 16 % 16),
      Text.hexDigit (code / 16 / 16 % 16), Text.hexDigit (code / 16 % 16),
      Text.hexDigit (code % 16)] := rfl

private theorem codes?_unicodeEscape {code : Nat} (small : code < 0x10000) :
    Token.codes? (unicodeEscape code ++ rest) = (Token.codes? rest).map (code :: ·) := by
  have digit (n : Nat) : Token.hexValue? (Text.hexDigit (n % 16)) = some (n % 16) :=
    hexValue?_hexDigit (Nat.mod_lt n (by decide))
  have whole : (code / 16 / 16 / 16 % 16 * 16 + code / 16 / 16 % 16) * 256 + code / 16 % 16 * 16 +
      code % 16 = code := by omega
  rw [unicodeEscape, hexDigits_four]
  simp only [List.cons_append, List.nil_append, Token.codes?, digit, Option.bind_eq_bind,
    Option.bind_some, whole]
  cases Token.codes? rest <;> rfl

/-! ## Characters -/

/-- The codes that a character is written with: two halves above `FFFF`. -/
def halves (c : Char) : List Nat :=
  if c.toNat ≤ 0xFFFF then [c.toNat]
  else [0xD800 + (c.toNat - 0x10000) / 0x400, 0xDC00 + (c.toNat - 0x10000) % 0x400]

theorem toNat_lt (c : Char) : c.toNat < 0xD800 ∨ 0xDFFF < c.toNat ∧ c.toNat < 0x110000 :=
  c.valid

/-- A character is written with a letter, as itself, or by the digits of its codes. -/
theorem escapedChar_cases (c : Char) :
    (∃ letter, escapedChar c = ['\\', letter] ∧ Token.simpleEscape? letter = some c ∧
        letter ≠ 'u' ∧ 32 ≤ letter.toNat ∧ letter.toNat ≤ 126) ∨
      (escapedChar c = [c] ∧ c ≠ '"' ∧ c ≠ '\\' ∧ 32 ≤ c.toNat ∧ c.toNat ≤ 126) ∨
      (escapedChar c = (halves c).flatMap unicodeEscape ∧ ∀ code ∈ halves c, code < 0x10000) := by
  have range := toNat_lt c
  unfold escapedChar halves
  split
  · next special =>
    rcases (by simpa using special : c = '"' ∨ c = '\\') with rfl | rfl
    · exact .inl ⟨_, rfl, by decide⟩
    · exact .inl ⟨_, rfl, by decide⟩
  split
  · next feed => exact .inl ⟨_, rfl, by subst feed; decide⟩
  split
  · next feed => exact .inl ⟨_, rfl, by subst feed; decide⟩
  split
  · next feed => exact .inl ⟨_, rfl, by subst feed; decide⟩
  split
  · next feed => exact .inl ⟨_, rfl, by subst feed; decide⟩
  split
  · next feed => exact .inl ⟨_, rfl, by subst feed; decide⟩
  split
  · next special _ _ _ _ _ printed =>
    simp only [Bool.or_eq_true, Bool.and_eq_true, decide_eq_true_eq, not_or] at special printed
    exact .inr (.inl ⟨rfl, special.1, special.2, printed.1, printed.2⟩)
  split
  · next small =>
    refine .inr (.inr ⟨by simp, fun code member => ?_⟩)
    rw [List.mem_singleton.mp member]
    omega
  · next large =>
    refine .inr (.inr ⟨by simp, fun code member => ?_⟩)
    simp only [List.mem_cons, List.not_mem_nil, or_false] at member
    omega

private theorem halves_of_small (small : c.toNat ≤ 126) : halves c = [c.toNat] :=
  if_pos (by omega)

private theorem codes?_plain (plain : c ≠ '\\') :
    Token.codes? (c :: rest) = (Token.codes? rest).map (c.toNat :: ·) := by
  rw [Token.codes?.eq_def]
  split <;> simp_all

private theorem codes?_letter {letter : Char} (escapes : Token.simpleEscape? letter = some c)
    (apart : letter ≠ 'u') :
    Token.codes? ('\\' :: letter :: rest) = (Token.codes? rest).map (c.toNat :: ·) := by
  rw [Token.codes?]
  · rw [escapes]
    exact (Option.map_eq_bind ..).symm
  · intro _ _ _ _ _ digits
    exact absurd digits apart

private theorem codes?_unicodeEscapes {codes : List Nat} (small : ∀ code ∈ codes, code < 0x10000) :
    Token.codes? (codes.flatMap unicodeEscape ++ rest) = (Token.codes? rest).map (codes ++ ·) := by
  induction codes with
  | nil => simp
  | cons code codes ih =>
    obtain ⟨first, others⟩ := List.forall_mem_cons.mp small
    rw [List.flatMap_cons, List.append_assoc, codes?_unicodeEscape first, ih others, Option.map_map]
    rfl

private theorem codes?_escapedChar :
    Token.codes? (escapedChar c ++ rest) = (Token.codes? rest).map (halves c ++ ·) := by
  rcases escapedChar_cases c with ⟨letter, written, escapes, apart, _⟩ |
    ⟨written, _, plain, _, small⟩ | ⟨written, small⟩
  · have small : c.toNat ≤ 126 := by
      unfold Token.simpleEscape? at escapes
      split at escapes <;> cases escapes <;> decide
    rw [written, halves_of_small small]
    exact codes?_letter escapes apart
  · rw [written, halves_of_small small]
    exact codes?_plain plain
  · rw [written]
    exact codes?_unicodeEscapes small

private theorem joinHalves_halves {codes : List Nat} :
    Token.joinHalves none (halves c ++ codes) = c :: Token.joinHalves none codes := by
  have range := toNat_lt c
  unfold halves
  split
  · next small =>
    have notHigh : Token.isHighHalf c.toNat = false := by simp [Token.isHighHalf]; omega
    have notLow : Token.isLowHalf c.toNat = false := by simp [Token.isLowHalf]; omega
    simp [Token.joinHalves, notHigh, notLow]
  · next large =>
    have isHigh : Token.isHighHalf (0xD800 + (c.toNat - 0x10000) / 0x400) = true := by
      simp [Token.isHighHalf]; omega
    have isLow : Token.isLowHalf (0xDC00 + (c.toNat - 0x10000) % 0x400) = true := by
      simp [Token.isLowHalf]; omega
    have whole : 0x10000 + (0xD800 + (c.toNat - 0x10000) / 0x400 - 0xD800) * 0x400 +
        (0xDC00 + (c.toNat - 0x10000) % 0x400 - 0xDC00) = c.toNat := by omega
    simp only [List.cons_append, List.nil_append, Token.joinHalves, isHigh, isLow, if_true, whole,
      Char.ofNat_toNat]

theorem body?_plain (quote : c ≠ '"') (backslash : c ≠ '\\') (printed : 32 ≤ c.toNat) :
    Token.body? (c :: rest) = (Token.body? rest).map fun (body, rest) => (c :: body, rest) := by
  rw [Token.body?]
  · rw [if_neg (Nat.not_lt.mpr printed)]
  · exact quote
  · exact fun _ _ same => absurd same backslash

private theorem body?_unicodeEscape (code : Nat) :
    Token.body? (unicodeEscape code ++ rest) =
      (Token.body? rest).map fun (body, rest) => (unicodeEscape code ++ body, rest) := by
  have digit (n : Nat) (rest : List Char) : Token.body? (Text.hexDigit (n % 16) :: rest) =
      (Token.body? rest).map fun (body, rest) => (Text.hexDigit (n % 16) :: body, rest) := by
    have all : ∀ digit : Fin 16, Text.hexDigit digit ≠ '"' ∧ Text.hexDigit digit ≠ '\\' ∧
        32 ≤ (Text.hexDigit digit).toNat := by decide
    obtain ⟨quote, backslash, printed⟩ := all ⟨n % 16, Nat.mod_lt n (by decide)⟩
    exact body?_plain quote backslash printed
  rw [unicodeEscape, hexDigits_four]
  simp only [List.cons_append, List.nil_append, Token.body?, digit, Option.map_map]
  rfl

private theorem body?_unicodeEscapes (codes : List Nat) :
    Token.body? (codes.flatMap unicodeEscape ++ rest) =
      (Token.body? rest).map fun (body, rest) => (codes.flatMap unicodeEscape ++ body, rest) := by
  induction codes with
  | nil => simp
  | cons code codes ih =>
    rw [List.flatMap_cons, List.append_assoc, body?_unicodeEscape, ih, Option.map_map]
    simp [Function.comp_def]

private theorem body?_escapedChar :
    Token.body? (escapedChar c ++ rest) =
      (Token.body? rest).map fun (body, rest) => (escapedChar c ++ body, rest) := by
  rcases escapedChar_cases c with ⟨letter, written, _⟩ | ⟨written, quote, backslash, printed, _⟩ |
    ⟨written, _⟩
  · rw [written]
    rfl
  · rw [written]
    exact body?_plain quote backslash printed
  · rw [written]
    exact body?_unicodeEscapes _

/-! ## Literals -/

private theorem body?_escaped (text : List Char) :
    Token.body? (text.flatMap escapedChar ++ '"' :: rest) =
      some (text.flatMap escapedChar, rest) := by
  induction text with
  | nil => rfl
  | cons c text ih => simp [List.flatMap_cons, List.append_assoc, body?_escapedChar, ih]

private theorem codes?_escaped (text : List Char) :
    Token.codes? (text.flatMap escapedChar) = some (text.flatMap halves) := by
  induction text with
  | nil => rfl
  | cons c text ih => simp [List.flatMap_cons, codes?_escapedChar, ih]

private theorem joinHalves_flatMap (text : List Char) :
    Token.joinHalves none (text.flatMap halves) = text := by
  induction text with
  | nil => rfl
  | cons c text ih => rw [List.flatMap_cons, joinHalves_halves, ih]

/-- A literal is read back as the string that it was written for. -/
theorem next?_literal (s : String) :
    Token.next? (literal s ++ rest) = some (.scalar (.string s), rest) := by
  simp [literal, Token.next?, body?_escaped, codes?_escaped, joinHalves_flatMap]

/-! ## Whole numbers -/

/-- Whether a number ends before a text: the text does not go on with a digit, a point or an
exponent. -/
def Stops (text : List Char) : Prop :=
  ∀ c, text.head? = some c → c.isDigit = false ∧ c ≠ '.' ∧ c ≠ 'e' ∧ c ≠ 'E'

theorem stops_cons (digit : c.isDigit = false) (others : c ≠ '.' ∧ c ≠ 'e' ∧ c ≠ 'E') :
    Stops (c :: rest) := by
  intro first same
  cases same
  exact ⟨digit, others⟩

private theorem takeFraction_of_stops (stops : Stops rest) :
    Token.takeFraction rest = ([], rest) := by
  unfold Token.takeFraction
  split
  · next others => exact absurd rfl (stops '.' rfl).2.1
  · rfl

private theorem takeExponent_of_stops (stops : Stops rest) :
    Token.takeExponent rest = (none, rest) := by
  cases rest with
  | nil => rfl
  | cons c rest =>
    obtain ⟨_, _, lower, upper⟩ := stops c rfl
    simp [Token.takeExponent, lower, upper]

private theorem digits_before {digits : List Char} (all : ∀ c ∈ digits, c.isDigit = true)
    (stops : Stops rest) :
    (digits ++ rest).takeWhile Char.isDigit = digits ∧
      (digits ++ rest).dropWhile Char.isDigit = rest := by
  rw [List.takeWhile_append_of_pos all, List.dropWhile_append_of_pos all]
  cases rest with
  | nil => simp
  | cons c rest => simp [(stops c rfl).1]

private theorem natural_toDigits (n : Nat) : Numeral.natural (Nat.toDigits 10 n) = n := by
  have same : Numeral.natural (Nat.toDigits 10 n) = Nat.ofDigitChars 10 (Nat.toDigits 10 n) 0 := by
    simp only [Numeral.natural, Nat.ofDigitChars_eq_foldl, Nat.mul_comm]
  rw [same, Nat.ofDigitChars_ten_toDigits]

/-- Only zero is written with a leading zero. -/
theorem head?_toDigits {n : Nat} (positive : 0 < n) : (Nat.toDigits 10 n).head? ≠ some '0' := by
  induction n using Nat.strongRecOn with
  | ind n ih =>
    rw [Nat.toDigits_eq_if (by decide)]
    split
    · next small =>
      have all : ∀ digit : Fin 10, 0 < digit.val → [Nat.digitChar digit].head? ≠ some '0' := by decide
      exact all ⟨n, small⟩ positive
    · next large =>
      have earlier := ih (n / 10) (by omega) (by omega)
      rw [List.head?_append]
      cases first : (Nat.toDigits 10 (n / 10)).head? with
      | none => exact absurd (List.head?_eq_none_iff.mp first) Nat.toDigits_ne_nil
      | some digit => simpa [first] using earlier

theorem number?_toDigits {n : Nat} (negative : Bool) (short : n < 10 ^ Numeral.maxDigits)
    (stops : Stops rest) :
    Token.number? negative (Nat.toDigits 10 n ++ rest) =
      some (.integer (if negative then -(n : Int) else n), rest) := by
  have all : ∀ c ∈ Nat.toDigits 10 n, c.isDigit = true := fun c member =>
    Nat.isDigit_of_mem_toDigits (by decide) (by decide) member
  have readable : Numeral.signed? negative (Nat.toDigits 10 n) =
      some (if negative then -(n : Int) else n) := by
    have length : (Nat.toDigits 10 n).length ≤ Numeral.maxDigits :=
      (Nat.length_toDigits_le_iff (by decide) (by decide)).mpr short
    rw [Numeral.signed?, if_neg (by omega), natural_toDigits]
  cases digits : Nat.toDigits 10 n with
  | nil => exact absurd digits Nat.toDigits_ne_nil
  | cons first others =>
    rw [digits] at all readable
    obtain ⟨digit, othersDigits⟩ := List.forall_mem_cons.mp all
    have alone (zero : first = '0') : others = [] := by
      by_cases positive : 0 < n
      · exact absurd (by rw [digits, zero]; rfl) (head?_toDigits positive)
      · obtain rfl : n = 0 := by omega
        rw [Nat.toDigits_zero] at digits
        exact (List.cons.inj digits).2.symm
    rw [List.cons_append, Token.number?, if_pos digit]
    by_cases zero : first = '0'
    · obtain rfl := alone zero
      subst zero
      simp [takeFraction_of_stops stops, takeExponent_of_stops stops, Token.numeral?, readable]
    · obtain ⟨taken, left⟩ := digits_before othersDigits stops
      simp [zero, taken, left, takeFraction_of_stops stops, takeExponent_of_stops stops,
        Token.numeral?, readable]

private theorem word?_digit (digit : c.isDigit = true) : Token.word? (c :: rest) = none := by
  have apart (letter : Char) (other : letter.isDigit = false) : letter ≠ c := by
    intro same
    rw [← same, other] at digit
    cases digit
  simp [Token.word?, Token.words, apart 'n' rfl, apart 't' rfl, apart 'f' rfl, apart 'N' rfl,
    apart 'I' rfl, apart '-' rfl]

private theorem word?_minus_digit (digit : c.isDigit = true) :
    Token.word? ('-' :: c :: rest) = none := by
  have apart : 'I' ≠ c := by
    intro same
    rw [← same] at digit
    cases digit
  simp [Token.word?, Token.words, apart]

theorem next?_plain {after : List Char}
    (scalar : Token.plainScalar? (c :: rest) = some (value, after))
    (plain : c ∉ ['[', ']', '\x7b', '\x7d', ',', ':', '"']) :
    Token.next? (c :: rest) = some (.scalar value, after) := by
  simp only [List.mem_cons, List.not_mem_nil, or_false, not_or] at plain
  obtain ⟨a1, a2, a3, a4, a5, a6, a7⟩ := plain
  rw [Token.next?]
  · rw [scalar]
    rfl
  all_goals intros; simp_all

theorem exists_toDigits (n : Nat) :
    ∃ c digits, Nat.toDigits 10 n = c :: digits ∧ c.isDigit = true := by
  cases written : Nat.toDigits 10 n with
  | nil => exact absurd written Nat.toDigits_ne_nil
  | cons c digits =>
    have member : c ∈ Nat.toDigits 10 n := by simp [written]
    exact ⟨c, digits, rfl, Nat.isDigit_of_mem_toDigits (by decide) (by decide) member⟩

private theorem next?_toDigits {n : Nat} (short : n < 10 ^ Numeral.maxDigits) (stops : Stops rest) :
    Token.next? (Nat.toDigits 10 n ++ rest) = some (.scalar (.integer n), rest) := by
  have read := number?_toDigits false short stops
  obtain ⟨c, digits, written, digit⟩ := exists_toDigits n
  rw [written, List.cons_append] at read ⊢
  have plain : c ∉ ['[', ']', '\x7b', '\x7d', ',', ':', '"'] := by
    intro member
    simp only [List.mem_cons, List.not_mem_nil, or_false] at member
    rcases member with rfl | rfl | rfl | rfl | rfl | rfl | rfl <;> cases digit
  have minus : c ≠ '-' := by
    intro same
    rw [same] at digit
    cases digit
  refine next?_plain ?_ plain
  rw [Token.plainScalar?, word?_digit digit]
  · exact read
  · intro others same
    exact absurd (List.cons.inj same).1 minus

private theorem next?_minus {n : Nat} (short : n < 10 ^ Numeral.maxDigits) (stops : Stops rest) :
    Token.next? ('-' :: (Nat.toDigits 10 n ++ rest)) = some (.scalar (.integer (-n)), rest) := by
  have read := number?_toDigits true short stops
  obtain ⟨c, digits, written, digit⟩ := exists_toDigits n
  rw [written, List.cons_append] at read ⊢
  refine next?_plain ?_ (by decide)
  rw [Token.plainScalar?, word?_minus_digit digit]
  exact read

/-- A whole number is read back as one token. -/
theorem next?_integer {value : Int} (short : value.natAbs < 10 ^ Numeral.maxDigits)
    (stops : Stops rest) :
    Token.next? ((toString value).toList ++ rest) = some (.scalar (.integer value), rest) := by
  rw [Int.toString_eq_repr, Int.repr_eq_if]
  split
  · next nonnegative =>
    have same : (value.toNat : Int) = value := Int.toNat_of_nonneg nonnegative
    have shortNat : value.toNat < 10 ^ Numeral.maxDigits := by
      rwa [← Int.natAbs_natCast value.toNat, same]
    rw [Nat.toList_repr, next?_toDigits shortNat stops, same]
  · next negative =>
    have same : ((-value).toNat : Int) = -value := Int.toNat_of_nonneg (by omega)
    have shortNat : (-value).toNat < 10 ^ Numeral.maxDigits := by
      rwa [← Int.natAbs_natCast (-value).toNat, same, Int.natAbs_neg]
    have written : ("-" ++ (-value).toNat.repr).toList = '-' :: Nat.toDigits 10 (-value).toNat := by
      simp
    rw [written, List.cons_append, next?_minus shortNat stops, same, Int.neg_neg]

/-- No blank stands before a whole number. -/
theorem exists_toString (value : Int) :
    ∃ c word, (toString value).toList = c :: word ∧ Token.isGap c = false := by
  rw [Int.toString_eq_repr, Int.repr_eq_if]
  split
  · obtain ⟨c, digits, written, digit⟩ := exists_toDigits value.toNat
    refine ⟨c, digits, by rw [Nat.toList_repr, written], Bool.eq_false_iff.mpr fun gap => ?_⟩
    simp only [Token.isGap, Bool.or_eq_true, decide_eq_true_eq] at gap
    rcases gap with ((rfl | rfl) | rfl) | rfl <;> cases digit
  · exact ⟨'-', Nat.toDigits 10 (-value).toNat, by simp, rfl⟩

end ChunkPlan.Json
