import ChunkPlan.Source.Lexeme
import Mathlib.Data.List.Chain
import Mathlib.Data.List.TakeWhile

/-!
# Character classes that do not overlap

No blank is part of a word or a number, and no digit is a letter, so the first character of a piece
of source tells what the piece is.
-/

set_option autoImplicit false

namespace ChunkPlan.CharClass

variable {c : Char} {left right : List (Nat × Nat)}

/-- Whether no range of one list meets a range of the other. -/
def Apart (left right : List (Nat × Nat)) : Prop :=
  ∀ a ∈ left, ∀ b ∈ right, a.2 < b.1 ∨ b.2 < a.1

/-- Walks two ascending lists side by side and compares the ranges that come next. -/
def isApart : (left right : List (Nat × Nat)) → Bool
  | [], _ => true
  | a :: left, right =>
    let rest := right.dropWhile fun b => Nat.blt b.2 a.1
    (rest.head?.all fun b => Nat.blt a.2 b.1) && isApart left rest

def isCovered (left right : List (Nat × Nat)) : Bool :=
  left.all fun a => right.any fun b => Nat.ble b.1 a.1 && Nat.ble a.2 b.2

theorem inRanges_iff : inRanges left c = true ↔ ∃ a ∈ left, a.1 ≤ c.toNat ∧ c.toNat ≤ a.2 := by
  simp [inRanges]

theorem Apart.not_inRanges (apart : Apart left right) (inside : inRanges left c = true) :
    inRanges right c = false := by
  obtain ⟨a, memberA, lowA, highA⟩ := inRanges_iff.mp inside
  refine Bool.eq_false_iff.mpr fun other => ?_
  obtain ⟨b, memberB, lowB, highB⟩ := inRanges_iff.mp other
  rcases apart a memberA b memberB with before | after <;> omega

theorem apart_of_isApart (ascending : left.Pairwise fun a b => a.1 ≤ b.1)
    (ordered : right.Pairwise fun a b => a.1 ≤ b.1) (walked : isApart left right = true) :
    Apart left right := by
  induction left generalizing right with
  | nil => exact fun _ member => nomatch member
  | cons a left ih =>
    obtain ⟨first, ascending⟩ := List.pairwise_cons.mp ascending
    simp only [isApart, Bool.and_eq_true] at walked
    obtain ⟨next, walked⟩ := walked
    -- The ranges passed by lie before this range and so before all later ones.
    have passed : ∀ b ∈ right.takeWhile (fun b => Nat.blt b.2 a.1), b.2 < a.1 := by
      intro b member
      have before := List.mem_takeWhile_imp (p := fun b : Nat × Nat => Nat.blt b.2 a.1) member
      exact Nat.blt_eq.mp before
    have split := List.takeWhile_append_dropWhile (p := fun b => Nat.blt b.2 a.1) (l := right)
    generalize right.takeWhile (fun b => Nat.blt b.2 a.1) = gone at split passed
    generalize right.dropWhile (fun b => Nat.blt b.2 a.1) = rest at split next walked
    obtain rfl := split
    have ordered := (List.pairwise_append.mp ordered).2.1
    have ahead : ∀ b ∈ rest, a.2 < b.1 := by
      cases rest with
      | nil => exact fun _ member => nomatch member
      | cons b rest =>
        have nearest : a.2 < b.1 := Nat.blt_eq.mp next
        intro d member
        rcases List.mem_cons.mp member with rfl | member
        · exact nearest
        · exact Nat.lt_of_lt_of_le nearest ((List.pairwise_cons.mp ordered).1 d member)
    intro d memberD b memberB
    rcases List.mem_append.mp memberB with before | after
    · refine .inr (Nat.lt_of_lt_of_le (passed b before) ?_)
      rcases List.mem_cons.mp memberD with rfl | later
      · exact Nat.le_refl _
      · exact first d later
    · rcases List.mem_cons.mp memberD with rfl | later
      · exact .inl (ahead b after)
      · exact ih ascending ordered walked d later b after

private theorem inRanges_of_isCovered (covered : isCovered left right = true)
    (inside : inRanges left c = true) : inRanges right c = true := by
  obtain ⟨a, memberA, lowA, highA⟩ := inRanges_iff.mp inside
  obtain ⟨b, memberB, within⟩ := List.any_eq_true.mp (List.all_eq_true.mp covered a memberA)
  rw [Bool.and_eq_true, Nat.ble_eq, Nat.ble_eq] at within
  exact inRanges_iff.mpr ⟨b, memberB, by omega, by omega⟩

theorem ascending_of_chain (chain : left.IsChain fun a b => a.1 ≤ b.1) :
    left.Pairwise fun a b => a.1 ≤ b.1 :=
  List.isChain_iff_pairwise.mp chain

theorem ascending_letters : CharRanges.letters.Pairwise fun a b => a.1 ≤ b.1 :=
  ascending_of_chain (by decide +kernel)

theorem ascending_blanks : CharRanges.blanks.Pairwise fun a b => a.1 ≤ b.1 :=
  ascending_of_chain (by decide +kernel)

private theorem apart_blanks_letters : Apart CharRanges.blanks CharRanges.letters :=
  apart_of_isApart ascending_blanks ascending_letters (by decide +kernel)

private theorem apart_blanks_numerals : Apart CharRanges.blanks CharRanges.numerals :=
  apart_of_isApart ascending_blanks (ascending_of_chain (by decide +kernel)) (by decide +kernel)

private theorem apart_digits_letters : Apart CharRanges.digits CharRanges.letters :=
  apart_of_isApart (ascending_of_chain (by decide +kernel)) ascending_letters (by decide +kernel)

private theorem isCovered_digits_numerals :
    isCovered CharRanges.digits CharRanges.numerals = true := by
  decide +kernel

/-- A property of the ASCII characters can be checked one by one. -/
theorem ascii_cases {motive : Char → Prop} (each : ∀ n < 128, motive (Char.ofNat n))
    (small : c.toNat < 128) : motive c := by
  have same := each c.toNat small
  rwa [Char.ofNat_toNat] at same

private theorem isAlphanumeric_of_isLetter (letter : isLetter c = true) :
    isAlphanumeric c = true := by
  unfold isLetter at letter
  unfold isAlphanumeric
  split at letter
  · next small =>
    rw [if_pos small, Char.isAlphanum, letter, Bool.true_or]
  · next large => rw [if_neg large, letter, Bool.true_or]

theorem isAlphanumeric_of_isDigit (digit : isDigit c = true) : isAlphanumeric c = true := by
  unfold isDigit at digit
  unfold isAlphanumeric
  split at digit
  · next small =>
    rw [if_pos small, Char.isAlphanum, digit, Bool.or_true]
  · next large =>
    rw [if_neg large, inRanges_of_isCovered isCovered_digits_numerals digit, Bool.or_true]

theorem isLetter_eq_false_of_isDigit (digit : isDigit c = true) : isLetter c = false := by
  by_cases small : c.toNat < 128
  · exact ascii_cases (motive := fun c => isDigit c = true → isLetter c = false)
      (by decide +kernel) small digit
  · rw [isDigit, if_neg small] at digit
    rw [isLetter, if_neg small]
    exact apart_digits_letters.not_inRanges digit

theorem isAlphanumeric_eq_false_of_isBlank (blank : isBlank c = true) : isAlphanumeric c = false := by
  by_cases small : c.toNat < 128
  · exact ascii_cases (motive := fun c => isBlank c = true → isAlphanumeric c = false)
      (by decide +kernel) small blank
  · rw [isBlank, if_neg small] at blank
    rw [isAlphanumeric, if_neg small, apart_blanks_letters.not_inRanges blank,
      apart_blanks_numerals.not_inRanges blank]
    rfl

theorem isLetter_and_isDigit_of_isBlank (blank : isBlank c = true) :
    isLetter c = false ∧ isDigit c = false := by
  have apart {part : Bool} (within : part = true → isAlphanumeric c = true) : part = false :=
    Bool.eq_false_iff.mpr fun holds => by
      rw [isAlphanumeric_eq_false_of_isBlank blank] at within
      cases within holds
  exact ⟨apart isAlphanumeric_of_isLetter, apart isAlphanumeric_of_isDigit⟩

end ChunkPlan.CharClass
