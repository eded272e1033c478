import ChunkPlan.Number.Binary64
import Mathlib.Algebra.Group.Nat.Defs

/-!
# The size of double precision numbers

Whatever is rounded, the whole part of the result is bounded.  How near it is to what was rounded
does not matter here.
-/

set_option autoImplicit false

namespace ChunkPlan.Binary64

variable {num den : Nat} {exponent : Int} {negative : Bool}

private theorem roundHalfEven_le (num den : Nat) : roundHalfEven num den ≤ num / den + 1 := by
  simp only [roundHalfEven]
  split <;> omega

/-- Scaling by nearly the quotient leaves at most 54 binary digits before the point. -/
theorem shift_lt (denominator : den ≠ 0)
    (near : (num.log2 : Int) - den.log2 - 53 ≤ exponent) :
    (shift num den exponent).1 < (shift num den exponent).2 * 2 ^ 54 := by
  have above : num < 2 ^ (num.log2 + 1) := Nat.lt_log2_self
  have below : 2 ^ den.log2 ≤ den := Nat.log2_self_le denominator
  unfold shift
  split
  · next nonnegative =>
    have digits : num.log2 + 1 ≤ den.log2 + exponent.toNat + 54 := by omega
    calc num < 2 ^ (num.log2 + 1) := above
      _ ≤ 2 ^ (den.log2 + exponent.toNat + 54) := Nat.pow_le_pow_right (by decide) digits
      _ = 2 ^ den.log2 * 2 ^ exponent.toNat * 2 ^ 54 := by rw [Nat.pow_add, Nat.pow_add]
      _ ≤ den * 2 ^ exponent.toNat * 2 ^ 54 :=
        Nat.mul_le_mul_right _ (Nat.mul_le_mul_right _ below)
  · next small =>
    have digits : num.log2 + 1 + (-exponent).toNat ≤ den.log2 + 54 := by omega
    calc num * 2 ^ (-exponent).toNat < 2 ^ (num.log2 + 1) * 2 ^ (-exponent).toNat :=
          Nat.mul_lt_mul_of_pos_right above (Nat.pow_pos (by decide))
      _ = 2 ^ (num.log2 + 1 + (-exponent).toNat) := (Nat.pow_add ..).symm
      _ ≤ 2 ^ (den.log2 + 54) := Nat.pow_le_pow_right (by decide) digits
      _ = 2 ^ den.log2 * 2 ^ 54 := by rw [Nat.pow_add]
      _ ≤ den * 2 ^ 54 := Nat.mul_le_mul_right _ below

/-- Numbers with bounds on both parts, the lower of which are no matter. -/
def Bounded (x : Binary64) : Prop :=
  ∀ negative mantissa exponent, x = .finite negative mantissa exponent →
    mantissa ≤ 2 ^ 54 ∧ exponent ≤ 971

private theorem roundHalfEven_shift_le (denominator : den ≠ 0)
    (near : (num.log2 : Int) - den.log2 - 53 ≤ exponent) :
    roundHalfEven (shift num den exponent).1 (shift num den exponent).2 ≤ 2 ^ 54 := by
  have quotient := Nat.div_lt_of_lt_mul (shift_lt denominator near)
  exact Nat.le_trans (roundHalfEven_le _ _) quotient

private theorem bounded_ofFraction (denominator : den ≠ 0) :
    (ofFraction negative num den).Bounded := by
  intro sign mantissa exponent same
  by_cases numerator : num = 0
  · rw [ofFraction, if_pos numerator] at same
    cases same
    exact ⟨by decide, by decide⟩
  · have near (scaled : Nat × Nat) : (num.log2 : Int) - den.log2 - 53 ≤
        max ((if scaled.2 ≤ scaled.1 then (num.log2 : Int) - den.log2
          else (num.log2 : Int) - den.log2 - 1) - 52) (-1074) := by
      split <;> omega
    rw [ofFraction, if_neg numerator] at same
    simp only at same
    have near := near (shift num den ((num.log2 : Int) - den.log2))
    generalize max ((if (shift num den ((num.log2 : Int) - den.log2)).2 ≤
      (shift num den ((num.log2 : Int) - den.log2)).1 then (num.log2 : Int) - den.log2
        else (num.log2 : Int) - den.log2 - 1) - 52) (-1074) = scale at same near
    have rounded := roundHalfEven_shift_le denominator near
    split at same
    · split at same
      · cases same
      · next small =>
        cases same
        exact ⟨by decide, by omega⟩
    · split at same
      · cases same
      · next small =>
        cases same
        exact ⟨rounded, by omega⟩

/-- The whole part of a number has at most 1025 binary digits. -/
theorem natAbs_truncate_le {x : Binary64} (bounded : x.Bounded) :
    x.truncate.natAbs ≤ 2 ^ 54 * 2 ^ 971 := by
  cases x with
  | nan => exact Nat.zero_le _
  | infinite negative => exact Nat.zero_le _
  | finite negative mantissa exponent =>
    obtain ⟨small, low⟩ := bounded negative mantissa exponent rfl
    have whole : (shift mantissa 1 (-exponent)).1 ≤ 2 ^ 54 * 2 ^ 971 := by
      unfold shift
      split
      · have widen (scale : Nat) : mantissa ≤ 2 ^ 54 * 2 ^ scale :=
          Nat.le_trans small (Nat.le_mul_of_pos_right _ (Nat.two_pow_pos scale))
        exact widen 971
      · have widen (scale : Nat) (power : (- -exponent).toNat ≤ scale) :
            mantissa * 2 ^ (- -exponent).toNat ≤ 2 ^ 54 * 2 ^ scale :=
          Nat.mul_le_mul small (Nat.pow_le_pow_right Nat.two_pos power)
        exact widen 971 (by omega)
    have part (signed : Int) (den : Nat) : (signed.tdiv den).natAbs ≤ signed.natAbs := by
      rw [Int.natAbs_tdiv]
      exact Nat.div_le_self _ _
    refine Nat.le_trans (part _ _) ?_
    cases negative with
    | true => rwa [if_pos rfl, Int.natAbs_neg, Int.natAbs_natCast]
    | false => rwa [if_neg Bool.false_ne_true, Int.natAbs_natCast]

theorem denominator_ne_zero {x : Binary64} {num : Int} {den : Nat}
    (same : x.toFraction? = some (num, den)) : den ≠ 0 := by
  cases x with
  | nan => cases same
  | infinite negative => cases same
  | finite negative mantissa exponent =>
    cases same
    unfold shift
    split
    · exact Nat.mul_ne_zero Nat.one_ne_zero (Nat.ne_of_gt (Nat.two_pow_pos _))
    · exact Nat.one_ne_zero

theorem bounded_mul (x y : Binary64) : (mul x y).Bounded := by
  unfold mul
  split
  · next left right =>
    exact bounded_ofFraction
      (Nat.mul_ne_zero (denominator_ne_zero left) (denominator_ne_zero right))
  · intro _ _ _ same
    cases same

end ChunkPlan.Binary64
