/-!
# Double precision numbers

Binary floating point numbers of 64 bits as exact data: a sign, a whole mantissa and a power of
two.  Every operation is exact arithmetic followed by one rounding to the nearest number, a tie
going to the even mantissa.
-/

set_option autoImplicit false

namespace ChunkPlan

/-- A double precision number.  `finite negative m e` is `±m · 2^e` with `m < 2^53` and
`-1074 ≤ e ≤ 971`, where `m` is at least `2^52` unless `e` is `-1074`. -/
inductive Binary64 where
  | nan
  | infinite (negative : Bool)
  | finite (negative : Bool) (mantissa : Nat) (exponent : Int)
  deriving DecidableEq, Repr, Inhabited

namespace Binary64

/-- The quotient rounded to the nearest whole number, a half to the even one. -/
def roundHalfEven (num den : Nat) : Nat :=
  let quotient := num / den
  let rest := num % den
  if 2 * rest < den || (2 * rest = den && quotient % 2 = 0) then quotient else quotient + 1

/-- The numerator and denominator of `num / den / 2^e`. -/
def shift (num den : Nat) (e : Int) : Nat × Nat :=
  if 0 ≤ e then (num, den * Nat.pow 2 e.toNat) else (num * Nat.pow 2 (-e).toNat, den)

def zero (negative : Bool) : Binary64 := .finite negative 0 (-1074)

/-- The number nearest to a fraction with a positive denominator. -/
def ofFraction (negative : Bool) (num den : Nat) : Binary64 :=
  if num = 0 then zero negative
  else
    let guess : Int := (num.log2 : Int) - den.log2
    let scaled := shift num den guess
    let magnitude := if scaled.2 ≤ scaled.1 then guess else guess - 1
    let exponent := max (magnitude - 52) (-1074)
    let scaled := shift num den exponent
    let mantissa := roundHalfEven scaled.1 scaled.2
    let carried := mantissa = Nat.pow 2 53
    let exponent := if carried then exponent + 1 else exponent
    let mantissa := if carried then Nat.pow 2 52 else mantissa
    if 971 < exponent then .infinite negative else .finite negative mantissa exponent

/-- The number nearest to `±digits · 10^exponent`.  Far beyond the range nothing is computed. -/
def ofDecimal (negative : Bool) (digits : Nat) (exponent : Int) : Binary64 :=
  let magnitude : Int := exponent + (Nat.toDigits 10 digits).length
  if digits = 0 then zero negative
  else if 400 < magnitude then .infinite negative
  else if magnitude < -400 then zero negative
  else if 0 ≤ exponent then ofFraction negative (digits * Nat.pow 10 exponent.toNat) 1
  else ofFraction negative digits (Nat.pow 10 (-exponent).toNat)

/-- The exact value as a numerator and a positive denominator, if it is finite. -/
def toFraction? : Binary64 → Option (Int × Nat)
  | .finite negative mantissa exponent =>
    let scaled := shift mantissa 1 (-exponent)
    some (if negative then -(scaled.1 : Int) else scaled.1, scaled.2)
  | _ => none

def ofSigned (num : Int) (den : Nat) : Binary64 := ofFraction (num < 0) num.natAbs den

def add (x y : Binary64) : Binary64 :=
  match x.toFraction?, y.toFraction? with
  | some (a, b), some (c, d) => ofSigned (a * d + c * b) (b * d)
  | _, _ => .nan

def mul (x y : Binary64) : Binary64 :=
  match x.toFraction?, y.toFraction? with
  | some (a, b), some (c, d) => ofSigned (a * c) (b * d)
  | _, _ => .nan

/-- The whole part of a finite number, towards zero. -/
def truncate (x : Binary64) : Int :=
  match x.toFraction? with
  | some (num, den) => num.tdiv den
  | none => 0

def equalsInt (x : Binary64) (i : Int) : Bool :=
  match x.toFraction? with
  | some (num, den) => num = i * den
  | none => false

def isZero : Binary64 → Bool
  | .finite _ mantissa _ => mantissa = 0
  | _ => false

end Binary64

end ChunkPlan
