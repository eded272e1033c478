import ChunkPlan.Number.Binary64

/-!
# Shortest decimal text

The text of a double precision number: the fewest decimal digits that read back as the same number
and, of those, the ones nearest to it.
-/

set_option autoImplicit false

namespace ChunkPlan.Binary64

/-- A positive decimal `digits · 10^exponent`. -/
structure Decimal where
  digits : Nat
  exponent : Int
  deriving DecidableEq, Repr, Inhabited

/-- The positive reals that round to one number, as fractions over a common denominator: both ends
and the number itself.  The ends belong to it when `closed` holds. -/
structure Rounding where
  low : Nat
  value : Nat
  high : Nat
  den : Nat
  closed : Bool
  deriving Repr, Inhabited

/-- The reals that round to `mantissa · 2^exponent`.  Below a power of two the neighbour is only
half as far away. -/
def Rounding.of (mantissa : Nat) (exponent : Int) : Rounding :=
  let narrow := mantissa = Nat.pow 2 52 && -1074 < exponent
  let scaled := shift 1 4 (-exponent)
  { low := (4 * mantissa - if narrow then 1 else 2) * scaled.1
    value := 4 * mantissa * scaled.1
    high := (4 * mantissa + 2) * scaled.1
    den := scaled.2
    closed := mantissa % 2 = 0 }

/-- The two sides to compare when `count · 10^exponent` is set against `num / den`. -/
def sides (count : Nat) (exponent : Int) (num den : Nat) : Nat × Nat :=
  if 0 ≤ exponent then (count * Nat.pow 10 exponent.toNat * den, num)
  else (count * den, num * Nat.pow 10 (-exponent).toNat)

/-- Whether `count · 10^exponent` rounds to the number. -/
def Rounding.holds (r : Rounding) (count : Nat) (exponent : Int) : Bool :=
  let low := sides count exponent r.low r.den
  let high := sides count exponent r.high r.den
  if r.closed then low.2 ≤ low.1 && high.1 ≤ high.2 else low.2 < low.1 && high.1 < high.2

/-- The nearest multiple of `10^exponent` that rounds to the number, if there is one.  Only the
multiples next to the number can be it. -/
def Rounding.onGrid? (r : Rounding) (exponent : Int) : Option Decimal :=
  let unit := sides 1 exponent r.value r.den
  let below := unit.2 / unit.1
  let rest := unit.2 % unit.1
  let belowNearer := 2 * rest < unit.1 || (2 * rest = unit.1 && below % 2 = 0)
  let first := if belowNearer then below else below + 1
  let second := if belowNearer then below + 1 else below
  if r.holds first exponent then some ⟨first, exponent⟩
  else if r.holds second exponent then some ⟨second, exponent⟩
  else none

def Rounding.pointPosition (r : Rounding) (magnitude : Int) : Int :=
  let guess := (magnitude * 30103).fdiv 100000 + 1
  let power := sides 1 guess r.value r.den
  if power.1 ≤ power.2 then guess + 1 else guess

/-- The shortest decimal that reads back as `mantissa · 2^exponent`, for a mantissa above zero.
Seventeen digits are always enough. -/
def shortest (mantissa : Nat) (exponent : Int) : Decimal :=
  let r := Rounding.of mantissa exponent
  let point := r.pointPosition (mantissa.log2 + exponent)
  ((List.range 17).findSome? fun (n : Nat) => r.onGrid? (point - 1 - n)).getD ⟨mantissa, 0⟩

/-- How the texts of numbers differ between formats: the words for what is not finite. -/
structure Words where
  nan : String
  infinity : String
  deriving Repr, Inhabited

def Words.plain : Words := ⟨"nan", "inf"⟩

def Words.json : Words := ⟨"NaN", "Infinity"⟩

/-- The layout of a decimal: positional from `10^-4` up to below `10^16`, always with a digit on
both sides of the point; beyond that with an exponent of a sign and at least two digits. -/
def Decimal.layout (d : Decimal) : String :=
  let all := (Nat.toDigits 10 d.digits).reverse
  let zeros := (all.takeWhile (· = '0')).length
  let digits := (all.dropWhile (· = '0')).reverse
  let point : Int := d.exponent + zeros + digits.length
  if -4 < point && point ≤ 16 then
    let text :=
      if point ≤ 0 then '0' :: '.' :: (List.replicate (-point).toNat '0' ++ digits)
      else if digits.length ≤ point.toNat then
        digits ++ List.replicate (point.toNat - digits.length) '0' ++ ['.', '0']
      else digits.take point.toNat ++ '.' :: digits.drop point.toNat
    String.ofList text
  else
    let fraction := digits.drop 1
    let power := point - 1
    let powerDigits := Nat.toDigits 10 power.natAbs
    let sign := if power < 0 then '-' else '+'
    String.ofList <|
      digits.take 1 ++ (if fraction.isEmpty then [] else '.' :: fraction) ++ ['e', sign]
        ++ List.replicate (2 - powerDigits.length) '0' ++ powerDigits

def render (words : Words) : Binary64 → String
  | .nan => words.nan
  | .infinite negative => (if negative then "-" else "") ++ words.infinity
  | .finite negative mantissa exponent =>
    (if negative then "-" else "") ++
      if mantissa = 0 then "0.0" else (shortest mantissa exponent).layout

end ChunkPlan.Binary64
