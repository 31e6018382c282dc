/-!
# Rounding to double precision

Rational numbers are rounded to the nearest number with a significand of 53 binary digits and an
exponent of at least -1074, a tie going to the even significand. All steps are exact arithmetic on
natural numbers.

* `roundDiv` : a quotient of natural numbers, rounded to the nearest integer;
* `log2Floor` : the binary exponent of a positive quotient;
* `roundBinary64` : the rounding itself.
-/

namespace TreeMerge

/-- The integer nearest to `num / den`; of two equally near ones the even one. -/
def roundDiv (num den : Nat) : Nat :=
  let q := num / den
  let twice := 2 * (num % den)
  if twice < den then q else if den < twice then q + 1 else if q % 2 = 0 then q else q + 1

/-- The quotient `(num / den) / 2 ^ e` as a numerator and a denominator. -/
def scaleBy (num den : Nat) (e : Int) : Nat × Nat :=
  (num * Nat.pow 2 (-e).toNat, den * Nat.pow 2 e.toNat)

/-- The largest `e` with `2 ^ e ≤ num / den`, for positive `num` and `den`. -/
def log2Floor (num den : Nat) : Int :=
  let e : Int := num.log2 - den.log2
  let (n, d) := scaleBy num den e
  if d ≤ n then e else e - 1

/-- The number `m * 2 ^ e`. -/
def binaryRat (m : Nat) (e : Int) : Rat :=
  mkRat (m * Nat.pow 2 e.toNat : Nat) (Nat.pow 2 (-e).toNat)

/-- The magnitude `num / den` rounded to double precision. -/
def roundMagnitude (num den : Nat) : Rat :=
  let unit := max (log2Floor num den - 52) (-1074)
  let (n, d) := scaleBy num den unit
  binaryRat (roundDiv n d) unit

/-- A rational number rounded to double precision, without an upper limit on the exponent. -/
def roundBinary64 (q : Rat) : Rat :=
  if q.num = 0 then 0
  else if q.num < 0 then -roundMagnitude q.num.natAbs q.den
  else roundMagnitude q.num.natAbs q.den

end TreeMerge
