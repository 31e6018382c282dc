import TreeMerge.Number.Binary64

/-!
# Numbers of a document

A number read from a document has double precision: it is a rational number, or infinite when the
written magnitude is too large.

* `Number` : the type;
* `Number.ofRat`, `Number.ofDecimal` : rounding a rational number or a decimal;
* `Number.lt`, `Number.floor?`, `Number.isInteger` : comparison and integer part.
-/

namespace TreeMerge

/-- A number of double precision. -/
inductive Number where
  | finite (value : Rat)
  | infinite (negative : Bool)
  deriving DecidableEq, Inhabited

namespace Number

/-- A natural number, taken as it is. -/
def ofNat (n : Nat) : Number :=
  .finite n

/-- A rational number, rounded to double precision; from `2 ^ 1024` on it is infinite. -/
def ofRat (q : Rat) : Number :=
  let r := roundBinary64 q
  if Nat.pow 2 1024 ≤ r.num.natAbs / r.den then .infinite (q.num < 0) else .finite r

/-- The decimal `digits * 10 ^ exponent`, with its sign. A magnitude far outside the range of
double precision is infinite or zero without being computed. -/
def ofDecimal (negative : Bool) (digits : Nat) (exponent : Int) : Number :=
  let top : Int := (Nat.toDigits 10 digits).length + exponent
  if digits = 0 || top < -400 then .finite 0
  else if 400 < top then .infinite negative
  else
    let magnitude : Rat :=
      mkRat (digits * Nat.pow 10 exponent.toNat : Nat) (Nat.pow 10 (-exponent).toNat)
    ofRat (if negative then -magnitude else magnitude)

/-- The strict order. -/
def lt : Number → Number → Bool
  | .finite a, .finite b => a < b
  | .finite _, .infinite negative => !negative
  | .infinite negative, .finite _ => negative
  | .infinite a, .infinite b => a && !b

/-- The value, if finite. -/
def toRat? : Number → Option Rat
  | .finite q => some q
  | .infinite _ => none

/-- The largest integer that is not larger, if there is one. -/
def floor? (n : Number) : Option Int :=
  n.toRat?.map Rat.floor

/-- A finite number without a fractional part. -/
def isInteger : Number → Bool
  | .finite q => q.den == 1
  | .infinite _ => false

/-- The natural number, if it is one. -/
def toNat? : Number → Option Nat
  | .finite q => if q.den == 1 && 0 ≤ q.num then some q.num.toNat else none
  | .infinite _ => none

end Number

end TreeMerge
