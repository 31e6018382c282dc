import TreeMerge.Number.Basic

/-!
# Decimal text of numbers

A number is written with the fewest decimal digits that read back as the same number, positionally
from `1e-6` up to below `1e21`, otherwise with a signed exponent.

* `Digits`, `shortestDigits` : which digits;
* `Digits.text`, `Number.text` : how they are laid out.
-/

namespace TreeMerge

/-- The decimal number `digits * 10 ^ exponent`. -/
structure Digits where
  digits : Nat
  exponent : Int
  deriving DecidableEq

namespace Digits

/-- The value of a decimal number. -/
def toRat (d : Digits) : Rat :=
  mkRat (d.digits * Nat.pow 10 d.exponent.toNat : Nat) (Nat.pow 10 (-d.exponent).toNat)

/-- Remove up to `fuel` trailing zeros of the digits. -/
def dropZeros : Nat → Digits → Digits
  | 0, d => d
  | fuel + 1, d =>
    if d.digits % 10 == 0 then dropZeros fuel ⟨d.digits / 10, d.exponent + 1⟩ else d

end Digits

/-- The largest `k` with `10 ^ k ≤ q`, for positive `q`. -/
def log10Floor (q : Rat) : Int :=
  let k : Int := (Nat.toDigits 10 q.num.natAbs).length - (Nat.toDigits 10 q.den).length
  if Digits.toRat ⟨1, k⟩ ≤ q then k else k - 1

/-- The decimal with `places` significant digits that is nearest to the positive number `q` among
those that round to `q`, if there is one; of two equally near ones the even one. -/
def digitsWith (places : Nat) (q : Rat) : Option Digits :=
  let exponent := log10Floor q - places + 1
  let low := (q / Digits.toRat ⟨1, exponent⟩).floor.toNat
  let below : Digits := ⟨low, exponent⟩
  let above : Digits := ⟨low + 1, exponent⟩
  let hit (d : Digits) : Bool := roundBinary64 d.toRat == q
  match hit below, hit above with
  | true, true =>
    let down := q - below.toRat
    let up := above.toRat - q
    if down < up || (down == up && low % 2 == 0) then some below else some above
  | true, false => some below
  | false, true => some above
  | false, false => none

/-- The fewest decimal digits that round to the positive number `q`; 17 are always enough for a
number of double precision. -/
def shortestDigits (q : Rat) : Digits :=
  (((List.range 17).findSome? fun k => digitsWith (k + 1) q).getD ⟨0, 0⟩).dropZeros 20

/-- Lay out decimal digits: positionally while the point falls at most 21 places after the first
digit and at most 6 places before it, otherwise with one digit before the point and an exponent. -/
def Digits.text (d : Digits) : String :=
  let ds := Nat.toDigits 10 d.digits
  let count : Int := ds.length
  let point := count + d.exponent
  let exponentText (e : Int) : List Char :=
    'e' :: (if e < 0 then '-' else '+') :: Nat.toDigits 10 e.natAbs
  String.ofList <|
    if count ≤ point && point ≤ 21 then ds ++ List.replicate (point - count).toNat '0'
    else if 0 < point && point ≤ 21 then ds.take point.toNat ++ '.' :: ds.drop point.toNat
    else if -6 < point && point ≤ 0 then '0' :: '.' :: List.replicate (-point).toNat '0' ++ ds
    else if ds.length == 1 then ds ++ exponentText (point - 1)
    else ds.take 1 ++ '.' :: ds.drop 1 ++ exponentText (point - 1)

/-- The text of a number. -/
def Number.text : Number → String
  | .infinite negative => if negative then "-Infinity" else "Infinity"
  | .finite q =>
    if q.num = 0 then "0"
    else if q.num < 0 then "-" ++ (shortestDigits (-q)).text
    else (shortestDigits q).text

end TreeMerge
