import TreeMerge.Number.Basic

/-!
# Sums of numbers

Sums are rounded to double precision after every step. A term may be missing, and then there is no
sum; nor is there one where opposite infinities meet.

* `Number.ofInt`, `Number.toInt?` : integers as numbers, and back;
* `Number.neg`, `Number.add?` : the opposite of a number, and the sum of two;
* `Number.sum?` : the sum of a list, from left to right.
-/

namespace TreeMerge.Number

/-- An integer, rounded to double precision. -/
def ofInt (n : Int) : Number :=
  ofRat n

/-- The integer, if it is one. -/
def toInt? : Number → Option Int
  | .finite q => if q.den == 1 then some q.num else none
  | .infinite _ => none

/-- The opposite. -/
def neg : Number → Number
  | .finite q => .finite (-q)
  | .infinite negative => .infinite !negative

/-- The rounded sum of two numbers; opposite infinities have none. -/
def add? : Number → Number → Option Number
  | .finite a, .finite b => some (ofRat (a + b))
  | .finite _, .infinite negative => some (.infinite negative)
  | .infinite negative, .finite _ => some (.infinite negative)
  | .infinite a, .infinite b => if a = b then some (.infinite a) else none

/-- The sum of terms that may be missing, rounded after every step. -/
def sum? (terms : List (Option Number)) : Option Number :=
  terms.foldl (fun total term => total.bind fun a => term.bind fun b => a.add? b) (some (.ofNat 0))

example : sum? [some (ofInt 9007199254740992), some (ofInt 1), some (ofInt (-1))] =
    some (ofInt 9007199254740991) := by decide +kernel
example : sum? [some (.infinite false), some (.ofNat 1), some (.infinite true)] = none := by
  decide +kernel

end TreeMerge.Number
