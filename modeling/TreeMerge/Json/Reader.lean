import TreeMerge.Json.Basic
import TreeMerge.Text.Cut

/-!
# Reading JSON text

The reader accepts exactly JSON text: one value with blank space around its tokens, where blank
space is space, tab, line feed and carriage return. The escape of a unit is that unit, whether or
not it makes a surrogate pair with the next one. Numbers are rounded to double precision, and a
repeated key of an object keeps its first place and its last value.

* `Reader.text`, `Reader.number` : the scalar tokens;
* `Reader.value` : a value, with fuel for every unit that is left;
* `Json.parse?` : the value of a whole text.

Every reader takes the units that are left and gives what it read with the units after it, or `none`
where the grammar has no such thing.
-/

namespace TreeMerge

namespace Reader

/-- Blank space between tokens. -/
def isSpace (u : UInt16) : Bool :=
  u == ' ' || u == '\t' || u == '\n' || u == '\r'

/-- Pass over blank space. -/
def skip (us : List UInt16) : List UInt16 :=
  us.dropWhile isSpace

/-- What follows the unit `mark`, if that stands first. -/
def mark? (mark : UInt16) : List UInt16 → Option (List UInt16)
  | [] => none
  | u :: us => if u = mark then some us else none

/-! ## Strings -/

/-- The value of a hexadecimal digit. -/
def hexValue? (u : UInt16) : Option Nat :=
  if '0' ≤ u && u ≤ '9' then some (u.toNat - 48)
  else if 'a' ≤ u && u ≤ 'f' then some (u.toNat - 87)
  else if 'A' ≤ u && u ≤ 'F' then some (u.toNat - 55)
  else none

/-- The unit of four hexadecimal digits. -/
def unit4? (a b c d : UInt16) : Option UInt16 := do
  return UInt16.ofNat
    ((((← hexValue? a) * 16 + (← hexValue? b)) * 16 + (← hexValue? c)) * 16 + (← hexValue? d))

/-- The unit of a one-letter escape. -/
def escape? (e : UInt16) : Option UInt16 :=
  if e = '"' then some 0x22
  else if e = '\\' then some 0x5C
  else if e = '/' then some 0x2F
  else if e = 'b' then some 0x08
  else if e = 'f' then some 0x0C
  else if e = 'n' then some 0x0A
  else if e = 'r' then some 0x0D
  else if e = 't' then some 0x09
  else none

/-- Put a unit in front of what a reader has read. -/
def consUnit (u : UInt16) (r : Option (List UInt16 × List UInt16)) :
    Option (List UInt16 × List UInt16) :=
  r.map fun (us, rest) => (u :: us, rest)

/-- The units of a string literal after its opening quotation mark. -/
def stringUnits : List UInt16 → Option (List UInt16 × List UInt16)
  | [] => none
  | u :: us =>
    if u = '"' then some ([], us)
    else if u = '\\' then
      match us with
      | [] => none
      | e :: us =>
        if e = 'u' then
          match us with
          | a :: b :: c :: d :: us => (unit4? a b c d).bind fun u => consUnit u (stringUnits us)
          | _ => none
        else (escape? e).bind fun u => consUnit u (stringUnits us)
    else if u < 0x20 then none
    else consUnit u (stringUnits us)

/-- A string literal after its opening quotation mark. -/
def text (us : List UInt16) : Option (Text × List UInt16) :=
  (stringUnits us).map fun (us, rest) => (⟨us⟩, rest)

/-! ## Numbers -/

/-- A non-empty run of decimal digits. -/
def digits (us : List UInt16) : Option (List UInt16 × List UInt16) :=
  match us.takeWhile Text.isDigit with
  | [] => none
  | ds => some (ds, us.dropWhile Text.isDigit)

/-- The integer part: a zero, or digits that do not start with one. -/
def integerPart (us : List UInt16) : Option (List UInt16 × List UInt16) :=
  match mark? '0' us with
  | some us => some (['0'], us)
  | none => digits us

/-- The optional fraction: its digits, none when it is absent. -/
def fraction (us : List UInt16) : Option (List UInt16 × List UInt16) :=
  match mark? '.' us with
  | some us => digits us
  | none => some ([], us)

/-- The digits of an exponent with its sign. -/
def exponentDigits (negative : Bool) (us : List UInt16) : Option (Int × List UInt16) :=
  (digits us).map fun (ds, rest) =>
    (if negative then -(Text.digitsValue ds : Int) else (Text.digitsValue ds : Int), rest)

/-- The exponent after its letter. -/
def signedExponent (us : List UInt16) : Option (Int × List UInt16) :=
  match mark? '+' us, mark? '-' us with
  | some us, _ => exponentDigits false us
  | _, some us => exponentDigits true us
  | none, none => exponentDigits false us

/-- The optional exponent, 0 when it is absent. -/
def exponent (us : List UInt16) : Option (Int × List UInt16) :=
  match mark? 'e' us, mark? 'E' us with
  | some us, _ | _, some us => signedExponent us
  | none, none => some (0, us)

/-- A number without its sign. -/
def unsigned (negative : Bool) (us : List UInt16) : Option (Number × List UInt16) := do
  let (whole, us) ← integerPart us
  let (part, us) ← fraction us
  let (e, us) ← exponent us
  return (Number.ofDecimal negative (Text.digitsValue (whole ++ part)) (e - part.length), us)

/-- A number. -/
def number (us : List UInt16) : Option (Number × List UInt16) :=
  match mark? '-' us with
  | some us => unsigned true us
  | none => unsigned false us

/-! ## Values -/

mutual

/-- A value, at most `fuel` tokens deep and long. -/
def value : Nat → List UInt16 → Option (Json × List UInt16)
  | 0, _ | _ + 1, [] => none
  | fuel + 1, u :: us =>
    if u = '"' then (text us).map fun (s, rest) => (.str s, rest)
    else if u = '[' then
      match mark? ']' (skip us) with
      | some rest => some (.arr [], rest)
      | none => (elements fuel (skip us)).map fun (xs, rest) => (.arr xs, rest)
    else if u = '\x7b' then
      match mark? '\x7d' (skip us) with
      | some rest => some (.ofMembers [], rest)
      | none => (entries fuel (skip us)).map fun (ms, rest) => (.ofMembers ms, rest)
    else if u = 't' then (Text.after? (Text.units "rue") us).map fun rest => (.bool true, rest)
    else if u = 'f' then (Text.after? (Text.units "alse") us).map fun rest => (.bool false, rest)
    else if u = 'n' then (Text.after? (Text.units "ull") us).map fun rest => (.null, rest)
    else (number (u :: us)).map fun (n, rest) => (.num n, rest)

/-- The items of an array up to its closing bracket, at least one. -/
def elements : Nat → List UInt16 → Option (List Json × List UInt16)
  | 0, _ => none
  | fuel + 1, us =>
    match value fuel us with
    | none => none
    | some (x, us) =>
      match mark? ',' (skip us), mark? ']' (skip us) with
      | some us, _ => (elements fuel (skip us)).map fun (xs, rest) => (x :: xs, rest)
      | _, some rest => some ([x], rest)
      | none, none => none

/-- The members of an object up to its closing brace, at least one. -/
def entries : Nat → List UInt16 → Option (List (Text × Json) × List UInt16)
  | 0, _ => none
  | fuel + 1, us =>
    match (mark? '"' us).bind text with
    | none => none
    | some (key, us) =>
      match (mark? ':' (skip us)).bind fun us => value fuel (skip us) with
      | none => none
      | some (v, us) =>
        match mark? ',' (skip us), mark? '\x7d' (skip us) with
        | some us, _ => (entries fuel (skip us)).map fun (ms, rest) => ((key, v) :: ms, rest)
        | _, some rest => some ([(key, v)], rest)
        | none, none => none

end

end Reader

/-- The value of a JSON text, `none` when the text is malformed. -/
def Json.parse? (t : Text) : Option Json :=
  match Reader.value (2 * t.units.length + 2) (Reader.skip t.units) with
  | some (j, rest) => if (Reader.skip rest).isEmpty then some j else none
  | none => none

end TreeMerge
