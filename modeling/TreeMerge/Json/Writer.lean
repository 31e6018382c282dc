import TreeMerge.Json.Basic

/-!
# JSON text

Strings are written with the quotation mark, the backslash and the control characters below
`U+0020` escaped, and a surrogate that stands alone as its number, so that the text is a text of
characters; every other unit is written as it is.

* `escapeLetter?`, `escapeUnit`, `quote` : string literals;
* `Style` : where lines break and what follows a key;
* `Json.write` : the units of a value in front of given units;
* `Json.compact`, `Json.pretty` : the text of a value.
-/

namespace TreeMerge

/-- The letter of the one-letter escape of a unit, if it has one. -/
def escapeLetter? (u : UInt16) : Option UInt16 :=
  if u = '"' || u = '\\' then some u else Text.controlLetter? u

/-- A unit that stands alone inside a string literal. -/
def escapeUnit (u : UInt16) : List UInt16 :=
  match escapeLetter? u with
  | some e => ['\\', e]
  | none =>
    if u < 0x20 || Text.isSurrogate u then Text.numberEscape u else [u]

/-- The string literal of a text. -/
def quote (t : Text) : List UInt16 :=
  '"' :: (Text.escapeWith escapeUnit t.units ++ [Text.unit '"'])

/-- The layout of JSON text. -/
structure Style where
  /-- What stands before an item at the given depth. -/
  lineBreak : Nat → List UInt16
  /-- What stands between a key and its value. -/
  colon : List UInt16

/-- No space at all. -/
def Style.dense : Style where
  lineBreak := fun _ => []
  colon := [':']

/-- One item a line, two spaces for every level. -/
def Style.indented : Style where
  lineBreak := fun depth => '\n' :: List.replicate (2 * depth) ' '
  colon := [':', ' ']

namespace Json

/-- The text of a number; an infinite number has none and is written as `null`. -/
def writeNumber : Number → Text
  | .infinite _ => "null"
  | n => n.text

mutual

/-- The units of a value at a depth, in front of the units `rest`. -/
def write (style : Style) (depth : Nat) : Json → (rest : List UInt16) → List UInt16
  | .null, rest => Text.units "null" ++ rest
  | .bool b, rest => (if b then Text.units "true" else Text.units "false") ++ rest
  | .num n, rest => (writeNumber n).units ++ rest
  | .str s, rest => quote s ++ rest
  | .arr [], rest => '[' :: ']' :: rest
  | .arr (x :: xs), rest =>
    '[' :: (style.lineBreak (depth + 1) ++ write style (depth + 1) x
      (writeItems style (depth + 1) xs (style.lineBreak depth ++ Text.unit ']' :: rest)))
  | .obj [], rest => '\x7b' :: '\x7d' :: rest
  | .obj ((key, v) :: ms), rest =>
    '\x7b' :: (style.lineBreak (depth + 1) ++ (quote key ++ (style.colon ++
      write style (depth + 1) v
        (writeMembers style (depth + 1) ms
          (style.lineBreak depth ++ Text.unit '\x7d' :: rest)))))

/-- The items after the first one, each behind a comma, in front of the units `rest`. -/
def writeItems (style : Style) (depth : Nat) : List Json → (rest : List UInt16) → List UInt16
  | [], rest => rest
  | x :: xs, rest =>
    ',' :: (style.lineBreak depth ++ write style depth x (writeItems style depth xs rest))

/-- The members after the first one, each behind a comma, in front of the units `rest`. -/
def writeMembers (style : Style) (depth : Nat) :
    List (Text × Json) → (rest : List UInt16) → List UInt16
  | [], rest => rest
  | (key, v) :: ms, rest =>
    ',' :: (style.lineBreak depth ++ (quote key ++ (style.colon ++
      write style depth v (writeMembers style depth ms rest))))

end

/-- The text of a value on one line. -/
def compact (j : Json) : Text :=
  ⟨j.write .dense 0 []⟩

/-- The text of a value with one item a line. -/
def pretty (j : Json) : Text :=
  ⟨j.write .indented 0 []⟩

end Json

end TreeMerge
