import TreeMerge.Text.Cut

/-!
# Quoted text

A text in a message stands between marks, with what cannot be shown written as escapes. The marks
are single quotation marks, unless the text has one: then double ones, or else grave accents, if the
text has none of them.

* `markOf` : the mark of a text;
* `quotedUnit`, `quoted` : a unit between marks, a text with its marks.
-/

namespace TreeMerge.Text

/-- The single quotation mark. -/
def singleMark : UInt16 := 0x27

/-- The grave accent. -/
def graveMark : UInt16 := 0x60

/-- The mark that encloses a text. Between grave accents a dollar sign must not stand before an
opening brace. -/
def markOf (us : List UInt16) : UInt16 :=
  if !us.contains singleMark then singleMark
  else if !us.contains (unit '"') then '"'
  else if !us.contains graveMark && !(us.zip us.tail).contains (unit '$', unit '\x7b') then
    graveMark
  else singleMark

/-- An upper-case hexadecimal digit. -/
def upperHex (n : Nat) : UInt16 :=
  (Nat.digitChar n).toUpper

/-- A unit between marks: control characters, backslashes, single marks inside single marks and
surrogates that stand alone are escaped. -/
def quotedUnit (mark u : UInt16) : List UInt16 :=
  let n := u.toNat
  if u = '\\' || u = singleMark && mark = singleMark then ['\\', u]
  else
    match controlLetter? u with
    | some e => ['\\', e]
    | none =>
      if n < 0x20 || (0x7F ≤ n && n ≤ 0x9F) then ['\\', 'x', upperHex (n / 16), upperHex (n % 16)]
      else if isSurrogate u then numberEscape u
      else [u]

/-- A text between its marks. -/
def quoted (t : Text) : Text :=
  let mark := markOf t.units
  ⟨mark :: (escapeWith (quotedUnit mark) t.units ++ [mark])⟩

end TreeMerge.Text
