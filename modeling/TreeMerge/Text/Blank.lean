import TreeMerge.Text.Cut

/-!
# Blank units

* `isBlank` : the units that count as blank space around and between words;
* `isBlankText` : nothing but blank units;
* `trim` : a text without its leading and trailing blank units;
* `words` : the maximal runs of other units.
-/

namespace TreeMerge.Text

/-- The blank units: tab to carriage return, the Unicode space separators, the line and paragraph
separators and the byte order mark. The next-line control `U+0085` and the zero-width space `U+200B`
are not among them. -/
def isBlank (u : UInt16) : Bool :=
  let n := u.toNat
  (0x09 ≤ n && n ≤ 0x0D) || n == 0x20 || n == 0xA0 || n == 0x1680 || (0x2000 ≤ n && n ≤ 0x200A) ||
    n == 0x2028 || n == 0x2029 || n == 0x202F || n == 0x205F || n == 0x3000 || n == 0xFEFF

/-- A text of blank units only; the empty text is one. -/
def isBlankText (t : Text) : Bool :=
  t.units.all isBlank

/-- The units of a text without leading blanks. -/
def trimLeft (us : List UInt16) : List UInt16 :=
  us.dropWhile isBlank

/-- The units of a text without trailing blanks. -/
def trimRight (us : List UInt16) : List UInt16 :=
  (us.reverse.dropWhile isBlank).reverse

/-- The units of a text without surrounding blanks. -/
def trimUnits (us : List UInt16) : List UInt16 :=
  trimRight (trimLeft us)

/-- A text without surrounding blanks. -/
def trim (t : Text) : Text :=
  ⟨trimUnits t.units⟩

/-- The maximal runs of units that are not blank. -/
def words (t : Text) : List Text :=
  ((splitWhere isBlank t.units).filter fun w => !w.isEmpty).map Text.mk

end TreeMerge.Text
