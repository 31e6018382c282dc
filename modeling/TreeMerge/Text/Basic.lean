/-!
# Texts

A text is a list of 16-bit units. A character above `U+FFFF` is a pair of surrogates; a surrogate
may also stand alone, which makes texts of which there is no string of characters.

* `Text`, `Text.ofString` : texts, and the text of a string of characters;
* `Text.intercalate`, `Text.join` : texts put together;
* `Text.isDigit`, `Text.digitsValue`, `Text.hexDigit` : decimal and hexadecimal digits;
* `Text.isHigh`, `Text.isLow` : surrogates;
* `Text.controlLetter?`, `Text.numberEscape`, `Text.escapeWith` : units that are written as escapes;
* `Text.encoded`, `Text.toString` : what bytes keep of a text, and its characters, with `U+FFFD` for
  a surrogate that stands alone;
* `Text.toString_ofString`, `Text.ofString_inj` : the text of a string determines it.
-/

namespace TreeMerge

/-- A list of 16-bit units. -/
@[ext]
structure Text where
  units : List UInt16
  deriving DecidableEq, Inhabited, Repr

namespace Text

/-! ## Characters -/

/-- The unit of a character up to `U+FFFF`. -/
def unit (c : Char) : UInt16 :=
  UInt16.ofNat c.toNat

instance : Coe Char UInt16 where
  coe := unit

/-- The one or two units of a character. -/
def unitsOf (c : Char) : List UInt16 :=
  if c.toNat < 0x10000 then [unit c]
  else
    [UInt16.ofNat (0xD800 + (c.toNat - 0x10000) / 0x400),
      UInt16.ofNat (0xDC00 + (c.toNat - 0x10000) % 0x400)]

/-- The units of characters. -/
def unitsOfAll (cs : List Char) : List UInt16 :=
  cs.flatMap unitsOf

/-- The text of a string. -/
def ofString (s : String) : Text :=
  ⟨unitsOfAll s.toList⟩

instance : Coe String Text where
  coe := ofString

/-! ## Putting texts together -/

/-- Whether a text has no units. -/
def isEmpty (t : Text) : Bool :=
  t.units.isEmpty

instance : Append Text where
  append s t := ⟨s.units ++ t.units⟩

@[simp] theorem units_append (s t : Text) : (s ++ t).units = s.units ++ t.units := rfl

@[simp] theorem append_empty (t : Text) : t ++ ofString "" = t :=
  Text.ext (List.append_nil t.units)

@[simp] theorem units_eq_nil {t : Text} : t.units = [] ↔ t = "" := by
  obtain ⟨us⟩ := t
  exact ⟨congrArg Text.mk, congrArg units⟩

@[simp] theorem isEmpty_iff {t : Text} : t.isEmpty = true ↔ t = "" := by
  rw [isEmpty, List.isEmpty_iff, units_eq_nil]

@[simp] theorem isEmpty_eq_false_iff {t : Text} : t.isEmpty = false ↔ t ≠ "" := by
  rw [ne_eq, ← isEmpty_iff, Bool.not_eq_true]

/-- Texts one after the other. -/
def join (ts : List Text) : Text :=
  ⟨(ts.map units).flatten⟩

/-- Texts one after the other, with a separator between them. -/
def intercalate (sep : Text) (ts : List Text) : Text :=
  ⟨sep.units.intercalate (ts.map units)⟩

/-! ## Digits -/

/-- A decimal digit. -/
def isDigit (u : UInt16) : Bool :=
  '0' ≤ u && u ≤ '9'

/-- The number that decimal digits spell. -/
def digitsValue (us : List UInt16) : Nat :=
  us.foldl (fun n u => n * 10 + (u.toNat - 48)) 0

/-- The lower-case hexadecimal digit of a number below 16. -/
def hexDigit (n : Nat) : UInt16 :=
  Nat.digitChar n

/-! ## Surrogates -/

/-- A leading surrogate. -/
def isHigh (u : UInt16) : Bool :=
  0xD800 ≤ u.toNat && u.toNat < 0xDC00

/-- A trailing surrogate. -/
def isLow (u : UInt16) : Bool :=
  0xDC00 ≤ u.toNat && u.toNat < 0xE000

/-- Half of a surrogate pair. -/
def isSurrogate (u : UInt16) : Bool :=
  isHigh u || isLow u

/-! ## Escapes -/

/-- The letter of the escape of a control character, if it has one. -/
def controlLetter? (u : UInt16) : Option UInt16 :=
  if u = 0x08 then some 'b'
  else if u = 0x09 then some 't'
  else if u = 0x0A then some 'n'
  else if u = 0x0C then some 'f'
  else if u = 0x0D then some 'r'
  else none

/-- The escape that gives the number of a unit. -/
def numberEscape (u : UInt16) : List UInt16 :=
  let n := u.toNat
  ['\\', 'u', hexDigit (n / 4096), hexDigit (n / 256 % 16), hexDigit (n / 16 % 16),
    hexDigit (n % 16)]

/-- Write units one by one, where a surrogate pair stays as it is. -/
def escapeWith (escape : UInt16 → List UInt16) : List UInt16 → List UInt16
  | [] => []
  | [u] => escape u
  | u :: v :: us =>
    if isHigh u && isLow v then u :: v :: escapeWith escape us
    else escape u ++ escapeWith escape (v :: us)

/-! ## Bytes and characters -/

/-- What bytes keep of a unit that stands alone: `U+FFFD` for a surrogate. -/
def encodeUnit (u : UInt16) : List UInt16 :=
  [if isSurrogate u then 0xFFFD else u]

/-- What bytes keep of units. -/
def encodeUnits (us : List UInt16) : List UInt16 :=
  escapeWith encodeUnit us

/-- What bytes keep of a text. -/
def encoded (t : Text) : Text :=
  ⟨encodeUnits t.units⟩

/-- The character of a unit that stands alone: `U+FFFD` for a surrogate. -/
def ofUnit (u : UInt16) : Char :=
  if isSurrogate u then Char.ofNat 0xFFFD else Char.ofNat u.toNat

/-- The character of a surrogate pair. -/
def ofPair (u v : UInt16) : Char :=
  Char.ofNat (0x10000 + (u.toNat - 0xD800) * 0x400 + (v.toNat - 0xDC00))

/-- The characters of a list of units. -/
def chars : List UInt16 → List Char
  | [] => []
  | [u] => [ofUnit u]
  | u :: v :: us =>
    if isHigh u && isLow v then ofPair u v :: chars us else ofUnit u :: chars (v :: us)

/-- The string of a text; a surrogate that stands alone is lost. -/
def toString (t : Text) : String :=
  String.ofList (chars t.units)

theorem chars_cons_of_not_isHigh {u : UInt16} (h : isHigh u = false) (us : List UInt16) :
    chars (u :: us) = ofUnit u :: chars us := by
  cases us with
  | nil => rfl
  | cons v us => simp [chars, h]

/-- The units of one character, then more, are that character first. -/
theorem chars_unitsOf_append (c : Char) (us : List UInt16) :
    chars (unitsOf c ++ us) = c :: chars us := by
  have hvalid : c.toNat < 0xD800 ∨ (0xDFFF < c.toNat ∧ c.toNat < 0x110000) := c.valid
  unfold unitsOf
  split
  · next hsmall =>
    have hunit : (unit c).toNat = c.toNat := UInt16.toNat_ofNat_of_lt' hsmall
    have hhigh : isHigh (unit c) = false := by simp [isHigh, hunit]; omega
    have hlow : isLow (unit c) = false := by simp [isLow, hunit]; omega
    rw [List.singleton_append, chars_cons_of_not_isHigh hhigh]
    simp [ofUnit, isSurrogate, hhigh, hlow, hunit]
  · next hlarge =>
    have hu : (UInt16.ofNat (0xD800 + (c.toNat - 0x10000) / 0x400)).toNat =
        0xD800 + (c.toNat - 0x10000) / 0x400 :=
      UInt16.toNat_ofNat_of_lt' (by unfold UInt16.size; omega)
    have hv : (UInt16.ofNat (0xDC00 + (c.toNat - 0x10000) % 0x400)).toNat =
        0xDC00 + (c.toNat - 0x10000) % 0x400 :=
      UInt16.toNat_ofNat_of_lt' (by unfold UInt16.size; omega)
    have hhigh : isHigh (UInt16.ofNat (0xD800 + (c.toNat - 0x10000) / 0x400)) = true := by
      simp only [isHigh, hu, Bool.and_eq_true, decide_eq_true_eq]; omega
    have hlow : isLow (UInt16.ofNat (0xDC00 + (c.toNat - 0x10000) % 0x400)) = true := by
      simp only [isLow, hv, Bool.and_eq_true, decide_eq_true_eq]; omega
    simp only [List.cons_append, List.nil_append, chars, hhigh, hlow, Bool.and_self, if_true,
      ofPair, hu, hv]
    rw [show 0x10000 + (0xD800 + (c.toNat - 0x10000) / 0x400 - 0xD800) * 0x400 +
      (0xDC00 + (c.toNat - 0x10000) % 0x400 - 0xDC00) = c.toNat by omega, Char.ofNat_toNat]

theorem chars_unitsOfAll (cs : List Char) : chars (unitsOfAll cs) = cs := by
  induction cs with
  | nil => rfl
  | cons c cs ih =>
    rw [unitsOfAll, List.flatMap_cons, chars_unitsOf_append]
    exact congrArg (c :: ·) ih

/-- A string is found again in its text. -/
theorem toString_ofString (s : String) : (ofString s).toString = s := by
  rw [toString, ofString, chars_unitsOfAll, String.ofList_toList]

@[simp] theorem ofString_inj {s t : String} : ofString s = ofString t ↔ s = t := by
  refine ⟨fun h => ?_, congrArg ofString⟩
  rw [← toString_ofString s, h, toString_ofString]

end Text

end TreeMerge
