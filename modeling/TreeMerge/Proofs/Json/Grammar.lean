import TreeMerge.Json.Reader
import TreeMerge.Text.Blank

/-!
# The grammar of JSON text

Which texts are JSON, and what they say, by the rules of RFC 8259 and not by a way of reading. The
members of an object are all there, in the order in which they are written and with repeated keys.

* `Grammar.IsSpace`, `Grammar.IsString`, `Grammar.IsNumber` : blank space and scalar tokens;
* `Grammar.IsValue`, `Grammar.IsItem`, `Grammar.IsMember` : values, and what stands in arrays and
  objects;
* `Grammar.IsText` : whole texts;
* `Grammar.IsItems.pad`, `Grammar.IsMembers.pad` : more blank space in front changes nothing;
* `Grammar.IsValue.exists_cons` : a value starts with a unit that is not blank.
-/

namespace TreeMerge

namespace Grammar

open Text (unit)

/-! ## Scalar tokens -/

/-- Blank space between tokens: spaces, tabs, line feeds and carriage returns. -/
def IsSpace (us : List UInt16) : Prop :=
  ∀ u ∈ us, u ∈ [unit ' ', '\t', '\n', '\r']

/-- The one-letter escapes with the units that they stand for. -/
def escapes : List (UInt16 × UInt16) :=
  [('"', 0x22), ('\\', 0x5C), ('/', 0x2F), ('b', 0x08), ('f', 0x0C), ('n', 0x0A), ('r', 0x0D),
    ('t', 0x09)]

/-- A hexadecimal digit and its value. -/
def IsHex (u : UInt16) (n : Nat) : Prop :=
  (Text.units "0123456789abcdef")[n]? = some u ∨ (Text.units "0123456789ABCDEF")[n]? = some u

/-- A part of a string literal and its unit: a unit that stands for itself, or an escape. Surrogates
are units like others, whether or not they come in pairs. -/
inductive IsPiece : List UInt16 → UInt16 → Prop
  | plain {u : UInt16} (control : 0x20 ≤ u) (quote : u ≠ '"') (backslash : u ≠ '\\') :
      IsPiece [u] u
  | letter {e u : UInt16} (escape : (e, u) ∈ escapes) : IsPiece ['\\', e] u
  | number {a b c d : UInt16} {k l m n : Nat} (first : IsHex a k) (second : IsHex b l)
      (third : IsHex c m) (fourth : IsHex d n) :
      IsPiece ['\\', 'u', a, b, c, d] (UInt16.ofNat (((k * 16 + l) * 16 + m) * 16 + n))

/-- What stands between the quotation marks of a string literal. -/
inductive IsBody : List UInt16 → List UInt16 → Prop
  | nil : IsBody [] []
  | cons {us vs ws : List UInt16} {u : UInt16} (piece : IsPiece us u) (body : IsBody vs ws) :
      IsBody (us ++ vs) (u :: ws)

/-- A string literal and its text. -/
inductive IsString : List UInt16 → Text → Prop
  | quoted {us vs : List UInt16} (body : IsBody us vs) : IsString ('"' :: (us ++ [unit '"'])) ⟨vs⟩

/-- A run of decimal digits. -/
def IsDigits (ds : List UInt16) : Prop :=
  ds ≠ [] ∧ ∀ u ∈ ds, Text.isDigit u = true

/-- The integer part of a number: a zero, or digits that do not start with one. -/
inductive IsWhole : List UInt16 → Prop
  | zero : IsWhole ['0']
  | digits {ds : List UInt16} (digits : IsDigits ds) (first : ds.head? ≠ some '0') : IsWhole ds

/-- The fraction of a number with its digits. -/
inductive IsFraction : List UInt16 → List UInt16 → Prop
  | absent : IsFraction [] []
  | digits {ds : List UInt16} (digits : IsDigits ds) : IsFraction ('.' :: ds) ds

/-- The exponent of a number with its value. -/
inductive IsExponent : List UInt16 → Int → Prop
  | absent : IsExponent [] 0
  | unsigned {e : UInt16} {ds : List UInt16} (letter : e = 'e' ∨ e = 'E') (digits : IsDigits ds) :
      IsExponent (e :: ds) (Text.digitsValue ds)
  | plus {e : UInt16} {ds : List UInt16} (letter : e = 'e' ∨ e = 'E') (digits : IsDigits ds) :
      IsExponent (e :: '+' :: ds) (Text.digitsValue ds)
  | minus {e : UInt16} {ds : List UInt16} (letter : e = 'e' ∨ e = 'E') (digits : IsDigits ds) :
      IsExponent (e :: '-' :: ds) (-(Text.digitsValue ds : Int))

/-- A number without its sign; `negative` tells the sign. -/
inductive IsUnsigned (negative : Bool) : List UInt16 → Number → Prop
  | mk {whole fs part es : List UInt16} {e : Int} (integer : IsWhole whole)
      (fraction : IsFraction fs part) (exponent : IsExponent es e) :
      IsUnsigned negative (whole ++ (fs ++ es))
        (.ofDecimal negative (Text.digitsValue (whole ++ part)) (e - part.length))

/-- A number. -/
inductive IsNumber : List UInt16 → Number → Prop
  | positive {us : List UInt16} {n : Number} (number : IsUnsigned false us n) : IsNumber us n
  | negative {us : List UInt16} {n : Number} (number : IsUnsigned true us n) :
      IsNumber ('-' :: us) n

/-! ## Values -/

mutual

/-- A value. -/
inductive IsValue : List UInt16 → Json → Prop
  | literalNull : IsValue ['n', 'u', 'l', 'l'] .null
  | literalTrue : IsValue ['t', 'r', 'u', 'e'] (.bool true)
  | literalFalse : IsValue ['f', 'a', 'l', 's', 'e'] (.bool false)
  | number {us : List UInt16} {n : Number} (number : IsNumber us n) : IsValue us (.num n)
  | string {us : List UInt16} {s : Text} (string : IsString us s) : IsValue us (.str s)
  | emptyArray {ws : List UInt16} (space : IsSpace ws) :
      IsValue ('[' :: (ws ++ [unit ']'])) (.arr [])
  | array {us : List UInt16} {xs : List Json} (items : IsItems us xs) :
      IsValue ('[' :: (us ++ [unit ']'])) (.arr xs)
  | emptyObject {ws : List UInt16} (space : IsSpace ws) :
      IsValue ('\x7b' :: (ws ++ [unit '\x7d'])) (.obj [])
  | object {us : List UInt16} {ms : List (Text × Json)} (members : IsMembers us ms) :
      IsValue ('\x7b' :: (us ++ [unit '\x7d'])) (.obj ms)

/-- A value with blank space around it. -/
inductive IsItem : List UInt16 → Json → Prop
  | padded {ws us ws' : List UInt16} {x : Json} (before : IsSpace ws) (value : IsValue us x)
      (after : IsSpace ws') : IsItem (ws ++ (us ++ ws')) x

/-- The items of an array, at least one. -/
inductive IsItems : List UInt16 → List Json → Prop
  | last {us : List UInt16} {x : Json} (item : IsItem us x) : IsItems us [x]
  | more {us ds : List UInt16} {x : Json} {xs : List Json} (item : IsItem us x)
      (items : IsItems ds xs) : IsItems (us ++ unit ',' :: ds) (x :: xs)

/-- A member of an object with blank space around its tokens. -/
inductive IsMember : List UInt16 → Text × Json → Prop
  | pair {ws ks ws' us : List UInt16} {k : Text} {x : Json} (before : IsSpace ws)
      (key : IsString ks k) (between : IsSpace ws') (item : IsItem us x) :
      IsMember (ws ++ (ks ++ (ws' ++ unit ':' :: us))) (k, x)

/-- The members of an object, at least one. -/
inductive IsMembers : List UInt16 → List (Text × Json) → Prop
  | last {us : List UInt16} {m : Text × Json} (member : IsMember us m) : IsMembers us [m]
  | more {us ds : List UInt16} {m : Text × Json} {ms : List (Text × Json)}
      (member : IsMember us m) (members : IsMembers ds ms) :
      IsMembers (us ++ unit ',' :: ds) (m :: ms)

end

/-- A whole text: one value with blank space around it. -/
def IsText (us : List UInt16) (j : Json) : Prop :=
  IsItem us j

/-! ## Blank space -/

section

variable {us ds ws : List UInt16}

theorem isSpace_nil : IsSpace [] :=
  fun _ hu => absurd hu List.not_mem_nil

theorem isSpace_append : IsSpace (us ++ ds) ↔ IsSpace us ∧ IsSpace ds := by
  simp only [IsSpace, List.mem_append, or_imp, forall_and]

theorem isSpace_iff_all : IsSpace us ↔ us.all Reader.isSpace = true := by
  simp [IsSpace, List.all_eq_true, Reader.isSpace, or_assoc]

/-- More blank space in front of an item changes nothing. -/
theorem IsItem.pad {x : Json} (hws : IsSpace ws) (h : IsItem us x) : IsItem (ws ++ us) x := by
  cases h with
  | padded before value after =>
    rw [← List.append_assoc]
    exact .padded (isSpace_append.2 ⟨hws, before⟩) value after

theorem IsItems.pad {xs : List Json} (hws : IsSpace ws) (h : IsItems us xs) :
    IsItems (ws ++ us) xs := by
  cases h with
  | last item => exact .last (item.pad hws)
  | more item items =>
    rw [← List.append_assoc]
    exact .more (item.pad hws) items

theorem IsMember.pad {m : Text × Json} (hws : IsSpace ws) (h : IsMember us m) :
    IsMember (ws ++ us) m := by
  cases h with
  | pair before key between item =>
    rw [← List.append_assoc]
    exact .pair (isSpace_append.2 ⟨hws, before⟩) key between item

theorem IsMembers.pad {ms : List (Text × Json)} (hws : IsSpace ws) (h : IsMembers us ms) :
    IsMembers (ws ++ us) ms := by
  cases h with
  | last member => exact .last (member.pad hws)
  | more member members =>
    rw [← List.append_assoc]
    exact .more (member.pad hws) members

end

/-! ## First units -/

theorem isBlank_digit {u : UInt16} (h : Text.isDigit u = true) : Text.isBlank u = false := by
  have hrange : (unit '0').toNat ≤ u.toNat ∧ u.toNat ≤ (unit '9').toNat := by
    simpa [Text.isDigit, UInt16.le_iff_toNat_le] using h
  change 48 ≤ u.toNat ∧ u.toNat ≤ 57 at hrange
  simp only [Text.isBlank, Bool.or_eq_false_iff, Bool.and_eq_false_iff, decide_eq_false_iff_not,
    beq_eq_false_iff_ne]
  omega

theorem isBlank_of_isSpace {u : UInt16} (h : Reader.isSpace u = true) : Text.isBlank u = true := by
  simp only [Reader.isSpace, Bool.or_eq_true, beq_iff_eq] at h
  rcases h with ((rfl | rfl) | rfl) | rfl <;> decide

theorem IsWhole.exists_digit {us : List UInt16} (h : IsWhole us) :
    ∃ u ds, us = u :: ds ∧ Text.isDigit u = true := by
  cases h with
  | zero => exact ⟨unit '0', [], rfl, rfl⟩
  | digits digits first =>
    obtain ⟨hne, hall⟩ := digits
    obtain ⟨u, ds, rfl⟩ := List.exists_cons_of_ne_nil hne
    exact ⟨u, ds, rfl, hall u List.mem_cons_self⟩

theorem IsNumber.exists_cons {us : List UInt16} {n : Number} (h : IsNumber us n) :
    ∃ u ds, us = u :: ds ∧ (u = '-' ∨ Text.isDigit u = true) := by
  cases h with
  | positive number =>
    obtain ⟨integer, fraction, exponent⟩ := number
    obtain ⟨u, ds, rfl, hu⟩ := integer.exists_digit
    exact ⟨u, _, rfl, .inr hu⟩
  | negative number => exact ⟨unit '-', _, rfl, .inl rfl⟩

/-- A value starts with a unit that is neither blank nor a closing bracket. -/
theorem IsValue.exists_cons {us : List UInt16} {j : Json} (h : IsValue us j) :
    ∃ u ds, us = u :: ds ∧ Text.isBlank u = false ∧ u ≠ ']' := by
  cases h with
  | literalNull => exact ⟨unit 'n', _, rfl, rfl, by decide⟩
  | literalTrue => exact ⟨unit 't', _, rfl, rfl, by decide⟩
  | literalFalse => exact ⟨unit 'f', _, rfl, rfl, by decide⟩
  | number number =>
    obtain ⟨u, ds, rfl, hu⟩ := number.exists_cons
    rcases hu with rfl | hu
    · exact ⟨unit '-', ds, rfl, rfl, by decide⟩
    · refine ⟨u, ds, rfl, isBlank_digit hu, ?_⟩
      rintro rfl
      exact absurd hu (by decide)
  | string string =>
    cases string
    exact ⟨unit '"', _, rfl, rfl, by decide⟩
  | emptyArray space => exact ⟨unit '[', _, rfl, rfl, by decide⟩
  | array items => exact ⟨unit '[', _, rfl, rfl, by decide⟩
  | emptyObject space => exact ⟨unit '\x7b', _, rfl, rfl, by decide⟩
  | object members => exact ⟨unit '\x7b', _, rfl, rfl, by decide⟩

end Grammar

end TreeMerge
