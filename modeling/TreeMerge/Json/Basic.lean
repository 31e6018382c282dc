import TreeMerge.Number.Decimal
import TreeMerge.Table
import TreeMerge.Text.Basic

/-!
# JSON values

* `Json` : the values, objects being lists of members;
* `Json.ofMembers` : the object of a list of members, where a repeated key keeps its first place
  and its last value, and the keys that are array indices come first, in ascending order;
* `Json.member` : a member that may be missing;
* `Json.kind` : the name of a value's kind;
* `Json.plainText?` : a value as bare text, if it has one;
* `Json.isVoid` : values that stand for nothing.
-/

namespace TreeMerge

/-- A JSON value. -/
inductive Json where
  | null
  | bool (b : Bool)
  | num (n : Number)
  | str (s : Text)
  | arr (items : List Json)
  | obj (members : List (Text × Json))
  deriving Inhabited

namespace Json

/-- A natural number. -/
def nat (n : Nat) : Json :=
  .num (.ofNat n)

/-- A value, or `null` where there is none. -/
def ofOption : Option Json → Json
  | none => .null
  | some j => j

/-- A text, or `null` where there is none. -/
def ofText? (s : Option Text) : Json :=
  ofOption (s.map .str)

/-! ## Objects -/

/-- One more than the largest array index, the largest number of 32 binary digits. -/
def indexLimit : Nat := 4294967295

/-- The number that a key spells as an array index: decimal digits without a leading zero, below the
limit. -/
def indexOf? (key : Text) : Option Nat :=
  let n := Text.digitsValue key.units
  if !key.isEmpty && key.units.all Text.isDigit && (Nat.repr n : Text) == key && n < indexLimit then
    some n
  else none

/-- Array indices first, in ascending order, then the other keys in their given order. -/
def arrange (members : List (Text × Json)) : List (Text × Json) :=
  let indexed := members.filter fun m => (indexOf? m.1).isSome
  let named := members.filter fun m => (indexOf? m.1).isNone
  indexed.mergeSort (fun a b => (indexOf? a.1).getD 0 ≤ (indexOf? b.1).getD 0) ++ named

/-- The object of a list of members in document order. -/
def ofMembers (members : List (Text × Json)) : Json :=
  .obj (arrange (Table.putAll [] members))

/-- A member, if there is a value for it. -/
def member (key : Text) (value : Option Json) : List (Text × Json) :=
  (value.map (key, ·)).toList

@[simp] theorem member_none (key : Text) : member key none = [] := rfl

@[simp] theorem member_some (key : Text) (j : Json) : member key (some j) = [(key, j)] := rfl

/-- The members of an object; other values have none. -/
def members : Json → List (Text × Json)
  | .obj ms => ms
  | _ => []

/-- The value of a key of an object. -/
def get? (j : Json) (key : Text) : Option Json :=
  Table.get? j.members key

/-- The items of an array; other values have none. -/
def items : Json → List Json
  | .arr xs => xs
  | _ => []

/-! ## Views -/

/-- The text of a string value. -/
def str? : Json → Option Text
  | .str s => some s
  | _ => none

/-- The number of a number value. -/
def num? : Json → Option Number
  | .num n => some n
  | _ => none

/-- The name of a value's kind. -/
def kind : Json → Text
  | .null => "null"
  | .bool _ => "boolean"
  | .num _ => "number"
  | .str _ => "string"
  | .arr _ => "array"
  | .obj _ => "object"

/-- The key under which an object may put something else in the place of its text. -/
def textKey : Text := "toString"

mutual

/-- A value as bare text: strings without quotes, arrays joined by commas with nothing for `null`
inside them, and one fixed text for every object, unless it has put something else in its place. -/
def plainText? : Json → Option Text
  | .null => some "null"
  | .bool b => some (if b then "true" else "false")
  | .num n => some n.text
  | .str s => some s
  | .arr xs => (plainItems? xs).map (Text.intercalate "," ·)
  | .obj ms => if ms.any fun m => m.1 == textKey then none else some "[object Object]"

/-- The items of an array as bare text. -/
def plainItems? : List Json → Option (List Text)
  | [] => some []
  | .null :: xs => (plainItems? xs).map ("" :: ·)
  | x :: xs => x.plainText?.bind fun t => (plainItems? xs).map (t :: ·)

end

/-- A value that stands for nothing: `null`, `false`, zero or the empty text. -/
def isVoid : Json → Bool
  | .null => true
  | .bool b => !b
  | .num n => n == .ofNat 0
  | .str s => s.isEmpty
  | .arr _ | .obj _ => false

end Json

end TreeMerge
