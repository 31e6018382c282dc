import TreeMerge.Json.Basic

/-!
# Checking JSON values

A check looks at one field, which may be missing, and lists what is wrong with it. The fields of an
object are checked in their declared order, each before the next, and the unknown keys come last.

* `Problem`, `Problem.message` : what can be wrong, and its wording;
* `Issue` : a problem with the path to it;
* `Check` and its combinators.
-/

namespace TreeMerge

/-- What can be wrong with a value. -/
inductive Problem where
  | required
  | wrongKind (expected received : Text)
  | tooShort
  | unknownKeys (keys : List Text)
  | notListed (options : List Text) (received : Text)
  | notInteger
  | below (least : Nat)
  | above (most : Nat)

/-- A name between single quotation marks. -/
def quoted (name : Text) : Text :=
  "'" ++ name ++ "'"

/-- The names one may choose from. -/
def alternatives (names : List Text) : Text :=
  Text.intercalate " | " (names.map quoted)

/-- The wording of a problem. -/
def Problem.message : Problem → Text
  | .required => "Required"
  | .wrongKind expected received => "Expected " ++ expected ++ ", received " ++ received
  | .tooShort => "String must contain at least 1 character(s)"
  | .unknownKeys keys =>
    "Unrecognized key(s) in object: " ++ Text.intercalate ", " (keys.map quoted)
  | .notListed options received =>
    "Invalid enum value. Expected " ++ alternatives options ++ ", received " ++ quoted received
  | .notInteger => "Expected integer, received float"
  | .below least => "Number must be greater than or equal to " ++ Nat.repr least
  | .above most => "Number must be less than or equal to " ++ Nat.repr most

/-- A problem and the keys that lead to it from the checked value. -/
structure Issue where
  path : List Text
  problem : Problem

namespace Issue

/-- A problem of the checked value itself. -/
def here (p : Problem) : Issue :=
  ⟨[], p⟩

/-- The same problem seen from an object or array that holds the value under `key`. -/
def under (key : Text) (i : Issue) : Issue :=
  ⟨key :: i.path, i.problem⟩

/-- The path, its parts joined by points. -/
def location (i : Issue) : Text :=
  Text.intercalate "." i.path

/-- The wording of the problem. -/
def message (i : Issue) : Text :=
  i.problem.message

end Issue

/-- What is wrong with a field; `none` stands for a missing one. -/
abbrev Check := Option Json → List Issue

namespace Check

/-- A field that may be missing. -/
def optional (c : Check) : Check
  | none => []
  | some j => c (some j)

/-- A string. -/
def string : Check
  | none => [.here .required]
  | some (.str _) => []
  | some j => [.here (.wrongKind "string" j.kind)]

/-- A string that is not empty. -/
def nonEmpty : Check
  | some (.str s) => if s.isEmpty then [.here .tooShort] else []
  | j => string j

/-- One of the given names. -/
def oneOf (names : List Text) : Check
  | none => [.here .required]
  | some (.str s) => if names.contains s then [] else [.here (.notListed names s)]
  | some j => [.here (.wrongKind (alternatives names) j.kind)]

/-- A number that passes all the given tests. -/
def number (tests : List (Number → Option Problem)) : Check
  | none => [.here .required]
  | some (.num n) => tests.filterMap fun test => (test n).map .here
  | some j => [.here (.wrongKind "number" j.kind)]

/-- An integer. -/
def integer (n : Number) : Option Problem :=
  if n.isInteger then none else some .notInteger

/-- A number not below `least`. -/
def atLeast (least : Nat) (n : Number) : Option Problem :=
  if n.lt (.ofNat least) then some (.below least) else none

/-- A number not above `most`. -/
def atMost (most : Nat) (n : Number) : Option Problem :=
  if (Number.ofNat most).lt n then some (.above most) else none

/-- The problems of the declared fields, in their order. -/
def fieldIssues (fields : List (Text × Check)) (members : List (Text × Json)) : List Issue :=
  fields.flatMap fun (key, check) => (check (Table.get? members key)).map (.under key)

/-- The keys that no field declares. -/
def unknownKeys (names : List Text) (members : List (Text × Json)) : List Issue :=
  match (members.map Prod.fst).filter fun key => !names.contains key with
  | [] => []
  | keys => [.here (.unknownKeys keys)]

/-- An object with the given fields and no other keys. -/
def strictObject (fields : List (Text × Check)) : Check
  | none => [.here .required]
  | some (.obj ms) => fieldIssues fields ms ++ unknownKeys (fields.map Prod.fst) ms
  | some j => [.here (.wrongKind "object" j.kind)]

/-- An object with the given fields; other keys are ignored. -/
def openObject (fields : List (Text × Check)) : Check
  | none => [.here .required]
  | some (.obj ms) => fieldIssues fields ms
  | some j => [.here (.wrongKind "object" j.kind)]

end Check

end TreeMerge
