import TreeMerge.Text.Cut

/-!
# Suggestions for misspelt names

* `editDistance` : how many edits turn one word into another, where an edit inserts, deletes or
  replaces one unit or swaps two neighbours, and no part is edited twice;
* `similarNames` : the names nearest to a word;
* `suggestion` : the line that offers them.
-/

namespace TreeMerge

/-! ## Distance -/

/-- The rest of a row of the table of distances. The row belongs to the unit `y` of the second word,
whose unit before is `x`; the list runs over the first word, whose unit before is `p`. `left` is the
entry before, `above` the row before from there on, and `before` the row before that, one entry
behind. -/
def distanceRow (x : Option UInt16) (y : UInt16) :
    List UInt16 → (p : Option UInt16) → (left : Nat) → (above before : List Nat) → List Nat
  | c :: cs, p, left, d :: u :: us, before =>
    let edited := min (min (left + 1) (u + 1)) (if c = y then d else d + 1)
    let swapped :=
      match before with
      | t :: _ => if x = some c && p = some y then min edited (t + 1) else edited
      | [] => edited
    let before := if p.isSome then before.tail else before
    swapped :: distanceRow x y cs (some c) swapped (u :: us) before
  | _, _, _, _, _ => []

/-- The last row of the table of distances: `count` rows are done, the last two of them are `above`
and `before`, and `x` is the unit that `above` belongs to. -/
def distanceRows (a : List UInt16) : (b : List UInt16) → (x : Option UInt16) → (count : Nat) →
    (above before : List Nat) → List Nat
  | [], _, _, above, _ => above
  | y :: ys, x, count, above, before =>
    let row := (count + 1) :: distanceRow x y a none (count + 1) above before
    distanceRows a ys (some y) (count + 1) row above

/-- The number of edits that turn `a` into `b`. -/
def editDistance (a b : List UInt16) : Nat :=
  (distanceRows a b none 0 (List.range (a.length + 1)) []).getLast?.getD 0

/-! ## Similar names -/

/-- The most edits that a suggestion may be away. -/
def farthest : Nat := 3

/-- The distance of two words; words of very different lengths are as far apart as can be. -/
def nameDistance (a b : List UInt16) : Nat :=
  if farthest < a.length - b.length || farthest < b.length - a.length then max a.length b.length
  else editDistance a b

/-- Whether a name is similar to a word: more than two fifths of the longer one stay. -/
def isSimilar (word name : List UInt16) : Bool :=
  let length := max word.length name.length
  4 * length < 10 * (length - nameDistance word name)

/-- The similar names at the least distance, in order. A name of one unit is never suggested. -/
def similarNames (word : Text) (names : List Text) : List Text :=
  let distance := fun name : Text =>
    nameDistance word.units name.units
  let near := names.eraseDups.filter fun name =>
    1 < name.units.length && isSimilar word.units name.units && distance name ≤ farthest
  let least := (near.map distance).foldl min farthest
  (near.filter fun name => distance name == least).mergeSort fun a b => a.units ≤ b.units

/-- The names that may be offered for a word. Options are compared without their two dashes. -/
def offers (word : Text) (names : List Text) : List Text :=
  match Text.after? (Text.units "--") word.units with
  | none => similarNames word names
  | some rest =>
    let bare := names.map fun name => Text.mk (name.units.drop 2)
    (similarNames ⟨rest⟩ bare).map fun name => "--" ++ name

/-- A line that offers the names nearest to a misspelt one, if there are any. -/
def suggestion (word : Text) (names : List Text) : Text :=
  match offers word names with
  | [] => ""
  | [name] => "\n(Did you mean " ++ name ++ "?)"
  | several => "\n(Did you mean one of " ++ Text.intercalate ", " several ++ "?)"

example : suggestion "--fromat" ["--format", "--lang"] = "\n(Did you mean --format?)" := by
  decide +kernel
example : suggestion "--zzzzzzzz" ["--format", "--lang"] = "" := by decide +kernel

end TreeMerge
