/-!
# Longest common subsequences

Two lists are compared under an arbitrary relation. A best pairing of two suffixes starts with
their first items if these are related; otherwise it is a best pairing with the first item of one
list left out, that of the first list where both choices are equally long.

* `commonCell` : a best pairing from those of the shorter suffixes;
* `commonRow` : the best pairings of one suffix of the first list with all of the second;
* `longestCommon` : a best pairing of two whole lists.
-/

namespace TreeMerge

variable {α β : Type}

/-- A best pairing of `x :: xs` and `y :: ys` from those of `xs` and `ys` (`diagonal`), of `xs` and
`y :: ys` (`below`) and of `x :: xs` and `ys` (`right`). -/
def commonCell (eq : α → β → Bool) (x : α) (y : β) (diagonal below right : List (α × β)) :
    List (α × β) :=
  if eq x y then (x, y) :: diagonal
  else if right.length ≤ below.length then below else right

/-- The best pairings of `x :: xs` with every suffix of `ys`, longest suffix first, from the row
`below` of `xs`. -/
def commonRow (eq : α → β → Bool) (x : α) : (ys : List β) → (below : List (List (α × β))) →
    List (List (α × β))
  | [], _ => [[]]
  | y :: ys, below =>
    let rest := commonRow eq x ys below.tail
    commonCell eq x y (below.tail.headD []) (below.headD []) (rest.headD []) :: rest

/-- The best pairings of `xs` with every suffix of `ys`, longest suffix first. -/
def commonRows (eq : α → β → Bool) (ys : List β) : List α → List (List (α × β))
  | [] => List.replicate (ys.length + 1) []
  | x :: xs => commonRow eq x ys (commonRows eq ys xs)

/-- A longest list of related pairs at increasing positions of both lists. -/
def longestCommon (eq : α → β → Bool) (xs : List α) (ys : List β) : List (α × β) :=
  (commonRows eq ys xs).headD []

end TreeMerge
