import TreeMerge.Matching.Twins
import TreeMerge.Number.Binary64

/-!
# Matching from the top down

Identical subtrees are linked as wholes, tallest first. A free subtree with exactly one free twin on
either side is linked at once; all pairs of the others are ranked together and linked in that order
while both sides are free.

* `tallestFirst` : the order in which source nodes are visited;
* `Settling`, `settleUnique` : the first pass;
* `TwinPair`, `TwinPair.precedes` : ambiguous pairs and their ranking;
* `topDown` : both passes.
-/

namespace TreeMerge

/-- How the results of divisions and differences are rounded. -/
abbrev Rounding := Rat → Rat

/-- The tall subtrees of a tree, tallest first, in pre-order among equals. -/
def tallestFirst (minHeight : Rat) (t : Tree) : List Nat :=
  (t.ids.filter (isTall minHeight t)).mergeSort fun a b =>
    t.height b < t.height a || (t.height a == t.height b && a ≤ b)

/-! ## Unique twins -/

/-- What the first pass has linked, and the pairs it has left open. -/
structure Settling where
  mapping : Mapping Nat := .empty
  ambiguous : List (Nat × Nat) := []

/-- Link a source subtree whose twin is unique on both sides, or keep all its pairs. -/
def settleUnique (minHeight : Rat) (src dst : Tree) (st : Settling) (s : Nat) :
    Except Fault Settling :=
  if !isFree src st.mapping.hasSrc s then .ok st
  else
    match freeTwins minHeight src s dst st.mapping.hasDst with
    | [] => .ok st
    | [d] =>
      if (freeTwins minHeight src s src st.mapping.hasSrc).length == 1 then do
        let mapping ← linkSubtrees src s dst d st.mapping
        return { st with mapping }
      else .ok { st with ambiguous := st.ambiguous ++ [(s, d)] }
    | ds => .ok { st with ambiguous := st.ambiguous ++ ds.map fun d => (s, d) }

/-! ## Ambiguous twins -/

/-- An ambiguous pair with what it is ranked by. -/
structure TwinPair where
  src : Nat
  dst : Nat
  height : Nat
  /-- 0 if both have a parent and the parents have the same content, else 1. -/
  parentMiss : Nat
  /-- How far apart the two stand, relative to the sizes of their trees. -/
  distance : Rat

namespace TwinPair

/-- Whether the parents of two nodes exist and have the same content. -/
def sameParents (src : Tree) (s : Nat) (dst : Tree) (d : Nat) : Bool :=
  match src.parent? s, dst.parent? d with
  | some p, some q => decide (src.content p = dst.content q)
  | _, _ => false

/-- The relative distance of two nodes, every step rounded. -/
def relativeDistance (round : Rounding) (src : Tree) (s : Nat) (dst : Tree) (d : Nat) : Rat :=
  (round (round ((s : Rat) / src.size) - round ((d : Rat) / dst.size))).abs

/-- The pair of two nodes. -/
def ofNodes (round : Rounding) (src dst : Tree) (p : Nat × Nat) : TwinPair where
  src := p.1
  dst := p.2
  height := src.height p.1
  parentMiss := if sameParents src p.1 dst p.2 then 0 else 1
  distance := relativeDistance round src p.1 dst p.2

/-- The ranking: taller, then parents of the same content, then nearer, then smaller numbers. -/
def precedes (a b : TwinPair) : Bool :=
  if a.height ≠ b.height then b.height < a.height
  else if a.parentMiss ≠ b.parentMiss then a.parentMiss < b.parentMiss
  else if a.distance ≠ b.distance then a.distance < b.distance
  else if a.src ≠ b.src then a.src < b.src
  else a.dst ≤ b.dst

end TwinPair

/-- Link a pair if both its subtrees are still free. -/
def settlePair (src dst : Tree) (m : Mapping Nat) (p : TwinPair) : Except Fault (Mapping Nat) :=
  if isFree src m.hasSrc p.src && isFree dst m.hasDst p.dst then
    linkSubtrees src p.src dst p.dst m
  else .ok m

/-- Rank pairs. -/
def rankPairs (round : Rounding) (src dst : Tree) (pairs : List (Nat × Nat)) : List TwinPair :=
  (pairs.map (TwinPair.ofNodes round src dst)).mergeSort TwinPair.precedes

/-- Match identical subtrees of at least the given height. -/
def topDown (round : Rounding) (minHeight : Rat) (src dst : Tree) : Except Fault (Mapping Nat) := do
  let st ← (tallestFirst minHeight src).foldlM (settleUnique minHeight src dst) {}
  (rankPairs round src dst st.ambiguous).foldlM (settlePair src dst) st.mapping

end TreeMerge
