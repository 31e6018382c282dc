import TreeMerge.Matching.Recovery
import TreeMerge.Matching.TopDown

/-!
# Matching from the bottom up

Source nodes are visited after those below them. An inner node without a counterpart goes to the
node of its kind that shares the most linked descendants with it, if it shares enough of them; roots
of equal kind always go together. Recovery runs under every pair found here.

* `sharedCount`, `dice` : how much two nodes share;
* `bottomUpCandidates` : the nodes that share anything;
* `bestCandidate?` : the one that shares the most, the first of several;
* `bottomUp` : the whole pass.
-/

namespace TreeMerge

/-- How many nodes below `s` have their counterpart below `d`. -/
def sharedCount (src : Tree) (s : Nat) (dst : Tree) (d : Nat) (m : Mapping Nat) : Nat :=
  ((src.descendants s).filter fun n =>
    match m.dst? n with
    | some e => e != d && dst.contains d e
    | none => false).length

/-- Twice the shared descendants over all descendants of both, 0 for two leaves. -/
def dice (round : Rounding) (src : Tree) (s : Nat) (dst : Tree) (d : Nat) (m : Mapping Nat) : Rat :=
  let all := (src.descendants s).length + (dst.subtreeSize d - 1)
  if all = 0 then 0 else round ((2 * sharedCount src s dst d m : Nat) / (all : Rat))

/-- The nodes above the counterparts of the descendants of `s` that are of the same kind, have no
counterpart and are not the root, in increasing order. -/
def bottomUpCandidates (src : Tree) (s : Nat) (dst : Tree) (m : Mapping Nat) : List Nat :=
  let above := ((src.descendants s).filterMap m.dst?).flatMap dst.ancestors
  let found := above.filter fun a =>
    !dst.isRoot a && dst.kind a == src.kind s && !m.hasDst a
  found.eraseDups.mergeSort fun a b => a ≤ b

/-- The first candidate with the highest score. -/
def bestCandidate? (score : Nat → Rat) : List Nat → Option (Nat × Rat)
  | ds => ds.foldl (fun best d =>
      match best with
      | none => some (d, score d)
      | some (_, top) => if top < score d then some (d, score d) else best) none

/-- Give the source root and what is below it a counterpart if its kind is that of the destination
root. -/
def settleRoots (src dst : Tree) (s : Nat) (m : Mapping Nat) : Except Fault (Mapping Nat) := do
  let joinable := !m.hasSrc s && !m.hasDst Tree.root && src.kind s == dst.kind Tree.root
  let m ← if joinable then m.link s Tree.root else .ok m
  if m.dst? s = some Tree.root then recoverBelow src dst s Tree.root m else .ok m

/-- Give one source node a counterpart. -/
def settleNode (round : Rounding) (minDice : Rat) (src dst : Tree) (m : Mapping Nat) (s : Nat) :
    Except Fault (Mapping Nat) :=
  if src.isRoot s then settleRoots src dst s m
  else if m.hasSrc s || src.isLeaf s then .ok m
  else
    match bestCandidate? (fun d => dice round src s dst d m) (bottomUpCandidates src s dst m) with
    | some (d, score) =>
      if minDice ≤ score then do recoverBelow src dst s d (← m.link s d) else .ok m
    | none => .ok m

/-- Visit all source nodes, children before parents. -/
def bottomUp (round : Rounding) (minDice : Rat) (src dst : Tree) (m : Mapping Nat) :
    Except Fault (Mapping Nat) :=
  (src.postOrder Tree.root).foldlM (settleNode round minDice src dst) m

end TreeMerge
