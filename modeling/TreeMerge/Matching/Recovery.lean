import TreeMerge.Matching.CommonSubsequence
import TreeMerge.Matching.Twins

/-!
# Matching the children of linked nodes

Under a linked pair, the children that are not linked yet are paired in three rounds: identical
subtrees along a longest common subsequence, then equal content along another one, then kinds that
occur once on either side. The pairs of the last two rounds are treated in the same way in turn.

* `openChildren` : the children without a counterpart;
* `soleOfKind?` : the partner of a child whose kind occurs once on either side;
* `recover` : the three rounds.
-/

namespace TreeMerge

/-- The children of a node that are not linked. -/
def openChildren (t : Tree) (linked : Nat → Bool) (id : Nat) : List Nat :=
  (t.children id).filter fun c => !linked c

/-- The number of nodes of a kind. -/
def countKind (t : Tree) (ids : List Nat) (kind : Text) : Nat :=
  (ids.filter fun id => t.kind id == kind).length

/-- The node of the same kind as `a` among `ds`, if the kind occurs once among `ss` and once among
`ds`. -/
def soleOfKind? (src : Tree) (ss : List Nat) (dst : Tree) (ds : List Nat) (a : Nat) : Option Nat :=
  let kind := src.kind a
  if countKind src ss kind == 1 && countKind dst ds kind == 1 then
    ds.find? fun d => dst.kind d == kind
  else none

/-- Free identical subtrees. -/
def freeAndSame (src dst : Tree) (m : Mapping Nat) (a b : Nat) : Bool :=
  isFree src m.hasSrc a && isFree dst m.hasDst b && src.isomorphic a dst b

/-- Equal kind and label. -/
def sameContent (src dst : Tree) (a b : Nat) : Bool :=
  decide (src.content a = dst.content b)

/-- Pair the open children of the linked nodes `s` and `d`, at most `fuel` levels down. -/
def recover (src dst : Tree) : (fuel : Nat) → (s d : Nat) → Mapping Nat → Except Fault (Mapping Nat)
  | 0, _, _, m => .ok m
  | fuel + 1, s, d, m => do
    let twins := longestCommon (freeAndSame src dst m) (openChildren src m.hasSrc s)
      (openChildren dst m.hasDst d)
    let m ← twins.foldlM (fun m p => linkSubtrees src p.1 dst p.2 m) m
    let equals := longestCommon (sameContent src dst) (openChildren src m.hasSrc s)
      (openChildren dst m.hasDst d)
    let m ← equals.foldlM (fun m p => do recover src dst fuel p.1 p.2 (← m.link p.1 p.2)) m
    let ss := openChildren src m.hasSrc s
    let ds := openChildren dst m.hasDst d
    ss.foldlM (fun m a =>
      match soleOfKind? src ss dst ds a with
      | some b => do recover src dst fuel a b (← m.link a b)
      | none => .ok m) m

/-- Pair the open children of two linked nodes, and so on down. The levels below a node are as many
as its height. -/
def recoverBelow (src dst : Tree) (s d : Nat) (m : Mapping Nat) : Except Fault (Mapping Nat) :=
  recover src dst (src.height s) s d m

end TreeMerge
