import TreeMerge.Matching.Mapping
import TreeMerge.Tree.Basic

/-!
# Free subtrees and their twins

* `isFree` : no node of a subtree is linked;
* `isTall` : a subtree reaches the least height that is matched as a whole;
* `freeTwins` : the free subtrees of a tree that are identical to a given one, found through their
  digests;
* `linkSubtrees` : link two subtrees node by node.
-/

namespace TreeMerge

/-- No node of the subtree is linked. -/
def isFree (t : Tree) (linked : Nat → Bool) (id : Nat) : Bool :=
  (t.preOrder id).all fun n => !linked n

/-- The subtree has at least the given height. -/
def isTall (minHeight : Rat) (t : Tree) (id : Nat) : Bool :=
  minHeight ≤ (t.height id : Rat)

/-- The nodes with a tall subtree of the given digest, in pre-order. -/
def bucket (minHeight : Rat) (t : Tree) (h : UInt32) : List Nat :=
  t.ids.filter fun id => isTall minHeight t id && t.hash id == h

/-- The nodes of `t` whose subtree is free and identical to that of node `s` of `src`. -/
def freeTwins (minHeight : Rat) (src : Tree) (s : Nat) (t : Tree) (linked : Nat → Bool) :
    List Nat :=
  (bucket minHeight t (src.hash s)).filter fun id =>
    isFree t linked id && src.isomorphic s t id

/-- Link two subtrees node by node, in pre-order. -/
def linkSubtrees (src : Tree) (s : Nat) (dst : Tree) (d : Nat) (m : Mapping Nat) :
    Except Fault (Mapping Nat) :=
  m.linkAll ((src.preOrder s).zip (dst.preOrder d))

end TreeMerge
