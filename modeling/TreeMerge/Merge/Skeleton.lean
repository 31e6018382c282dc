import TreeMerge.Rose

/-!
# Pruning a tree

The part of a tree that a merge keeps: a node stands where it stood among the kept children of its
parent, and a node that is not kept takes its subtree with it.

* `placeAt` : insert an item at a position, at the end if there is no such position;
* `Rose.prune` : the kept part of a tree, with a new value at each node.
-/

namespace TreeMerge

variable {α β : Type}

/-- Insert an item at a position; a position that is negative or past the end appends it. -/
def placeAt (list : List α) (item : α) (index : Int) : List α :=
  if index < 0 || list.length ≤ index then list ++ [item]
  else list.take index.toNat ++ item :: list.drop index.toNat

namespace Rose

mutual

/-- The kept part of a tree whose root has number `id`: `pick` gives the value of a kept node, and
`none` for one that is left out with all below it. -/
def prune (pick : Nat → Option β) (id : Nat) : Rose α → Option (Rose β)
  | node _ cs => (pick id).map fun b => node b (pruneAll pick (id + 1) 0 cs [])

/-- The kept parts of the children from position `index` and number `next` on, placed among those
before them at their positions in the whole tree. -/
def pruneAll (pick : Nat → Option β) (next index : Nat) : List (Rose α) → List (Rose β) →
    List (Rose β)
  | [], placed => placed
  | c :: cs, placed =>
    pruneAll pick (next + c.size) (index + 1) cs <|
      match prune pick next c with
      | some kept => placeAt placed kept index
      | none => placed

end

end Rose

end TreeMerge
