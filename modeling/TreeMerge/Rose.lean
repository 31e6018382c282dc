/-!
# Rose trees

A value with an ordered list of subtrees below it. Nodes are numbered in pre-order, so a subtree
occupies a contiguous range of numbers that starts at its root.

* `Rose.size`, `Rose.height` : number of nodes, longest downward path;
* `Rose.subtrees`, `Rose.preorder` : all subtrees, all values, in pre-order;
* `Rose.map` : the same shape with other values;
* `Rose.same` : equality, decided node by node;
* `Rose.postOrder` : the numbers of the nodes, children before their parent.
-/

namespace TreeMerge

/-- A value with an ordered list of subtrees below it. -/
inductive Rose (α : Type) where
  | node (value : α) (children : List (Rose α))
  deriving Inhabited

namespace Rose

variable {α β : Type}

/-- The value at the root. -/
def value : Rose α → α
  | node a _ => a

/-- The subtrees directly below the root. -/
def children : Rose α → List (Rose α)
  | node _ cs => cs

/-- A tree of one node. -/
def isLeaf (t : Rose α) : Bool :=
  t.children.isEmpty

@[simp] theorem value_node (a : α) (cs : List (Rose α)) : (node a cs).value = a := rfl

@[simp] theorem children_node (a : α) (cs : List (Rose α)) : (node a cs).children = cs := rfl

/-! ## Measures -/

mutual

/-- The number of nodes. -/
def size : Rose α → Nat
  | node _ cs => sizeAll cs + 1

/-- The number of nodes of a list of trees. -/
def sizeAll : List (Rose α) → Nat
  | [] => 0
  | c :: cs => c.size + sizeAll cs

end

mutual

/-- The number of nodes on a longest path down from the root; a leaf has height 1. -/
def height : Rose α → Nat
  | node _ cs => heightAll cs + 1

/-- The largest height in a list of trees, 0 for the empty list. -/
def heightAll : List (Rose α) → Nat
  | [] => 0
  | c :: cs => max c.height (heightAll cs)

end

theorem size_pos (t : Rose α) : 0 < t.size := by
  cases t; simp [size]

theorem height_pos (t : Rose α) : 0 < t.height := by
  cases t; simp [height]

/-! ## Pre-order -/

mutual

/-- All subtrees in pre-order, the tree itself first. -/
def subtrees : Rose α → List (Rose α)
  | node a cs => node a cs :: subtreesAll cs

/-- All subtrees of a list of trees, one tree after the other. -/
def subtreesAll : List (Rose α) → List (Rose α)
  | [] => []
  | c :: cs => c.subtrees ++ subtreesAll cs

end

mutual

/-- There are as many subtrees as nodes. -/
theorem length_subtrees : ∀ t : Rose α, t.subtrees.length = t.size
  | node a cs => by simp [subtrees, size, length_subtreesAll cs]

theorem length_subtreesAll : ∀ ts : List (Rose α), (subtreesAll ts).length = sizeAll ts
  | [] => rfl
  | c :: cs => by simp [subtreesAll, sizeAll, length_subtrees c, length_subtreesAll cs]

end

/-- All values in pre-order. -/
def preorder (t : Rose α) : List α :=
  t.subtrees.map value

/-! ## Mapping -/

mutual

/-- Apply `f` to every value. -/
def map (f : α → β) : Rose α → Rose β
  | node a cs => node (f a) (mapAll f cs)

/-- Apply `f` to every value of a list of trees. -/
def mapAll (f : α → β) : List (Rose α) → List (Rose β)
  | [] => []
  | c :: cs => c.map f :: mapAll f cs

end

theorem mapAll_eq_map (f : α → β) (ts : List (Rose α)) : mapAll f ts = ts.map (map f) := by
  induction ts with
  | nil => rfl
  | cons c cs ih => simp [mapAll, ih]

/-! ## Equality -/

mutual

/-- Same value at the root and the same list of subtrees below it. -/
def same [DecidableEq α] : Rose α → Rose α → Bool
  | node a cs, node b ds => decide (a = b) && sameAll cs ds

/-- The same trees in the same order. -/
def sameAll [DecidableEq α] : List (Rose α) → List (Rose α) → Bool
  | [], [] => true
  | c :: cs, d :: ds => c.same d && sameAll cs ds
  | _, _ => false

end

mutual

/-- `same` decides equality. -/
theorem same_iff [DecidableEq α] : ∀ t u : Rose α, t.same u = true ↔ t = u
  | node a cs, node b ds => by simp [same, sameAll_iff cs ds]

theorem sameAll_iff [DecidableEq α] : ∀ ts us : List (Rose α), sameAll ts us = true ↔ ts = us
  | [], [] => by simp [sameAll]
  | [], _ :: _ => by simp [sameAll]
  | _ :: _, [] => by simp [sameAll]
  | c :: cs, d :: ds => by simp [sameAll, same_iff c d, sameAll_iff cs ds]

end

instance [DecidableEq α] : DecidableEq (Rose α) := fun t u =>
  decidable_of_iff (t.same u = true) (same_iff t u)

/-! ## Numbers of nodes -/

/-- The numbers of sibling subtrees, the first of which has number `next`. -/
def childIds (next : Nat) : List (Rose α) → List Nat
  | [] => []
  | c :: cs => next :: childIds (next + c.size) cs

mutual

/-- The numbers of the nodes of a tree whose root has number `id`, children before parents. -/
def postOrder (id : Nat) : Rose α → List Nat
  | node _ cs => postOrderAll (id + 1) cs ++ [id]

/-- The same for sibling subtrees, the first of which has number `next`. -/
def postOrderAll (next : Nat) : List (Rose α) → List Nat
  | [] => []
  | c :: cs => c.postOrder next ++ postOrderAll (next + c.size) cs

end

end Rose

end TreeMerge
