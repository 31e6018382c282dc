import TreeMerge.Fault
import TreeMerge.NodeName

/-!
# Trees with numbered nodes

A tree lists its nodes in pre-order, so the root is node 0 and the subtree of a node is the range
of numbers that starts at the node. Each entry keeps the parent, the position among the siblings
and the measures of its subtree.

* `Entry`, `Node.layout` : one entry a node, in pre-order;
* `Tree`, `Tree.ofNode` : a syntax tree with its entries;
* `Tree.kind`, `Tree.parent?`, `Tree.children`, … : what is known of a node;
* `Tree.preOrder`, `Tree.postOrder`, `Tree.descendants`, `Tree.ancestors`, `Tree.contains` : ranges
  and paths;
* `Tree.locate` : the node that a name from outside names;
* `Tree.graft` : the tree with subtrees appended to the children of its nodes.
-/

namespace TreeMerge

/-- What a tree records of one node. -/
structure Entry where
  /-- The subtree of the node. -/
  node : Node
  parent : Option Nat
  /-- The position among the children of the parent, 0 for the root. -/
  index : Nat
  children : List Nat
  size : Nat
  height : Nat
  hash : UInt32

/-- The entry of a node with the given number. -/
def Entry.ofNode (parent : Option Nat) (index id : Nat) (n : Node) : Entry where
  node := n
  parent := parent
  index := index
  children := Rose.childIds (id + 1) n.children
  size := n.size
  height := n.height
  hash := Node.hash n

/-- What a tree knows of a number that is no node: nothing, an empty range. -/
def Entry.absent : Entry where
  node := .node ⟨"", ""⟩ []
  parent := none
  index := 0
  children := []
  size := 0
  height := 0
  hash := 0

mutual

/-- The entries of a subtree whose root has number `id`, in pre-order. -/
def Node.layout (parent : Option Nat) (index id : Nat) : Node → List Entry
  | .node c cs =>
    Entry.ofNode parent index id (.node c cs) :: Node.layoutAll id 0 (id + 1) cs

/-- The entries of the children of node `parent`, from position `index` and number `next` on. -/
def Node.layoutAll (parent index next : Nat) : List Node → List Entry
  | [] => []
  | c :: cs =>
    Node.layout (some parent) index next c ++ Node.layoutAll parent (index + 1) (next + c.size) cs

end

mutual

/-- The entries list the subtrees in pre-order. -/
theorem Node.map_node_layout (parent : Option Nat) (index id : Nat) :
    ∀ n : Node, (Node.layout parent index id n).map Entry.node = n.subtrees
  | .node c cs => by
    simp [Node.layout, Rose.subtrees, Node.map_node_layoutAll id 0 (id + 1) cs, Entry.ofNode]

theorem Node.map_node_layoutAll (parent index next : Nat) :
    ∀ ns : List Node, (Node.layoutAll parent index next ns).map Entry.node = Rose.subtreesAll ns
  | [] => rfl
  | c :: cs => by
    simp [Node.layoutAll, Rose.subtreesAll, Node.map_node_layout (some parent) index next c,
      Node.map_node_layoutAll parent (index + 1) (next + c.size) cs]

end

/-- A syntax tree with one entry for each node, in pre-order. -/
structure Tree where
  /-- The tree as a value. -/
  node : Node
  entries : Array Entry
  laidOut : entries.toList = Node.layout none 0 0 node

namespace Tree

/-- Number the nodes of a syntax tree. -/
def ofNode (n : Node) : Tree where
  node := n
  entries := (Node.layout none 0 0 n).toArray
  laidOut := by simp

/-- A tree is determined by its value. -/
theorem ext_node {t u : Tree} (h : t.node = u.node) : t = u := by
  obtain ⟨n, es, hl⟩ := t
  obtain ⟨m, fs, hm⟩ := u
  simp only at h
  subst h
  have : es = fs := Array.toList_inj.mp (hl.trans hm.symm)
  subst this
  rfl

@[simp] theorem node_ofNode (n : Node) : (ofNode n).node = n := rfl

@[simp] theorem ofNode_node (t : Tree) : ofNode t.node = t := ext_node rfl

/-! ## Nodes -/

/-- The root of every tree. -/
def root : Nat := 0

/-- The number of nodes. -/
def size (t : Tree) : Nat :=
  t.entries.size

theorem size_eq (t : Tree) : t.size = t.node.size := by
  rw [size, ← Array.length_toList, t.laidOut, ← Rose.length_subtrees,
    ← Node.map_node_layout none 0 0, List.length_map]

/-- Whether a number is a node of the tree. -/
def has (t : Tree) (id : Nat) : Bool :=
  id < t.size

/-- All nodes, in pre-order. -/
def ids (t : Tree) : List Nat :=
  List.range t.size

/-- The entry of a node, empty for a number that is none. -/
def entry (t : Tree) (id : Nat) : Entry :=
  t.entries[id]?.getD Entry.absent

/-- The subtree of a node. -/
def subtree (t : Tree) (id : Nat) : Node :=
  (t.entry id).node

/-- Kind and label of a node. -/
def content (t : Tree) (id : Nat) : Content :=
  (t.subtree id).value

/-- The kind of a node. -/
def kind (t : Tree) (id : Nat) : Text :=
  (t.content id).kind

/-- The label of a node. -/
def label (t : Tree) (id : Nat) : Text :=
  (t.content id).label

/-- The parent of a node, `none` for the root. -/
def parent? (t : Tree) (id : Nat) : Option Nat :=
  (t.entry id).parent

/-- The children of a node, in order. -/
def children (t : Tree) (id : Nat) : List Nat :=
  (t.entry id).children

/-- The position of a node among the children of its parent, 0 for the root. -/
def childIndex (t : Tree) (id : Nat) : Nat :=
  (t.entry id).index

/-- A node without a parent. -/
def isRoot (t : Tree) (id : Nat) : Bool :=
  (t.parent? id).isNone

/-- A node without children. -/
def isLeaf (t : Tree) (id : Nat) : Bool :=
  (t.children id).isEmpty

/-- The height of the subtree of a node; a leaf has height 1. -/
def height (t : Tree) (id : Nat) : Nat :=
  (t.entry id).height

/-- The number of nodes of the subtree of a node. -/
def subtreeSize (t : Tree) (id : Nat) : Nat :=
  (t.entry id).size

/-- The digest of the subtree of a node. -/
def hash (t : Tree) (id : Nat) : UInt32 :=
  (t.entry id).hash

/-! ## Ranges and paths -/

/-- The nodes of the subtree of a node, in pre-order. -/
def preOrder (t : Tree) (id : Nat) : List Nat :=
  List.range' id (t.subtreeSize id)

/-- The nodes of the subtree of a node, every node after those below it. -/
def postOrder (t : Tree) (id : Nat) : List Nat :=
  Rose.postOrder id (t.subtree id)

/-- The nodes strictly below a node, in pre-order. -/
def descendants (t : Tree) (id : Nat) : List Nat :=
  (t.preOrder id).tail

/-- Whether `ancestor` is `id` itself or lies above it. -/
def contains (t : Tree) (ancestor id : Nat) : Bool :=
  ancestor ≤ id && id < ancestor + t.subtreeSize ancestor

/-- The nodes met on the way up from `id`, in at most `fuel` steps. -/
def climb (t : Tree) : Nat → Nat → List Nat
  | 0, _ => []
  | fuel + 1, id =>
    match t.parent? id with
    | none => []
    | some p => p :: climb t fuel p

/-- The nodes strictly above a node, the nearest first. A parent has a smaller number than its
children, so no way up is longer than the number it starts from. -/
def ancestors (t : Tree) (id : Nat) : List Nat :=
  t.climb id id

/-! ## Comparison -/

/-- Structural identity of two subtrees, tried on their digests first. -/
def isomorphic (t : Tree) (a : Nat) (u : Tree) (b : Nat) : Bool :=
  t.hash a == u.hash b && Rose.same (t.subtree a) (u.subtree b)

/-! ## Names from outside -/

/-- The fault that a name is no node's. -/
def foreign (t : Tree) (name : Text) : Fault :=
  .notInTree name t.size

/-- The node that a name names, or the fault that it names none. -/
def locate {ν : Type} [NodeName ν] (t : Tree) (n : ν) : Except Fault Nat :=
  match NodeName.id? n with
  | some id => if t.has id then .ok id else .error (t.foreign (NodeName.text n))
  | none => .error (t.foreign (NodeName.text n))

/-- A natural number that is a node names it. -/
theorem locate_nat {t : Tree} {id : Nat} (h : t.has id) : t.locate id = .ok id := by
  simp [locate, h]

/-- `contains` for numbers from outside: a number below `ancestor` is not contained, whether or not
`ancestor` is a node. -/
def containsNumber (t : Tree) (ancestor n : Number) : Except Fault Bool :=
  if n.lt ancestor then .ok false
  else do
    let a ← t.locate ancestor
    return n.lt (.ofNat (a + t.subtreeSize a))

end Tree

/-! ## Grafting -/

mutual

/-- The subtree with root number `id`, with `extra` appended to the children of each node. -/
def Node.graft (extra : Nat → List Node) (id : Nat) : Node → Node
  | .node c cs => .node c (Node.graftAll extra (id + 1) cs ++ extra id)

/-- The same for sibling subtrees, the first of which has number `next`. -/
def Node.graftAll (extra : Nat → List Node) (next : Nat) : List Node → List Node
  | [] => []
  | c :: cs => Node.graft extra next c :: Node.graftAll extra (next + c.size) cs

end

/-- The tree with subtrees appended, in order, to the children of its nodes. -/
def Tree.graft (t : Tree) (extra : Nat → List Node) : Tree :=
  .ofNode (Node.graft extra Tree.root t.node)

end TreeMerge
