import TreeMerge.Rose
import TreeMerge.Text.Basic

/-!
# Syntax tree nodes

A node has a kind and a label; a label is the text of a token and is empty on most inner nodes.

* `Content`, `Node` : a node without and with what is below it;
* `Node.hash` : a 32-bit digest of kinds, labels and shape;
* `Description`, `Spec` : a node as a document describes it, where a label or a list of children may
  be left out;
* `Spec.toNode`, `Node.toSpec` : the described node, and the shortest description of a node.
-/

namespace TreeMerge

/-- A node without its children. -/
structure Content where
  kind : Text
  label : Text
  deriving DecidableEq, Inhabited, Repr

/-- A syntax tree as a value. -/
abbrev Node := Rose Content

namespace Node

/-- The kind of the root. -/
def kind (n : Node) : Text := n.value.kind

/-- The label of the root. -/
def label (n : Node) : Text := n.value.label

/-! ## Hash -/

/-- The start value of a digest. -/
def hashStart : UInt32 := 0x811c9dc5

/-- The factor of every digest step. -/
def hashFactor : UInt32 := 0x01000193

/-- Absorb a text, one unit at a time. -/
def absorbText (h : UInt32) (t : Text) : UInt32 :=
  t.units.foldl (fun h u => (h ^^^ u.toUInt32) * hashFactor) h

/-- Absorb a word. -/
def absorbWord (h w : UInt32) : UInt32 :=
  let h := (h ^^^ w) * hashFactor
  h ^^^ (h >>> 15)

mutual

/-- The digest of kind, label, the digests of the children in order, and their number. -/
def hash : Node → UInt32
  | .node c cs =>
    let h := absorbText (absorbText (absorbText hashStart c.kind) "\x00") c.label
    absorbWord (hashAll h cs) (UInt32.ofNat cs.length)

/-- Absorb the digests of a list of trees. -/
def hashAll (h : UInt32) : List Node → UInt32
  | [] => h
  | c :: cs => hashAll (absorbWord h (Node.hash c)) cs

end

/-- Structural identity, tried on the digests first. -/
def isomorphic (a b : Node) : Bool :=
  Node.hash a == Node.hash b && Rose.same a b

/-- The digests never change the answer. -/
theorem isomorphic_iff (a b : Node) : isomorphic a b = true ↔ a = b := by
  simp only [isomorphic, Bool.and_eq_true, beq_iff_eq, Rose.same_iff]
  exact ⟨fun h => h.2, fun h => ⟨congrArg Node.hash h, h⟩⟩

/-! ## Leaves -/

/-- The labels of the leaves, in order. -/
def leafLabels (n : Node) : List Text :=
  (n.subtrees.filter Rose.isLeaf).map Node.label

end Node

/-! ## Descriptions -/

/-- A node as a document describes it. -/
structure Description where
  kind : Text
  /-- The label, if one is given. -/
  label : Option Text
  /-- Whether a list of children is given; on a node with children it is. -/
  listsChildren : Bool
  deriving DecidableEq, Inhabited

/-- A tree as a document describes it. -/
abbrev Spec := Rose Description

/-- The described content: a label that is left out is empty. -/
def Description.content (d : Description) : Content :=
  ⟨d.kind, d.label.getD ""⟩

/-- The described tree. -/
def Spec.toNode (s : Spec) : Node :=
  Rose.map Description.content s

mutual

/-- The description that leaves out empty labels and empty lists of children. -/
def Node.toSpec : Node → Spec
  | .node c cs =>
    .node ⟨c.kind, if c.label = "" then none else some c.label, !cs.isEmpty⟩ (Node.toSpecAll cs)

/-- The descriptions of a list of trees. -/
def Node.toSpecAll : List Node → List Spec
  | [] => []
  | c :: cs => Node.toSpec c :: Node.toSpecAll cs

end

/-- An empty label may be left out. -/
theorem Description.content_shortest (c : Content) (listsChildren : Bool) : Description.content
    ⟨c.kind, if c.label = "" then none else some c.label, listsChildren⟩ = c := by
  obtain ⟨k, l⟩ := c
  by_cases h : l = "" <;> simp [Description.content, h]

mutual

/-- Describing a tree loses nothing. -/
theorem Spec.toNode_toSpec : ∀ n : Node, Spec.toNode (Node.toSpec n) = n
  | .node c cs => by
    have hs := Spec.toNode_toSpecAll cs
    simp only [Spec.toNode] at hs ⊢
    simp only [Node.toSpec, Rose.map, Description.content_shortest, hs]

theorem Spec.toNode_toSpecAll : ∀ ns : List Node,
    Rose.mapAll Description.content (Node.toSpecAll ns) = ns
  | [] => rfl
  | c :: cs => by
    have hc := Spec.toNode_toSpec c
    simp only [Spec.toNode] at hc
    simp only [Node.toSpecAll, Rose.mapAll, hc, Spec.toNode_toSpecAll cs]

end

end TreeMerge
