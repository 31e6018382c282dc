import TreeMerge.Proofs.Tree.Graft
import TreeMerge.Proofs.Tree.Normal
import TreeMerge.Table

/-!
# Described subtrees appended by a table

A table lists described subtrees under names of nodes. Appending them embeds the old tree in the new
one; what is listed under a name that no node has is not seen.

* `listed`, `Tree.graftListed` : what is listed under a node, and the tree with it appended, which
  is described as a whole and built again;
* `Node.toNode_toSpecWith` : what is described this way is the old tree with the new subtrees;
* `Tree.graft_congr` : only what is appended to nodes of the tree matters;
* `Tree.EmbedsWith` : an old tree in a new one, with further children behind the old ones;
* `Tree.graftListed_embeds` : appending embeds, and adds the nodes that are listed.
-/

namespace TreeMerge

/-! ## Descriptions with further children -/

mutual

/-- The description of the subtree with root number `id`, with `new` appended to the children of
each node. -/
def Node.toSpecWith (new : Nat → List Spec) (id : Nat) : Node → Spec
  | .node c cs =>
    let below := Node.toSpecWithAll new (id + 1) cs ++ new id
    .node ⟨c.kind, if c.label = "" then none else some c.label, !below.isEmpty⟩ below

/-- The same for sibling subtrees, the first of which has number `next`. -/
def Node.toSpecWithAll (new : Nat → List Spec) (next : Nat) : List Node → List Spec
  | [] => []
  | c :: cs => Node.toSpecWith new next c :: Node.toSpecWithAll new (next + c.size) cs

end

section

variable {ν : Type} [DecidableEq ν] [NodeName ν]

/-- The descriptions that a table lists under a node. -/
def listed (appends : Table ν (List Spec)) (id : Nat) : List Spec :=
  (appends.get? (NodeName.ofId id)).getD []

/-- The tree with what a table lists under its nodes appended to their children, in order. -/
def Tree.graftListed (t : Tree) (appends : Table ν (List Spec)) : Tree :=
  .ofNode (Node.toSpecWith (listed appends) Tree.root t.node).toNode

end

mutual

/-- The described tree is the old one with the described subtrees appended. -/
theorem Node.toNode_toSpecWith (new : Nat → List Spec) : ∀ (id : Nat) (n : Node),
    (Node.toSpecWith new id n).toNode = Node.graft (fun x => (new x).map Spec.toNode) id n
  | id, .node c cs => by
    unfold Node.toSpecWith Spec.toNode Node.graft
    rw [Rose.map, Description.content_shortest, Rose.mapAll_eq_map, List.map_append,
      ← Rose.mapAll_eq_map, Node.mapAll_toSpecWithAll new (id + 1) cs]
    rfl

theorem Node.mapAll_toSpecWithAll (new : Nat → List Spec) : ∀ (next : Nat) (ns : List Node),
    Rose.mapAll Description.content (Node.toSpecWithAll new next ns) =
      Node.graftAll (fun x => (new x).map Spec.toNode) next ns
  | _, [] => rfl
  | next, n :: ns => by
    have hfirst := Node.toNode_toSpecWith new next n
    unfold Spec.toNode at hfirst
    rw [Node.toSpecWithAll, Rose.mapAll, hfirst, Node.mapAll_toSpecWithAll new _ ns]
    rfl

end

/-! ## What is not appended -/

mutual

theorem Node.graft_congr {extra extra' : Nat → List Node} : ∀ (id : Nat) (n : Node),
    (∀ x, id ≤ x → x < id + n.size → extra x = extra' x) →
      Node.graft extra id n = Node.graft extra' id n
  | id, .node c cs, h => by
    have hsize : (Rose.node c cs).size = Rose.sizeAll cs + 1 := rfl
    rw [Node.graft, Node.graft, h id (Nat.le_refl id) (by omega),
      Node.graftAll_congr (id + 1) cs fun x h₁ h₂ => h x (by omega) (by omega)]

theorem Node.graftAll_congr {extra extra' : Nat → List Node} : ∀ (next : Nat) (ns : List Node),
    (∀ x, next ≤ x → x < next + Rose.sizeAll ns → extra x = extra' x) →
      Node.graftAll extra next ns = Node.graftAll extra' next ns
  | _, [], _ => rfl
  | next, n :: ns, h => by
    rw [Rose.sizeAll] at h
    rw [Node.graftAll, Node.graftAll,
      Node.graft_congr next n fun x h₁ h₂ => h x h₁ (by omega),
      Node.graftAll_congr (next + n.size) ns fun x h₁ h₂ => h x (by omega) (by omega)]

end

namespace Tree

/-- Only what is appended to nodes of the tree matters. -/
theorem graft_congr {t : Tree} {extra extra' : Nat → List Node}
    (h : ∀ id < t.size, extra id = extra' id) : t.graft extra = t.graft extra' := by
  unfold graft
  rw [Node.graft_congr root t.node fun x _ hx => h x ?_]
  rwa [root, Nat.zero_add, ← size_eq] at hx

/-! ## Embeddings -/

/-- The nodes of `t` are found in `u`, where each has further children behind its old ones: subtrees
that `new` describes, up to empty labels and empty lists of children. -/
structure EmbedsWith (t u : Tree) (new : Nat → List Spec) (image : Nat → Nat) : Prop extends
    Embeds t u image where
  children : ∀ a < t.size, ∃ roots, u.children (image a) = (t.children a).map image ++ roots ∧
    roots.map (fun r => (u.subtree r).toSpec) = (new a).map Spec.normal

theorem embedsWith_graft (t : Tree) (new : Nat → List Spec) :
    t.EmbedsWith (t.graft fun id => (new id).map Spec.toNode) new
      (t.graftId fun id => (new id).map Spec.toNode) where
  toEmbeds := embeds_graft t _
  children := by
    intro a ha
    obtain ⟨roots, hchildren, hroots⟩ := children_graft ha
    refine ⟨roots, hchildren, ?_⟩
    calc roots.map (fun r => ((t.graft fun id => (new id).map Spec.toNode).subtree r).toSpec)
        = (roots.map (t.graft fun id => (new id).map Spec.toNode).subtree).map Node.toSpec := by
          rw [List.map_map]
          rfl
      _ = ((new a).map Spec.toNode).map Node.toSpec := congrArg _ hroots
      _ = (new a).map Spec.normal := by
          rw [List.map_map]
          exact List.map_congr_left fun d _ => Node.toSpec_toNode d

section

variable {ν : Type} [DecidableEq ν] [NodeName ν]

theorem graftListed_eq (t : Tree) (appends : Table ν (List Spec)) :
    t.graftListed appends = t.graft fun id => (listed appends id).map Spec.toNode := by
  unfold graftListed graft
  rw [Node.toNode_toSpecWith]

theorem size_graftListed (t : Tree) (appends : Table ν (List Spec)) : (t.graftListed appends).size =
    t.size + ∑ id ∈ Finset.range t.size, Rose.sizeAll (listed appends id) := by
  rw [graftListed_eq, size_graft]
  congr 1
  refine Finset.sum_congr rfl fun id _ => ?_
  unfold Spec.toNode
  rw [← Rose.mapAll_eq_map, Rose.sizeAll_mapAll]

/-- **Appending embeds the old tree.** The new tree has as many nodes more as are listed under nodes
of the old one, and what is listed elsewhere has no effect; every old node is found with its
content, its parent, its position and its old children, behind which the listed subtrees follow in
order. -/
theorem graftListed_embeds (t : Tree) (appends : Table ν (List Spec)) :
    (t.graftListed appends).size =
        t.size + ∑ id ∈ Finset.range t.size, Rose.sizeAll (listed appends id) ∧
      (∀ others : Table ν (List Spec), (∀ id < t.size, listed others id = listed appends id) →
        t.graftListed others = t.graftListed appends) ∧
      ∃ image, t.EmbedsWith (t.graftListed appends) (listed appends) image := by
  refine ⟨size_graftListed t appends, fun others h => ?_, ?_⟩
  · rw [graftListed_eq, graftListed_eq]
    refine graft_congr fun id hid => ?_
    rw [h id hid]
  · rw [graftListed_eq]
    exact ⟨_, embedsWith_graft t (listed appends)⟩

end

end Tree

end TreeMerge
