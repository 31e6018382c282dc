import TreeMerge.Node

/-!
# Shortest descriptions

A tree is described in many ways: an empty label may be given or left out, and so may an empty list
of children. The description of a tree that is made from a description leaves them out.

* `Rose.subtrees_map`, `Rose.size_map` : the subtrees and the size of a tree with other values;
* `Spec.normal` : a description without empty labels and empty lists of children;
* `Node.toSpec_toNode` : what is described is described again by the normal description.
-/

namespace TreeMerge

namespace Rose

variable {α β : Type}

mutual

theorem subtrees_map (f : α → β) : ∀ t : Rose α, (t.map f).subtrees = t.subtrees.map (map f)
  | node a cs => by simp [map, subtrees, subtreesAll_mapAll f cs]

theorem subtreesAll_mapAll (f : α → β) : ∀ ts : List (Rose α),
    subtreesAll (mapAll f ts) = (subtreesAll ts).map (map f)
  | [] => rfl
  | c :: cs => by simp [mapAll, subtreesAll, subtrees_map f c, subtreesAll_mapAll f cs]

end

theorem size_map (f : α → β) (t : Rose α) : (t.map f).size = t.size := by
  rw [← length_subtrees, ← length_subtrees, subtrees_map, List.length_map]

theorem sizeAll_mapAll (f : α → β) (ts : List (Rose α)) : sizeAll (mapAll f ts) = sizeAll ts := by
  rw [← length_subtreesAll, ← length_subtreesAll, subtreesAll_mapAll, List.length_map]

end Rose

mutual

/-- The description without empty labels and empty lists of children, at every level. -/
def Spec.normal : Spec → Spec
  | .node d ds =>
    .node ⟨d.kind, if d.label = some "" then none else d.label, !ds.isEmpty⟩ (Spec.normalAll ds)

/-- The same for a list of descriptions. -/
def Spec.normalAll : List Spec → List Spec
  | [] => []
  | d :: ds => Spec.normal d :: Spec.normalAll ds

end

mutual

/-- **A described tree is described again** by the normal description. -/
theorem Node.toSpec_toNode : ∀ s : Spec, Node.toSpec (Spec.toNode s) = s.normal
  | .node d ds => by
    have hlabel : (if d.content.label = "" then none else some d.content.label) =
        if d.label = some "" then none else d.label := by
      unfold Description.content
      cases d.label with
      | none => rfl
      | some l => by_cases hl : l = "" <;> simp [hl]
    have hlist : (Rose.mapAll Description.content ds).isEmpty = ds.isEmpty := by
      cases ds <;> rfl
    have hbelow := Node.toSpecAll_toNode ds
    unfold Spec.toNode
    rw [Rose.map, Node.toSpec, hlabel, hlist, hbelow, Spec.normal]
    rfl

theorem Node.toSpecAll_toNode : ∀ ds : List Spec,
    Node.toSpecAll (Rose.mapAll Description.content ds) = Spec.normalAll ds
  | [] => rfl
  | d :: ds => by
    have hfirst := Node.toSpec_toNode d
    unfold Spec.toNode at hfirst
    rw [Rose.mapAll, Node.toSpecAll, hfirst, Node.toSpecAll_toNode ds, Spec.normalAll]

end

end TreeMerge
