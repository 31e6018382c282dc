import TreeMerge.Proofs.Tree.Order

/-!
# Trees with other values in the same places

* `Rose.mapIds` : apply a function of number and value;
* `Tree.relabel`, `Tree.setLabel` : other contents in the same places, another label at one node;
* `Tree.subtree_relabel`, `Tree.children_relabel`, … : the nodes of such a tree;
* `Tree.relabel_eq_of_content` : contents determine the tree among those of one shape;
* `Tree.setLabel_self`, `Tree.setLabel_comm` : the old label, and labels of two nodes.
-/

namespace TreeMerge

namespace Rose

variable {α β γ : Type}

mutual

/-- Apply `f` to number and value of every node of a tree whose root has number `id`. -/
def mapIds (f : Nat → α → β) (id : Nat) : Rose α → Rose β
  | node a cs => node (f id a) (mapIdsAll f (id + 1) cs)

/-- The same for sibling subtrees, the first of which has number `next`. -/
def mapIdsAll (f : Nat → α → β) (next : Nat) : List (Rose α) → List (Rose β)
  | [] => []
  | c :: cs => mapIds f next c :: mapIdsAll f (next + c.size) cs

end

mutual

@[simp] theorem size_mapIds (f : Nat → α → β) : ∀ (id : Nat) (t : Rose α),
    (mapIds f id t).size = t.size
  | id, node a cs => by rw [mapIds, size, size, sizeAll_mapIdsAll f (id + 1) cs]

@[simp] theorem sizeAll_mapIdsAll (f : Nat → α → β) : ∀ (next : Nat) (ts : List (Rose α)),
    sizeAll (mapIdsAll f next ts) = sizeAll ts
  | _, [] => rfl
  | next, c :: cs => by
    rw [mapIdsAll, sizeAll, sizeAll, size_mapIds f next c, sizeAll_mapIdsAll f _ cs]

end

mutual

theorem height_mapIds (f : Nat → α → β) : ∀ (id : Nat) (t : Rose α),
    (mapIds f id t).height = t.height
  | id, node a cs => by rw [mapIds, height, height, heightAll_mapIdsAll f (id + 1) cs]

theorem heightAll_mapIdsAll (f : Nat → α → β) : ∀ (next : Nat) (ts : List (Rose α)),
    heightAll (mapIdsAll f next ts) = heightAll ts
  | _, [] => rfl
  | next, c :: cs => by
    rw [mapIdsAll, heightAll, heightAll, height_mapIds f next c, heightAll_mapIdsAll f _ cs]

end

mutual

/-- Only the numbers of the tree matter. -/
theorem mapIds_congr {f g : Nat → α → β} : ∀ (id : Nat) (t : Rose α),
    (∀ x, id ≤ x → x < id + t.size → f x = g x) → mapIds f id t = mapIds g id t
  | id, node a cs, h => by
    have hs : (node a cs).size = sizeAll cs + 1 := rfl
    rw [mapIds, mapIds, h id (Nat.le_refl id) (by omega),
      mapIdsAll_congr (id + 1) cs fun x h₁ h₂ => h x (by omega) (by omega)]

theorem mapIdsAll_congr {f g : Nat → α → β} : ∀ (next : Nat) (ts : List (Rose α)),
    (∀ x, next ≤ x → x < next + sizeAll ts → f x = g x) → mapIdsAll f next ts = mapIdsAll g next ts
  | _, [], _ => rfl
  | next, c :: cs, h => by
    have hs : sizeAll (c :: cs) = c.size + sizeAll cs := rfl
    rw [mapIdsAll, mapIdsAll, mapIds_congr next c fun x h₁ h₂ => h x h₁ (by omega),
      mapIdsAll_congr (next + c.size) cs fun x h₁ h₂ => h x (by omega) (by omega)]

end

mutual

theorem mapIds_mapIds (f : Nat → β → γ) (g : Nat → α → β) : ∀ (id : Nat) (t : Rose α),
    mapIds f id (mapIds g id t) = mapIds (fun x a => f x (g x a)) id t
  | id, node a cs => by rw [mapIds, mapIds, mapIds, mapIdsAll_mapIdsAll f g (id + 1) cs]

theorem mapIdsAll_mapIdsAll (f : Nat → β → γ) (g : Nat → α → β) :
    ∀ (next : Nat) (ts : List (Rose α)),
      mapIdsAll f next (mapIdsAll g next ts) = mapIdsAll (fun x a => f x (g x a)) next ts
  | _, [] => rfl
  | next, c :: cs => by
    rw [mapIdsAll, mapIdsAll, mapIdsAll, size_mapIds, mapIds_mapIds f g next c,
      mapIdsAll_mapIdsAll f g _ cs]

end

theorem value_mapIds (f : Nat → α → β) (id : Nat) (t : Rose α) :
    (mapIds f id t).value = f id t.value := by
  cases t
  rw [mapIds, value_node, value_node]

theorem children_mapIds (f : Nat → α → β) (id : Nat) (t : Rose α) :
    (mapIds f id t).children = mapIdsAll f (id + 1) t.children := by
  cases t
  rw [mapIds, children_node, children_node]

theorem childIds_mapIdsAll (f : Nat → α → β) (next : Nat) (ts : List (Rose α)) :
    childIds next (mapIdsAll f next ts) = childIds next ts := by
  induction ts generalizing next with
  | nil => rfl
  | cons c cs ih => rw [mapIdsAll, childIds, childIds, size_mapIds, ih]

/-- Each of several siblings is mapped from its own number on. -/
theorem getElem?_mapIdsAll {f : Nat → α → β} {next j c : Nat} {ts : List (Rose α)} {t : Rose α}
    (hc : (childIds next ts)[j]? = some c) (ht : ts[j]? = some t) :
    (mapIdsAll f next ts)[j]? = some (mapIds f c t) := by
  induction ts generalizing next j with
  | nil => simp at ht
  | cons u us ih =>
    cases j with
    | zero =>
      rw [childIds, List.getElem?_cons_zero, Option.some.injEq] at hc
      rw [List.getElem?_cons_zero, Option.some.injEq] at ht
      rw [mapIdsAll, List.getElem?_cons_zero, hc, ht]
    | succ j => exact ih hc ht

end Rose

namespace Tree

variable {t : Tree} {f g : Nat → Content → Content}

/-- The tree with other contents in the same places. -/
def relabel (t : Tree) (f : Nat → Content → Content) : Tree :=
  .ofNode (Rose.mapIds f root t.node)

/-- The tree with another label at node `i`. -/
def setLabel (t : Tree) (i : Nat) (x : Text) : Tree :=
  t.relabel fun a c => if a = i then { c with label := x } else c

@[simp] theorem size_relabel (t : Tree) (f : Nat → Content → Content) :
    (t.relabel f).size = t.size := by
  rw [size_eq, size_eq, relabel, node_ofNode, Rose.size_mapIds]

theorem relabel_relabel (t : Tree) (f g : Nat → Content → Content) :
    (t.relabel f).relabel g = t.relabel fun a c => g a (f a c) := by
  rw [relabel, relabel, relabel, node_ofNode, Rose.mapIds_mapIds]

/-! ## Nodes -/

theorem subtree_parent_relabel {a : Nat} (ha : a < t.size) :
    (t.relabel f).subtree a = Rose.mapIds f a (t.subtree a) ∧
      (t.relabel f).parent? a = t.parent? a := by
  refine induct (motive := fun a => (t.relabel f).subtree a = Rose.mapIds f a (t.subtree a) ∧
    (t.relabel f).parent? a = t.parent? a) ?_ ?_ a ha
  · rw [subtree_root, subtree_root, parent?_root, parent?_root]
    exact ⟨rfl, rfl⟩
  · rintro p c - hc ⟨ih, -⟩
    obtain ⟨j, hj⟩ := exists_getElem?_of_mem hc
    obtain ⟨-, hpar, -, hsub⟩ := children_getElem? hj
    have hchildren : (t.relabel f).children p = t.children p := by
      rw [children_eq, ih, Rose.children_mapIds, Rose.childIds_mapIdsAll, children_eq]
    obtain ⟨-, hpar', -, hsub'⟩ := children_getElem? (hchildren ▸ hj)
    rw [children_eq] at hj
    rw [ih, Rose.children_mapIds, Rose.getElem?_mapIdsAll hj hsub, Option.some.injEq] at hsub'
    exact ⟨hsub'.symm, hpar'.trans hpar.symm⟩

theorem subtree_relabel {a : Nat} (ha : a < t.size) :
    (t.relabel f).subtree a = Rose.mapIds f a (t.subtree a) :=
  (subtree_parent_relabel ha).1

theorem content_relabel {a : Nat} (ha : a < t.size) :
    (t.relabel f).content a = f a (t.content a) := by
  rw [content, subtree_relabel ha, Rose.value_mapIds, content]

theorem entry_relabel_of_not_lt {a : Nat} (ha : ¬ a < t.size) :
    (t.relabel f).entry a = t.entry a := by
  rw [entry_of_not_lt ha, entry_of_not_lt (by rwa [size_relabel])]

theorem parent?_relabel (a : Nat) : (t.relabel f).parent? a = t.parent? a := by
  by_cases ha : a < t.size
  · exact (subtree_parent_relabel ha).2
  · rw [parent?, entry_relabel_of_not_lt ha, parent?]

theorem children_relabel (a : Nat) : (t.relabel f).children a = t.children a := by
  by_cases ha : a < t.size
  · rw [children_eq, subtree_relabel ha, Rose.children_mapIds, Rose.childIds_mapIdsAll, children_eq]
  · rw [children, entry_relabel_of_not_lt ha, children]

theorem subtreeSize_relabel (a : Nat) : (t.relabel f).subtreeSize a = t.subtreeSize a := by
  by_cases ha : a < t.size
  · rw [subtreeSize_eq (by rwa [size_relabel]), subtree_relabel ha, Rose.size_mapIds,
      subtreeSize_eq ha]
  · rw [subtreeSize, entry_relabel_of_not_lt ha, subtreeSize]

theorem height_relabel (a : Nat) : (t.relabel f).height a = t.height a := by
  by_cases ha : a < t.size
  · rw [height_eq (by rwa [size_relabel]), subtree_relabel ha, Rose.height_mapIds, height_eq ha]
  · rw [height, entry_relabel_of_not_lt ha, height]

/-! ## Contents -/

mutual

theorem Stands.mapIds_content : ∀ (n : Node) (parent : Option Nat) (index id : Nat),
    t.Stands parent index id n → Rose.mapIds (fun a _ => t.content a) id n = n
  | .node c cs, parent, index, id, h => by
    have hc : t.content id = c := by
      rw [content, subtree, h.entry]
      rfl
    rw [Rose.mapIds, hc, StandAll.mapIds_content cs id 0 (id + 1) h.standAll]

theorem StandAll.mapIds_content : ∀ (ns : List Node) (parent index next : Nat),
    t.StandAll parent index next ns → Rose.mapIdsAll (fun a _ => t.content a) next ns = ns
  | [], _, _, _, _ => rfl
  | c :: cs, parent, index, next, h => by
    rw [Rose.mapIdsAll, Stands.mapIds_content c (some parent) index next h.head,
      StandAll.mapIds_content cs parent (index + 1) (next + c.size) h.tail]

end

theorem relabel_congr (h : ∀ a < t.size, f a = g a) : t.relabel f = t.relabel g := by
  rw [relabel, relabel, Rose.mapIds_congr root t.node]
  intro x _ hx
  rw [← t.size_eq, root, Nat.zero_add] at hx
  exact h x hx

theorem relabel_content (t : Tree) : (t.relabel fun a _ => t.content a) = t := by
  apply ext_node
  exact Stands.mapIds_content t.node none 0 root t.stands_root

/-- **Trees of one shape with equal contents are equal.** -/
theorem relabel_eq_of_content (h : ∀ a < t.size, f a (t.content a) = g a (t.content a)) :
    t.relabel f = t.relabel g := by
  rw [← t.relabel_content, relabel_relabel, relabel_relabel]
  apply relabel_congr
  intro a ha
  funext _
  exact h a ha

theorem content_setLabel {a : Nat} (ha : a < t.size) (i : Nat) (x : Text) :
    (t.setLabel i x).content a =
      if a = i then { t.content a with label := x } else t.content a :=
  content_relabel ha

theorem setLabel_self (t : Tree) (i : Nat) : t.setLabel i (t.label i) = t := by
  conv_rhs => rw [← t.relabel_content]
  apply relabel_eq_of_content
  intro a _
  split
  · next ha => rw [label, ← ha]
  · rfl

theorem setLabel_comm {i j : Nat} (hij : i ≠ j) (x y : Text) :
    (t.setLabel i x).setLabel j y = (t.setLabel j y).setLabel i x := by
  rw [setLabel, setLabel, setLabel, setLabel, relabel_relabel, relabel_relabel]
  apply relabel_congr
  intro a _
  funext c
  by_cases ha : a = i
  · rw [if_pos ha, if_pos ha, if_neg (ha ▸ hij), if_neg (ha ▸ hij)]
  · rw [if_neg ha, if_neg ha]

/-- Nothing changes below a node where no content does. -/
theorem subtree_relabel_congr {a : Nat} (h : ∀ x, t.contains a x = true → f x = g x) :
    (t.relabel f).subtree a = (t.relabel g).subtree a := by
  by_cases ha : a < t.size
  · rw [subtree_relabel ha, subtree_relabel ha, Rose.mapIds_congr a (t.subtree a)]
    intro x h₁ h₂
    rw [← subtreeSize_eq ha] at h₂
    exact h x (contains_iff.2 ⟨h₁, h₂⟩)
  · rw [subtree, subtree, entry_relabel_of_not_lt ha, entry_relabel_of_not_lt ha]

theorem subtree_leaf {a : Nat} (hl : t.isLeaf a = true) :
    t.subtree a = .node (t.content a) [] := by
  rw [isLeaf_iff, children_eq_nil_iff] at hl
  rw [content]
  cases hs : t.subtree a with
  | node c cs =>
    rw [hs, Rose.children_node] at hl
    rw [hl, Rose.value_node]

end Tree

end TreeMerge
