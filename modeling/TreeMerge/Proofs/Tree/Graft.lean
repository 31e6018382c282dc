import Mathlib.Algebra.BigOperators.Intervals
import Mathlib.Algebra.Order.BigOperators.Group.Finset
import TreeMerge.Proofs.Tree.Order

/-!
# Trees with subtrees appended to their nodes

What is appended to a node stands behind all that was below it. So a node moves up by what is
appended to the nodes whose subtrees end before it, and keeps everything else.

* `Tree.size_graft` : what is appended adds its nodes, and nothing else does;
* `Tree.graftId` : the number of a node in the grafted tree;
* `Tree.children_graft` : the old children in their order, then what is appended;
* `Tree.content_graft`, `Tree.parent?_graft`, `Tree.childIndex_graft` : what a node keeps;
* `Tree.Embeds`, `Tree.embeds_graft` : the old tree is found in the grafted one.
-/

namespace TreeMerge

variable {extra : Nat → List Node}

/-! ## Sizes -/

theorem Rose.sizeAll_append {α : Type} (ts us : List (Rose α)) :
    sizeAll (ts ++ us) = sizeAll ts + sizeAll us := by
  induction ts with
  | nil => simp [sizeAll]
  | cons t ts ih => simp [sizeAll, ih, Nat.add_assoc]

mutual

theorem Node.size_graft (extra : Nat → List Node) : ∀ (id : Nat) (n : Node),
    (Node.graft extra id n).size =
      n.size + ∑ x ∈ Finset.Ico id (id + n.size), Rose.sizeAll (extra x)
  | id, .node c cs => by
    have hs := Node.sizeAll_graftAll extra (id + 1) cs
    have hlt : id < id + (Rose.node c cs).size := by simp [Rose.size]
    rw [Finset.sum_eq_sum_Ico_succ_bot hlt, Node.graft, Rose.size, Rose.sizeAll_append, hs,
      Rose.size, show id + (Rose.sizeAll cs + 1) = id + 1 + Rose.sizeAll cs by omega]
    omega

theorem Node.sizeAll_graftAll (extra : Nat → List Node) : ∀ (next : Nat) (ns : List Node),
    Rose.sizeAll (Node.graftAll extra next ns) =
      Rose.sizeAll ns + ∑ x ∈ Finset.Ico next (next + Rose.sizeAll ns), Rose.sizeAll (extra x)
  | _, [] => by simp [Node.graftAll, Rose.sizeAll]
  | next, n :: ns => by
    have h₁ := Node.size_graft extra next n
    have h₂ := Node.sizeAll_graftAll extra (next + n.size) ns
    have hsum := Finset.sum_Ico_consecutive (fun x => Rose.sizeAll (extra x))
      (Nat.le_add_right next n.size) (Nat.le_add_right (next + n.size) (Rose.sizeAll ns))
    rw [Node.graftAll, Rose.sizeAll, h₁, h₂, Rose.sizeAll, ← Nat.add_assoc next, ← hsum]
    omega

end

namespace Tree

variable {t : Tree}

/-- Grafting adds the nodes that are appended. -/
theorem size_graft (t : Tree) (extra : Nat → List Node) :
    (t.graft extra).size = t.size + ∑ x ∈ Finset.range t.size, Rose.sizeAll (extra x) := by
  rw [size_eq, graft, node_ofNode, Node.size_graft, ← t.size_eq, root, Nat.zero_add,
    Finset.range_eq_Ico]

/-! ## Numbers -/

/-- The number of a node in the grafted tree: what is appended to a node stands before all nodes
behind its subtree. -/
def graftId (t : Tree) (extra : Nat → List Node) (a : Nat) : Nat :=
  a + ∑ x ∈ Finset.range t.size with x + t.subtreeSize x ≤ a, Rose.sizeAll (extra x)

theorem graftId_root : t.graftId extra root = root := by
  have hnone : (Finset.range t.size).filter (fun x => x + t.subtreeSize x ≤ root) = ∅ := by
    rw [Finset.filter_eq_empty_iff]
    intro x hx
    have := subtreeSize_pos (Finset.mem_range.1 hx)
    rw [root]
    omega
  rw [graftId, hnone, Finset.sum_empty, Nat.add_zero]

/-- Grafting keeps the order of the nodes. -/
theorem graftId_lt_graftId {a b : Nat} (h : a < b) : t.graftId extra a < t.graftId extra b := by
  refine Nat.add_lt_add_of_lt_of_le h (Finset.sum_le_sum_of_subset ?_)
  intro x hx
  rw [Finset.mem_filter] at hx ⊢
  exact ⟨hx.1, by omega⟩

/-- The first child still follows its parent: no subtree ends between the two. -/
theorem graftId_first {p : Nat} (h : p + 1 ∈ t.children p) :
    t.graftId extra (p + 1) = t.graftId extra p + 1 := by
  have hends : (Finset.range t.size).filter (fun x => x + t.subtreeSize x ≤ p + 1) =
      (Finset.range t.size).filter (fun x => x + t.subtreeSize x ≤ p) := by
    apply Finset.filter_congr
    intro x hx
    refine ⟨fun hle => ?_, fun hle => by omega⟩
    by_contra hlt
    have hpos := subtreeSize_pos (Finset.mem_range.1 hx)
    have hin : t.contains x p = true := contains_iff.2 ⟨by omega, by omega⟩
    have hend := contains_add_size_le hin
    have hchild := child_add_size_le h
    have := subtreeSize_pos (lt_size_of_mem_children h)
    omega
  rw [graftId, hends, graftId]
  omega

/-- Between two neighbours there is the grafted subtree of the first. -/
theorem graftId_next {p c : Nat} (hc : c ∈ t.children p)
    (hnext : c + t.subtreeSize c ∈ t.children p) :
    t.graftId extra (c + t.subtreeSize c) =
      t.graftId extra c + (Node.graft extra c (t.subtree c)).size := by
  have hlt := lt_size_of_mem_children hc
  -- a subtree that ends between the two is inside that of `c`
  have hends : (Finset.range t.size).filter (fun x => x + t.subtreeSize x ≤ c + t.subtreeSize c) =
      (Finset.range t.size).filter (fun x => x + t.subtreeSize x ≤ c) ∪
        Finset.Ico c (c + t.subtreeSize c) := by
    ext x
    rw [Finset.mem_union, Finset.mem_filter, Finset.mem_filter, Finset.mem_range, Finset.mem_Ico]
    constructor
    · rintro ⟨hx, hle⟩
      have hpos := subtreeSize_pos hx
      by_cases hxc : x + t.subtreeSize x ≤ c
      · exact Or.inl ⟨hx, hxc⟩
      refine Or.inr ⟨?_, by omega⟩
      by_contra hlt
      have hin : t.contains x c = true := contains_iff.2 ⟨by omega, by omega⟩
      have hp := ((contains_parent_iff hc).1 hin).resolve_left (by omega)
      have h₁ := contains_add_size_le hp
      have h₂ := child_add_size_le hnext
      have := subtreeSize_pos (lt_size_of_mem_children hnext)
      omega
    · rintro (⟨hx, hle⟩ | hx)
      · exact ⟨hx, by omega⟩
      · have hin := contains_iff.2 hx
        exact ⟨contains_lt_size hin, contains_add_size_le hin⟩
  have hdisj : Disjoint ((Finset.range t.size).filter fun x => x + t.subtreeSize x ≤ c)
      (Finset.Ico c (c + t.subtreeSize c)) := by
    rw [Finset.disjoint_left]
    intro x hx hx'
    rw [Finset.mem_filter, Finset.mem_range] at hx
    rw [Finset.mem_Ico] at hx'
    have := subtreeSize_pos hx.1
    omega
  rw [graftId, hends, Finset.sum_union hdisj, Node.size_graft, ← subtreeSize_eq hlt, graftId]
  omega

theorem StandAll.childIds_graftAll {p index next : Nat} {ns : List Node}
    (h : t.StandAll p index next ns) (hc : ∀ c ∈ Rose.childIds next ns, c ∈ t.children p) :
    Rose.childIds (t.graftId extra next) (Node.graftAll extra next ns) =
      (Rose.childIds next ns).map (t.graftId extra) := by
  induction ns generalizing index next with
  | nil => rfl
  | cons n ns ih =>
    have hsub : t.subtree next = n := by
      rw [subtree, h.head.entry]
      rfl
    have hmem : next ∈ t.children p := hc next List.mem_cons_self
    have hsize : t.subtreeSize next = n.size := by
      rw [subtreeSize_eq (lt_size_of_mem_children hmem), hsub]
    have hrest := ih h.tail fun c hc' => hc c (List.mem_cons_of_mem next hc')
    rw [Node.graftAll, Rose.childIds, Rose.childIds, List.map_cons, ← hrest]
    cases ns with
    | nil => rfl
    | cons m ms =>
      have hnext : next + n.size ∈ t.children p :=
        hc _ (List.mem_cons_of_mem next List.mem_cons_self)
      rw [← hsize] at hnext ⊢
      rw [graftId_next hmem hnext, hsub]

/-- The old children of a node follow it as before. -/
theorem childIds_graft (t : Tree) (extra : Nat → List Node) (p : Nat) :
    Rose.childIds (t.graftId extra p + 1) (Node.graftAll extra (p + 1) (t.subtree p).children) =
      (t.children p).map (t.graftId extra) := by
  cases hcs : (t.subtree p).children with
  | nil =>
    rw [children_eq, hcs]
    rfl
  | cons n ns =>
    have hfirst : p + 1 ∈ t.children p := by
      rw [children_eq, hcs]
      exact List.mem_cons_self
    have hstand := (stands (lt_size_of_children hfirst)).standAll
    rw [← graftId_first hfirst, ← hcs, hstand.childIds_graftAll, children_eq]
    intro c hc
    rwa [children_eq]

end Tree

/-! ## Nodes -/

theorem Node.children_graft (extra : Nat → List Node) (id : Nat) (n : Node) :
    (Node.graft extra id n).children = Node.graftAll extra (id + 1) n.children ++ extra id := by
  cases n
  rfl

theorem Node.getElem?_graftAll (extra : Nat → List Node) {next j c : Nat} {ns : List Node}
    {n : Node} (hc : (Rose.childIds next ns)[j]? = some c) (hn : ns[j]? = some n) :
    (Node.graftAll extra next ns)[j]? = some (Node.graft extra c n) := by
  induction ns generalizing next j with
  | nil => simp at hn
  | cons m ms ih =>
    cases j with
    | zero =>
      rw [Rose.childIds, List.getElem?_cons_zero, Option.some.injEq] at hc
      rw [List.getElem?_cons_zero, Option.some.injEq] at hn
      rw [Node.graftAll, List.getElem?_cons_zero, hc, hn]
    | succ j => exact ih hc hn

namespace Tree

variable {t : Tree}

/-- The children of a node whose grafted subtree stands at its new number. -/
theorem children_of_subtree_graft {u : Tree} {p : Nat}
    (h : u.subtree (t.graftId extra p) = Node.graft extra p (t.subtree p)) :
    u.children (t.graftId extra p) = (t.children p).map (t.graftId extra) ++
      Rose.childIds (t.graftId extra p + 1 +
        Rose.sizeAll (Node.graftAll extra (p + 1) (t.subtree p).children)) (extra p) := by
  rw [children_eq, h, Node.children_graft, Rose.childIds_append, childIds_graft]

/-- **Every node is found at its new number**, with its grafted subtree, its parent and its
position. -/
theorem node_graft (extra : Nat → List Node) {a : Nat} (ha : a < t.size) :
    (t.graft extra).subtree (t.graftId extra a) = Node.graft extra a (t.subtree a) ∧
      (t.graft extra).parent? (t.graftId extra a) = (t.parent? a).map (t.graftId extra) ∧
      (t.graft extra).childIndex (t.graftId extra a) = t.childIndex a := by
  refine induct (motive := fun a =>
    (t.graft extra).subtree (t.graftId extra a) = Node.graft extra a (t.subtree a) ∧
      (t.graft extra).parent? (t.graftId extra a) = (t.parent? a).map (t.graftId extra) ∧
      (t.graft extra).childIndex (t.graftId extra a) = t.childIndex a) ?_ ?_ a ha
  · rw [graftId_root, subtree_root, subtree_root, parent?_root, parent?_root]
    refine ⟨rfl, rfl, ?_⟩
    rw [childIndex, childIndex, (stands_root _).entry, t.stands_root.entry]
    rfl
  · rintro p c - hc ⟨ih, -, -⟩
    obtain ⟨j, hj⟩ := exists_getElem?_of_mem hc
    obtain ⟨-, hpar, hidx, hsub⟩ := children_getElem? hj
    have hj' : ((t.graft extra).children (t.graftId extra p))[j]? = some (t.graftId extra c) := by
      have hlt := (List.getElem?_eq_some_iff.1 hj).1
      rw [children_of_subtree_graft ih, List.getElem?_append_left (by rwa [List.length_map]),
        List.getElem?_map, hj]
      rfl
    obtain ⟨-, hpar', hidx', hsub'⟩ := children_getElem? hj'
    rw [children_eq] at hj
    have hg := Node.getElem?_graftAll extra hj hsub
    have hlt := (List.getElem?_eq_some_iff.1 hg).1
    rw [ih, Node.children_graft, List.getElem?_append_left hlt, hg, Option.some.injEq] at hsub'
    refine ⟨hsub'.symm, ?_, hidx'.trans hidx.symm⟩
    rw [hpar', hpar]
    rfl

theorem graftId_lt_size {a : Nat} (ha : a < t.size) :
    t.graftId extra a < (t.graft extra).size := by
  rw [size_graft, graftId]
  refine Nat.add_lt_add_of_lt_of_le ha (Finset.sum_le_sum_of_subset ?_)
  exact Finset.filter_subset _ _

theorem parent?_graft {a : Nat} (ha : a < t.size) :
    (t.graft extra).parent? (t.graftId extra a) = (t.parent? a).map (t.graftId extra) :=
  (node_graft extra ha).2.1

theorem childIndex_graft {a : Nat} (ha : a < t.size) :
    (t.graft extra).childIndex (t.graftId extra a) = t.childIndex a :=
  (node_graft extra ha).2.2

theorem content_graft {a : Nat} (ha : a < t.size) :
    (t.graft extra).content (t.graftId extra a) = t.content a := by
  rw [content, (node_graft extra ha).1, content]
  cases t.subtree a
  rfl

/-- **The children of a node** are its old children, in their order, then what is appended. -/
theorem children_graft {a : Nat} (ha : a < t.size) :
    ∃ new, (t.graft extra).children (t.graftId extra a) =
        (t.children a).map (t.graftId extra) ++ new ∧
      new.map (t.graft extra).subtree = extra a := by
  have hsub := (node_graft extra ha).1
  have hchildren := children_of_subtree_graft hsub
  refine ⟨_, hchildren, ?_⟩
  have hmap := (t.graft extra).map_subtree_children (t.graftId extra a)
  rw [hsub, Node.children_graft, hchildren, List.map_append] at hmap
  refine (List.append_inj hmap ?_).2
  rw [List.length_map, ← childIds_graft, Rose.length_childIds]

/-- `image` finds the nodes of `t` in `u` with their contents, parents and positions. -/
structure Embeds (t u : Tree) (image : Nat → Nat) : Prop where
  increasing : ∀ a b, a < b → image a < image b
  within : ∀ a < t.size, image a < u.size
  content : ∀ a < t.size, u.content (image a) = t.content a
  parent : ∀ a < t.size, u.parent? (image a) = (t.parent? a).map image
  position : ∀ a < t.size, u.childIndex (image a) = t.childIndex a

theorem embeds_graft (t : Tree) (extra : Nat → List Node) :
    t.Embeds (t.graft extra) (t.graftId extra) where
  increasing := fun _ _ => graftId_lt_graftId
  within := fun _ => graftId_lt_size
  content := fun _ => content_graft
  parent := fun _ => parent?_graft
  position := fun _ => childIndex_graft

end Tree

end TreeMerge
