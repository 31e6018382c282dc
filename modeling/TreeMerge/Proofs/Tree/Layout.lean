import Mathlib.Tactic.ByContra
import TreeMerge.Tree.Basic

/-!
# Where the nodes of a tree stand

A tree lists its nodes in pre-order; the entries of a subtree are those of a tree of its own, from
the number of its root on.

* `Tree.Stands`, `Tree.StandAll` : a subtree, or sibling subtrees, stand at a number;
* `Tree.induct` : a property of the root that goes from parents to children holds of all nodes;
* `Tree.stands` : every node stands where its number says;
* `Tree.subtreeSize_eq`, `Tree.height_eq`, `Tree.children_eq`, … : what an entry records is what its
  subtree has;
* `Tree.isomorphic_iff` : structural identity is equality of subtrees;
* `Tree.children_getElem?` : a child knows its parent, its position and its subtree.
-/

namespace TreeMerge

/-! ## Numbers of siblings -/

namespace Rose

variable {α : Type}

theorem length_childIds (next : Nat) (ts : List (Rose α)) :
    (childIds next ts).length = ts.length := by
  induction ts generalizing next with
  | nil => rfl
  | cons c cs ih => simp [childIds, ih]

theorem childIds_append (next : Nat) (ts us : List (Rose α)) :
    childIds next (ts ++ us) = childIds next ts ++ childIds (next + sizeAll ts) us := by
  induction ts generalizing next with
  | nil => simp [childIds, sizeAll]
  | cons c cs ih => simp [childIds, sizeAll, ih, Nat.add_assoc]

/-- The children of a tree start one after its root and fill the rest of its range. -/
theorem size_eq_sizeAll (t : Rose α) : t.size = sizeAll t.children + 1 := by
  cases t; rfl

end Rose

/-! ## Standing at a number -/

theorem Node.length_layout (parent : Option Nat) (index id : Nat) (n : Node) :
    (Node.layout parent index id n).length = n.size := by
  rw [← Rose.length_subtrees, ← Node.map_node_layout parent index id, List.length_map]

namespace Tree

/-- The subtree `n` stands at number `id`: its entries are those of the tree from `id` on. -/
def Stands (t : Tree) (parent : Option Nat) (index id : Nat) (n : Node) : Prop :=
  Node.layout parent index id n <+: t.entries.toList.drop id

/-- Sibling subtrees below node `parent`, the first at position `index`, stand from number `next`
on. -/
def StandAll (t : Tree) (parent index next : Nat) (ns : List Node) : Prop :=
  Node.layoutAll parent index next ns <+: t.entries.toList.drop next

variable {t : Tree}

theorem stands_root (t : Tree) : t.Stands none 0 root t.node := by
  rw [Stands, t.laidOut]
  exact List.prefix_rfl

theorem entry_eq (t : Tree) (id : Nat) : t.entry id = t.entries.toList[id]?.getD Entry.absent := by
  rw [entry, Array.getElem?_toList]

theorem Stands.entry {parent : Option Nat} {index id : Nat} {n : Node}
    (h : t.Stands parent index id n) : t.entry id = Entry.ofNode parent index id n := by
  obtain ⟨c, cs⟩ := n
  obtain ⟨rest, hrest⟩ := h
  have h0 := congrArg (fun l => l[0]?) hrest
  simp only [Node.layout, List.cons_append, List.getElem?_cons_zero, List.getElem?_drop,
    Nat.add_zero] at h0
  rw [entry_eq, ← h0, Option.getD_some]

/-- The children of a standing subtree stand behind its root. -/
theorem Stands.standAll {parent : Option Nat} {index id : Nat} {n : Node}
    (h : t.Stands parent index id n) : t.StandAll id 0 (id + 1) n.children := by
  obtain ⟨c, cs⟩ := n
  obtain ⟨rest, hrest⟩ := h
  refine ⟨rest, ?_⟩
  have h1 := congrArg (List.drop 1) hrest
  rw [Node.layout, List.cons_append, List.drop_succ_cons, List.drop_zero, List.drop_drop] at h1
  exact h1

theorem StandAll.head {parent index next : Nat} {c : Node} {cs : List Node}
    (h : t.StandAll parent index next (c :: cs)) : t.Stands (some parent) index next c := by
  rw [StandAll, Node.layoutAll] at h
  exact (List.prefix_append _ _).trans h

theorem StandAll.tail {parent index next : Nat} {c : Node} {cs : List Node}
    (h : t.StandAll parent index next (c :: cs)) :
    t.StandAll parent (index + 1) (next + c.size) cs := by
  rw [StandAll, Node.layoutAll] at h
  obtain ⟨rest, hrest⟩ := h
  refine ⟨rest, ?_⟩
  have h1 := congrArg (List.drop c.size) hrest
  rw [List.append_assoc, List.drop_append, Node.length_layout, Nat.sub_self, List.drop_zero,
    List.drop_eq_nil_of_le (Nat.le_of_eq (Node.length_layout _ _ _ c)), List.nil_append,
    List.drop_drop] at h1
  exact h1

/-- Each of several standing siblings stands at its own number. -/
theorem StandAll.getElem? {parent index next : Nat} {ns : List Node} {j : Nat} {m : Node}
    (h : t.StandAll parent index next ns) (hj : ns[j]? = some m) :
    ∃ c, (Rose.childIds next ns)[j]? = some c ∧ t.Stands (some parent) (index + j) c m := by
  induction ns generalizing index next j with
  | nil => simp at hj
  | cons n ns ih =>
    cases j with
    | zero =>
      rw [List.getElem?_cons_zero, Option.some.injEq] at hj
      subst hj
      exact ⟨next, rfl, h.head⟩
    | succ j =>
      rw [List.getElem?_cons_succ] at hj
      obtain ⟨c, hc, hs⟩ := ih h.tail hj
      refine ⟨c, hc, ?_⟩
      rw [show index + (j + 1) = index + 1 + j by omega]
      exact hs

/-! ## All nodes -/

theorem Stands.children_eq {parent : Option Nat} {index id : Nat} {n : Node}
    (h : t.Stands parent index id n) : t.children id = Rose.childIds (id + 1) n.children := by
  rw [children, h.entry]
  rfl

mutual

theorem Stands.induct {motive : Nat → Prop}
    (step : ∀ p c, p < t.size → c ∈ t.children p → motive p → motive c) :
    ∀ (n : Node) (parent : Option Nat) (index id : Nat), t.Stands parent index id n →
      motive id → ∀ k < n.size, motive (id + k)
  | .node c cs, parent, index, id, h, hid, k, hk => by
    cases k with
    | zero => exact hid
    | succ k =>
      have hlt : id < t.size := by
        obtain ⟨rest, hrest⟩ := h
        have hl := congrArg List.length hrest
        rw [List.length_append, Node.length_layout, List.length_drop] at hl
        have := Rose.size_pos (Rose.node c cs)
        rw [size, ← Array.length_toList]
        omega
      have hcs : ∀ c' ∈ Rose.childIds (id + 1) cs, motive c' := by
        intro c' hc'
        refine step id c' hlt ?_ hid
        rw [h.children_eq]
        exact hc'
      rw [show id + (k + 1) = id + 1 + k by omega]
      rw [Rose.size] at hk
      exact StandAll.induct step cs id 0 (id + 1) h.standAll hcs k (by omega)

theorem StandAll.induct {motive : Nat → Prop}
    (step : ∀ p c, p < t.size → c ∈ t.children p → motive p → motive c) :
    ∀ (ns : List Node) (parent index next : Nat), t.StandAll parent index next ns →
      (∀ c ∈ Rose.childIds next ns, motive c) → ∀ k < Rose.sizeAll ns, motive (next + k)
  | [], _, _, _, _, _, k, hk => by simp [Rose.sizeAll] at hk
  | n :: ns, parent, index, next, h, hm, k, hk => by
    rw [Rose.sizeAll] at hk
    by_cases hkn : k < n.size
    · refine Stands.induct step n (some parent) index next h.head ?_ k hkn
      exact hm next (by simp [Rose.childIds])
    · rw [show next + k = next + n.size + (k - n.size) by omega]
      refine StandAll.induct step ns parent (index + 1) (next + n.size) h.tail ?_ (k - n.size)
        (by omega)
      intro c hc
      exact hm c (by simp [Rose.childIds, hc])

end

/-- **Induction from the root down.** -/
theorem induct {motive : Nat → Prop} (base : motive root)
    (step : ∀ p c, p < t.size → c ∈ t.children p → motive p → motive c) (id : Nat)
    (h : id < t.size) : motive id := by
  have hk := Stands.induct step t.node none 0 root t.stands_root base id (by rwa [← t.size_eq])
  rwa [root, Nat.zero_add] at hk

theorem mem_of_getElem?_childIds {next : Nat} {ns : List Node} {c : Nat}
    (h : c ∈ Rose.childIds next ns) : ∃ (j : Nat) (m : Node),
      (Rose.childIds next ns)[j]? = some c ∧ ns[j]? = some m := by
  obtain ⟨j, hj⟩ := List.mem_iff_getElem?.1 h
  have hlt : j < ns.length := by
    rw [← Rose.length_childIds next ns]
    exact (List.getElem?_eq_some_iff.1 hj).1
  exact ⟨j, ns[j], hj, List.getElem?_eq_getElem hlt⟩

theorem exists_stands (id : Nat) (h : id < t.size) :
    ∃ parent index n, t.Stands parent index id n := by
  refine induct (motive := fun id => ∃ parent index n, t.Stands parent index id n)
    ⟨none, 0, t.node, t.stands_root⟩ ?_ id h
  rintro p c - hc ⟨parent, index, n, hn⟩
  rw [hn.children_eq] at hc
  obtain ⟨j, m, hj, hm⟩ := mem_of_getElem?_childIds hc
  obtain ⟨c', hc', hs⟩ := hn.standAll.getElem? hm
  rw [hj, Option.some.injEq] at hc'
  subst hc'
  exact ⟨some p, 0 + j, m, hs⟩

/-- **Every node stands at its number**, below its parent, with its own subtree. -/
theorem stands {id : Nat} (h : id < t.size) :
    t.Stands (t.parent? id) (t.childIndex id) id (t.subtree id) := by
  obtain ⟨parent, index, n, hn⟩ := exists_stands id h
  have he := hn.entry
  rw [parent?, childIndex, subtree, he]
  exact hn

theorem entry_of_not_lt {id : Nat} (h : ¬ id < t.size) : t.entry id = Entry.absent := by
  rw [entry, Array.getElem?_eq_none (Nat.le_of_not_lt h), Option.getD_none]

/-! ## What an entry records -/

theorem subtreeSize_eq {id : Nat} (h : id < t.size) : t.subtreeSize id = (t.subtree id).size := by
  rw [subtreeSize, (stands h).entry]
  rfl

theorem height_eq {id : Nat} (h : id < t.size) : t.height id = (t.subtree id).height := by
  rw [height, (stands h).entry]
  rfl

theorem hash_eq {id : Nat} (h : id < t.size) : t.hash id = Node.hash (t.subtree id) := by
  rw [hash, (stands h).entry]
  rfl

theorem children_eq (t : Tree) (id : Nat) :
    t.children id = Rose.childIds (id + 1) (t.subtree id).children := by
  by_cases h : id < t.size
  · exact (stands h).children_eq
  · rw [children, subtree, entry_of_not_lt h]
    rfl

theorem subtreeSize_pos {id : Nat} (h : id < t.size) : 0 < t.subtreeSize id := by
  rw [subtreeSize_eq h]
  exact Rose.size_pos _

theorem size_pos (t : Tree) : 0 < t.size := by
  rw [t.size_eq]
  exact Rose.size_pos _

@[simp] theorem subtree_root (t : Tree) : t.subtree root = t.node := by
  rw [subtree, t.stands_root.entry]
  rfl

@[simp] theorem parent?_root (t : Tree) : t.parent? root = none := by
  rw [parent?, t.stands_root.entry]
  rfl

theorem subtreeSize_root (t : Tree) : t.subtreeSize root = t.size := by
  rw [subtreeSize_eq (show root < t.size from t.size_pos), subtree_root, t.size_eq]

/-- Structural identity of nodes is equality of their subtrees. -/
theorem isomorphic_iff {u : Tree} {a b : Nat} (ha : a < t.size) (hb : b < u.size) :
    t.isomorphic a u b = true ↔ t.subtree a = u.subtree b := by
  rw [isomorphic, hash_eq ha, hash_eq hb, Bool.and_eq_true, beq_iff_eq, Rose.same_iff]
  exact ⟨fun h => h.2, fun h => ⟨congrArg Node.hash h, h⟩⟩

theorem eq_of_isomorphic_root {t u : Tree} (h : t.isomorphic root u root = true) : t = u := by
  have hsub : t.subtree root = u.subtree root := (isomorphic_iff t.size_pos u.size_pos).1 h
  rw [subtree_root, subtree_root] at hsub
  exact ext_node hsub

/-- A child knows its parent, its position and its subtree. -/
theorem children_getElem? {p j c : Nat} (h : (t.children p)[j]? = some c) :
    c < t.size ∧ t.parent? c = some p ∧ t.childIndex c = j ∧
      (t.subtree p).children[j]? = some (t.subtree c) := by
  have hp : p < t.size := by
    by_contra hp
    rw [children, entry_of_not_lt hp] at h
    simp [Entry.absent] at h
  rw [children_eq] at h
  have hlt : j < (t.subtree p).children.length := by
    rw [← Rose.length_childIds (p + 1)]
    exact (List.getElem?_eq_some_iff.1 h).1
  have hm := List.getElem?_eq_getElem hlt
  obtain ⟨c', hc', hs⟩ := (stands hp).standAll.getElem? hm
  rw [h, Option.some.injEq] at hc'
  subst hc'
  have he := hs.entry
  have hc : c < t.size := by
    by_contra hc
    have hn := congrArg Entry.size he
    rw [entry_of_not_lt hc] at hn
    exact absurd hn.symm (Nat.ne_of_gt (Rose.size_pos _))
  refine ⟨hc, ?_, ?_, ?_⟩
  · rw [parent?, he]
    rfl
  · rw [childIndex, he]
    exact Nat.zero_add j
  · have hsub : t.subtree c = (t.subtree p).children[j] := by
      rw [subtree, he]
      rfl
    rw [hm, hsub]

/-- The subtrees of the children of a node are those directly below it. -/
theorem map_subtree_children (t : Tree) (p : Nat) :
    (t.children p).map t.subtree = (t.subtree p).children := by
  apply List.ext_getElem?
  intro j
  rw [List.getElem?_map]
  cases hj : (t.children p)[j]? with
  | some c =>
    rw [(children_getElem? hj).2.2.2]
    rfl
  | none =>
    rw [List.getElem?_eq_none_iff, children_eq, Rose.length_childIds] at hj
    rw [List.getElem?_eq_none hj]
    rfl

end Tree

end TreeMerge
