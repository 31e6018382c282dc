import Mathlib.Data.List.Basic
import Mathlib.Logic.Relation
import TreeMerge.Proofs.Tree.Normal
import TreeMerge.Proofs.Tree.Order

/-!
# Trees as arenas

A tree comes out of its description in two passes: one that gives every node the next free number
before its children, and one from the last number to the first that measures every node by its
children. What is read off numbers then agrees with what is found by going from node to node.

* `Spec.allocate`, `measureAll` : the two passes;
* `Spec.allocate_eq`, `Tree.MeasuredFrom`, `Tree.measureAll_eq` : they give the entries of the tree;
* `Tree.walk`, `Tree.preOrder_eq_walk` : a range of numbers is a walk over children;
* `Tree.perm_postOrder`, `Tree.idxOf_postOrder_lt` : the nodes of a range, children before parents;
* `Tree.contains_iff_climbs` : a range holds the nodes from which the way up leads to its root;
* `Tree.Represents`, `Tree.represents_described` : a tree and the description that it is made from.
-/

namespace TreeMerge

/-! ## Allocation -/

/-- What is recorded of a node when it is allocated. -/
structure Slot where
  content : Content
  parent : Option Nat
  index : Nat
  children : List Nat

mutual

/-- Allocate a described subtree behind the slots that are taken, its root first. The children are
listed when all of them have their numbers. -/
def Spec.allocate (parent : Option Nat) (index : Nat) : Spec → List Slot → List Slot × Nat
  | .node d ds, slots =>
    let id := slots.length
    let below := Spec.allocateAll id 0 ds (slots ++ [⟨d.content, parent, index, []⟩])
    (below.1.set id ⟨d.content, parent, index, below.2⟩, id)

/-- Allocate the children of node `parent` from position `index` on, one after the other. -/
def Spec.allocateAll (parent index : Nat) : List Spec → List Slot → List Slot × List Nat
  | [], slots => (slots, [])
  | d :: ds, slots =>
    let first := Spec.allocate (some parent) index d slots
    let rest := Spec.allocateAll parent (index + 1) ds first.1
    (rest.1, first.2 :: rest.2)

end

/-- The part of an entry that allocation records. -/
def Entry.slot (e : Entry) : Slot :=
  ⟨e.node.value, e.parent, e.index, e.children⟩

mutual

/-- A subtree is allocated as it is laid out. -/
theorem Spec.allocate_eq (parent : Option Nat) (index : Nat) : ∀ (s : Spec) (slots : List Slot),
    s.allocate parent index slots =
      (slots ++ (Node.layout parent index slots.length s.toNode).map Entry.slot, slots.length)
  | .node d ds, slots => by
    have hbelow := Spec.allocateAll_eq slots.length 0 ds (slots ++ [⟨d.content, parent, index, []⟩])
    rw [List.length_append, List.length_singleton] at hbelow
    unfold Spec.allocate
    simp only [hbelow, List.append_assoc, List.singleton_append]
    simp [Spec.toNode, Rose.map, Node.layout, Entry.slot, Entry.ofNode]

theorem Spec.allocateAll_eq (parent index : Nat) : ∀ (ds : List Spec) (slots : List Slot),
    Spec.allocateAll parent index ds slots =
      (slots ++ (Node.layoutAll parent index slots.length
        (Rose.mapAll Description.content ds)).map Entry.slot,
        Rose.childIds slots.length (Rose.mapAll Description.content ds))
  | [], slots => by simp [Spec.allocateAll, Rose.mapAll, Node.layoutAll, Rose.childIds]
  | d :: ds, slots => by
    have hfirst := Spec.allocate_eq (some parent) index d slots
    have hrest := Spec.allocateAll_eq parent (index + 1) ds (slots ++
      (Node.layout (some parent) index slots.length d.toNode).map Entry.slot)
    rw [List.length_append, List.length_map, Node.length_layout] at hrest
    unfold Spec.allocateAll
    rw [hfirst]
    dsimp only
    rw [hrest]
    simp [Rose.mapAll, Node.layoutAll, Rose.childIds, Spec.toNode]

end

/-! ## Measures -/

/-- What is measured of a node when all nodes are allocated. -/
structure Measures where
  height : Nat
  size : Nat
  hash : UInt32

/-- The part of an entry that is measured. -/
def Entry.measures (e : Entry) : Measures :=
  ⟨e.height, e.size, e.hash⟩

/-- The measures of a node from those of its children. -/
def Slot.measure (s : Slot) (below : List Measures) : Measures where
  height := below.foldl (fun h m => max h (m.height + 1)) 1
  size := below.foldl (fun n m => n + m.size) 1
  hash := Node.absorbWord
    (below.foldl (fun h m => Node.absorbWord h m.hash) (Node.absorbText (Node.absorbText
      (Node.absorbText Node.hashStart s.content.kind) "\x00") s.content.label))
    (UInt32.ofNat s.children.length)

/-- What stands for measures that are not there yet. -/
def Measures.blank : Measures :=
  ⟨1, 1, 0⟩

/-- Measure a node, given with its number, by what is there for its children. -/
def measureStep (s : Slot × Nat) (done : Array Measures) : Array Measures :=
  done.setIfInBounds s.2 (s.1.measure (s.1.children.map fun c => done[c]?.getD Measures.blank))

/-- The measures of all nodes, from the last node to the first. -/
def measureAll (slots : List Slot) : Array Measures :=
  slots.zipIdx.foldr measureStep (Array.replicate slots.length Measures.blank)

namespace Rose

variable {α : Type}

theorem foldl_height (ts : List (Rose α)) {h : Nat} (hpos : 0 < h) :
    ts.foldl (fun h t => max h (t.height + 1)) h = max h (heightAll ts + 1) := by
  induction ts generalizing h with
  | nil => simp only [List.foldl_nil, heightAll]; omega
  | cons t ts ih =>
    rw [List.foldl_cons, ih (by omega), heightAll]
    omega

theorem foldl_size (ts : List (Rose α)) (n : Nat) :
    ts.foldl (fun n t => n + t.size) n = n + sizeAll ts := by
  induction ts generalizing n with
  | nil => rfl
  | cons t ts ih =>
    rw [List.foldl_cons, ih, sizeAll]
    omega

end Rose

theorem Node.foldl_hash (ns : List Node) (h : UInt32) :
    ns.foldl (fun h n => absorbWord h (Node.hash n)) h = hashAll h ns := by
  induction ns generalizing h with
  | nil => rfl
  | cons n ns ih => rw [List.foldl_cons, ih, hashAll]

/-- The measures of a subtree. -/
def Node.measures (n : Node) : Measures :=
  ⟨n.height, n.size, Node.hash n⟩

namespace Tree

variable {t : Tree}

theorem measures_entry {id : Nat} (h : id < t.size) :
    (t.entry id).measures = Node.measures (t.subtree id) := by
  rw [(stands h).entry]
  rfl

/-- The measures of a node are computed from those of its children. -/
theorem measure_slot {id : Nat} (h : id < t.size) :
    (t.entry id).slot.measure ((t.children id).map fun c => (t.entry c).measures) =
      (t.entry id).measures := by
  have hbelow : ((t.children id).map fun c => (t.entry c).measures) =
      (t.subtree id).children.map Node.measures := by
    rw [← map_subtree_children, List.map_map]
    exact List.map_congr_left fun c hc => measures_entry (lt_size_of_mem_children hc)
  rw [hbelow, measures_entry h, (stands h).entry]
  unfold Slot.measure
  simp only [List.foldl_map, Node.measures, Rose.foldl_height _ Nat.one_pos, Rose.foldl_size,
    Node.foldl_hash]
  cases hs : t.subtree id with
  | node c cs =>
    simp [Entry.slot, Entry.ofNode, Rose.height, Rose.size, Node.hash, Rose.length_childIds,
      Nat.add_comm]

/-- The nodes from number `k` on are measured. -/
structure MeasuredFrom (t : Tree) (k : Nat) (done : Array Measures) : Prop where
  size : done.size = t.size
  measures : ∀ j, k ≤ j → j < t.size → done[j]? = some (t.entry j).measures

/-- The children of a node come after it, so they are measured before it. -/
theorem MeasuredFrom.step {k : Nat} {done : Array Measures} (h : t.MeasuredFrom (k + 1) done)
    (hk : k < t.size) : t.MeasuredFrom k (measureStep ((t.entry k).slot, k) done) := by
  have hchildren : ((t.children k).map fun c => done[c]?.getD Measures.blank) =
      (t.children k).map fun c => (t.entry c).measures := by
    refine List.map_congr_left fun c hc => ?_
    rw [h.measures c (lt_of_mem_children hc) (lt_size_of_mem_children hc), Option.getD_some]
  have hstep : measureStep ((t.entry k).slot, k) done =
      done.setIfInBounds k (t.entry k).measures := by
    rw [← measure_slot hk, ← hchildren]
    rfl
  rw [hstep]
  refine ⟨by rw [Array.size_setIfInBounds, h.size], fun j hj hlt => ?_⟩
  rw [Array.getElem?_setIfInBounds]
  by_cases hjk : k = j
  · subst hjk
    rw [if_pos rfl, if_pos (by rw [h.size]; exact hk)]
  · rw [if_neg hjk, h.measures j (by omega) hlt]

theorem measuredFrom (t : Tree) {k : Nat} (hk : k ≤ t.size) :
    t.MeasuredFrom k ((((t.entries.toList.drop k).map Entry.slot).zipIdx k).foldr measureStep
      (Array.replicate t.size Measures.blank)) := by
  induction hn : t.size - k generalizing k with
  | zero =>
    have hall : t.entries.toList.length ≤ k := by
      rw [Array.length_toList]
      exact Nat.le_of_sub_eq_zero hn
    rw [List.drop_eq_nil_of_le hall]
    exact ⟨Array.size_replicate, fun j hj hlt => by omega⟩
  | succ n ih =>
    have hlt : k < t.entries.toList.length := by
      rw [Array.length_toList]
      show k < t.size
      omega
    have hentry : t.entries.toList[k] = t.entry k := by
      rw [entry_eq, List.getElem?_eq_getElem hlt, Option.getD_some]
    rw [List.drop_eq_getElem_cons hlt, hentry, List.map_cons, List.zipIdx_cons, List.foldr_cons]
    exact (ih (by omega) (by omega)).step (by omega)

/-- **The loop computes the measures of all entries.** -/
theorem measureAll_eq (t : Tree) : (measureAll (t.entries.toList.map Entry.slot)).toList =
    t.entries.toList.map Entry.measures := by
  have h := t.measuredFrom (Nat.zero_le _)
  have hall : measureAll (t.entries.toList.map Entry.slot) =
      (((t.entries.toList.drop 0).map Entry.slot).zipIdx 0).foldr measureStep
        (Array.replicate t.size Measures.blank) := by
    unfold measureAll
    rw [List.drop_zero, List.length_map, Array.length_toList]
    rfl
  rw [hall]
  apply List.ext_getElem?
  intro j
  rw [Array.getElem?_toList, List.getElem?_map]
  by_cases hj : j < t.size
  · rw [h.measures j (Nat.zero_le j) hj, entry_eq]
    have hj' : j < t.entries.toList.length := hj
    rw [List.getElem?_eq_getElem hj', Option.getD_some, Option.map_some]
  · have hj' : t.entries.toList.length ≤ j := Nat.le_of_not_lt hj
    rw [Array.getElem?_eq_none (by rw [h.size]; exact Nat.le_of_not_lt hj),
      List.getElem?_eq_none hj', Option.map_none]

/-! ## Traversals -/

/-- The walk from a node: the node itself, then the walks from its children. -/
def walk (t : Tree) (id : Nat) : List Nat :=
  id :: (t.children id).attach.flatMap fun c => t.walk c.1
termination_by t.size - id
decreasing_by
  have := lt_of_mem_children c.2
  have := lt_size_of_mem_children c.2
  omega

theorem walk_eq (t : Tree) (id : Nat) : t.walk id = id :: (t.children id).flatMap t.walk := by
  rw [walk, List.flatMap_subtype fun _ _ => rfl, List.unattach_attach]

theorem StandAll.flatMap_preOrder {parent index next : Nat} {ns : List Node}
    (h : t.StandAll parent index next ns) :
    (Rose.childIds next ns).flatMap t.preOrder = List.range' next (Rose.sizeAll ns) := by
  induction ns generalizing index next with
  | nil => rfl
  | cons n ns ih =>
    have hsize : t.subtreeSize next = n.size := by
      rw [subtreeSize, h.head.entry]
      rfl
    rw [Rose.childIds, List.flatMap_cons, ih h.tail, preOrder, hsize, Rose.sizeAll,
      List.range'_append_1]

/-- A range is its first number and the ranges of the children. -/
theorem preOrder_eq {id : Nat} (h : id < t.size) :
    t.preOrder id = id :: (t.children id).flatMap t.preOrder := by
  rw [children_eq, (stands h).standAll.flatMap_preOrder, preOrder, subtreeSize_eq h,
    Rose.size_eq_sizeAll, List.range'_succ]

/-- **The range of a node is the walk from it.** -/
theorem preOrder_eq_walk {id : Nat} (h : id < t.size) : t.preOrder id = t.walk id := by
  induction hn : t.size - id using Nat.strongRecOn generalizing id with
  | ind n ih =>
    rw [preOrder_eq h, walk_eq]
    congr 1
    refine List.flatMap_congr fun c hc => ?_
    have hlt := lt_size_of_mem_children hc
    have hgt := lt_of_mem_children hc
    exact ih (t.size - c) (by omega) hlt rfl

theorem StandAll.flatMap_postOrder {parent index next : Nat} {ns : List Node}
    (h : t.StandAll parent index next ns) :
    (Rose.childIds next ns).flatMap t.postOrder = Rose.postOrderAll next ns := by
  induction ns generalizing index next with
  | nil => rfl
  | cons n ns ih =>
    have hsub : t.subtree next = n := by
      rw [subtree, h.head.entry]
      rfl
    rw [Rose.childIds, List.flatMap_cons, ih h.tail, postOrder, hsub, Rose.postOrderAll]

/-- A node is visited after the visits to its children. -/
theorem postOrder_eq {id : Nat} (h : id < t.size) :
    t.postOrder id = (t.children id).flatMap t.postOrder ++ [id] := by
  rw [children_eq, (stands h).standAll.flatMap_postOrder, postOrder]
  cases t.subtree id
  rfl

end Tree

mutual

theorem Rose.perm_postOrder {α : Type} : ∀ (id : Nat) (n : Rose α),
    (n.postOrder id).Perm (List.range' id n.size)
  | id, .node _ cs => by
    rw [Rose.postOrder, Rose.size, List.range'_succ]
    exact (List.perm_append_singleton _ _).trans ((Rose.perm_postOrderAll (id + 1) cs).cons id)

theorem Rose.perm_postOrderAll {α : Type} : ∀ (next : Nat) (ns : List (Rose α)),
    (Rose.postOrderAll next ns).Perm (List.range' next (Rose.sizeAll ns))
  | _, [] => List.Perm.refl _
  | next, c :: cs => by
    rw [Rose.postOrderAll, Rose.sizeAll, ← List.range'_append_1]
    exact (Rose.perm_postOrder next c).append (Rose.perm_postOrderAll (next + c.size) cs)

end

namespace Tree

variable {t : Tree}

theorem perm_postOrder {id : Nat} (h : id < t.size) : (t.postOrder id).Perm (t.preOrder id) := by
  rw [preOrder, subtreeSize_eq h]
  exact Rose.perm_postOrder id _

/-- What is below a node is visited before it. -/
theorem idxOf_postOrder_lt {id x y : Nat} (hid : id < t.size) (hx : x ∈ t.postOrder id)
    (hy : y ∈ t.descendants x) : (t.postOrder id).idxOf y < (t.postOrder id).idxOf x := by
  obtain ⟨hne, hxy⟩ := mem_descendants.1 hy
  have hidx : t.contains id x = true := mem_preOrder.1 ((perm_postOrder hid).subset hx)
  have hyin : y ∈ t.postOrder id :=
    (perm_postOrder hid).symm.subset (mem_preOrder.2 (contains_trans hidx hxy))
  have hpair : (t.postOrder id).Pairwise fun x y => ¬ t.contains x y = true :=
    Stands.pairwise_postOrder (t.subtree id) _ _ id (stands hid)
  have hlx := List.idxOf_lt_length_of_mem hx
  have hly := List.idxOf_lt_length_of_mem hyin
  by_contra hle
  have hlt : (t.postOrder id).idxOf x < (t.postOrder id).idxOf y := by
    refine Nat.lt_of_le_of_ne (Nat.le_of_not_lt hle) fun heq => hne ?_
    exact (List.idxOf_inj hx).1 heq
  have hnot := List.pairwise_iff_getElem.1 hpair _ _ hlx hly hlt
  rw [List.getElem_idxOf, List.getElem_idxOf] at hnot
  exact hnot hxy

/-- A node contains those from which the way up leads to it. -/
theorem contains_iff_climbs {a b : Nat} (hb : b < t.size) :
    t.contains a b = true ↔ Relation.ReflTransGen (fun x p => t.parent? x = some p) b a := by
  refine induct (motive := fun b => t.contains a b = true ↔
    Relation.ReflTransGen (fun x p => t.parent? x = some p) b a) ?_ ?_ b hb
  · rw [Relation.ReflTransGen.cases_head_iff, parent?_root]
    constructor
    · intro h
      exact Or.inl (Nat.le_antisymm (Nat.zero_le a) (le_of_contains h))
    · rintro (rfl | ⟨_, hnone, -⟩)
      · exact contains_self t.size_pos
      · cases hnone
  · intro p c _ hc ih
    rw [contains_parent_iff hc, Relation.ReflTransGen.cases_head_iff, parent?_of_mem_children hc,
      ih, eq_comm]
    simp

/-- A node is one higher than the highest of its children. -/
theorem height_eq_foldr {id : Nat} (h : id < t.size) :
    t.height id = ((t.children id).map t.height).foldr max 0 + 1 := by
  have hall : ∀ ns : List Node, Rose.heightAll ns = (ns.map Rose.height).foldr max 0 := by
    intro ns
    induction ns with
    | nil => rfl
    | cons n ns ih => rw [Rose.heightAll, ih, List.map_cons, List.foldr_cons]
  rw [height_eq h, Rose.height_eq_heightAll, hall, ← map_subtree_children, List.map_map]
  congr 2
  exact List.map_congr_left fun c hc => (height_eq (lt_size_of_mem_children hc)).symm

/-! ## Described trees -/

theorem size_described (s : Spec) : (ofNode s.toNode).size = s.size := by
  rw [size_eq, node_ofNode, Spec.toNode, Rose.size_map]

/-- Node `k` is the one that the `k`-th description describes. -/
theorem subtree_described {s : Spec} {k : Nat} (h : k < (ofNode s.toNode).size) :
    ∃ d, s.subtrees[k]? = some d ∧ (ofNode s.toNode).subtree k = Spec.toNode d := by
  have hk : k < s.subtrees.length := by rwa [Rose.length_subtrees, ← size_described]
  have hroot : root < (ofNode s.toNode).size := size_pos _
  have hsub := subtrees_getElem? hroot (show k < _ by rwa [subtreeSize_root])
  rw [subtree_root, node_ofNode, root, Nat.zero_add] at hsub
  unfold Spec.toNode at hsub ⊢
  rw [Rose.subtrees_map, List.getElem?_map, List.getElem?_eq_getElem hk, Option.map_some,
    Option.some.injEq] at hsub
  exact ⟨s.subtrees[k], List.getElem?_eq_getElem hk, hsub.symm⟩

theorem allocate_described (s : Spec) :
    (s.allocate none 0 []).1 = (ofNode s.toNode).entries.toList.map Entry.slot := by
  rw [Spec.allocate_eq, List.nil_append, laidOut]
  rfl

/-- A tree whose numbers, entries and traversals are those of a description. -/
structure Represents (t : Tree) (s : Spec) : Prop where
  /-- Allocating the description, parents before children, records what the entries hold. -/
  allocated : (s.allocate none 0 []).1 = t.entries.toList.map Entry.slot
  /-- So does measuring, from the last node to the first. -/
  measured : (measureAll (s.allocate none 0 []).1).toList = t.entries.toList.map Entry.measures
  size : t.size = s.size
  /-- The number of a node is its position in pre-order, and its subtree is described there, up to
  empty labels and empty lists of children. -/
  position : ∀ k < t.size, ∃ d, s.subtrees[k]? = some d ∧ t.content k = d.value.content ∧
    (t.subtree k).toSpec = Spec.normal d
  preOrder : ∀ id < t.size, t.preOrder id = t.walk id
  postOrder : ∀ id < t.size, t.postOrder id = (t.children id).flatMap t.postOrder ++ [id]
  perm : ∀ id < t.size, (t.postOrder id).Perm (t.preOrder id)
  /-- No node is visited before those below it. -/
  after : ∀ id < t.size, ∀ x ∈ t.postOrder id, ∀ y ∈ t.descendants x,
    (t.postOrder id).idxOf y < (t.postOrder id).idxOf x
  /-- A node contains those from which the way up leads to it. -/
  contains : ∀ a, ∀ id < t.size, t.contains a id = true ↔
    Relation.ReflTransGen (fun x p => t.parent? x = some p) id a
  child : ∀ id < t.size, id ≠ root → ∃ p, t.parent? id = some p ∧
    (t.children p)[t.childIndex id]? = some id
  height : ∀ id < t.size, t.height id = ((t.children id).map t.height).foldr max 0 + 1

/-- **A described tree represents its description.** -/
theorem represents_described (s : Spec) : (ofNode s.toNode).Represents s where
  allocated := allocate_described s
  measured := by
    rw [allocate_described, measureAll_eq]
  size := size_described s
  position := by
    intro k hk
    obtain ⟨d, hd, hsub⟩ := subtree_described hk
    refine ⟨d, hd, ?_, ?_⟩
    · rw [content, hsub]
      cases d
      rfl
    · rw [hsub, Node.toSpec_toNode]
  preOrder := fun _ => preOrder_eq_walk
  postOrder := fun _ => postOrder_eq
  perm := fun _ => perm_postOrder
  after := fun _ hid _ hx _ => idxOf_postOrder_lt hid hx
  contains := fun _ _ => contains_iff_climbs
  child := by
    intro id hid hroot
    obtain ⟨p, hp⟩ := exists_parent hid hroot
    obtain ⟨j, hj⟩ := exists_getElem?_of_mem hp
    obtain ⟨-, hparent, hindex, -⟩ := children_getElem? hj
    exact ⟨p, hparent, by rw [hindex, hj]⟩
  height := fun _ => height_eq_foldr

end Tree

end TreeMerge
