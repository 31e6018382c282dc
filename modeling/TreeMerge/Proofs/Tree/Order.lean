import TreeMerge.Proofs.Tree.Layout

/-!
# Subtrees as ranges of numbers

The subtree of a node is a range of numbers. Two such ranges are nested or disjoint; a range is its
first number followed by the ranges of the children; the ranges around a number are those of the
nodes above it.

* `Tree.contains_iff` : a node lies in the subtree of another;
* `Tree.pairwise_children`, `Tree.contains_child`, `Tree.exists_child_contains` : the ranges of
  children are disjoint, and fill that of their parent;
* `Tree.contains_induct` : induction from a node up;
* `Tree.contains_or_contains` : ranges that meet are nested;
* `Tree.contains_parent_iff`, `Tree.mem_ancestors_iff` : what is above a node;
* `Tree.height_lt_of_contains` : a node is lower than those above it;
* `Tree.subtree_offset` : equal subtrees are equal node by node;
* `Tree.mem_postOrder`, `Tree.pairwise_postOrder` : a node comes after those below it.
-/

namespace TreeMerge

/-! ## Sibling ranges -/

namespace Rose

variable {α : Type}

theorem le_of_mem_childIds {next c : Nat} {ts : List (Rose α)} (h : c ∈ childIds next ts) :
    next ≤ c := by
  induction ts generalizing next with
  | nil => simp [childIds] at h
  | cons n ns ih =>
    rw [childIds, List.mem_cons] at h
    rcases h with rfl | h
    · exact Nat.le_refl _
    · exact Nat.le_trans (Nat.le_add_right _ _) (ih h)

theorem childIds_add_size_le {next j c : Nat} {ts : List (Rose α)} {n : Rose α}
    (hc : (childIds next ts)[j]? = some c) (hn : ts[j]? = some n) :
    c + n.size ≤ next + sizeAll ts := by
  induction ts generalizing next j with
  | nil => simp at hn
  | cons m ms ih =>
    rw [sizeAll]
    cases j with
    | zero =>
      rw [childIds, List.getElem?_cons_zero, Option.some.injEq] at hc
      rw [List.getElem?_cons_zero, Option.some.injEq] at hn
      subst hc hn
      omega
    | succ j =>
      rw [childIds, List.getElem?_cons_succ] at hc
      rw [List.getElem?_cons_succ] at hn
      have := ih hc hn
      omega

theorem childIds_cover {next x : Nat} {ts : List (Rose α)} (h₁ : next ≤ x)
    (h₂ : x < next + sizeAll ts) :
    ∃ (j c : Nat) (n : Rose α), (childIds next ts)[j]? = some c ∧ ts[j]? = some n ∧ c ≤ x ∧
      x < c + n.size := by
  induction ts generalizing next with
  | nil => simp only [sizeAll] at h₂; omega
  | cons m ms ih =>
    rw [sizeAll] at h₂
    by_cases hx : x < next + m.size
    · exact ⟨0, next, m, rfl, rfl, h₁, hx⟩
    · obtain ⟨j, c, n, hc, hn, hle, hlt⟩ := ih (show next + m.size ≤ x by omega) (by omega)
      exact ⟨j + 1, c, n, hc, hn, hle, hlt⟩

/-- A tree is one higher than the highest of its children. -/
theorem height_eq_heightAll (t : Rose α) : t.height = heightAll t.children + 1 := by
  cases t; rfl

theorem height_le_heightAll {t : Rose α} {ts : List (Rose α)} (h : t ∈ ts) :
    t.height ≤ heightAll ts := by
  induction ts with
  | nil => simp at h
  | cons u us ih =>
    rw [heightAll]
    rcases List.mem_cons.1 h with rfl | h
    · exact Nat.le_max_left _ _
    · exact Nat.le_trans (ih h) (Nat.le_max_right _ _)

end Rose

namespace Tree

variable {t : Tree}

theorem exists_getElem?_of_mem {p c : Nat} (h : c ∈ t.children p) :
    ∃ j : Nat, (t.children p)[j]? = some c :=
  List.mem_iff_getElem?.1 h

theorem lt_size_of_mem_children {p c : Nat} (h : c ∈ t.children p) : c < t.size := by
  obtain ⟨j, hj⟩ := exists_getElem?_of_mem h
  exact (children_getElem? hj).1

theorem parent?_of_mem_children {p c : Nat} (h : c ∈ t.children p) : t.parent? c = some p := by
  obtain ⟨j, hj⟩ := exists_getElem?_of_mem h
  exact (children_getElem? hj).2.1

theorem lt_size_of_children {p c : Nat} (h : c ∈ t.children p) : p < t.size := by
  by_contra hp
  rw [children, entry_of_not_lt hp] at h
  simp [Entry.absent] at h

theorem lt_of_mem_children {p c : Nat} (h : c ∈ t.children p) : p < c := by
  rw [children_eq] at h
  exact Rose.le_of_mem_childIds h

/-- The range of a child ends within that of its parent. -/
theorem child_add_size_le {p c : Nat} (h : c ∈ t.children p) :
    c + t.subtreeSize c ≤ p + t.subtreeSize p := by
  obtain ⟨j, hj⟩ := exists_getElem?_of_mem h
  obtain ⟨hc, -, -, hn⟩ := children_getElem? hj
  rw [children_eq] at hj
  rw [subtreeSize_eq hc, subtreeSize_eq (lt_size_of_children h), Rose.size_eq_sizeAll (t.subtree p)]
  have := Rose.childIds_add_size_le hj hn
  omega

theorem pairwise_childIds {parent index next : Nat} {ns : List Node}
    (h : t.StandAll parent index next ns) :
    (Rose.childIds next ns).Pairwise fun a b => a + t.subtreeSize a ≤ b := by
  induction ns generalizing index next with
  | nil => exact List.Pairwise.nil
  | cons n ns ih =>
    rw [Rose.childIds, List.pairwise_cons]
    refine ⟨fun b hb => ?_, ih h.tail⟩
    have hs : t.subtreeSize next = n.size := by
      rw [subtreeSize, h.head.entry]
      rfl
    rw [hs]
    exact Rose.le_of_mem_childIds hb

/-- The ranges of children follow each other. -/
theorem pairwise_children (t : Tree) (p : Nat) :
    (t.children p).Pairwise fun a b => a + t.subtreeSize a ≤ b := by
  by_cases hp : p < t.size
  · rw [children_eq]
    exact pairwise_childIds (stands hp).standAll
  · rw [children, entry_of_not_lt hp]
    exact List.Pairwise.nil

theorem nodup_children (t : Tree) (p : Nat) : (t.children p).Nodup := by
  have hlt : (t.children p).Pairwise fun a b => a < b :=
    (t.pairwise_children p).imp_of_mem fun ha _ hab =>
      Nat.lt_of_lt_of_le
        (Nat.lt_add_of_pos_right (subtreeSize_pos (lt_size_of_mem_children ha))) hab
  exact hlt.imp fun hab => Nat.ne_of_lt hab

/-! ## Containment -/

theorem contains_iff {a b : Nat} :
    t.contains a b = true ↔ a ≤ b ∧ b < a + t.subtreeSize a := by
  simp [contains]

theorem contains_self {a : Nat} (h : a < t.size) : t.contains a a = true :=
  contains_iff.2 ⟨Nat.le_refl a, Nat.lt_add_of_pos_right (subtreeSize_pos h)⟩

theorem lt_size_of_contains {a b : Nat} (h : t.contains a b = true) : a < t.size := by
  by_contra ha
  rw [contains_iff, subtreeSize, entry_of_not_lt ha] at h
  simp only [Entry.absent] at h
  omega

theorem le_of_contains {a b : Nat} (h : t.contains a b = true) : a ≤ b :=
  (contains_iff.1 h).1

theorem contains_child {p c : Nat} (h : c ∈ t.children p) : t.contains p c = true := by
  have h₁ := lt_of_mem_children h
  have h₂ := child_add_size_le h
  have h₃ := subtreeSize_pos (lt_size_of_mem_children h)
  exact contains_iff.2 ⟨by omega, by omega⟩

/-- What is below a node is in the range of one of its children. -/
theorem exists_child_contains {a b : Nat} (h : t.contains a b = true) (hne : a ≠ b) :
    ∃ c ∈ t.children a, t.contains c b = true := by
  have ha := lt_size_of_contains h
  obtain ⟨hle, hlt⟩ := contains_iff.1 h
  rw [subtreeSize_eq ha, Rose.size_eq_sizeAll] at hlt
  obtain ⟨j, c, n, hc, hn, hcb, hbc⟩ :=
    Rose.childIds_cover (show a + 1 ≤ b by omega)
      (show b < a + 1 + Rose.sizeAll (t.subtree a).children by omega)
  rw [← children_eq] at hc
  obtain ⟨hcs, -, -, hsub⟩ := children_getElem? hc
  rw [hn, Option.some.injEq] at hsub
  refine ⟨c, List.mem_of_getElem? hc, contains_iff.2 ⟨hcb, ?_⟩⟩
  rw [subtreeSize_eq hcs, ← hsub]
  exact hbc

/-- **Induction from a node up.** -/
theorem contains_induct {b : Nat} {motive : Nat → Prop} (self : motive b)
    (step : ∀ a c, c ∈ t.children a → t.contains c b = true → motive c → motive a)
    {a : Nat} (h : t.contains a b = true) : motive a := by
  induction hn : t.subtreeSize a using Nat.strongRecOn generalizing a with
  | ind n ih =>
    by_cases hab : a = b
    · subst hab
      exact self
    · obtain ⟨c, hc, hcb⟩ := exists_child_contains h hab
      refine step a c hc hcb (ih (t.subtreeSize c) ?_ hcb rfl)
      have h₁ := lt_of_mem_children hc
      have h₂ := child_add_size_le hc
      omega

theorem contains_add_size_le {a b : Nat} (h : t.contains a b = true) :
    b + t.subtreeSize b ≤ a + t.subtreeSize a := by
  refine contains_induct (motive := fun a => b + t.subtreeSize b ≤ a + t.subtreeSize a)
    (Nat.le_refl _) ?_ h
  intro a c hc _ ih
  exact Nat.le_trans ih (child_add_size_le hc)

theorem contains_lt_size {a b : Nat} (h : t.contains a b = true) : b < t.size := by
  refine induct (motive := fun a => ∀ b, t.contains a b = true → b < t.size) ?_ ?_ a
    (lt_size_of_contains h) b h
  · intro b hb
    have := (contains_iff.1 hb).2
    rw [subtreeSize_root] at this
    simpa [root] using this
  · intro p c _ hc ih b hb
    refine ih b (contains_iff.2 ?_)
    have h₁ := lt_of_mem_children hc
    have h₂ := child_add_size_le hc
    have h₃ := contains_iff.1 hb
    omega

theorem contains_trans {a b c : Nat} (h₁ : t.contains a b = true) (h₂ : t.contains b c = true) :
    t.contains a c = true := by
  have h₃ := contains_add_size_le h₁
  rw [contains_iff] at *
  omega

/-- Two subtrees that share a node are nested. -/
theorem contains_or_contains {a b x : Nat} (ha : t.contains a x = true)
    (hb : t.contains b x = true) : t.contains a b = true ∨ t.contains b a = true := by
  have h₁ := contains_iff.1 ha
  have h₂ := contains_iff.1 hb
  rcases Nat.le_total a b with h | h
  · exact Or.inl (contains_iff.2 ⟨h, by omega⟩)
  · exact Or.inr (contains_iff.2 ⟨h, by omega⟩)

theorem contains_root {a : Nat} (h : a < t.size) : t.contains root a = true := by
  rw [contains_iff, subtreeSize_root, root]
  omega

/-- Distinct children share no node. -/
theorem child_unique {p c c' x : Nat} (hc : c ∈ t.children p) (hc' : c' ∈ t.children p)
    (h : t.contains c x = true) (h' : t.contains c' x = true) : c = c' := by
  have hd : c = c' ∨ c + t.subtreeSize c ≤ c' ∨ c' + t.subtreeSize c' ≤ c :=
    List.Pairwise.forall_of_forall_of_flip
      (R := fun a b => a = b ∨ a + t.subtreeSize a ≤ b ∨ b + t.subtreeSize b ≤ a)
      (fun _ _ => Or.inl rfl) ((t.pairwise_children p).imp fun h => Or.inr (Or.inl h))
      ((t.pairwise_children p).imp fun h => Or.inr (Or.inr h)) hc hc'
  rw [contains_iff] at h h'
  rcases hd with hd | hd | hd <;> omega

/-! ## Parents and ancestors -/

/-- Every node but the root is a child. -/
theorem exists_parent {c : Nat} (h : c < t.size) (hr : c ≠ root) : ∃ p, c ∈ t.children p := by
  refine induct (motive := fun c => c ≠ root → ∃ p, c ∈ t.children p) ?_ ?_ c h hr
  · intro h
    exact absurd rfl h
  · intro p c _ hc _ _
    exact ⟨p, hc⟩

theorem mem_children_iff {p c : Nat} : c ∈ t.children p ↔ t.parent? c = some p := by
  constructor
  · exact parent?_of_mem_children
  · intro h
    have hc : c < t.size := by
      by_contra hc
      rw [parent?, entry_of_not_lt hc] at h
      simp [Entry.absent] at h
    have hr : c ≠ root := by
      rintro rfl
      rw [parent?_root] at h
      cases h
    obtain ⟨q, hq⟩ := exists_parent hc hr
    rw [parent?_of_mem_children hq, Option.some.injEq] at h
    rwa [h] at hq

theorem isRoot_iff {id : Nat} (h : id < t.size) : t.isRoot id = true ↔ id = root := by
  rw [isRoot, Option.isNone_iff_eq_none]
  constructor
  · intro hp
    by_contra hr
    obtain ⟨p, hc⟩ := exists_parent h hr
    rw [parent?_of_mem_children hc] at hp
    cases hp
  · rintro rfl
    exact t.parent?_root

/-- What contains a child is the child itself or contains its parent. -/
theorem contains_parent_iff {a p c : Nat} (hc : c ∈ t.children p) :
    t.contains a c = true ↔ a = c ∨ t.contains a p = true := by
  constructor
  · intro h
    refine contains_induct (motive := fun a => a = c ∨ t.contains a p = true) (Or.inl rfl) ?_ h
    rintro a d hd - (rfl | hdp)
    · have hp := parent?_of_mem_children hd
      rw [parent?_of_mem_children hc, Option.some.injEq] at hp
      subst hp
      exact Or.inr (contains_self (lt_size_of_children hd))
    · exact Or.inr (contains_trans (contains_child hd) hdp)
  · rintro (rfl | h)
    · exact contains_self (lt_size_of_mem_children hc)
    · exact contains_trans h (contains_child hc)

theorem climb_eq_ancestors {fuel id : Nat} (h : id ≤ fuel) : t.climb fuel id = t.ancestors id := by
  induction id using Nat.strongRecOn generalizing fuel with
  | ind id ih =>
    rw [ancestors]
    cases hp : t.parent? id with
    | none =>
      cases fuel <;> cases id <;> simp [climb, hp]
    | some p =>
      have hlt : p < id := lt_of_mem_children (mem_children_iff.2 hp)
      obtain ⟨f, rfl⟩ : ∃ f, fuel = f + 1 := ⟨fuel - 1, by omega⟩
      obtain ⟨i, rfl⟩ : ∃ i, id = i + 1 := ⟨id - 1, by omega⟩
      simp only [climb, hp]
      rw [ih p hlt (by omega), ih p hlt (by omega)]

/-- The nodes above a child are its parent and those above the parent. -/
theorem ancestors_child {p c : Nat} (hc : c ∈ t.children p) :
    t.ancestors c = p :: t.ancestors p := by
  have hlt := lt_of_mem_children hc
  obtain ⟨i, rfl⟩ : ∃ i, c = i + 1 := ⟨c - 1, by omega⟩
  rw [ancestors]
  simp only [climb, parent?_of_mem_children hc]
  rw [climb_eq_ancestors (by omega)]

/-- The nodes above a node are those that contain it, itself left out. -/
theorem mem_ancestors_iff {a b : Nat} (hb : b < t.size) :
    a ∈ t.ancestors b ↔ a ≠ b ∧ t.contains a b = true := by
  refine induct (motive := fun b => a ∈ t.ancestors b ↔ a ≠ b ∧ t.contains a b = true) ?_ ?_ b hb
  · constructor
    · intro h
      simp [ancestors, root, climb] at h
    · rintro ⟨hne, h⟩
      have := le_of_contains h
      rw [root] at this hne
      omega
  · intro p c hp hc ih
    rw [ancestors_child hc, List.mem_cons, ih, contains_parent_iff hc]
    have hpc := lt_of_mem_children hc
    constructor
    · rintro (rfl | ⟨hne, h⟩)
      · exact ⟨Nat.ne_of_lt hpc, Or.inr (contains_self hp)⟩
      · have := le_of_contains h
        exact ⟨by omega, Or.inr h⟩
    · rintro ⟨hne, h | h⟩
      · exact absurd h hne
      · by_cases hap : a = p
        · exact Or.inl hap
        · exact Or.inr ⟨hap, h⟩

theorem mem_self_ancestors_iff {a b : Nat} (hb : b < t.size) :
    a ∈ b :: t.ancestors b ↔ t.contains a b = true := by
  rw [List.mem_cons, mem_ancestors_iff hb]
  constructor
  · rintro (rfl | ⟨-, h⟩)
    · exact contains_self hb
    · exact h
  · intro h
    by_cases hab : a = b
    · exact Or.inl hab
    · exact Or.inr ⟨hab, h⟩

/-! ## Ranges as lists -/

theorem mem_preOrder {a b : Nat} : b ∈ t.preOrder a ↔ t.contains a b = true := by
  rw [preOrder, List.mem_range'_1, contains_iff]

theorem mem_descendants {a b : Nat} : b ∈ t.descendants a ↔ a ≠ b ∧ t.contains a b = true := by
  rw [descendants, preOrder, contains_iff]
  cases hs : t.subtreeSize a with
  | zero => simp
  | succ n =>
    rw [List.range'_succ, List.tail_cons, List.mem_range'_1]
    omega

theorem length_descendants {a : Nat} : (t.descendants a).length = t.subtreeSize a - 1 := by
  rw [descendants, preOrder, List.length_tail, List.length_range']

theorem nodup_descendants (t : Tree) (a : Nat) : (t.descendants a).Nodup := by
  rw [descendants, preOrder]
  exact List.Nodup.sublist (List.tail_sublist _) List.nodup_range'

/-- A child lies below a node exactly if its parent lies in the node's subtree. -/
theorem mem_descendants_child {p c d : Nat} (hc : c ∈ t.children p) :
    c ∈ t.descendants d ↔ t.contains d p = true := by
  rw [mem_descendants, contains_parent_iff hc]
  constructor
  · rintro ⟨hne, heq | hdp⟩
    · exact absurd heq hne
    · exact hdp
  · intro hdp
    have h₁ := le_of_contains hdp
    have h₂ := lt_of_mem_children hc
    exact ⟨by omega, Or.inr hdp⟩

theorem mem_descendants_of_child {q c x : Nat} (hc : c ∈ t.children q)
    (hx : t.contains c x = true) : x ∈ t.descendants q := by
  have h₁ := lt_of_mem_children hc
  have h₂ := le_of_contains hx
  exact mem_descendants.2 ⟨by omega, contains_trans (contains_child hc) hx⟩

theorem child_mem_descendants {q c : Nat} (hc : c ∈ t.children q) : c ∈ t.descendants q :=
  mem_descendants_of_child hc (contains_self (lt_size_of_mem_children hc))

/-! ## Heights -/

theorem height_child_lt {p c : Nat} (hc : c ∈ t.children p) : t.height c < t.height p := by
  obtain ⟨j, hj⟩ := exists_getElem?_of_mem hc
  obtain ⟨hlt, -, -, hsub⟩ := children_getElem? hj
  rw [height_eq hlt, height_eq (lt_size_of_children hc), Rose.height_eq_heightAll (t.subtree p)]
  exact Nat.lt_succ_of_le (Rose.height_le_heightAll (List.mem_of_getElem? hsub))

/-- A node is lower than the nodes above it. -/
theorem height_lt_of_contains {a b : Nat} (h : t.contains a b = true) (hne : a ≠ b) :
    t.height b < t.height a := by
  refine contains_induct (motive := fun a => a ≠ b → t.height b < t.height a)
    (fun h => absurd rfl h) ?_ h hne
  intro a c hc _ ih _
  by_cases hcb : c = b
  · subst hcb
    exact height_child_lt hc
  · exact Nat.lt_trans (ih hcb) (height_child_lt hc)

/-! ## Leaves -/

theorem isLeaf_iff {id : Nat} : t.isLeaf id = true ↔ t.children id = [] := by
  rw [isLeaf, List.isEmpty_iff]

theorem exists_child {id : Nat} (hl : t.isLeaf id = false) : ∃ c, c ∈ t.children id := by
  apply List.exists_mem_of_ne_nil
  intro h
  rw [isLeaf_iff.2 h] at hl
  cases hl

theorem children_eq_nil_iff {id : Nat} : t.children id = [] ↔ (t.subtree id).children = [] := by
  rw [children_eq]
  cases (t.subtree id).children <;> simp [Rose.childIds]

theorem subtreeSize_leaf {id : Nat} (h : id < t.size) (hl : t.isLeaf id = true) :
    t.subtreeSize id = 1 := by
  rw [isLeaf_iff, children_eq_nil_iff] at hl
  rw [subtreeSize_eq h, Rose.size_eq_sizeAll, hl]
  rfl

theorem height_leaf {id : Nat} (h : id < t.size) (hl : t.isLeaf id = true) : t.height id = 1 := by
  rw [isLeaf_iff, children_eq_nil_iff] at hl
  rw [height_eq h, Rose.height_eq_heightAll, hl]
  rfl

theorem height_pos {id : Nat} (h : id < t.size) : 0 < t.height id := by
  rw [height_eq h]
  exact Rose.height_pos _

theorem two_le_height {id : Nat} (hl : t.isLeaf id = false) : 2 ≤ t.height id := by
  obtain ⟨c, hc⟩ := exists_child hl
  have h₁ := height_child_lt hc
  have h₂ := height_pos (lt_size_of_mem_children hc)
  omega

theorem length_descendants_pos {id : Nat} (hl : t.isLeaf id = false) :
    0 < (t.descendants id).length := by
  obtain ⟨c, hc⟩ := exists_child hl
  apply List.length_pos_of_mem (a := c)
  rw [mem_descendants]
  exact ⟨Nat.ne_of_lt (lt_of_mem_children hc), contains_child hc⟩

theorem eq_of_leaf_contains {a b : Nat} (hl : t.isLeaf a = true) (h : t.contains a b = true) :
    a = b := by
  have hs := subtreeSize_leaf (lt_size_of_contains h) hl
  rw [contains_iff, hs] at h
  omega

/-! ## Equal subtrees -/

theorem subtrees_getElem? {a k : Nat} (ha : a < t.size) (hk : k < t.subtreeSize a) :
    (t.subtree a).subtrees[k]? = some (t.subtree (a + k)) := by
  obtain ⟨rest, hrest⟩ := stands ha
  have hl : k < (Node.layout (t.parent? a) (t.childIndex a) a (t.subtree a)).length := by
    rwa [Node.length_layout, ← subtreeSize_eq ha]
  have hk' := congrArg (fun l => l[k]?) hrest
  simp only [List.getElem?_append_left hl, List.getElem?_drop] at hk'
  rw [← Node.map_node_layout (t.parent? a) (t.childIndex a) a, List.getElem?_map, hk', subtree,
    entry_eq, ← hk', List.getElem?_eq_getElem hl]
  rfl

/-- Equal subtrees are equal node by node. -/
theorem subtree_offset {u : Tree} {a b x : Nat} (hb : b < u.size)
    (h : t.subtree a = u.subtree b) (hx : t.contains a x = true) :
    t.subtree x = u.subtree (b + (x - a)) := by
  have ha := lt_size_of_contains hx
  obtain ⟨hle, hlt⟩ := contains_iff.1 hx
  have hs : t.subtreeSize a = u.subtreeSize b := by
    rw [subtreeSize_eq ha, subtreeSize_eq hb, h]
  have h₁ := subtrees_getElem? ha (show x - a < t.subtreeSize a by omega)
  have h₂ := subtrees_getElem? hb (show x - a < u.subtreeSize b by omega)
  rw [h, h₂, Option.some.injEq, show a + (x - a) = x by omega] at h₁
  exact h₁.symm

theorem subtreeSize_congr {u : Tree} {a b : Nat} (ha : a < t.size) (hb : b < u.size)
    (h : t.subtree a = u.subtree b) : t.subtreeSize a = u.subtreeSize b := by
  rw [subtreeSize_eq ha, subtreeSize_eq hb, h]

theorem height_congr {u : Tree} {a b : Nat} (ha : a < t.size) (hb : b < u.size)
    (h : t.subtree a = u.subtree b) : t.height a = u.height b := by
  rw [height_eq ha, height_eq hb, h]

theorem isLeaf_congr {u : Tree} {a b : Nat} (h : t.subtree a = u.subtree b) :
    t.isLeaf a = u.isLeaf b := by
  rw [Bool.eq_iff_iff, isLeaf_iff, isLeaf_iff, children_eq_nil_iff,
    children_eq_nil_iff, h]

theorem eq_of_contains_of_size {a b : Nat} (h : t.contains a b = true)
    (hs : t.subtreeSize a = t.subtreeSize b) : a = b := by
  have h₁ := contains_add_size_le h
  have h₂ := le_of_contains h
  omega

/-- A subtree that is as tall as one above it is the same. -/
theorem eq_of_contains_of_height {a b : Nat} (h : t.contains a b = true)
    (hh : t.height a ≤ t.height b) : a = b := by
  by_contra hne
  have := height_lt_of_contains h hne
  omega

end Tree

/-! ## Children before parents -/

mutual

theorem Rose.mem_postOrder {α : Type} {x : Nat} : ∀ (id : Nat) (n : Rose α),
    x ∈ n.postOrder id ↔ id ≤ x ∧ x < id + n.size
  | id, .node _ cs => by
    rw [Rose.postOrder, List.mem_append, List.mem_singleton, Rose.mem_postOrderAll (id + 1) cs,
      Rose.size]
    omega

theorem Rose.mem_postOrderAll {α : Type} {x : Nat} : ∀ (next : Nat) (ns : List (Rose α)),
    x ∈ Rose.postOrderAll next ns ↔ next ≤ x ∧ x < next + Rose.sizeAll ns
  | next, [] => by
    simp only [Rose.postOrderAll, Rose.sizeAll, List.not_mem_nil, false_iff]
    omega
  | next, c :: cs => by
    rw [Rose.postOrderAll, List.mem_append, Rose.mem_postOrder next c,
      Rose.mem_postOrderAll (next + c.size) cs, Rose.sizeAll]
    omega

end

namespace Tree

variable {t : Tree}

theorem mem_postOrder {x : Nat} : x ∈ t.postOrder root ↔ x < t.size := by
  rw [postOrder, Rose.mem_postOrder, subtree_root, ← t.size_eq, root]
  omega

mutual

theorem Stands.pairwise_postOrder : ∀ (n : Node) (parent : Option Nat) (index id : Nat),
    t.Stands parent index id n →
      (n.postOrder id).Pairwise fun x y => ¬ t.contains x y = true
  | .node c cs, parent, index, id, h => by
    rw [Rose.postOrder, List.pairwise_append]
    refine ⟨StandAll.pairwise_postOrder cs id 0 (id + 1) h.standAll, by simp, ?_⟩
    intro x hx y hy hxy
    rw [List.mem_singleton] at hy
    have := (Rose.mem_postOrderAll (id + 1) cs).1 hx
    have := le_of_contains hxy
    omega

theorem StandAll.pairwise_postOrder : ∀ (ns : List Node) (parent index next : Nat),
    t.StandAll parent index next ns →
      (Rose.postOrderAll next ns).Pairwise fun x y => ¬ t.contains x y = true
  | [], _, _, _, _ => List.Pairwise.nil
  | c :: cs, parent, index, next, h => by
    rw [Rose.postOrderAll, List.pairwise_append]
    refine ⟨Stands.pairwise_postOrder c (some parent) index next h.head,
      StandAll.pairwise_postOrder cs parent (index + 1) (next + c.size) h.tail, ?_⟩
    intro x hx y hy hxy
    have hs : t.subtreeSize next = c.size := by
      rw [subtreeSize, h.head.entry]
      rfl
    have hx' := (Rose.mem_postOrder next c).1 hx
    have hy' := (Rose.mem_postOrderAll (next + c.size) cs).1 hy
    have hin := contains_add_size_le (contains_iff.2 ⟨hx'.1, by rw [hs]; exact hx'.2⟩)
    have := (contains_iff.1 hxy).2
    omega

end

/-- A node comes after all nodes below it. -/
theorem pairwise_postOrder (t : Tree) :
    (t.postOrder root).Pairwise fun x y => ¬ t.contains x y = true := by
  rw [postOrder, subtree_root]
  exact Stands.pairwise_postOrder t.node none 0 root t.stands_root

theorem postOrder_root (t : Tree) : ∃ init, t.postOrder root = init ++ [root] ∧
    ∀ x ∈ init, x < t.size ∧ x ≠ root := by
  obtain ⟨init, hinit⟩ : ∃ init, t.postOrder root = init ++ [root] := by
    unfold postOrder
    cases t.subtree root with
    | node c cs => exact ⟨_, rfl⟩
  have hpair := t.pairwise_postOrder
  rw [hinit, List.pairwise_append] at hpair
  refine ⟨init, hinit, fun x hx => ⟨?_, ?_⟩⟩
  · rw [← mem_postOrder, hinit]
    exact List.mem_append_left _ hx
  · rintro rfl
    exact hpair.2.2 root hx root (List.mem_singleton_self _) (contains_self t.size_pos)

end Tree

end TreeMerge
