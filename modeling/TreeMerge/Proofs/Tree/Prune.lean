import Mathlib.Data.List.Nodup
import TreeMerge.Merge.Skeleton
import TreeMerge.Proofs.Tree.Order

/-!
# The numbers of a pruned tree

Pruning keeps a node if it and all nodes above it are picked. The kept nodes stay in pre-order, so
the new number of a kept node is the number of kept nodes before it.

* `Rose.pruneAll_cons` : positions in the whole tree place the kept children in their order;
* `Tree.keeps`, `Tree.rank` : the kept nodes, and the new number of a node;
* `Tree.Stands.preorder_prune` : the values of a pruned tree are those of the kept nodes, in order;
* `Tree.prune_subtree_eq` : the pruned subtree of a kept node stands at its new number;
* `Tree.children_rank` : its children there are the kept ones of its children.
-/

namespace TreeMerge

namespace Rose

variable {α β γ : Type}

theorem placeAt_of_length_le {list : List α} {item : α} {index : Nat} (h : list.length ≤ index) :
    placeAt list item index = list ++ [item] := by
  rw [placeAt, if_pos]
  simpa using Or.inr h

/-! ## Kept children -/

theorem pruneAll_eq_append (pick : Nat → Option β) (next index : Nat) (ts : List (Rose α))
    (placed : List (Rose β)) (h : placed.length ≤ index) :
    pruneAll pick next index ts placed = placed ++ pruneAll pick next 0 ts [] := by
  induction ts generalizing next index placed with
  | nil => simp [pruneAll]
  | cons c cs ih =>
    rw [pruneAll, pruneAll]
    cases prune pick next c with
    | none =>
      show pruneAll pick _ _ cs placed = placed ++ pruneAll pick _ _ cs []
      rw [ih _ _ placed (Nat.le_succ_of_le h), ih _ (0 + 1) [] (Nat.zero_le _), List.nil_append]
    | some kept =>
      show pruneAll pick _ _ cs (placeAt placed kept index) =
        placed ++ pruneAll pick _ _ cs [kept]
      rw [placeAt_of_length_le h, ih _ _ (placed ++ [kept]) (by simpa using h),
        ih _ (0 + 1) [kept] (by simp), List.append_assoc]

/-- The kept children come one after the other. -/
theorem pruneAll_cons (pick : Nat → Option β) (next : Nat) (c : Rose α) (cs : List (Rose α)) :
    pruneAll pick next 0 (c :: cs) [] =
      (prune pick next c).toList ++ pruneAll pick (next + c.size) 0 cs [] := by
  rw [pruneAll]
  cases prune pick next c with
  | none => exact pruneAll_eq_append pick _ _ cs [] (Nat.zero_le _)
  | some kept =>
    exact pruneAll_eq_append pick _ _ cs [kept] (by simp)

theorem prune_eq (pick : Nat → Option β) (id : Nat) (t : Rose α) :
    prune pick id t = (pick id).map fun b => node b (pruneAll pick (id + 1) 0 t.children []) := by
  cases t
  rw [prune]
  rfl

/-! ## Values -/

theorem map_value_subtreesAll (ts : List (Rose α)) :
    (subtreesAll ts).map value = ts.flatMap preorder := by
  induction ts with
  | nil => rfl
  | cons c cs ih =>
    rw [subtreesAll, List.map_append, ih, List.flatMap_cons, preorder]

theorem preorder_node (a : α) (ts : List (Rose α)) :
    (node a ts).preorder = a :: ts.flatMap preorder := by
  rw [preorder, subtrees, List.map_cons, map_value_subtreesAll]
  rfl

theorem length_flatMap_preorder (ts : List (Rose α)) :
    (ts.flatMap preorder).length = sizeAll ts := by
  rw [← map_value_subtreesAll, List.length_map, length_subtreesAll]

mutual

/-- Values may be changed before or after pruning. -/
theorem prune_map (pick : Nat → Option β) (f : β → γ) : ∀ (id : Nat) (t : Rose α),
    prune (fun b => (pick b).map f) id t = (prune pick id t).map (map f)
  | id, node a cs => by
    rw [prune, prune]
    cases pick id with
    | none => rfl
    | some b =>
      show some (node (f b) _) = some (node (f b) _)
      rw [pruneAll_map pick f (id + 1) cs]

theorem pruneAll_map (pick : Nat → Option β) (f : β → γ) : ∀ (next : Nat) (ts : List (Rose α)),
    pruneAll (fun b => (pick b).map f) next 0 ts [] = mapAll f (pruneAll pick next 0 ts [])
  | _, [] => rfl
  | next, c :: cs => by
    rw [pruneAll_cons, pruneAll_cons, prune_map pick f next c, pruneAll_map pick f _ cs,
      mapAll_eq_map, mapAll_eq_map, List.map_append]
    cases prune pick next c <;> rfl

end

end Rose

namespace Tree

variable {β : Type} (t : Tree) (pick : Nat → Option β)

/-! ## Kept nodes -/

/-- Whether a node and all nodes above it are picked. -/
def keeps (b : Nat) : Bool :=
  (b :: t.ancestors b).all fun a => (pick a).isSome

/-- The number of kept nodes before a node. -/
def rank (b : Nat) : Nat :=
  (List.range b).countP (t.keeps pick)

variable {t pick}

theorem keeps_iff {b : Nat} (hb : b < t.size) :
    t.keeps pick b = true ↔ ∀ a, t.contains a b = true → (pick a).isSome = true := by
  rw [keeps, List.all_eq_true]
  constructor
  · exact fun h a ha => h a ((mem_self_ancestors_iff hb).2 ha)
  · exact fun h a ha => h a ((mem_self_ancestors_iff hb).1 ha)

theorem isSome_of_keeps {b : Nat} (h : t.keeps pick b = true) : (pick b).isSome = true :=
  List.all_eq_true.1 h b List.mem_cons_self

theorem keeps_child {p c : Nat} (hc : c ∈ t.children p) :
    t.keeps pick c = ((pick c).isSome && t.keeps pick p) := by
  rw [keeps, ancestors_child hc, List.all_cons, keeps]

theorem keeps_root : t.keeps pick root = (pick root).isSome := by
  rw [keeps, ancestors, root, climb, List.all_cons, List.all_nil, Bool.and_true]

/-- What is kept does not depend on what the picked values are mapped to. -/
theorem keeps_map {γ : Type} (f : β → γ) :
    t.keeps (fun b => (pick b).map f) = t.keeps pick := by
  funext b
  rw [keeps, keeps]
  simp only [Option.isSome_map]

theorem rank_map {γ : Type} (f : β → γ) :
    t.rank (fun b => (pick b).map f) = t.rank pick := by
  funext b
  rw [rank, rank, keeps_map]

theorem rank_add (a k : Nat) :
    t.rank pick (a + k) = t.rank pick a + (List.range' a k).countP (t.keeps pick) := by
  rw [rank, rank, List.range_eq_range', List.range_eq_range', ← List.countP_append]
  have h := @List.range'_append_1 0 a k
  rw [Nat.zero_add] at h
  rw [h]

theorem rank_succ {b : Nat} (h : t.keeps pick b = true) :
    t.rank pick (b + 1) = t.rank pick b + 1 := by
  rw [rank_add, List.range'_one, List.countP_singleton, if_pos h]

theorem rank_lt_rank {a b : Nat} (ha : t.keeps pick a = true) (h : a < b) :
    t.rank pick a < t.rank pick b := by
  obtain ⟨k, rfl⟩ : ∃ k, b = a + (k + 1) := ⟨b - a - 1, by omega⟩
  rw [rank_add, List.range'_succ, List.countP_cons, if_pos ha]
  omega

/-- Nodes before which nothing is left out keep their numbers. -/
theorem rank_of_keeps {b : Nat} (h : ∀ a < b, t.keeps pick a = true) : t.rank pick b = b := by
  have hall : ∀ a ∈ List.range b, t.keeps pick a = true := fun a ha => h a (List.mem_range.1 ha)
  rw [rank, List.countP_eq_length.2 hall, List.length_range]

/-- The kept nodes in order; each stands at its rank. -/
theorem getElem?_filter_keeps {b c : Nat} :
    (t.ids.filter (t.keeps pick))[c]? = some b ↔
      (b < t.size ∧ t.keeps pick b = true) ∧ c = t.rank pick b := by
  have hself : ∀ b, b < t.size → t.keeps pick b = true →
      (t.ids.filter (t.keeps pick))[t.rank pick b]? = some b := by
    intro b hb hk
    have hids : t.ids = List.range' 0 b ++ b :: List.range' (b + 1) (t.size - b - 1) := by
      rw [ids, List.range_eq_range', ← List.range'_succ,
        show t.size - b - 1 + 1 = t.size - b by omega]
      have h := @List.range'_append_1 0 b (t.size - b)
      rw [Nat.zero_add, show b + (t.size - b) = t.size by omega] at h
      exact h.symm
    have hrank : t.rank pick b = ((List.range' 0 b).filter (t.keeps pick)).length := by
      rw [rank, List.range_eq_range', List.countP_eq_length_filter]
    rw [hids, List.filter_append, List.filter_cons, if_pos hk, hrank,
      List.getElem?_append_right (Nat.le_refl _), Nat.sub_self, List.getElem?_cons_zero]
  constructor
  · intro h
    have hmem := List.mem_of_getElem? h
    rw [List.mem_filter, ids, List.mem_range] at hmem
    refine ⟨hmem, ?_⟩
    have hn : (t.ids.filter (t.keeps pick)).Nodup := List.nodup_range.filter _
    have hlt : c < (t.ids.filter (t.keeps pick)).length := (List.getElem?_eq_some_iff.1 h).1
    exact (List.getElem?_inj hlt hn).1 (h.trans (hself b hmem.1 hmem.2).symm)
  · rintro ⟨⟨hb, hk⟩, rfl⟩
    exact hself b hb hk

theorem length_filter_keeps : (t.ids.filter (t.keeps pick)).length = t.rank pick t.size := by
  rw [rank, ids, List.countP_eq_length_filter]

/-! ## Values of kept nodes -/

/-- Below a node that is not picked nothing is kept. -/
theorem filter_keeps_eq_nil {id : Nat} (h : pick id = none) (k : Nat) (hk : k ≤ t.subtreeSize id) :
    (List.range' id k).filter (t.keeps pick) = [] := by
  rw [List.filter_eq_nil_iff]
  intro x hx hx'
  rw [List.mem_range'_1] at hx
  have hc : t.contains id x = true := contains_iff.2 ⟨hx.1, by omega⟩
  have hs := (keeps_iff (contains_lt_size hc)).1 hx' id hc
  rw [h] at hs
  exact absurd hs Bool.false_ne_true

mutual

/-- The values of a pruned subtree are those of its kept nodes, in pre-order. -/
theorem Stands.preorder_prune : ∀ (n : Node) (parent : Option Nat) (index id : Nat),
    t.Stands parent index id n → t.keeps pick id = (pick id).isSome →
      ((List.range' id n.size).filter (t.keeps pick)).filterMap pick =
        (Rose.prune pick id n).toList.flatMap Rose.preorder
  | .node c cs, parent, index, id, h, hk => by
    rw [Rose.prune]
    cases hp : pick id with
    | none =>
      have hsize : (Rose.node c cs).size ≤ t.subtreeSize id := by
        rw [subtreeSize, h.entry]
        exact Nat.le_refl _
      rw [filter_keeps_eq_nil hp _ hsize]
      rfl
    | some b =>
      rw [hp] at hk
      have hchildren : ∀ c' ∈ Rose.childIds (id + 1) cs, t.keeps pick c' = (pick c').isSome := by
        intro c' hc'
        have hmem : c' ∈ t.children id := by
          rw [h.children_eq]
          exact hc'
        rw [keeps_child hmem, hk]
        exact Bool.and_true _
      have ih := StandAll.preorder_prune cs id 0 (id + 1) h.standAll hchildren
      have hk' : t.keeps pick id = true := hk
      rw [Rose.size, List.range'_succ, List.filter_cons, if_pos hk', List.filterMap_cons, hp, ih]
      show _ = (Rose.node b _).preorder ++ []
      rw [List.append_nil, Rose.preorder_node]

theorem StandAll.preorder_prune : ∀ (ns : List Node) (parent index next : Nat),
    t.StandAll parent index next ns →
      (∀ c ∈ Rose.childIds next ns, t.keeps pick c = (pick c).isSome) →
      ((List.range' next (Rose.sizeAll ns)).filter (t.keeps pick)).filterMap pick =
        (Rose.pruneAll pick next 0 ns []).flatMap Rose.preorder
  | [], _, _, _, _, _ => rfl
  | c :: cs, parent, index, next, h, hk => by
    have h₁ := Stands.preorder_prune c (some parent) index next h.head
      (hk next (by simp [Rose.childIds]))
    have h₂ := StandAll.preorder_prune cs parent (index + 1) (next + c.size) h.tail
      (fun x hx => hk x (by simp [Rose.childIds, hx]))
    rw [Rose.sizeAll, ← List.range'_append_1, List.filter_append, List.filterMap_append, h₁, h₂,
      Rose.pruneAll_cons, List.flatMap_append]

end

theorem length_filterMap_keeps (l : List Nat) :
    ((l.filter (t.keeps pick)).filterMap pick).length = l.countP (t.keeps pick) := by
  rw [List.length_filterMap_eq_countP, List.countP_filter]
  refine List.countP_congr fun x _ => ?_
  rw [Bool.and_eq_true]
  exact ⟨fun h => h.2, fun h => ⟨isSome_of_keeps h, h⟩⟩

/-! ## New numbers -/

/-- The rank grows over a subtree by the number of nodes that pruning leaves of it. -/
theorem Stands.rank_add_size {parent : Option Nat} {index id : Nat} {n : Node}
    (h : t.Stands parent index id n) (hk : t.keeps pick id = (pick id).isSome) :
    t.rank pick (id + n.size) =
      t.rank pick id + Rose.sizeAll (Rose.prune pick id n).toList := by
  rw [rank_add, ← length_filterMap_keeps, Stands.preorder_prune n parent index id h hk,
    Rose.length_flatMap_preorder]

/-- The new numbers of sibling subtrees are the ranks of the kept ones. -/
theorem StandAll.childIds_rank {parent index next : Nat} {ns : List Node}
    (h : t.StandAll parent index next ns)
    (hk : ∀ c ∈ Rose.childIds next ns, t.keeps pick c = (pick c).isSome) :
    Rose.childIds (t.rank pick next) (Rose.pruneAll pick next 0 ns []) =
      ((Rose.childIds next ns).filter (t.keeps pick)).map (t.rank pick) := by
  induction ns generalizing index next with
  | nil => rfl
  | cons n ns ih =>
    have hn := hk next (by simp [Rose.childIds])
    have hr := h.head.rank_add_size hn
    have ih' := ih h.tail fun x hx => hk x (by simp [Rose.childIds, hx])
    rw [hr] at ih'
    rw [Rose.pruneAll_cons, Rose.childIds_append, ih', Rose.childIds, List.filter_cons, hn,
      Rose.prune_eq]
    cases pick next <;> rfl

/-- A kept one of sibling subtrees is found at its new number. -/
theorem StandAll.getElem?_pruneAll {parent index next : Nat} {ns : List Node} {j x : Nat}
    {n : Node} {r : Rose β} (h : t.StandAll parent index next ns)
    (hk : ∀ c ∈ Rose.childIds next ns, t.keeps pick c = (pick c).isSome)
    (hx : (Rose.childIds next ns)[j]? = some x) (hn : ns[j]? = some n)
    (hr : Rose.prune pick x n = some r) :
    ∃ i : Nat, (Rose.childIds (t.rank pick next) (Rose.pruneAll pick next 0 ns []))[i]? =
      some (t.rank pick x) ∧ (Rose.pruneAll pick next 0 ns [])[i]? = some r := by
  induction ns generalizing index next j with
  | nil => simp at hn
  | cons m ns ih =>
    have hm := hk next (by simp [Rose.childIds])
    rw [Rose.pruneAll_cons, Rose.childIds_append, ← h.head.rank_add_size hm]
    cases j with
    | zero =>
      rw [Rose.childIds, List.getElem?_cons_zero, Option.some.injEq] at hx
      rw [List.getElem?_cons_zero, Option.some.injEq] at hn
      subst hx hn
      rw [hr]
      exact ⟨0, rfl, rfl⟩
    | succ j =>
      obtain ⟨i, hi₁, hi₂⟩ := ih h.tail (fun c hc => hk c (by simp [Rose.childIds, hc])) hx hn
      refine ⟨(Rose.prune pick next m).toList.length + i, ?_, ?_⟩
      · rw [List.getElem?_append_right (by rw [Rose.length_childIds]; omega), Rose.length_childIds,
          Nat.add_sub_cancel_left, hi₁]
      · rw [List.getElem?_append_right (by omega), Nat.add_sub_cancel_left, hi₂]

end Tree

/-! ## The pruned tree -/

namespace Tree

variable {t u : Tree} {pick : Nat → Option Content}

theorem keeps_children {p : Nat} (hp : t.keeps pick p = true) {c : Nat}
    (hc : c ∈ Rose.childIds (p + 1) (t.subtree p).children) :
    t.keeps pick c = (pick c).isSome := by
  rw [← children_eq] at hc
  rw [keeps_child hc, hp, Bool.and_true]

theorem prune_of_keeps {p : Nat} (hp : t.keeps pick p = true) (n : Node) :
    ∃ d, pick p = some d ∧ Rose.prune pick p n =
      some (.node d (Rose.pruneAll pick (p + 1) 0 n.children [])) := by
  obtain ⟨d, hd⟩ := Option.isSome_iff_exists.1 (isSome_of_keeps hp)
  rw [Rose.prune_eq, hd]
  exact ⟨d, rfl, rfl⟩

/-- **The pruned subtree of a kept node stands at its rank.** -/
theorem prune_subtree_eq (hu : Rose.prune pick root t.node = some u.node) {b : Nat}
    (hb : b < t.size) (hk : t.keeps pick b = true) :
    t.rank pick b < u.size ∧
      Rose.prune pick b (t.subtree b) = some (u.subtree (t.rank pick b)) := by
  refine induct (motive := fun b => t.keeps pick b = true → t.rank pick b < u.size ∧
    Rose.prune pick b (t.subtree b) = some (u.subtree (t.rank pick b))) ?_ ?_ b hb hk
  · intro _
    rw [subtree_root, hu, show t.rank pick root = root from rfl, subtree_root]
    exact ⟨u.size_pos, rfl⟩
  · intro p c hp hc ih hkc
    have hkp : t.keeps pick p = true := by
      rw [keeps_child hc, Bool.and_eq_true] at hkc
      exact hkc.2
    obtain ⟨hlt, hsub⟩ := ih hkp
    obtain ⟨j, hj⟩ := exists_getElem?_of_mem hc
    have hn := (children_getElem? hj).2.2.2
    rw [children_eq] at hj
    obtain ⟨_, -, hr⟩ := prune_of_keeps hkc (t.subtree c)
    obtain ⟨i, hi₁, hi₂⟩ := (stands hp).standAll.getElem?_pruneAll
      (fun x hx => keeps_children hkp hx) hj hn hr
    have hchildren : (u.subtree (t.rank pick p)).children =
        Rose.pruneAll pick (p + 1) 0 (t.subtree p).children [] := by
      obtain ⟨d, -, hd⟩ := prune_of_keeps hkp (t.subtree p)
      rw [hd, Option.some.injEq] at hsub
      rw [← hsub, Rose.children_node]
    have hci : (u.children (t.rank pick p))[i]? = some (t.rank pick c) := by
      rw [children_eq, hchildren, ← rank_succ hkp]
      exact hi₁
    obtain ⟨hlt', -, -, hsub'⟩ := children_getElem? hci
    rw [hchildren, hi₂] at hsub'
    exact ⟨hlt', hr.trans hsub'⟩

theorem content_rank (hu : Rose.prune pick root t.node = some u.node) {b : Nat}
    (hb : b < t.size) (hk : t.keeps pick b = true) :
    pick b = some (u.content (t.rank pick b)) := by
  have h := (prune_subtree_eq hu hb hk).2
  obtain ⟨d, hpick, hd⟩ := prune_of_keeps hk (t.subtree b)
  rw [hd, Option.some.injEq] at h
  rw [hpick, content, ← h, Rose.value_node]

/-- The children of a kept node are, in the pruned tree, its kept children. -/
theorem children_rank (hu : Rose.prune pick root t.node = some u.node) {b : Nat}
    (hb : b < t.size) (hk : t.keeps pick b = true) :
    u.children (t.rank pick b) = ((t.children b).filter (t.keeps pick)).map (t.rank pick) := by
  have h := (prune_subtree_eq hu hb hk).2
  obtain ⟨d, -, hd⟩ := prune_of_keeps hk (t.subtree b)
  rw [hd, Option.some.injEq] at h
  rw [children_eq, ← h, Rose.children_node, ← rank_succ hk,
    (stands hb).standAll.childIds_rank fun x hx => keeps_children hk hx, children_eq]

theorem size_prune (hu : Rose.prune pick root t.node = some u.node) :
    u.size = t.rank pick t.size := by
  have hk : t.keeps pick root = (pick root).isSome := keeps_root
  have h := t.stands_root.rank_add_size hk
  rw [hu, Option.toList_some, Rose.sizeAll, Rose.sizeAll, ← t.size_eq, ← u.size_eq, root,
    Nat.zero_add] at h
  rw [h]
  exact (Nat.zero_add _).symm

end Tree

end TreeMerge
