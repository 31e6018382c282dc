import TreeMerge.Proofs.Matching.Soundness

/-!
# Matching a tree with itself

The greedy matcher links every node of a tree with itself, in the order of the numbers. It does so
in two ways. Where the tree is tall enough to be matched as a whole, the root is its only twin and
the first pass links all; where it is not, nothing is linked before the roots meet in the second
pass, and recovery links the children as wholes, one after the other.

* `Mapping.diagonal` : the nodes below a number, each linked with itself;
* `Tree.linkSelf`, `Tree.StandAll.linkSelf` : linking subtrees with themselves extends it;
* `topDown_self_of_tall`, `topDown_self_of_low` : the first pass;
* `bottomUp_diagonal`, `bottomUp_empty` : the second pass, after either;
* `greedyMatch_self` : both.
-/

namespace TreeMerge

namespace Mapping

/-- The nodes below `n`, each linked with itself. -/
def diagonal (n : Nat) : Mapping Nat :=
  ⟨(List.range n).map fun k => (k, k)⟩

theorem mem_diagonal {n : Nat} {p : Nat × Nat} :
    p ∈ (diagonal n).pairs ↔ p.1 < n ∧ p.1 = p.2 := by
  simp only [diagonal, List.mem_map, List.mem_range]
  constructor
  · rintro ⟨k, hk, rfl⟩
    exact ⟨hk, rfl⟩
  · rintro ⟨hk, heq⟩
    exact ⟨p.1, hk, Prod.ext rfl heq⟩

@[simp] theorem hasSrc_diagonal (n a : Nat) : (diagonal n).hasSrc a = decide (a < n) := by
  rw [Bool.eq_iff_iff, hasSrc_iff, decide_eq_true_iff]
  constructor
  · rintro ⟨b, hb⟩
    exact (mem_diagonal.1 hb).1
  · exact fun ha => ⟨a, mem_diagonal.2 ⟨ha, rfl⟩⟩

@[simp] theorem hasDst_diagonal (n b : Nat) : (diagonal n).hasDst b = decide (b < n) := by
  rw [Bool.eq_iff_iff, hasDst_iff, decide_eq_true_iff]
  constructor
  · rintro ⟨a, ha⟩
    have := mem_diagonal.1 ha
    omega
  · exact fun hb => ⟨b, mem_diagonal.2 ⟨hb, rfl⟩⟩

theorem diagonal_append (n k : Nat) :
    (diagonal n).pairs ++ (List.range' n k).map (fun x => (x, x)) = (diagonal (n + k)).pairs := by
  have happend := List.range'_append_1 (s := 0) (m := n) (n := k)
  rw [Nat.zero_add] at happend
  simp only [diagonal, List.range_eq_range', ← List.map_append, happend]

theorem dst?_diagonal {n a : Nat} (ha : a < n) : (diagonal n).dst? a = some a := by
  obtain ⟨b, hb⟩ := Option.isSome_iff_exists.1 (show (diagonal n).hasSrc a = true by simp [ha])
  have heq : a = b := (mem_diagonal.1 (mem_of_dst? hb)).2
  rw [hb, heq]

end Mapping

namespace Tree

variable {t : Tree}

/-- Linking a subtree with itself, when all before it is linked. -/
theorem linkSelf (t : Tree) (a : Nat) :
    linkSubtrees t a t a (.diagonal a) = .ok (.diagonal (a + t.subtreeSize a)) := by
  have hpairs : (t.preOrder a).zip (t.preOrder a) = (t.preOrder a).map fun x => (x, x) := by
    simp [List.zip_eq_zipWith, List.zipWith_self]
  have hnodup : (t.preOrder a).Nodup := List.nodup_range'
  rw [linkSubtrees, hpairs, Mapping.linkAll_of_free]
  · rw [preOrder, Mapping.diagonal_append]
  · simpa [Function.comp_def] using hnodup
  · simpa [Function.comp_def] using hnodup
  · intro p hp
    obtain ⟨x, hx, rfl⟩ := List.mem_map.1 hp
    have hle := le_of_contains (mem_preOrder.1 hx)
    simp [hle]

/-- Linking siblings with themselves, one after the other. -/
theorem StandAll.linkSelf {parent index next : Nat} {ns : List Node}
    (h : t.StandAll parent index next ns) :
    (Rose.childIds next ns).foldlM (fun m c => linkSubtrees t c t c m) (.diagonal next) =
      .ok (.diagonal (next + Rose.sizeAll ns)) := by
  induction ns generalizing index next with
  | nil => rfl
  | cons n ns ih =>
    have hsize : t.subtreeSize next = n.size := by
      rw [subtreeSize, h.head.entry]
      rfl
    have hlink := t.linkSelf next
    rw [hsize] at hlink
    rw [Rose.childIds, List.foldlM_cons, bind_of_eq_ok hlink, ih h.tail, Rose.sizeAll,
      Nat.add_assoc]

end Tree

variable {t : Tree}

theorem openChildren_diagonal (t : Tree) (id : Nat) :
    openChildren t (Mapping.diagonal t.size).hasSrc id = [] := by
  rw [openChildren, List.filter_eq_nil_iff]
  intro c hc
  simp [Tree.lt_size_of_mem_children hc]

/-! ## A tree that is matched as a whole -/

/-- No other node is as tall as the root, so the root comes first. -/
theorem tallestFirst_of_tall {minHeight : Rat} (h : isTall minHeight t Tree.root = true) :
    ∃ rest, tallestFirst minHeight t = Tree.root :: rest := by
  have hmem : Tree.root ∈ tallestFirst minHeight t := mem_tallestFirst.2 ⟨t.size_pos, h⟩
  have hsorted := pairwise_tallestFirst minHeight t
  cases hlist : tallestFirst minHeight t with
  | nil => simp [hlist] at hmem
  | cons a rest =>
    rw [hlist, List.pairwise_cons] at hsorted
    have ha : a < t.size := (mem_tallestFirst.1 (hlist ▸ List.mem_cons_self)).1
    rcases List.mem_cons.1 (hlist ▸ hmem) with heq | hin
    · exact ⟨rest, by rw [heq]⟩
    · have heq := Tree.eq_of_contains_of_height (Tree.contains_root ha) (hsorted.1 _ hin)
      exact ⟨rest, by rw [heq]⟩

/-- The root is the only twin of itself. -/
theorem freeTwins_root {minHeight : Rat} {linked : Nat → Bool}
    (h : isTall minHeight t Tree.root = true) (hf : isFree t linked Tree.root = true) :
    freeTwins minHeight t Tree.root t linked = [Tree.root] := by
  have hroot : Tree.root ∈ freeTwins minHeight t Tree.root t linked :=
    (mem_freeTwins t.size_pos).2 ⟨t.size_pos, h, hf, rfl⟩
  have hall : ∀ d ∈ freeTwins minHeight t Tree.root t linked, d = Tree.root := by
    intro d hd
    obtain ⟨hlt, -, -, hsub⟩ := (mem_freeTwins t.size_pos).1 hd
    have hsize := Tree.subtreeSize_congr t.size_pos hlt hsub
    exact (Tree.eq_of_contains_of_size (Tree.contains_root hlt) hsize).symm
  refine List.perm_singleton.1 ((List.perm_ext_iff_of_nodup (nodup_freeTwins _ _ _ _ _)
    (List.nodup_singleton _)).2 fun d => ?_)
  rw [List.mem_singleton]
  exact ⟨hall d, fun hd => hd ▸ hroot⟩

theorem settleUnique_of_linked {minHeight : Rat} {st : Settling} {l : List Nat}
    (h : ∀ s ∈ l, s < t.size ∧ st.mapping.hasSrc s = true) :
    l.foldlM (settleUnique minHeight t t) st = .ok st := by
  induction l with
  | nil => rfl
  | cons s l ih =>
    obtain ⟨hlt, hs⟩ := h s List.mem_cons_self
    have hfree : isFree t st.mapping.hasSrc s = false := by
      rw [Bool.eq_false_iff]
      intro hf
      rw [isFree_iff.1 hf s (Tree.contains_self hlt)] at hs
      exact Bool.false_ne_true hs
    rw [List.foldlM_cons, settleUnique, hfree]
    exact ih fun x hx => h x (List.mem_cons_of_mem s hx)

/-- The first pass links the root with itself, and with it all nodes. -/
theorem topDown_self_of_tall {round : Rounding} {minHeight : Rat}
    (h : isTall minHeight t Tree.root = true) :
    topDown round minHeight t t = .ok (.diagonal t.size) := by
  obtain ⟨rest, hlist⟩ := tallestFirst_of_tall h
  have hfree : ∀ linked, (∀ x, linked x = false) → isFree t linked Tree.root = true :=
    fun linked hlinked => isFree_iff.2 fun n _ => hlinked n
  have hsrc := freeTwins_root h (hfree Mapping.empty.hasSrc fun _ => rfl)
  have hdst := freeTwins_root h (hfree Mapping.empty.hasDst fun _ => rfl)
  have hlink : linkSubtrees t Tree.root t Tree.root .empty = .ok (.diagonal t.size) := by
    have := t.linkSelf Tree.root
    rwa [Tree.subtreeSize_root, Tree.root, Nat.zero_add] at this
  have hroot : settleUnique minHeight t t {} Tree.root =
      .ok { mapping := .diagonal t.size, ambiguous := [] } := by
    rw [settleUnique]
    simp only [hfree Mapping.empty.hasSrc fun _ => rfl, hsrc, hdst]
    exact bind_of_eq_ok hlink
  have hrest : rest.foldlM (settleUnique minHeight t t)
      { mapping := .diagonal t.size, ambiguous := [] } =
        .ok { mapping := .diagonal t.size, ambiguous := [] } := by
    refine settleUnique_of_linked fun s hs => ?_
    have hlt := (mem_tallestFirst.1 (hlist ▸ List.mem_cons_of_mem Tree.root hs)).1
    simp [hlt]
  rw [topDown, hlist, List.foldlM_cons, bind_of_eq_ok hroot, bind_of_eq_ok hrest, rankPairs,
    List.map_nil, List.mergeSort_nil]
  rfl

/-! ## A tree that is not -/

/-- Where the root is too low, every node is. -/
theorem topDown_self_of_low {round : Rounding} {minHeight : Rat}
    (h : isTall minHeight t Tree.root = false) : topDown round minHeight t t = .ok .empty := by
  have hnone : tallestFirst minHeight t = [] := by
    rw [List.eq_nil_iff_forall_not_mem]
    intro a ha
    obtain ⟨hlt, htall⟩ := mem_tallestFirst.1 ha
    rw [isTall, decide_eq_true_iff] at htall
    rw [isTall, decide_eq_false_iff_not] at h
    have hle : t.height a ≤ t.height Tree.root := by
      by_cases hroot : Tree.root = a
      · exact Nat.le_of_eq (by rw [hroot])
      · exact Nat.le_of_lt (Tree.height_lt_of_contains (Tree.contains_root hlt) hroot)
    exact h (Rat.le_trans htall (by exact_mod_cast hle))
  rw [topDown, hnone]
  simp [rankPairs, pure, Except.pure, bind, Except.bind]

/-- Without links no node has a candidate. -/
theorem settleNode_empty {round : Rounding} {minDice : Rat} {s : Nat} (hs : s < t.size)
    (hroot : s ≠ Tree.root) : settleNode round minDice t t .empty s = .ok .empty := by
  have hnone : bottomUpCandidates t s t .empty = [] := by
    rw [List.eq_nil_iff_forall_not_mem]
    intro d hd
    obtain ⟨⟨n, e, -, he, -⟩, -⟩ := mem_bottomUpCandidates.1 hd
    cases he
  have hnot : t.isRoot s = false := by
    rw [Bool.eq_false_iff]
    exact fun h => hroot ((Tree.isRoot_iff hs).1 h)
  rw [settleNode, hnot, if_neg Bool.false_ne_true, hnone]
  split <;> rfl

/-- Recovery under the roots links all children as wholes. -/
theorem settleRoots_empty : settleRoots t t Tree.root .empty = .ok (.diagonal t.size) := by
  have hstand := t.stands_root.standAll
  have hone : (⟨Mapping.empty.pairs ++ [(Tree.root, Tree.root)]⟩ : Mapping Nat) = .diagonal 1 := rfl
  have hopen : ∀ linked : Nat → Bool, (∀ c, 0 < c → linked c = false) →
      openChildren t linked Tree.root = t.children Tree.root := by
    intro linked hlinked
    refine List.filter_eq_self.2 fun c hc => ?_
    simp [hlinked c (Tree.lt_of_mem_children hc)]
  have hsrc := hopen (Mapping.diagonal 1).hasSrc fun c hc => by
    rw [Mapping.hasSrc_diagonal]
    exact decide_eq_false (by omega)
  have hdst := hopen (Mapping.diagonal 1).hasDst fun c hc => by
    rw [Mapping.hasDst_diagonal]
    exact decide_eq_false (by omega)
  have hsame : ∀ c ∈ t.children Tree.root, freeAndSame t t (.diagonal 1) c c = true := by
    intro c hc
    have hlt := Tree.lt_size_of_mem_children hc
    have hpos := Tree.lt_of_mem_children hc
    rw [freeAndSame_iff hlt hlt, isFree_iff, isFree_iff]
    refine ⟨fun n hn => ?_, fun n hn => ?_, rfl⟩
    · have := Tree.le_of_contains hn
      rw [Mapping.hasSrc_diagonal]
      exact decide_eq_false (by omega)
    · have := Tree.le_of_contains hn
      rw [Mapping.hasDst_diagonal]
      exact decide_eq_false (by omega)
  have hlink : (longestCommon (freeAndSame t t (.diagonal 1))
      (openChildren t (Mapping.diagonal 1).hasSrc Tree.root)
      (openChildren t (Mapping.diagonal 1).hasDst Tree.root)).foldlM
        (fun m p => linkSubtrees t p.1 t p.2 m) (.diagonal 1) = .ok (.diagonal t.size) := by
    rw [hsrc, hdst, longestCommon_self hsame, List.foldlM_map, Tree.children_eq, Tree.subtree_root]
    refine hstand.linkSelf.trans ?_
    rw [t.size_eq, Rose.size_eq_sizeAll, Tree.root, Nat.zero_add, Nat.add_comm]
  obtain ⟨fuel, hfuel⟩ : ∃ fuel, t.height Tree.root = fuel + 1 :=
    ⟨_, (Nat.succ_pred_eq_of_pos (Tree.height_pos t.size_pos)).symm⟩
  rw [settleRoots_of_open rfl rfl rfl, hone, recoverBelow, hfuel]
  exact recover_succ_of_twins hlink (openChildren_diagonal t Tree.root)

/-- Nothing happens before the root is reached, and there all nodes are linked. -/
theorem bottomUp_empty {round : Rounding} {minDice : Rat} :
    bottomUp round minDice t t .empty = .ok (.diagonal t.size) := by
  obtain ⟨init, hinit, hlt⟩ := t.postOrder_root
  have hskip : ∀ l : List Nat, (∀ s ∈ l, s < t.size ∧ s ≠ Tree.root) →
      l.foldlM (settleNode round minDice t t) .empty = .ok .empty := by
    intro l hl
    induction l with
    | nil => rfl
    | cons s l ih =>
      obtain ⟨hs, hroot⟩ := hl s List.mem_cons_self
      rw [List.foldlM_cons, bind_of_eq_ok (settleNode_empty hs hroot)]
      exact ih fun x hx => hl x (List.mem_cons_of_mem s hx)
  have hroot : settleNode round minDice t t .empty Tree.root = .ok (.diagonal t.size) := by
    rw [settleNode_root]
    exact settleRoots_empty
  rw [bottomUp, hinit, List.foldlM_append, bind_of_eq_ok (hskip init hlt), List.foldlM_cons,
    bind_of_eq_ok hroot]
  rfl

/-! ## Both ways -/

/-- Where all nodes are linked, nothing is left to do. -/
theorem bottomUp_diagonal {round : Rounding} {minDice : Rat} :
    bottomUp round minDice t t (.diagonal t.size) = .ok (.diagonal t.size) := by
  have hstep : ∀ s < t.size, settleNode round minDice t t (.diagonal t.size) s =
      .ok (.diagonal t.size) := by
    intro s hs
    have hsrc : (Mapping.diagonal t.size).hasSrc s = true := by simp [hs]
    rw [settleNode]
    split
    · rename_i hroot
      have hdst : (Mapping.diagonal t.size).dst? Tree.root = some Tree.root :=
        Mapping.dst?_diagonal t.size_pos
      rw [(Tree.isRoot_iff hs).1 hroot, settleRoots_of_not_open (by simp [t.size_pos, Tree.root]),
        if_pos hdst]
      exact recover_of_no_open (openChildren_diagonal t Tree.root) _
    · rw [hsrc]
      rfl
  have hall : ∀ l : List Nat, (∀ s ∈ l, s < t.size) →
      l.foldlM (settleNode round minDice t t) (.diagonal t.size) = .ok (.diagonal t.size) := by
    intro l hl
    induction l with
    | nil => rfl
    | cons s l ih =>
      rw [List.foldlM_cons, bind_of_eq_ok (hstep s (hl s List.mem_cons_self))]
      exact ih fun x hx => hl x (List.mem_cons_of_mem s hx)
  exact hall _ fun s hs => Tree.mem_postOrder.1 hs

/-- **A tree is matched with itself** node by node, in order, whatever the thresholds. -/
theorem greedyMatch_self (round : Rounding) (options : MatcherOptions) (t : Tree) :
    greedyMatch round options t t = .ok (.diagonal t.size) := by
  rw [greedyMatch]
  cases htall : isTall options.minHeight t Tree.root with
  | true => exact (bind_of_eq_ok (topDown_self_of_tall htall)).trans bottomUp_diagonal
  | false => exact (bind_of_eq_ok (topDown_self_of_low htall)).trans bottomUp_empty

end TreeMerge
