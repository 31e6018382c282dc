import Mathlib
import TreeMerge.Proofs.Matching.Soundness

/-!
# The search for candidates misses nothing

The candidates for the counterpart of an inner node are found on the ways up from the counterparts
of what lies below it. Scores are counted in ranges of numbers instead. Both speak of the same
nodes: the candidates are the open nodes that share something, and among them the first of the best
is the first of the best of all.

* `sharedCount_pos_iff`, `sharedCount_le_src`, `sharedCount_le_dst` : shared nodes are counterparts,
  so they are counted once on either side;
* `dice_pos_iff`, `dice_le_one` : scores;
* `Eligible`, `mem_bottomUpCandidates_iff` : the candidates by their scores;
* `bestCandidate?_first` : the nodes before the chosen one have lower scores;
* `bottomUpCandidates_complete` : the candidates, and the node that is chosen among all.
-/

namespace TreeMerge

variable {src dst : Tree} {s d : Nat} {m : Mapping Nat}

/-! ## Shared nodes -/

/-- The shared nodes are those below `s` whose counterparts lie below `d`. -/
theorem sharedCount_eq_filter : sharedCount src s dst d m =
    ((src.descendants s).filter fun n => ∃ e ∈ m.dst? n, e ∈ dst.descendants d).length := by
  rw [sharedCount]
  congr 1
  refine List.filter_congr fun n _ => ?_
  rw [Bool.eq_iff_iff, decide_eq_true_iff]
  cases m.dst? n with
  | none => simp
  | some e => simp [Tree.mem_descendants, ne_comm]

theorem sharedCount_pos_iff : 0 < sharedCount src s dst d m ↔
    ∃ n ∈ src.descendants s, ∃ e ∈ m.dst? n, e ∈ dst.descendants d := by
  rw [sharedCount_eq_filter, List.length_pos_iff_exists_mem]
  simp only [List.mem_filter, decide_eq_true_eq]

theorem sharedCount_le_src (src : Tree) (s : Nat) (dst : Tree) (d : Nat) (m : Mapping Nat) :
    sharedCount src s dst d m ≤ (src.descendants s).length :=
  List.length_filter_le _ _

/-- Different nodes have different counterparts, so no more nodes are shared than lie below `d`. -/
theorem sharedCount_le_dst (hm : m.Valid src.size dst.size) (s d : Nat) :
    sharedCount src s dst d m ≤ (dst.descendants d).length := by
  rw [sharedCount_eq_filter]
  generalize hshared : ((src.descendants s).filter fun n =>
    ∃ e ∈ m.dst? n, e ∈ dst.descendants d) = shared
  have hmem : ∀ n ∈ shared, ∃ e ∈ m.dst? n, e ∈ dst.descendants d := by
    intro n hn
    rw [← hshared, List.mem_filter, decide_eq_true_eq] at hn
    exact hn.2
  have hnodup : shared.Nodup := hshared ▸ (src.nodup_descendants s).filter _
  have hinj : ∀ a ∈ shared, ∀ b ∈ shared, m.dst? a = m.dst? b → a = b := by
    intro a ha b _ hab
    obtain ⟨e, he, -⟩ := hmem a ha
    have hsrc := (Mapping.src?_eq_some_iff hm.dst_nodup).2 (Mapping.mem_of_dst? he)
    rw [(Mapping.src?_eq_some_iff hm.dst_nodup).2 (Mapping.mem_of_dst? (hab ▸ he)),
      Option.some.injEq] at hsrc
    exact hsrc.symm
  have hsub : shared.map m.dst? ⊆ (dst.descendants d).map some := by
    intro o ho
    obtain ⟨n, hn, rfl⟩ := List.mem_map.1 ho
    obtain ⟨e, he, hed⟩ := hmem n hn
    exact List.mem_map.2 ⟨e, hed, he.symm⟩
  have hle := (hnodup.map_on hinj).length_le_of_subset hsub
  rwa [List.length_map, List.length_map] at hle

/-! ## Scores -/

theorem dice_pos_iff : 0 < dice id src s dst d m ↔ 0 < sharedCount src s dst d m := by
  have hle := sharedCount_le_src src s dst d m
  rw [dice]
  split
  · next hall => exact iff_of_false (lt_irrefl _) (by omega)
  · next hall =>
    rw [id, Rat.lt_div_iff (Rat.natCast_pos.2 (Nat.pos_of_ne_zero hall)), Rat.zero_mul,
      Rat.natCast_pos]
    omega

theorem dice_le_one (hm : m.Valid src.size dst.size) (s d : Nat) :
    dice id src s dst d m ≤ 1 := by
  have hsrc := sharedCount_le_src src s dst d m
  have hdst := sharedCount_le_dst hm s d
  rw [dst.length_descendants] at hdst
  rw [dice]
  split
  · exact zero_le_one
  · next hall =>
    rw [id, ← Rat.not_lt, Rat.lt_div_iff (Rat.natCast_pos.2 (Nat.pos_of_ne_zero hall)), Rat.one_mul,
      Rat.natCast_lt_natCast]
    omega

/-! ## Candidates -/

/-- A node that may become the counterpart of `s`: it is no root, of the kind of `s`, and has no
counterpart. -/
structure Eligible (src : Tree) (s : Nat) (dst : Tree) (m : Mapping Nat) (d : Nat) : Prop where
  lt_size : d < dst.size
  ne_root : d ≠ Tree.root
  kind_eq : dst.kind d = src.kind s
  free : m.hasDst d = false

/-- **The candidates are the eligible nodes that share something.** -/
theorem mem_bottomUpCandidates_iff (hm : m.Valid src.size dst.size) :
    d ∈ bottomUpCandidates src s dst m ↔
      Eligible src s dst m d ∧ 0 < dice id src s dst d m := by
  rw [mem_bottomUpCandidates, dice_pos_iff, sharedCount_pos_iff]
  have hsame : ∀ {n e}, e ∈ m.dst? n → (d ∈ dst.ancestors e ↔ e ∈ dst.descendants d) := by
    intro n e he
    rw [Tree.mem_ancestors_iff (hm.dst_lt _ (Mapping.mem_of_dst? he)), Tree.mem_descendants]
  constructor
  · rintro ⟨⟨n, e, hn, he, hd⟩, hroot, hkind, hfree⟩
    have hed := (hsame he).1 hd
    have hlt := Tree.lt_size_of_contains (Tree.mem_descendants.1 hed).2
    refine ⟨⟨hlt, ?_, hkind, hfree⟩, n, hn, e, he, hed⟩
    rintro rfl
    rw [(Tree.isRoot_iff hlt).2 rfl] at hroot
    cases hroot
  · rintro ⟨h, n, hn, e, he, hed⟩
    refine ⟨⟨n, e, hn, he, (hsame he).2 hed⟩, ?_, h.kind_eq, h.free⟩
    rw [Bool.eq_false_iff, ne_eq, Tree.isRoot_iff h.lt_size]
    exact h.ne_root

theorem nodup_eraseDups {α : Type} [BEq α] [LawfulBEq α] (xs : List α) : xs.eraseDups.Nodup := by
  induction hn : xs.length using Nat.strong_induction_on generalizing xs with
  | _ n ih =>
    cases xs with
    | nil => exact List.nodup_nil
    | cons x xs =>
      have hnew : x ∉ (xs.filter fun y => !y == x).eraseDups := by
        simp [List.mem_eraseDups]
      have hshorter : (xs.filter fun y => !y == x).length < n := by
        rw [← hn, List.length_cons, Nat.lt_succ_iff]
        exact List.length_filter_le _ _
      rw [List.eraseDups_cons]
      exact List.nodup_cons.2 ⟨hnew, ih _ hshorter _ rfl⟩

/-- The candidates are listed in increasing order. -/
theorem pairwise_bottomUpCandidates (src : Tree) (s : Nat) (dst : Tree) (m : Mapping Nat) :
    (bottomUpCandidates src s dst m).Pairwise (· < ·) := by
  have hsorted : (bottomUpCandidates src s dst m).SortedLE := List.sortedLE_mergeSort
  refine (hsorted.sortedLT_of_nodup ?_).pairwise
  rw [bottomUpCandidates, (List.mergeSort_perm _ _).nodup_iff]
  exact nodup_eraseDups _

/-! ## The best candidate -/

/-- The nodes before the best candidate have lower scores. -/
theorem bestCandidate?_first {score : Nat → Rat} {ds : List Nat} {d : Nat} {v : Rat}
    (h : bestCandidate? score ds = some (d, v)) :
    ∃ front back, ds = front ++ d :: back ∧ ∀ e ∈ front, score e < v := by
  induction ds using List.reverseRecOn generalizing d v with
  | nil => cases h
  | append_singleton ds c ih =>
    have hlast : bestCandidate? score (ds ++ [c]) = better score (bestCandidate? score ds) c :=
      List.foldl_append
    rw [hlast] at h
    cases hbest : bestCandidate? score ds with
    | none =>
      rw [hbest] at h
      obtain ⟨rfl, rfl⟩ := Prod.mk.inj (Option.some.inj h)
      exact ⟨[], [], by rw [bestCandidate?_eq_none hbest], by simp⟩
    | some best =>
      obtain ⟨e, top⟩ := best
      rw [hbest, better] at h
      split at h
      -- the last one is better than all before
      · next hlt =>
        obtain ⟨rfl, rfl⟩ := Prod.mk.inj (Option.some.inj h)
        refine ⟨ds, [], rfl, fun f hf => ?_⟩
        exact lt_of_le_of_lt ((bestCandidate?_eq_some hbest).2.2 f hf) hlt
      · obtain ⟨front, back, hds, hfront⟩ := ih (hbest.trans h)
        exact ⟨front, back ++ [c], by rw [hds]; simp, hfront⟩

/-- The lowest of the nodes that score highest among all eligible ones. -/
def IsFirstBest (src : Tree) (s : Nat) (dst : Tree) (m : Mapping Nat) (d : Nat) : Prop :=
  IsLeast {d | Eligible src s dst m d ∧
    ∀ e, Eligible src s dst m e → dice id src s dst e m ≤ dice id src s dst d m} d

/-- **The best candidate is the first of the best of all eligible nodes**, if one of them shares
anything. -/
theorem exists_bestCandidate (hm : m.Valid src.size dst.size)
    (h : ∃ d, Eligible src s dst m d ∧ 0 < dice id src s dst d m) :
    ∃ d, bestCandidate? (fun d => dice id src s dst d m) (bottomUpCandidates src s dst m) =
      some (d, dice id src s dst d m) ∧ IsFirstBest src s dst m d := by
  obtain ⟨c, hc⟩ := h
  have hcand := (mem_bottomUpCandidates_iff hm).2 hc
  obtain ⟨⟨d, v⟩, hbest⟩ : ∃ best, bestCandidate? (fun d => dice id src s dst d m)
      (bottomUpCandidates src s dst m) = some best := by
    refine Option.ne_none_iff_exists'.1 fun hnone => ?_
    rw [bestCandidate?_eq_none hnone] at hcand
    exact List.not_mem_nil hcand
  obtain ⟨hd, rfl, hmax⟩ := bestCandidate?_eq_some hbest
  obtain ⟨hel, hpos⟩ := (mem_bottomUpCandidates_iff hm).1 hd
  refine ⟨d, hbest, ⟨hel, fun e he => ?_⟩, fun e he => ?_⟩
  · -- a node that is no candidate scores nothing
    by_cases hepos : 0 < dice id src s dst e m
    · exact hmax e ((mem_bottomUpCandidates_iff hm).2 ⟨he, hepos⟩)
    · exact (not_lt.1 hepos).trans hpos.le
  · obtain ⟨heel, hemax⟩ := he
    have hde := hemax d hel
    have hmem := (mem_bottomUpCandidates_iff hm).2 ⟨heel, lt_of_lt_of_le hpos hde⟩
    obtain ⟨front, back, hsplit, hfront⟩ := bestCandidate?_first hbest
    have hincreasing := pairwise_bottomUpCandidates src s dst m
    rw [hsplit] at hmem hincreasing
    rcases List.mem_append.1 hmem with hef | heb
    · exact absurd hde (not_le.2 (hfront e hef))
    rcases List.mem_cons.1 heb with rfl | heb
    · exact Nat.le_refl e
    · have hback := (List.pairwise_cons.1 (List.pairwise_append.1 hincreasing).2.1).1
      exact Nat.le_of_lt (hback e heb)

/-- **The search for candidates misses nothing.** In increasing order, the candidates are the
eligible nodes with a positive score, and no score is more than 1. If there is one, an inner node
without a counterpart is linked with the first of the best of all eligible nodes, unless the score
is too low; if there is none, nothing is linked. -/
theorem bottomUpCandidates_complete (src dst : Tree) (m : Mapping Nat)
    (hm : m.Valid src.size dst.size) (s : Nat) (hs : s < src.size) (hroot : s ≠ Tree.root)
    (hinner : src.isLeaf s = false) (hopen : m.hasSrc s = false) :
    (∀ d, d ∈ bottomUpCandidates src s dst m ↔
      Eligible src s dst m d ∧ 0 < dice id src s dst d m) ∧
    (bottomUpCandidates src s dst m).Pairwise (· < ·) ∧
    (∀ d, dice id src s dst d m ≤ 1) ∧
    ((∃ d, Eligible src s dst m d ∧ 0 < dice id src s dst d m) →
      ∃ d, bestCandidate? (fun d => dice id src s dst d m) (bottomUpCandidates src s dst m) =
          some (d, dice id src s dst d m) ∧ IsFirstBest src s dst m d ∧
        ∀ minDice, settleNode id minDice src dst m s =
          if minDice ≤ dice id src s dst d m then
            recoverBelow src dst s d ⟨m.pairs ++ [(s, d)]⟩
          else .ok m) ∧
    ((¬ ∃ d, Eligible src s dst m d ∧ 0 < dice id src s dst d m) →
      ∀ minDice, settleNode id minDice src dst m s = .ok m) := by
  have hskip : ¬ (m.hasSrc s || src.isLeaf s) = true := by
    rw [hopen, hinner]
    exact Bool.false_ne_true
  refine ⟨fun d => mem_bottomUpCandidates_iff hm, pairwise_bottomUpCandidates src s dst m,
    dice_le_one hm s, fun hpos => ?_, fun hnone minDice => ?_⟩
  · obtain ⟨d, hbest, hfirst⟩ := exists_bestCandidate hm hpos
    refine ⟨d, hbest, hfirst, fun minDice => ?_⟩
    have hlink := Mapping.link_of_free hopen hfirst.1.1.free
    rw [settleNode, if_neg (fun h => hroot ((Tree.isRoot_iff hs).1 h)), if_neg hskip, hbest]
    simp only [bind_of_eq_ok hlink]
  · have hnil : bottomUpCandidates src s dst m = [] := by
      refine List.eq_nil_iff_forall_not_mem.2 fun d hd => hnone ⟨d, ?_⟩
      exact (mem_bottomUpCandidates_iff hm).1 hd
    rw [settleNode, if_neg (fun h => hroot ((Tree.isRoot_iff hs).1 h)), if_neg hskip, hnil]
    rfl

/-- A function with two statements. -/
def joined : Tree :=
  .ofNode (.node ⟨"R", ""⟩ [.node ⟨"F", ""⟩ [.node ⟨"a", ""⟩ [], .node ⟨"b", ""⟩ []]])

/-- Each statement in a function of its own, and a third function. -/
def parted : Tree :=
  .ofNode (.node ⟨"R", ""⟩ [.node ⟨"F", ""⟩ [.node ⟨"a", ""⟩ []],
    .node ⟨"F", ""⟩ [.node ⟨"b", ""⟩ []], .node ⟨"F", ""⟩ [.node ⟨"c", ""⟩ []]])

/-- Both statements are linked. -/
def statementLinks : Mapping Nat :=
  ⟨[(2, 2), (3, 4)]⟩

theorem bottomUpCandidates_complete_parted :
    statementLinks.Valid joined.size parted.size ∧ 1 < joined.size ∧ 1 ≠ Tree.root ∧
    joined.isLeaf 1 = false ∧ statementLinks.hasSrc 1 = false ∧
    Eligible joined 1 parted statementLinks 3 ∧
    0 < dice id joined 1 parted 3 statementLinks ∧
    3 ∈ bottomUpCandidates joined 1 parted statementLinks ∧
    (bottomUpCandidates joined 1 parted statementLinks).Pairwise (· < ·) ∧
    dice id joined 1 parted 3 statementLinks ≤ 1 ∧
    IsFirstBest joined 1 parted statementLinks 1 ∧
    settleNode id (1 / 2) joined parted statementLinks 1 =
      recoverBelow joined parted 1 1 ⟨statementLinks.pairs ++ [(1, 1)]⟩ := by
  have hvalid : statementLinks.Valid joined.size parted.size :=
    ⟨by decide, by decide, by decide, by decide⟩
  have hel : Eligible joined 1 parted statementLinks 3 :=
    ⟨by decide, by decide, by decide, by decide⟩
  have hpos : 0 < dice id joined 1 parted 3 statementLinks := by decide +kernel
  obtain ⟨hmem, hsorted, hone, hfirst, -⟩ := bottomUpCandidates_complete joined parted
    statementLinks hvalid 1 (by decide) (by decide) (by decide) (by decide)
  obtain ⟨d, hbest, hd, hsettle⟩ := hfirst ⟨3, hel, hpos⟩
  have hcandidates : bottomUpCandidates joined 1 parted statementLinks = [1, 3] := by cbv
  have hchosen : (bestCandidate? (fun d => dice id joined 1 parted d statementLinks)
      [1, 3]).map Prod.fst = some 1 := by
    decide +kernel
  obtain rfl : d = 1 := by
    rw [← hcandidates, hbest] at hchosen
    exact Option.some.inj hchosen
  have hhalf : 1 / 2 ≤ dice id joined 1 parted 1 statementLinks := by decide +kernel
  exact ⟨hvalid, by decide, by decide, by decide, by decide, hel, hpos, (hmem 3).2 ⟨hel, hpos⟩,
    hsorted, hone 3, hd, (hsettle (1 / 2)).trans (if_pos hhalf)⟩

end TreeMerge
