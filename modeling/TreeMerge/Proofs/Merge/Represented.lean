import TreeMerge.Proofs.Merge.Append
import TreeMerge.Proofs.Merge.Duplicates
import TreeMerge.Proofs.Merge.Unchanged

/-!
# How the nodes of a side are represented

A node of a side is in the merged tree because it is matched with a skeleton node, because a copy
of a new subtree holds it, or both: a new subtree is copied with all that is below its root, and
what is matched there is in the skeleton as well.

* `MergeRun.Represented` : where the nodes of a side are;
* `MergeRun.represented` : what every run gives;
* `mergeTrees_represents` : what every merge with the greedy matcher gives;
* `wrapped_represented_twice` : a wrapper around an old node that got a new child.
-/

namespace TreeMerge

namespace MergeRun

variable {v : Versions} {matcher : Matcher Nat} {policy : Policy}

/-- Where the nodes of a side are represented. -/
structure Represented (run : MergeRun v matcher policy) (side : Side) : Prop where
  /-- Every node is matched or in a collected subtree. -/
  covered : ∀ n < (v.side side).size, (run.toMerged side).hasSrc n = true ∨
    ∃ q ∈ run.newRoots side, (v.side side).contains q n = true
  /-- A matched node is in a collected subtree as well exactly if it is below an unmatched one. -/
  both : ∀ n < (v.side side).size, (run.toMerged side).hasSrc n = true →
    ((∃ q ∈ run.newRoots side, (v.side side).contains q n = true) ↔
      ∃ a ∈ (v.side side).ancestors n, (run.toMerged side).hasSrc a = false)
  /-- One collected subtree is inside another only below a matched node there. -/
  overlap : ∀ q ∈ run.newRoots side, ∀ q' ∈ run.newRoots side, q ≠ q' →
    (v.side side).contains q q' = true → ∃ p, (v.side side).parent? q' = some p ∧
      (v.side side).contains q p = true ∧ (run.toMerged side).hasSrc p = true
  /-- Where no matched node is below an unmatched one, a node is represented once. -/
  once : ∀ n < (v.side side).size, (∀ b, (v.side side).contains b n = true →
      (run.toMerged side).hasSrc b = true → ∀ a ∈ (v.side side).ancestors b,
        (run.toMerged side).hasSrc a = true) →
    ((run.toMerged side).hasSrc n = true →
      ∀ q ∈ run.newRoots side, ¬ (v.side side).contains q n = true) ∧
    ∀ q ∈ run.newRoots side, ∀ q' ∈ run.newRoots side, (v.side side).contains q n = true →
      (v.side side).contains q' n = true → q = q'
  /-- A collected subtree is inserted, or the other side brings it, or it has no anchor. -/
  inserted : ∀ q ∈ run.newRoots side, q ∈ run.placed side ∨
    (side = .patched ∧ ∃ m ∈ run.newRoots .modified,
      v.modified.isomorphic m v.patched q = true) ∨
    (run.arrival side q).anchor = none ∧ policy ≠ .attachRoot
  /-- It is inserted once at most. -/
  distinct : (run.placed side).Nodup

theorem nodup_placed (run : MergeRun v matcher policy) (side : Side) : (run.placed side).Nodup := by
  have hroots : (run.newRoots side).Nodup := nodup_topmostUnmatched _ _
  have hentering : (run.entering side).Nodup := by
    cases side with
    | modified => exact hroots
    | patched => exact hroots.filter _
  exact hentering.filter _

theorem place_cases (run : MergeRun v matcher policy) {side : Side} {q : Nat}
    (hq : q ∈ run.entering side) : q ∈ run.placed side ∨
      (run.arrival side q).anchor = none ∧ policy ≠ .attachRoot := by
  cases hplace : run.place side q with
  | some a => exact Or.inl (List.mem_filter.2 ⟨hq, by rw [hplace]; rfl⟩)
  | none =>
    have hnot : ∀ a, run.place side q ≠ some a := by simp [hplace]
    refine Or.inr ⟨?_, ?_⟩
    · rw [Option.eq_none_iff_forall_ne_some]
      exact fun a ha => hnot a (Arrival.target?_eq_some.2 (Or.inl ha))
    · intro hpolicy
      cases hanchor : (run.arrival side q).anchor with
      | some a => exact hnot a (Arrival.target?_eq_some.2 (Or.inl hanchor))
      | none => exact hnot Tree.root (Arrival.target?_eq_some.2 (Or.inr ⟨hanchor, hpolicy, rfl⟩))

theorem represented (run : MergeRun v matcher policy) (side : Side) : run.Represented side where
  covered := by
    intro n hn
    cases hlinked : (run.toMerged side).hasSrc n with
    | true => exact Or.inl rfl
    | false => exact Or.inr (exists_topmost hn hlinked)
  both := by
    intro n hn hlinked
    refine topmostUnmatched_covers.trans (exists_congr fun a => ?_)
    rw [Tree.mem_ancestors_iff hn]
    constructor
    · rintro ⟨hcontains, hfree⟩
      refine ⟨⟨?_, hcontains⟩, hfree⟩
      rintro rfl
      rw [hlinked] at hfree
      cases hfree
    · exact fun ⟨⟨_, hcontains⟩, hfree⟩ => ⟨hcontains, hfree⟩
  overlap := fun _ _ _ hq' hne hcontains => topmostUnmatched_overlap hq' hne hcontains
  once := by
    intro n hn hclosed
    have hup : ∀ a b, (v.side side).contains a b = true → (v.side side).contains b n = true →
        (run.toMerged side).hasSrc b = true → (run.toMerged side).hasSrc a = true := by
      intro a b hab hbn hb
      by_cases heq : a = b
      · rwa [heq]
      · exact hclosed b hbn hb a
          ((Tree.mem_ancestors_iff (Tree.contains_lt_size hab)).2 ⟨heq, hab⟩)
    refine ⟨fun hlinked q hq hqn => ?_, fun q hq q' hq' hqn hqn' =>
      topmostUnmatched_unique hup hq hq' hqn hqn'⟩
    have hfree := (mem_topmostUnmatched.1 hq).2.1
    rw [hup q n hqn (Tree.contains_self hn) hlinked] at hfree
    cases hfree
  inserted := by
    intro q hq
    cases side with
    | modified => exact (run.place_cases hq).imp_right Or.inr
    | patched =>
      by_cases htwice : q ∈ run.twice
      · exact Or.inr (Or.inl ⟨rfl, (of_mem_duplicates htwice).2⟩)
      · have hentering : q ∈ run.entering .patched :=
          List.mem_filter.2 ⟨hq, by simpa using htwice⟩
        exact (run.place_cases hentering).imp_right Or.inr
  distinct := run.nodup_placed side

end MergeRun

/-- **Where the nodes of both sides are** in what a merge with the greedy matcher returns: the
skeleton with the new subtrees appended. Only new subtrees without an anchor can make it fail, and
only where the policy says so. -/
theorem mergeTrees_represents (v : Versions) (policy : Policy) :
    ∃ (run : MergeRun v (.greedy {}) policy) (image : Nat → Nat) (r : MergeResult),
      (mergeTrees v (.greedy {}) policy).1 =
        (if policy = .error ∧ r.report.unanchored ≠ [] then .error (.unanchored r.report.unanchored)
          else .ok r) ∧
      run.Appended image r ∧ ∀ side, run.Represented side := by
  obtain ⟨run⟩ := MergeRun.exists_greedy v {} policy
  exact ⟨run, _, ⟨run.merged.graft run.copies, run.report⟩, run.mergeTrees_eq, run.appended,
    run.represented⟩

/-- An old node with a new wrapper around it and a new child below it. -/
def wrapped : Versions where
  baseline := .ofNode (.node ⟨"R", ""⟩ [.node ⟨"F", ""⟩ [.node ⟨"G", ""⟩ [.node ⟨"a", ""⟩ []]]])
  modified := .ofNode (.node ⟨"R", ""⟩ [.node ⟨"W", ""⟩
    [.node ⟨"F", ""⟩ [.node ⟨"G", ""⟩ [.node ⟨"a", ""⟩ []], .node ⟨"n", ""⟩ []]]])
  patched := .ofNode (.node ⟨"R", ""⟩ [.node ⟨"F", ""⟩ [.node ⟨"G", ""⟩ [.node ⟨"a", ""⟩ []]]])

theorem dice_wrapped (round : Rounding) :
    dice round wrapped.modified 2 wrapped.baseline 1 ⟨[(3, 2), (4, 3)]⟩ = round (4 / 5) := by
  have hshared : sharedCount wrapped.modified 2 wrapped.baseline 1 ⟨[(3, 2), (4, 3)]⟩ = 2 := by
    cbv
  have hall : (wrapped.modified.descendants 2).length +
      (wrapped.baseline.subtreeSize 1 - 1) = 5 := by
    cbv
  rw [dice, hshared, hall]
  rfl

theorem settleNode_wrapped :
    settleNode roundBinary64 (1 / 2) wrapped.modified wrapped.baseline ⟨[(3, 2), (4, 3)]⟩ 2 =
      .ok ⟨[(3, 2), (4, 3), (2, 1)]⟩ := by
  have hroot : wrapped.modified.isRoot 2 = false := by cbv
  have hskip : (Mapping.hasSrc ⟨[(3, 2), (4, 3)]⟩ 2 || wrapped.modified.isLeaf 2) = false := by
    cbv
  have hcandidates : bottomUpCandidates wrapped.modified 2 wrapped.baseline
      ⟨[(3, 2), (4, 3)]⟩ = [1] := by
    cbv
  have hscore : (1 / 2 : Rat) ≤ roundBinary64 (4 / 5) := by decide +kernel
  rw [settleNode, hroot, hskip, hcandidates]
  simp only [bestCandidate?, List.foldl_cons, List.foldl_nil, dice_wrapped, if_pos hscore]
  cbv

theorem greedyMatch_wrapped : greedyMatch roundBinary64 {} wrapped.modified wrapped.baseline =
    .ok ⟨[(3, 2), (4, 3), (2, 1), (0, 0)]⟩ := by
  have htop : topDown roundBinary64 2 wrapped.modified wrapped.baseline =
      .ok ⟨[(3, 2), (4, 3)]⟩ := by
    cbv
  have horder : wrapped.modified.postOrder Tree.root = [4, 3, 5] ++ 2 :: [1, 0] := by cbv
  have hbelow : [4, 3, 5].foldlM
      (settleNode roundBinary64 (1 / 2) wrapped.modified wrapped.baseline) ⟨[(3, 2), (4, 3)]⟩ =
        .ok ⟨[(3, 2), (4, 3)]⟩ := by
    cbv
  have habove : [1, 0].foldlM
      (settleNode roundBinary64 (1 / 2) wrapped.modified wrapped.baseline)
        ⟨[(3, 2), (4, 3), (2, 1)]⟩ = .ok ⟨[(3, 2), (4, 3), (2, 1), (0, 0)]⟩ := by
    cbv
  rw [greedyMatch, bind_of_eq_ok htop, bottomUp, horder, List.foldlM_append, bind_of_eq_ok hbelow,
    List.foldlM_cons, bind_of_eq_ok settleNode_wrapped, habove]

/-- The old node finds its counterpart through what it shares with it, and its wrapper has none. -/
theorem toMerged_wrapped (run : MergeRun wrapped (.greedy {}) .attachRoot) :
    run.toMerged .modified = ⟨[(3, 2), (4, 3), (2, 1), (0, 0)]⟩ := by
  have hbare : (∀ n < wrapped.baseline.size, wrapped.baseline.label n = "") ∧
      ∀ n < wrapped.modified.size, wrapped.modified.label n = "" := by
    cbv
    decide
  have hside : ∀ side, ∀ n < (wrapped.side side).size, (wrapped.side side).label n = "" := by
    intro side
    cases side with
    | modified => exact hbare.2
    | patched => exact hbare.1
  have hpatched : wrapped.side .patched = wrapped.baseline := rfl
  have hmerged : run.merged = wrapped.baseline := by
    refine run.merged_of_labels hpatched fun side b d hd => ?_
    have hmem := Mapping.mem_of_dst? hd
    rw [hside side d ((run.ofBaseline_sound side).dst_lt _ hmem),
      hbare.1 b ((run.ofBaseline_sound side).src_lt _ hmem)]
  have hm := run.toMerged_eq .modified
  rw [hmerged] at hm
  exact Except.ok.inj (hm.symm.trans greedyMatch_wrapped)

/-- The wrapped node is in the skeleton and in the copy of its wrapper; its new child is in that
copy and is copied by itself. -/
theorem wrapped_represented_twice :
    ∃ (run : MergeRun wrapped (.greedy {}) .attachRoot) (image : Nat → Nat) (r : MergeResult),
      (mergeTrees wrapped (.greedy {}) .attachRoot).1 = .ok r ∧ run.Appended image r ∧
      run.placed .modified = [1, 5] ∧
      (run.toMerged .modified).hasSrc 2 = true ∧ wrapped.modified.contains 1 2 = true ∧
      wrapped.modified.contains 1 5 = true := by
  obtain ⟨run⟩ := MergeRun.exists_greedy wrapped {} .attachRoot
  have hlinks := toMerged_wrapped run
  have hroots : run.newRoots .modified = [1, 5] := by
    rw [MergeRun.newRoots, hlinks]
    cbv
  have hplaced : run.placed .modified = run.newRoots .modified := by
    refine List.filter_eq_self.2 fun q hq => ?_
    have hmem : q ∈ run.placed .modified := (run.place_cases hq).resolve_right fun h => h.2 rfl
    exact (List.mem_filter.1 hmem).2
  refine ⟨run, _, _, run.mergeTrees_eq.trans (if_neg (by simp)), run.appended,
    hplaced.trans hroots, ?_, by cbv, by cbv⟩
  rw [hlinks]
  rfl

end TreeMerge
