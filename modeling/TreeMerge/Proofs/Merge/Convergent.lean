import TreeMerge.Proofs.Merge.Duplicates
import TreeMerge.Proofs.Merge.Run
import TreeMerge.Proofs.Merge.Topmost

/-!
# The same changes on both sides

Two equal sides get equal answers, about the baseline and about the skeleton. So a position is
unchanged, or changed alike, or gone on both sides, which only happens at the root of a skeleton;
and what one side brings the other brings as well, and it is inserted once.

* `MergeRun.counterpart_same`, `MergeRun.newRoots_same` : the answers;
* `MergeRun.rule_same`, `MergeRun.diverging_same` : the decisions;
* `MergeRun.perm_twice_same`, `MergeRun.entering_same` : the patched side brings nothing of its own;
* `MergeRun.Agreed`, `mergeTrees_agreed` : what such a merge comes to.
-/

namespace TreeMerge

namespace MergeRun

variable {v : Versions} {options : MatcherOptions} {policy : Policy}

/-- What a merge comes to whose sides have made the same changes. -/
structure Agreed (run : MergeRun v (.greedy options) .skip) : Prop where
  modifiedOnly : run.report.decisions.modifiedOnly = 0
  patchedOnly : run.report.decisions.patchedOnly = 0
  /-- Nothing diverges where the root has a counterpart. -/
  agreeing : (run.ofBaseline .modified).hasSrc Tree.root = true →
    run.report.decisions.diverged = 0 ∧ run.report.conflicts = []
  /-- Only the root diverges where it has none. -/
  rootless : (run.ofBaseline .modified).hasSrc Tree.root = false →
    run.report.decisions.diverged = 1 ∧
      run.report.conflicts = [⟨v.baseline.content Tree.root, none, none⟩]
  diverging : ∀ b ∈ run.kept, (run.triple b).diverges = true → b = Tree.root
  inserted : ∀ i ∈ run.report.inserted, i.origin = .modified
  unanchored : ∀ u ∈ run.report.unanchored, u.origin = .modified
  deduplicated :
    run.report.deduplicated = run.report.inserted.length + run.report.unanchored.length

section

variable (run : MergeRun v (.greedy options) policy) (h : v.patched = v.modified)

include h

/-! ## Decisions -/

theorem ofBaseline_same : run.ofBaseline .patched = run.ofBaseline .modified := by
  have hM : greedyMatch roundBinary64 options v.baseline v.modified =
      .ok (run.ofBaseline .modified) := run.ofBaseline_eq .modified
  have hP : greedyMatch roundBinary64 options v.baseline v.patched =
      .ok (run.ofBaseline .patched) := run.ofBaseline_eq .patched
  rw [h] at hP
  exact Except.ok.inj (hP.symm.trans hM)

theorem counterpart_same (b : Nat) : run.counterpart .patched b = run.counterpart .modified b := by
  have hside : v.side .patched = v.side .modified := h
  rw [counterpart, counterpart, run.ofBaseline_same h, hside]

/-- A position is unchanged, or gone on both sides, or else changed alike. -/
theorem rule_same (b : Nat) : (run.triple b).rule =
    if run.counterpart .modified b = some (v.baseline.subtree b) then .unchanged
    else if run.counterpart .modified b = none then .diverged else .convergent := by
  rw [run.rule_triple, run.counterpart_same h, Rule.between_alike]

theorem diverged_same {b : Nat} :
    (run.triple b).rule = .diverged ↔ (run.ofBaseline .modified).hasSrc b = false := by
  rw [run.rule_same h, ← run.counterpart_eq_none]
  cases run.counterpart .modified b with
  | none => exact iff_of_true rfl rfl
  | some new =>
    refine iff_of_false ?_ (Option.some_ne_none new)
    rw [if_neg (Option.some_ne_none new)]
    split <;> decide

/-- No position counts as changed on one side only. -/
theorem count_same {r : Rule} (hunchanged : r ≠ .unchanged) (hconvergent : r ≠ .convergent)
    (hdiverged : r ≠ .diverged) : run.report.decisions.count r = 0 := by
  refine run.count_eq_zero run.ofBaseline_valid fun b _ => ?_
  rw [run.rule_same h]
  split
  · exact Ne.symm hunchanged
  split
  · exact Ne.symm hdiverged
  · exact Ne.symm hconvergent

theorem conflict_same (hroot : (run.ofBaseline .modified).hasSrc Tree.root = false) :
    (run.triple Tree.root).conflict = ⟨v.baseline.content Tree.root, none, none⟩ := by
  have hgone := Mapping.dst?_eq_none_iff.2 hroot
  have hcontent : (⟨v.baseline, Tree.root⟩ : Ref Nat).content = v.baseline.content Tree.root :=
    Ref.content_of_lt v.baseline.size_pos
  rw [triple, Session.tripleOf, NodeName.ofId_nat, run.ofBaseline_same h, hgone, Triple.conflict,
    hcontent]
  rfl

/-- Of the kept nodes only the root can be without a counterpart. -/
theorem eq_root_of_gone {b : Nat} (hb : b ∈ run.kept)
    (hgone : (run.ofBaseline .modified).hasSrc b = false) : b = Tree.root := by
  obtain ⟨hmem, hkeeps⟩ := List.mem_filter.1 hb
  have hsurvives := Session.survives_of_keeps run.corresponded (mem_ids.1 hmem) hkeeps
  by_contra hroot
  rw [run.ofBaseline_same h, Session.survives_iff, or_self, hgone] at hsurvives
  exact Bool.false_ne_true (hsurvives hroot)

/-- The kept nodes that diverge: the root, if it has no counterpart. -/
theorem diverging_same : (run.kept.filter fun b => (run.triple b).rule == .diverged) =
    if (run.ofBaseline .modified).hasSrc Tree.root then [] else [Tree.root] := by
  have hmem : ∀ b, b ∈ (run.kept.filter fun b => (run.triple b).rule == .diverged) ↔
      b ∈ run.kept ∧ (run.ofBaseline .modified).hasSrc b = false := by
    intro b
    rw [List.mem_filter, beq_iff_eq, run.diverged_same h]
  split
  · next hroot =>
    rw [List.eq_nil_iff_forall_not_mem]
    intro b hb
    obtain ⟨hkept, hgone⟩ := (hmem b).1 hb
    rw [run.eq_root_of_gone h hkept hgone, hroot] at hgone
    cases hgone
  · next hroot =>
    -- the root is always kept, so that it is the one node in this list
    have hkept : Tree.root ∈ run.kept := by
      refine List.mem_filter.2 ⟨mem_ids.2 v.baseline.size_pos, ?_⟩
      rw [Tree.keeps_root, Session.tripleAt_root run.corresponded]
      rfl
    have hn : run.kept.Nodup := List.nodup_range.filter _
    rw [← List.perm_singleton]
    refine (List.perm_ext_iff_of_nodup (hn.filter _) (List.nodup_singleton _)).2 fun b => ?_
    rw [hmem, List.mem_singleton]
    constructor
    · exact fun hb => run.eq_root_of_gone h hb.1 hb.2
    · rintro rfl
      exact ⟨hkept, Bool.not_eq_true _ ▸ hroot⟩

/-! ## New subtrees -/

theorem newRoots_same : run.newRoots .patched = run.newRoots .modified := by
  have hM : greedyMatch roundBinary64 options v.modified run.merged =
      .ok (run.toMerged .modified) := run.toMerged_eq .modified
  have hP : greedyMatch roundBinary64 options v.patched run.merged =
      .ok (run.toMerged .patched) := run.toMerged_eq .patched
  have hside : v.side .patched = v.side .modified := h
  rw [h] at hP
  rw [newRoots, newRoots, hside, Except.ok.inj (hP.symm.trans hM)]

/-- All new subtrees of the patched side are brought twice. -/
theorem perm_twice_same : run.twice.Perm (run.newRoots .modified) := by
  rw [twice, run.newRoots_same h, h]
  refine perm_duplicates v.modified.subtree (nodup_topmostUnmatched _ _) ?_
  intro m hm p hp
  exact Tree.isomorphic_iff (mem_topmostUnmatched.1 hm).1 (mem_topmostUnmatched.1 hp).1

theorem entering_same : run.entering .patched = [] := by
  show (run.newRoots .patched).filter _ = []
  rw [List.filter_eq_nil_iff, run.newRoots_same h]
  intro p hp
  have htwice : p ∈ run.twice := (run.perm_twice_same h).mem_iff.2 hp
  simpa using htwice

theorem origin_of_entering {side : Side} {n : Nat} (hn : n ∈ run.entering side) :
    side = .modified := by
  cases side with
  | modified => rfl
  | patched =>
    rw [run.entering_same h] at hn
    exact absurd hn List.not_mem_nil

end

/-- **Two sides with the same changes agree.** -/
theorem agreed (run : MergeRun v (.greedy options) .skip) (h : v.patched = v.modified) :
    run.Agreed := by
  have hdiverged := run.count_decisions run.ofBaseline_valid .diverged
  have hconflicts := run.conflicts_eq run.ofBaseline_valid
  have hdiverging := run.diverging_same h
  have hunanchored : run.unanchored .patched = [] := by
    rw [unanchored, run.entering_same h, List.filter_nil]
  have hplaced : run.placed .patched = [] := by
    rw [placed, run.entering_same h, List.filter_nil]
  constructor
  case modifiedOnly =>
    exact run.count_same h (r := .modifiedOnly) (by decide) (by decide) (by decide)
  case patchedOnly =>
    exact run.count_same h (r := .patchedOnly) (by decide) (by decide) (by decide)
  case agreeing =>
    intro hroot
    rw [hdiverging, if_pos hroot] at hdiverged hconflicts
    exact ⟨hdiverged, hconflicts⟩
  case rootless =>
    intro hroot
    rw [hdiverging, hroot, if_neg Bool.false_ne_true] at hdiverged hconflicts
    rw [List.map_singleton, run.conflict_same h hroot] at hconflicts
    exact ⟨hdiverged, hconflicts⟩
  case diverging =>
    intro b hb hdiverges
    have hplaced := run.wellPlaced_triple (mem_ids.1 (List.mem_filter.1 hb).1)
    rw [Triple.diverges_iff hplaced, run.diverged_same h] at hdiverges
    exact run.eq_root_of_gone h hb hdiverges
  case inserted =>
    intro i hi
    obtain ⟨n, hn, -⟩ := run.of_mem_inserted hi
    exact run.origin_of_entering h (List.mem_filter.1 hn).1
  case unanchored =>
    intro u hu
    obtain ⟨n, hn, -⟩ := run.of_mem_unanchored hu
    exact run.origin_of_entering h (List.mem_filter.1 hn).1
  case deduplicated =>
    have hinserted : run.report.inserted.length = (run.placed .modified).length := by
      rw [report, hplaced, List.map_nil, List.append_nil, List.length_map]
    have hlost : run.report.unanchored.length = (run.unanchored .modified).length := by
      rw [report, hunanchored, List.map_nil, List.append_nil, List.length_map]
    rw [hinserted, hlost, ← run.length_entering (by decide)]
    exact (run.perm_twice_same h).length_eq

end MergeRun

/-- **The same changes on both sides.** Where the two sides are alike, no position counts as changed
on one side only, and none diverges but a root that neither side has. Everything new comes from the
modified side, and as much as that is not taken from the patched side. -/
theorem mergeTrees_agreed {v : Versions} (options : MatcherOptions)
    (hsame : v.patched.isomorphic Tree.root v.modified Tree.root = true) :
    ∃ run : MergeRun v (.greedy options) .skip,
      (mergeTrees v (.greedy options) .skip).1 = .ok run.result ∧ run.Agreed := by
  obtain ⟨run⟩ := MergeRun.exists_greedy v options .skip
  exact ⟨run, run.mergeTrees_eq.trans (if_neg fun herror => by cases herror.1),
    run.agreed (Tree.eq_of_isomorphic_root hsame)⟩

/-- Both sides add the same call twice. -/
def repeated : Versions where
  baseline := .ofNode (.node ⟨"R", ""⟩ [.node ⟨"F", ""⟩ []])
  modified := .ofNode (.node ⟨"R", ""⟩ [.node ⟨"F", ""⟩ [], .node ⟨"A", ""⟩ [.node ⟨"x", "1"⟩ []],
    .node ⟨"A", ""⟩ [.node ⟨"x", "1"⟩ []]])
  patched := .ofNode (.node ⟨"R", ""⟩ [.node ⟨"F", ""⟩ [], .node ⟨"A", ""⟩ [.node ⟨"x", "1"⟩ []],
    .node ⟨"A", ""⟩ [.node ⟨"x", "1"⟩ []]])

theorem mergeTrees_agreed_repeated :
    repeated.patched.isomorphic Tree.root repeated.modified Tree.root = true ∧
      ∃ run : MergeRun repeated (.greedy {}) .skip,
        (mergeTrees repeated (.greedy {}) .skip).1 = .ok run.result ∧ run.Agreed := by
  have hsame : repeated.patched.isomorphic Tree.root repeated.modified Tree.root = true := by cbv
  exact ⟨hsame, mergeTrees_agreed {} hsame⟩

end TreeMerge
