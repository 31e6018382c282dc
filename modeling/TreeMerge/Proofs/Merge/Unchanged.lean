import Mathlib
import TreeMerge.Proofs.Matching.Identity
import TreeMerge.Proofs.Matching.Roots
import TreeMerge.Proofs.Merge.Complete

/-!
# A side that changed nothing

With an unchanged side the skeleton is all of the baseline, with the contents that the other side
gives it. The unchanged side is matched against that skeleton anew; the roots find each other, and
so everything that remains unmatched has an anchor.

* `MergeRun.settled_cases` : every skeleton node has the content of the baseline node or of one of
  its counterparts;
* `MergeRun.merged_unchanged`, `MergeRun.merged_of_labels` : the skeleton;
* `MergeRun.anchor_unchanged` : new subtrees of an unchanged side have an anchor;
* `unchanged_side_contributes` : what an unchanged side can add, and when it adds nothing;
* `mergeTrees_identity` : the merge of three equal trees.
-/

namespace TreeMerge

theorem Content.eq_of_kind_of_label {c d : Content} (hk : c.kind = d.kind)
    (hl : c.label = d.label) : c = d := by
  cases c
  cases d
  simp_all

namespace MergeRun

variable {v : Versions} {options : MatcherOptions} {policy : Policy}

variable (run : MergeRun v (.greedy options) policy)

/-! ## Contents of the skeleton -/

/-- What the decision puts at a position. -/
def settled (b : Nat) : Content :=
  (Session.tripleOf v (run.ofBaseline .modified) (run.ofBaseline .patched) b).settled

theorem settled_cases {b : Nat} (hb : b < v.baseline.size) :
    run.settled b = v.baseline.content b ∨
      ∃ side d, (run.ofBaseline side).dst? b = some d ∧
        run.settled b = (v.side side).content d := by
  rcases Triple.settled_cases (run.wellPlaced_triple hb) with h | ⟨r, hr, h⟩ | ⟨r, hr, h⟩
  · exact Or.inl h
  · obtain ⟨d, hd, rfl⟩ := Option.map_eq_some_iff.1 hr
    exact Or.inr ⟨.modified, d, hd, h⟩
  · obtain ⟨d, hd, rfl⟩ := Option.map_eq_some_iff.1 hr
    exact Or.inr ⟨.patched, d, hd, h⟩

/-- Decisions keep kinds. -/
theorem kind_settled {b : Nat} (hb : b < v.baseline.size) :
    (run.settled b).kind = v.baseline.kind b := by
  rcases run.settled_cases hb with h | ⟨side, d, hd, h⟩
  · rw [h, Tree.kind]
  · rw [h]
    exact ((run.ofBaseline_sound side).kind_eq _ (Mapping.mem_of_dst? hd)).symm

/-- Counterparts have the labels of their baseline nodes. -/
def KeepsLabels : Prop :=
  ∀ side b d, (run.ofBaseline side).dst? b = some d → (v.side side).label d = v.baseline.label b

theorem settled_of_labels {b : Nat} (hb : b < v.baseline.size) (hlabels : run.KeepsLabels) :
    run.settled b = v.baseline.content b := by
  rcases run.settled_cases hb with h | ⟨side, d, hd, h⟩
  · exact h
  · have hkind : v.baseline.kind b = (v.side side).kind d :=
      (run.ofBaseline_sound side).kind_eq _ (Mapping.mem_of_dst? hd)
    rw [h]
    exact Content.eq_of_kind_of_label hkind.symm (hlabels side b d hd)

/-! ## The skeleton of an unchanged side -/

variable {side : Side} (h : v.side side = v.baseline)

include h

theorem ofBaseline_unchanged : run.ofBaseline side = .diagonal v.baseline.size := by
  have hself := run.ofBaseline_eq side
  rw [h] at hself
  exact Except.ok.inj (hself.symm.trans (greedyMatch_self roundBinary64 options v.baseline))

theorem counterpart_unchanged {b : Nat} (hb : b < v.baseline.size) :
    run.counterpart side b = some (v.baseline.subtree b) := by
  rw [counterpart, run.ofBaseline_unchanged h, Mapping.dst?_diagonal hb, h, Option.map_some]

theorem survives_unchanged {b : Nat} (hb : b < v.baseline.size) :
    Session.survives (run.ofBaseline .modified) (run.ofBaseline .patched) b = true := by
  have hlinked : (run.ofBaseline side).hasSrc b = true := by
    rw [run.ofBaseline_unchanged h]
    simp [hb]
  refine Session.survives_iff.2 fun _ => ?_
  cases side with
  | modified => exact Or.inl hlinked
  | patched => exact Or.inr hlinked

/-- The skeleton is the baseline with other contents. -/
theorem merged_unchanged : run.merged = v.baseline.relabel fun b _ => run.settled b :=
  Session.merged_eq_relabel run.corresponded run.isBuilt fun _ => run.survives_unchanged h

theorem merged_of_labels (hlabels : run.KeepsLabels) : run.merged = v.baseline := by
  rw [run.merged_unchanged h]
  conv_rhs => rw [← v.baseline.relabel_content]
  refine Tree.relabel_congr fun b hb => ?_
  funext _
  exact run.settled_of_labels hb hlabels

theorem keeps_unchanged {b : Nat} (hb : b < v.baseline.size) :
    v.baseline.keeps run.paired.tripleAt b = true := by
  rw [Tree.keeps, List.all_eq_true]
  intro a ha
  have hlt := Tree.lt_size_of_contains ((Tree.mem_self_ancestors_iff hb).1 ha)
  rw [Session.tripleAt_eq run.corresponded hlt, run.survives_unchanged h hlt]
  rfl

/-- Every baseline node is in the skeleton. -/
theorem isSome_baselineToMerged_unchanged {b : Nat} (hb : b < v.baseline.size) :
    (run.built.baselineToMerged.get? b).isSome = true :=
  (Session.isSome_baselineToMerged run.corresponded run.isBuilt).2 ⟨hb, run.keeps_unchanged h hb⟩

theorem toBaseline_unchanged {b : Nat} (hb : b < v.baseline.size) :
    (run.built.toBaseline side).get? b = some b := by
  have hlinks : Session.reverseLinks v.baseline.ids (run.ofBaseline side) =
      v.baseline.ids.map fun b => (b, b) := by
    rw [Session.reverseLinks, run.ofBaseline_unchanged h, ← List.filterMap_eq_map]
    apply List.filterMap_congr
    intro b hb
    rw [NodeName.ofId_nat, Mapping.dst?_diagonal (mem_ids.1 hb)]
    rfl
  have hkeys : ((v.baseline.ids.map fun b => (b, b)).map Prod.fst).Nodup := by
    rw [List.map_map]
    simpa [Function.comp_def, Tree.ids] using List.nodup_range
  rw [run.toBaseline_built, hlinks, Table.get?_putAll _ hkeys, Table.get?_nil, Option.or_none,
    Table.get?_eq_some_iff hkeys]
  exact List.mem_map_of_mem (mem_ids.2 hb)

theorem dropped_unchanged : run.report.dropped = 0 := by
  obtain ⟨_, -, -, hreport⟩ := run.isBuilt.report
  show run.built.report.dropped = 0
  rw [hreport, Session.report_of_survives run.corresponded fun _ => run.survives_unchanged h]

/-- The roots of the unchanged side and of the skeleton find each other. -/
theorem root_unchanged : (run.toMerged side).hasSrc Tree.root = true := by
  have hm := run.toMerged_eq side
  rw [h, run.merged_unchanged h] at hm
  refine Mapping.hasSrc_iff.2 ⟨Tree.root, greedyMatch_roots ?_ ?_ hm⟩
  · rw [Tree.size_relabel]
  · have hroot : Tree.root < v.baseline.size := v.baseline.size_pos
    rw [← run.kind_settled hroot, Tree.kind, Tree.content_relabel hroot]

/-- **What an unchanged side adds has an anchor**: the place of its parent in the skeleton. -/
theorem anchor_unchanged {n : Nat} (hn : n ∈ run.newRoots side) :
    ∃ p c, v.baseline.parent? n = some p ∧ run.built.baselineToMerged.get? p = some c ∧
      (run.arrival side n).anchor = some c := by
  obtain ⟨hlt, hfree, -⟩ := mem_topmostUnmatched.1 hn
  have hroot : n ≠ Tree.root := by
    rintro rfl
    rw [run.root_unchanged h] at hfree
    cases hfree
  rw [h] at hlt
  obtain ⟨p, hp⟩ := Tree.exists_parent hlt hroot
  have hplt := Tree.lt_size_of_children hp
  obtain ⟨c, hc⟩ := Option.isSome_iff_exists.1 (run.isSome_baselineToMerged_unchanged h hplt)
  refine ⟨p, c, Tree.parent?_of_mem_children hp, hc, ?_⟩
  show findAnchor? (v.side side) _ _ n = some c
  rw [h, findAnchor?, Tree.ancestors_child hp, List.findSome?_cons, NodeName.ofId_nat,
    run.toBaseline_unchanged h hplt]
  exact hc

/-- The record of what an unchanged side adds. -/
theorem record_unchanged {n : Nat} (hn : n ∈ run.newRoots side) :
    ∃ p c, v.baseline.parent? n = some p ∧ run.built.baselineToMerged.get? p = some c ∧
      run.record side n = ⟨⟨side, v.baseline.kind n, v.baseline.label n, v.baseline.subtreeSize n⟩,
        run.merged.kind c, false⟩ := by
  obtain ⟨p, c, hp, hc, hanchor⟩ := run.anchor_unchanged h hn
  have hlt := (mem_topmostUnmatched.1 hn).1
  have hplace : run.place side n = some c := Arrival.target?_eq_some.2 (Or.inl hanchor)
  refine ⟨p, c, hp, hc, ?_⟩
  rw [h] at hlt
  rw [record, hanchor, hplace, arrival, Arrival.ofNode, Arrival.summary, h,
    Tree.subtreeSize_eq hlt]
  rfl

/-- Where all labels are kept, an unchanged side is matched with itself again. -/
theorem toMerged_of_labels (hlabels : run.KeepsLabels) :
    run.toMerged side = .diagonal v.baseline.size := by
  have hm := run.toMerged_eq side
  rw [h, run.merged_of_labels h hlabels] at hm
  exact Except.ok.inj (hm.symm.trans (greedyMatch_self roundBinary64 options v.baseline))

theorem newRoots_of_labels (hlabels : run.KeepsLabels) : run.newRoots side = [] := by
  apply run.newRoots_of_matched
  intro n hn
  rw [h] at hn
  rw [run.toMerged_of_labels h hlabels]
  simp [hn]

end MergeRun

/-- **What an unchanged side contributes.** All of the baseline is in the skeleton, and nothing
that the side adds is without an anchor. What is inserted for it repeats a baseline node under the
place of that node's parent. Where the counterparts on the other side keep their labels, nothing
is. -/
theorem unchanged_side_contributes {v : Versions} (options : MatcherOptions) (policy : Policy)
    {side : Side} (hside : (v.side side).isomorphic Tree.root v.baseline Tree.root = true) :
    ∃ (run : MergeRun v (.greedy options) policy) (r : MergeResult),
      (mergeTrees v (.greedy options) policy).1 =
        (if policy = .error ∧ r.report.unanchored ≠ [] then .error (.unanchored r.report.unanchored)
          else .ok r) ∧
      r.report = run.report ∧
      (∀ b < v.baseline.size, (run.built.baselineToMerged.get? b).isSome = true) ∧
      (∀ u ∈ r.report.unanchored, u.origin ≠ side) ∧
      (∀ i ∈ r.report.inserted, i.origin = side → ∃ n p c,
        v.baseline.parent? n = some p ∧ run.built.baselineToMerged.get? p = some c ∧
          i = ⟨⟨side, v.baseline.kind n, v.baseline.label n, v.baseline.subtreeSize n⟩,
            run.merged.kind c, false⟩) ∧
      (run.KeepsLabels → ∀ i ∈ r.report.inserted, i.origin ≠ side) := by
  have h := Tree.eq_of_isomorphic_root hside
  obtain ⟨run⟩ := MergeRun.exists_greedy v options policy
  refine ⟨run, ⟨run.merged.graft run.copies, run.report⟩, run.mergeTrees_eq, rfl,
    fun b hb => run.isSome_baselineToMerged_unchanged h hb, ?_, ?_, ?_⟩
  · intro u hu horigin
    obtain ⟨n, hn, -⟩ := run.of_mem_unanchored hu
    rw [horigin] at hn
    obtain ⟨hmem, hnone⟩ := List.mem_filter.1 hn
    obtain ⟨p, c, -, -, hanchor⟩ := run.anchor_unchanged h (run.mem_newRoots hmem)
    rw [hanchor] at hnone
    cases hnone
  · intro i hi horigin
    obtain ⟨n, hn, hrecord⟩ := run.of_mem_inserted hi
    rw [horigin] at hn hrecord
    obtain ⟨p, c, hp, hc, heq⟩ :=
      run.record_unchanged h (run.mem_newRoots (List.mem_filter.1 hn).1)
    exact ⟨n, p, c, hp, hc, hrecord.trans heq⟩
  · intro hlabels i hi horigin
    obtain ⟨n, hn, -⟩ := run.of_mem_inserted hi
    rw [horigin] at hn
    have hmem := run.mem_newRoots (List.mem_filter.1 hn).1
    rw [run.newRoots_of_labels h hlabels] at hmem
    exact List.not_mem_nil hmem

/-- Two calls with different arguments. One side gives the first call the argument of the second,
and one more; the second call gets another argument. -/
def crossed : Versions where
  baseline := .ofNode (.node ⟨"R", ""⟩ [.node ⟨"P", ""⟩ [.node ⟨"A", ""⟩ [.node ⟨"x", "1"⟩ []]],
    .node ⟨"Q", ""⟩ [.node ⟨"A", ""⟩ [.node ⟨"x", "2"⟩ []]]])
  modified := .ofNode (.node ⟨"R", ""⟩ [.node ⟨"P", ""⟩ [.node ⟨"A", ""⟩ [.node ⟨"x", "1"⟩ []]],
    .node ⟨"Q", ""⟩ [.node ⟨"A", ""⟩ [.node ⟨"x", "2"⟩ []]]])
  patched := .ofNode (.node ⟨"R", ""⟩
    [.node ⟨"P", ""⟩ [.node ⟨"A", ""⟩ [.node ⟨"x", "2"⟩ [], .node ⟨"y", ""⟩ []]],
    .node ⟨"Q", ""⟩ [.node ⟨"A", ""⟩ [.node ⟨"x", "9"⟩ []]]])

theorem mergeTrees_crossed : (mergeTrees crossed (.greedy {}) .skip).1 = .ok
    { tree := .ofNode (.node ⟨"R", ""⟩
        [.node ⟨"P", ""⟩ [.node ⟨"A", ""⟩ [.node ⟨"x", "2"⟩ [], .node ⟨"y", ""⟩ []],
          .node ⟨"A", ""⟩ [.node ⟨"x", "1"⟩ []]],
        .node ⟨"Q", ""⟩ [.node ⟨"A", ""⟩ [.node ⟨"x", "9"⟩ []]]])
      report := {
        decisions := { patchedOnly := 7 }
        inserted := [⟨⟨.modified, "A", "", 2⟩, "P", false⟩,
          ⟨⟨.patched, "y", "", 1⟩, "A", false⟩] } } := by
  cbv

/-- The side that changed nothing brings back the argument that the other side replaced. -/
theorem unchanged_side_repeats :
    crossed.modified.isomorphic Tree.root crossed.baseline Tree.root = true ∧
      ∃ r, (mergeTrees crossed (.greedy {}) .skip).1 = .ok r ∧
        ⟨⟨.modified, "A", "", 2⟩, "P", false⟩ ∈ r.report.inserted :=
  ⟨by cbv, _, mergeTrees_crossed, List.mem_cons_self⟩

theorem unchanged_side_contributes_crossed :
    crossed.modified.isomorphic Tree.root crossed.baseline Tree.root = true ∧
      ∃ r, (mergeTrees crossed (.greedy {}) .skip).1 = .ok r ∧
        ∀ u ∈ r.report.unanchored, u.origin ≠ .modified := by
  have hside : (crossed.side .modified).isomorphic Tree.root crossed.baseline Tree.root = true := by
    cbv
  obtain ⟨-, r, heq, -, -, hunanchored, -⟩ := unchanged_side_contributes {} .skip hside
  exact ⟨hside, r, heq.trans (if_neg (by simp)), hunanchored⟩

/-! ## Two sides that changed nothing -/

namespace MergeRun

variable {v : Versions} {options : MatcherOptions} {policy : Policy}
  (run : MergeRun v (.greedy options) policy) (h : ∀ side, v.side side = v.baseline)

include h

theorem rule_of_unchanged {b : Nat} (hb : b < v.baseline.size) :
    (run.triple b).rule = .unchanged := by
  rw [run.rule_triple, run.counterpart_unchanged (h .modified) hb,
    run.counterpart_unchanged (h .patched) hb, Rule.between_unchanged]

theorem decisions_of_unchanged : run.report.decisions = { unchanged := v.baseline.size } := by
  have hkept : run.kept = v.baseline.ids :=
    List.filter_eq_self.2 fun b hb => run.keeps_unchanged (h .modified) (mem_ids.1 hb)
  refine Tally.ext_count fun r => ?_
  by_cases hr : r = .unchanged
  · have hall : (v.baseline.ids.filter fun b => (run.triple b).rule == r) = v.baseline.ids := by
      rw [List.filter_eq_self]
      intro b hb
      rw [run.rule_of_unchanged h (mem_ids.1 hb), hr]
      rfl
    rw [run.count_decisions run.ofBaseline_valid, hkept, hall, Tree.ids, List.length_range, hr]
    rfl
  · have hnone : run.report.decisions.count r = 0 := by
      refine run.count_eq_zero run.ofBaseline_valid fun b hb => ?_
      rw [run.rule_of_unchanged h hb]
      exact Ne.symm hr
    rw [hnone]
    cases r <;> first | rfl | exact absurd rfl hr

theorem report_of_unchanged :
    run.built.report = { decisions := { unchanged := v.baseline.size } } := by
  have hconflicts : run.report.conflicts = [] := by
    refine run.conflicts_eq_nil run.ofBaseline_valid fun b hb => ?_
    rw [run.rule_of_unchanged h hb]
    decide
  obtain ⟨hinserted, hdeduplicated, hunanchored⟩ := run.report_built
  have heta : run.built.report = ⟨run.report.decisions, run.report.conflicts, run.report.dropped,
      run.built.report.inserted, run.built.report.deduplicated,
      run.built.report.unanchored⟩ := rfl
  rw [heta, run.decisions_of_unchanged h, hconflicts, run.dropped_unchanged (h .modified),
    hinserted, hdeduplicated, hunanchored]

end MergeRun

/-- **Where nothing was changed**, every node is matched with itself, in order, and the merge
returns the baseline with nothing but unchanged decisions, whatever the thresholds and the
policy. -/
theorem mergeTrees_identity (options : MatcherOptions) (policy : Policy) {t t₁ t₂ : Tree}
    (h₁ : t.isomorphic Tree.root t₁ Tree.root = true)
    (h₂ : t.isomorphic Tree.root t₂ Tree.root = true) :
    (∀ round, greedyMatch round options t t₁ =
        .ok ⟨(List.range t.size).map fun k => (k, k)⟩) ∧
      ∃ r log, mergeTrees ⟨t, t₁, t₂⟩ (.greedy options) policy = (.ok r, log) ∧
        t.isomorphic Tree.root r.tree Tree.root = true ∧
        r.report = { decisions := { unchanged := t.size } } := by
  obtain rfl := Tree.eq_of_isomorphic_root h₁
  obtain rfl := Tree.eq_of_isomorphic_root h₂
  refine ⟨fun round => greedyMatch_self round options t, ?_⟩
  obtain ⟨run⟩ := MergeRun.exists_greedy ⟨t, t, t⟩ options policy
  have hside : ∀ side, Versions.side ⟨t, t, t⟩ side = t := by
    intro side
    cases side <;> rfl
  have hlabels : run.KeepsLabels := by
    intro side b d hd
    rw [run.ofBaseline_unchanged (hside side)] at hd
    have heq : b = d := (Mapping.mem_diagonal.1 (Mapping.mem_of_dst? hd)).2
    rw [hside, heq]
  have hmatched : ∀ side, ∀ n < (Versions.side ⟨t, t, t⟩ side).size,
      (run.toMerged side).hasSrc n = true := by
    intro side n hn
    rw [hside] at hn
    rw [run.toMerged_of_labels (hside side) hlabels]
    simp [hn]
  refine ⟨_, _, Prod.ext (run.result_of_matched hmatched) rfl, ?_,
    run.report_of_unchanged hside⟩
  rw [run.merged_of_labels (hside .modified) hlabels]
  exact h₁

/-- Two equal calls. -/
def doubled : Tree :=
  .ofNode (.node ⟨"R", ""⟩
    [.node ⟨"A", ""⟩ [.node ⟨"x", "1"⟩ []], .node ⟨"A", ""⟩ [.node ⟨"x", "1"⟩ []]])

/-- No subtree is tall enough here to be matched as a whole. -/
theorem mergeTrees_identity_doubled :
    doubled.isomorphic Tree.root doubled Tree.root = true ∧
      ∃ r log, mergeTrees ⟨doubled, doubled, doubled⟩ (.greedy { minHeight := 9 }) .error =
          (.ok r, log) ∧
        doubled.isomorphic Tree.root r.tree Tree.root = true ∧
        r.report = { decisions := { unchanged := 5 } } := by
  have h : doubled.isomorphic Tree.root doubled Tree.root = true := by cbv
  exact ⟨h, (mergeTrees_identity { minHeight := 9 } .error h h).2⟩

end TreeMerge
