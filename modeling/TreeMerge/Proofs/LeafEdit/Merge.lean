import TreeMerge.Proofs.LeafEdit.BottomUp
import TreeMerge.Proofs.Merge.Complete

/-!
# Leaf edits merge

Both sides change the label of one leaf. All four correspondences are complete and do not tell nodes
from those they stand for, so every position is decided as if each node were linked with itself.

* `mergeTrees_of_leafEdits` : what is merged, from the subtrees at each position;
* `Tree.relabel_threeWay_of_ne`, `Tree.relabel_threeWay_self` : these subtrees at the leaves;
* `mergeTrees_leaf_edits` : the whole merge.
-/

namespace TreeMerge

/-- The positions of trees that differ from the baseline in one leaf each. -/
theorem mergeTrees_of_leafEdits {i j k l : Nat} {base left right merged : Tree} (policy : Policy)
    (hleft : LeafEdit i base left) (hright : LeafEdit j base right)
    (hmerged : (base.relabel fun b _ =>
      (threeWay (base.subtree b) (left.subtree b) (right.subtree b)).value) = merged)
    (hleft' : LeafEdit k left merged) (hright' : LeafEdit l right merged) :
    ∃ r log, mergeTrees ⟨base, left, right⟩ (.rational {}) policy = (.ok r, log) ∧
      r.tree = merged ∧ r.report.dropped = 0 ∧ r.report.deduplicated = 0 ∧
      r.report.inserted = [] ∧ r.report.unanchored = [] := by
  obtain ⟨toM, hM, faithM⟩ := hleft.greedyMatch_eq
  obtain ⟨toP, hP, faithP⟩ := hright.greedyMatch_eq
  obtain ⟨ofM, hM', faithM'⟩ := hleft'.greedyMatch_eq
  obtain ⟨ofP, hP', faithP'⟩ := hright'.greedyMatch_eq
  have validM := faithM.sound.toValid
  have validP := faithP.sound.toValid
  refine mergeTrees_of_matched policy hM hP validM validP faithM.hasSrc ?_ hM' hP'
    faithM'.hasSrc faithP'.hasSrc
  rw [← hmerged]
  apply Tree.relabel_congr
  intro b hb
  funext _
  obtain ⟨m, hm, hmsub⟩ := faithM.link b hb
  obtain ⟨p, hp, hpsub⟩ := faithP.link b hb
  have htriple : Session.tripleOf ⟨base, left, right⟩ toM toP b =
      ⟨⟨base, b⟩, some ⟨left, m⟩, some ⟨right, p⟩⟩ := by
    rw [Session.tripleOf, NodeName.ofId_nat, hm, hp]
    rfl
  have hplaced := Session.wellPlaced_tripleOf (v := ⟨base, left, right⟩) validM validP hb
  rw [htriple] at hplaced ⊢
  rw [Triple.settled_eq_threeWay hplaced, hmsub, hpsub]

namespace Tree

variable {t : Tree} {i j : Nat}

theorem subtree_setLabel_leaf {a : Nat} (ha : a < t.size) (hl : t.isLeaf a = true) (i : Nat)
    (x : Text) : (t.setLabel i x).subtree a =
      .node (if a = i then { t.content a with label := x } else t.content a) [] := by
  have hl' : (t.setLabel i x).isLeaf a = true := by
    rwa [isLeaf, setLabel, children_relabel]
  rw [subtree_leaf hl', content_setLabel ha]

/-- Where no content changes, the content that stands is the old one. -/
theorem value_threeWay_of_content {u w : Tree} {b : Nat} (hu : u.content b = t.content b)
    (hw : w.content b = t.content b) :
    (threeWay (t.subtree b) (u.subtree b) (w.subtree b)).value = t.content b := by
  rcases threeWay_mem (t.subtree b) (u.subtree b) (w.subtree b) with h | h | h
  · rw [h, content]
  · rw [h, ← hu, content]
  · rw [h, ← hw, content]

/-- Two leaves each get their label. -/
theorem relabel_threeWay_of_ne (hi : t.isLeaf i = true) (hj : t.isLeaf j = true) (hij : i ≠ j)
    (x y : Text) : (t.relabel fun b _ => (threeWay (t.subtree b) ((t.setLabel i x).subtree b)
      ((t.setLabel j y).subtree b)).value) = (t.setLabel i x).setLabel j y := by
  rw [show (t.setLabel i x).setLabel j y = _ from relabel_relabel t _ _]
  apply relabel_eq_of_content
  intro b hb
  by_cases hbi : b = i
  · subst hbi
    rw [subtree_setLabel_leaf hb hi j, if_neg hij, ← subtree_leaf hi, threeWay_base_right,
      subtree_setLabel_leaf hb hi, if_pos rfl, if_neg hij]
    rfl
  by_cases hbj : b = j
  · subst hbj
    rw [subtree_setLabel_leaf hb hj i, if_neg hbi, ← subtree_leaf hj, threeWay_base_left,
      subtree_setLabel_leaf hb hj, if_pos rfl]
    rfl
  · rw [value_threeWay_of_content (by rw [content_setLabel hb, if_neg hbi])
      (by rw [content_setLabel hb, if_neg hbj]), if_neg hbi, if_neg hbj]

/-- One leaf gets the label that the rule gives for its labels. -/
theorem relabel_threeWay_self (hi : t.isLeaf i = true) (x y : Text) :
    (t.relabel fun b _ => (threeWay (t.subtree b) ((t.setLabel i x).subtree b)
      ((t.setLabel i y).subtree b)).value) = t.setLabel i (threeWay (t.label i) x y) := by
  apply relabel_eq_of_content
  intro b hb
  by_cases hbi : b = i
  · subst hbi
    have hinj : Function.Injective fun z : Text =>
        (.node { t.content b with label := z } [] : Node) := by
      intro z z' h
      simpa using h
    rw [subtree_setLabel_leaf hb hi, subtree_setLabel_leaf hb hi, if_pos rfl, if_pos rfl,
      if_pos rfl, subtree_leaf hi]
    exact congrArg Rose.value (threeWay_map hinj (t.label b) x y)
  · rw [value_threeWay_of_content (by rw [content_setLabel hb, if_neg hbi])
      (by rw [content_setLabel hb, if_neg hbi]), if_neg hbi]

end Tree

/-- **Leaf edits merge.** One side sets the label of leaf `i`, the other that of leaf `j`. -/
theorem mergeTrees_leaf_edits (t : Tree) {i j : Nat} (hi : i < t.size) (hj : j < t.size)
    (hli : t.isLeaf i = true) (hlj : t.isLeaf j = true) (x y : Text) (policy : Policy) :
    ∃ r log, mergeTrees ⟨t, t.setLabel i x, t.setLabel j y⟩ (.rational {}) policy = (.ok r, log) ∧
      (i ≠ j → r.tree = (t.setLabel i x).setLabel j y) ∧
      (i = j → x = y → r.tree = t.setLabel i x) ∧
      (i = j → x ≠ t.label i → y = t.label i → r.tree = t.setLabel i x) ∧
      (i = j → x = t.label i → y ≠ t.label i → r.tree = t.setLabel i y) ∧
      (i = j → x ≠ y → x ≠ t.label i → y ≠ t.label i → r.tree = t) ∧
      r.report.dropped = 0 ∧ r.report.deduplicated = 0 ∧ r.report.inserted = [] ∧
      r.report.unanchored = [] := by
  have hleft := LeafEdit.setLabel_right hi hli x
  have hright := LeafEdit.setLabel_right hj hlj y
  by_cases hij : i = j
  · subst hij
    obtain ⟨r, log, hr, htree, hreport⟩ := mergeTrees_of_leafEdits policy hleft hright
      (Tree.relabel_threeWay_self hli x y) (LeafEdit.setLabel hi hli x _)
      (LeafEdit.setLabel hi hli y _)
    refine ⟨r, log, hr, fun h => absurd rfl h, ?_, ?_, ?_, ?_, hreport⟩
    · rintro - rfl
      rw [htree, threeWay_same]
    · rintro - - hy
      rw [htree, hy, threeWay_base_right]
    · rintro - hx -
      rw [htree, hx, threeWay_base_left]
    · intro _ hxy hx hy
      rw [htree, threeWay_of_ne hx.symm hy.symm hxy, Tree.setLabel_self]
  · have hij' : (t.setLabel i x).isLeaf j = true := by
      rwa [Tree.isLeaf, Tree.setLabel, Tree.children_relabel]
    have hji' : (t.setLabel j y).isLeaf i = true := by
      rwa [Tree.isLeaf, Tree.setLabel, Tree.children_relabel]
    have hleft' := LeafEdit.setLabel_right (t := t.setLabel i x)
      (by rwa [Tree.setLabel, Tree.size_relabel]) hij' y
    have hright' := LeafEdit.setLabel_right (t := t.setLabel j y)
      (by rwa [Tree.setLabel, Tree.size_relabel]) hji' x
    rw [← Tree.setLabel_comm hij] at hright'
    obtain ⟨r, log, hr, htree, hreport⟩ := mergeTrees_of_leafEdits policy hleft hright
      (Tree.relabel_threeWay_of_ne hli hlj hij x y) hleft' hright'
    exact ⟨r, log, hr, fun _ => htree, fun h => absurd h hij, fun h => absurd h hij,
      fun h => absurd h hij, fun h => absurd h hij, hreport⟩

/-- Two calls with the same argument. -/
def twinCalls : Tree :=
  .ofNode (.node ⟨"program", ""⟩
    [.node ⟨"call", "f"⟩ [.node ⟨"name", "a"⟩ []], .node ⟨"call", "f"⟩ [.node ⟨"name", "a"⟩ []]])

/-- Both sides rename an argument, one of them the first, the other the second. -/
theorem mergeTrees_twinCalls :
    (2 < twinCalls.size ∧ twinCalls.isLeaf 2 = true) ∧
      (4 < twinCalls.size ∧ twinCalls.isLeaf 4 = true) ∧
      ∃ r log, mergeTrees ⟨twinCalls, twinCalls.setLabel 2 "b", twinCalls.setLabel 4 "c"⟩
          (.rational {}) .error = (.ok r, log) ∧
        r.tree = (twinCalls.setLabel 2 "b").setLabel 4 "c" := by
  have h₂ : 2 < twinCalls.size := by decide
  have h₄ : 4 < twinCalls.size := by decide
  have hl₂ : twinCalls.isLeaf 2 = true := rfl
  have hl₄ : twinCalls.isLeaf 4 = true := rfl
  obtain ⟨r, log, hr, htree, -⟩ := mergeTrees_leaf_edits twinCalls h₂ h₄ hl₂ hl₄ "b" "c" .error
  exact ⟨⟨h₂, hl₂⟩, ⟨h₄, hl₄⟩, r, log, hr, htree (by decide)⟩

end TreeMerge
