import Mathlib
import TreeMerge.Proofs.Matching.Soundness
import TreeMerge.Proofs.Merge.Skeleton

/-!
# Every baseline node is accounted for

A node that has a counterpart may still be missing from the skeleton: it is cut off where a node
above it has none. With these nodes the decisions and the dropped nodes are all of the baseline.

* `Session.cutOff` : the nodes that have a counterpart and are cut off;
* `Session.counterpart_cut_off` : there are such nodes;
* `Session.Built.account` : decided, dropped and cut off are all nodes;
* `Session.counterparts_accounted` : which nodes with a counterpart are in the skeleton, and the
  sum.
-/

namespace TreeMerge

/-- A list falls into three parts: what has `q`, what lacks `p`, and what has only `p`. -/
theorem length_filter_three {α : Type} {p q : α → Bool} {l : List α}
    (h : ∀ x ∈ l, q x = true → p x = true) :
    (l.filter q).length + (l.filter fun x => !p x).length +
      (l.filter fun x => p x && !q x).length = l.length := by
  induction l with
  | nil => rfl
  | cons x l ih =>
    have ih := ih fun y hy => h y (List.mem_cons_of_mem _ hy)
    have hx := h x List.mem_cons_self
    cases hp : p x <;> cases hq : q x <;>
      simp only [List.filter_cons, hp, hq, Bool.not_true, Bool.not_false, Bool.and_true,
        Bool.and_false, if_true, Bool.false_eq_true, if_false, List.length_cons]
    · omega
    · rw [hp] at hx
      exact absurd (hx hq) Bool.false_ne_true
    · omega
    · omega

namespace Session

variable {v : Versions} {matcher : Matcher Nat} {policy : Policy} {toM toP : Mapping Nat}

/-- The nodes that survive by themselves below one that does not. -/
def cutOff (v : Versions) (toM toP : Mapping Nat) : List Nat :=
  v.baseline.ids.filter fun b =>
    survives toM toP b && (v.baseline.ancestors b).any fun a => !survives toM toP a

/-- Nodes are kept if they and all nodes above them survive. -/
theorem keeps_eq {s : Session Nat} (h : s.Corresponded v matcher policy toM toP) {b : Nat}
    (hb : b < v.baseline.size) :
    v.baseline.keeps s.tripleAt b =
      (survives toM toP b && (v.baseline.ancestors b).all (survives toM toP)) := by
  have hsurvives : ∀ a ∈ b :: v.baseline.ancestors b,
      (s.tripleAt a).isSome = survives toM toP a := by
    intro a ha
    have hlt := Tree.lt_size_of_contains ((Tree.mem_self_ancestors_iff hb).1 ha)
    rw [tripleAt_eq h hlt]
    cases survives toM toP a <;> rfl
  rw [Tree.keeps, ← List.all_cons, Bool.eq_iff_iff, List.all_eq_true, List.all_eq_true]
  exact forall_congr' fun a => forall_congr' fun ha => by rw [hsurvives a ha]

/-- **Decided, dropped and cut off are all nodes of the baseline.** -/
theorem Built.account {s s' : Session Nat} {merged : Tree}
    (h : s.Corresponded v matcher policy toM toP) (hb : Built s merged s') :
    s'.report.decisions.total + s'.report.dropped + (cutOff v toM toP).length =
      v.baseline.size := by
  have htotal : s'.report.decisions.total =
      (v.baseline.ids.filter (v.baseline.keeps s.tripleAt)).length := by
    rw [total_decisions h hb, size_merged h hb, Tree.length_filter_keeps]
  have hcut : cutOff v toM toP = v.baseline.ids.filter fun b =>
      survives toM toP b && !v.baseline.keeps s.tripleAt b := by
    apply List.filter_congr
    intro b hmem
    rw [keeps_eq h (mem_ids.1 hmem), Bool.not_and, List.not_all_eq_any_not]
    cases survives toM toP b <;> simp
  rw [htotal, dropped_eq h hb, hcut, length_filter_three, Tree.ids, List.length_range]
  intro b hmem hk
  exact survives_of_keeps h (mem_ids.1 hmem) hk

/-- A wrapper that both sides have taken away, leaving what it held. -/
def unwrapped : Versions where
  baseline := .ofNode (.node ⟨"R", ""⟩ [.node ⟨"W", ""⟩ [.node ⟨"F", ""⟩ [.node ⟨"a", ""⟩ []]]])
  modified := .ofNode (.node ⟨"R", ""⟩ [.node ⟨"F", ""⟩ [.node ⟨"a", ""⟩ []]])
  patched := .ofNode (.node ⟨"R", ""⟩ [.node ⟨"F", ""⟩ [.node ⟨"a", ""⟩ []]])

/-- A node with counterparts on both sides that is not in the skeleton, and a report that misses
it. -/
theorem counterpart_cut_off :
    ∃ s₁ merged s₂, (start unwrapped (.greedy {}) .skip).correspond = (.ok (), s₁) ∧
      s₁.build = (.ok merged, s₂) ∧
      s₁.triples.get? 2 = some
        ⟨⟨unwrapped.baseline, 2⟩, some ⟨unwrapped.modified, 1⟩, some ⟨unwrapped.patched, 1⟩⟩ ∧
      s₂.baselineToMerged.get? 2 = none ∧
      s₂.report.decisions.total + s₂.report.dropped = 2 ∧ unwrapped.baseline.size = 4 := by
  have hmatch : greedyMatch roundBinary64 {} unwrapped.baseline unwrapped.modified =
      .ok ⟨[(2, 1), (3, 2), (0, 0)]⟩ := by cbv
  have hrun : ∀ asked, (Matcher.greedy {}).run asked unwrapped.baseline unwrapped.modified =
      .ok ⟨[(2, 1), (3, 2), (0, 0)]⟩ := fun _ => hmatch
  have hvalid : (⟨[(2, 1), (3, 2), (0, 0)]⟩ : Mapping Nat).Valid 4 3 :=
    ⟨by decide, by decide, by decide, by decide⟩
  obtain ⟨s₁, hs₁, h⟩ := correspond_ok (v := unwrapped) .skip (hrun 0) (hrun 1)
  obtain ⟨merged, s₂, hs₂, hb⟩ := build_ok h hvalid hvalid
  refine ⟨s₁, merged, s₂, hs₁, hs₂, ?_, ?_, ?_, rfl⟩
  · exact (triples_get?_eq_some_iff h (by decide) _).2 ⟨by decide, rfl⟩
  · rw [← Option.not_isSome_iff_eq_none, isSome_baselineToMerged h hb]
    rintro ⟨hlt, hk⟩
    rw [keeps_eq h hlt] at hk
    exact absurd hk (by decide)
  · have hsum := hb.account h
    have hcut : (cutOff unwrapped ⟨[(2, 1), (3, 2), (0, 0)]⟩
        ⟨[(2, 1), (3, 2), (0, 0)]⟩).length = 2 := by
      decide
    have hsize : unwrapped.baseline.size = 4 := rfl
    omega

/-- **Which nodes with a counterpart are in the skeleton, and what the report accounts for.** A
node with a counterpart is there exactly if the nodes above it, the root apart, have counterparts
as well; the five counts, the dropped nodes and the nodes cut off are all nodes. -/
theorem counterparts_accounted (v : Versions) (policy : Policy) :
    ∃ toM toP s₁ merged s₂,
      (Matcher.greedy {}).run 0 v.baseline v.modified = .ok toM ∧
      (Matcher.greedy {}).run 1 v.baseline v.patched = .ok toP ∧
      (start v (.greedy {}) policy).correspond = (.ok (), s₁) ∧ s₁.build = (.ok merged, s₂) ∧
      (∀ b < v.baseline.size, toM.hasSrc b = true ∨ toP.hasSrc b = true →
        ((s₂.baselineToMerged.get? b).isSome = true ↔
          ∀ a ∈ v.baseline.ancestors b, a ≠ Tree.root →
            toM.hasSrc a = true ∨ toP.hasSrc a = true)) ∧
      s₂.report.decisions.total + s₂.report.dropped + (cutOff v toM toP).length =
        v.baseline.size := by
  obtain ⟨toM, hM, hsM⟩ := greedyMatch_ok roundBinary64 {} v.baseline v.modified
  obtain ⟨toP, hP, hsP⟩ := greedyMatch_ok roundBinary64 {} v.baseline v.patched
  have hrunM : (Matcher.greedy {}).run 0 v.baseline v.modified = .ok toM := hM
  have hrunP : (Matcher.greedy {}).run 1 v.baseline v.patched = .ok toP := hP
  obtain ⟨s₁, hs₁, h⟩ := correspond_ok policy hrunM hrunP
  obtain ⟨merged, s₂, hs₂, hb⟩ := build_ok h hsM.toValid hsP.toValid
  refine ⟨toM, toP, s₁, merged, s₂, hM, hP, hs₁, hs₂, ?_, hb.account h⟩
  intro b hlt hself
  rw [isSome_baselineToMerged h hb, and_iff_right hlt, keeps_eq h hlt,
    survives_iff.2 fun _ => hself, Bool.true_and, List.all_eq_true]
  exact forall_congr' fun a => forall_congr' fun _ => survives_iff

end Session

end TreeMerge
