import TreeMerge.Proofs.Merge.Run
import TreeMerge.Proofs.Merge.Topmost
import TreeMerge.Proofs.Tree.Relabel

/-!
# Merges that lose nothing and add nothing

Where every baseline node has a counterpart, and every node of either side has one in the skeleton,
the merged tree is the baseline with the decided contents.

* `Rose.prune_of_picked` : pruning that picks all nodes;
* `Tree.graft_nil` : nothing is appended;
* `Session.merged_eq_relabel` : the skeleton has the shape of the baseline;
* `MergeRun.result_of_matched` : there is nothing to insert;
* `mergeTrees_of_matched` : the whole merge.
-/

namespace TreeMerge

mutual

theorem Rose.prune_of_picked {α β : Type} {pick : Nat → Option β} {g : Nat → β} :
    ∀ (id : Nat) (t : Rose α), (∀ x, id ≤ x → x < id + t.size → pick x = some (g x)) →
      Rose.prune pick id t = some (Rose.mapIds (fun x _ => g x) id t)
  | id, .node a cs, h => by
    have hs : (Rose.node a cs).size = Rose.sizeAll cs + 1 := rfl
    rw [Rose.prune, h id (Nat.le_refl id) (by omega), Option.map_some,
      Rose.pruneAll_of_picked (id + 1) cs fun x h₁ h₂ => h x (by omega) (by omega), Rose.mapIds]

theorem Rose.pruneAll_of_picked {α β : Type} {pick : Nat → Option β} {g : Nat → β} :
    ∀ (next : Nat) (ts : List (Rose α)),
      (∀ x, next ≤ x → x < next + Rose.sizeAll ts → pick x = some (g x)) →
      Rose.pruneAll pick next 0 ts [] = Rose.mapIdsAll (fun x _ => g x) next ts
  | _, [], _ => rfl
  | next, c :: cs, h => by
    have hs : Rose.sizeAll (c :: cs) = c.size + Rose.sizeAll cs := rfl
    rw [Rose.pruneAll_cons, Rose.prune_of_picked next c fun x h₁ h₂ => h x h₁ (by omega),
      Rose.pruneAll_of_picked (next + c.size) cs fun x h₁ h₂ => h x (by omega) (by omega),
      Rose.mapIdsAll]
    rfl

end

mutual

theorem Node.graft_nil : ∀ (id : Nat) (n : Node), Node.graft (fun _ => []) id n = n
  | id, .node c cs => by rw [Node.graft, List.append_nil, Node.graftAll_nil (id + 1) cs]

theorem Node.graftAll_nil : ∀ (next : Nat) (ns : List Node),
    Node.graftAll (fun _ => []) next ns = ns
  | _, [] => rfl
  | next, c :: cs => by rw [Node.graftAll, Node.graft_nil next c, Node.graftAll_nil _ cs]

end

theorem Tree.graft_nil (t : Tree) : t.graft (fun _ => []) = t := by
  rw [Tree.graft, Node.graft_nil, Tree.ofNode_node]

namespace Session

variable {v : Versions} {matcher : Matcher Nat} {policy : Policy} {toM toP : Mapping Nat}
  {s s' : Session Nat} {merged : Tree}

/-- The skeleton of a baseline all of whose nodes survive. -/
theorem merged_eq_relabel (h : s.Corresponded v matcher policy toM toP) (hb : Built s merged s')
    (hall : ∀ b < v.baseline.size, survives toM toP b = true) :
    merged = v.baseline.relabel fun b _ => (tripleOf v toM toP b).settled := by
  have hprune := hb.pruned
  rw [h.versions, Rose.prune_of_picked (g := fun b => (tripleOf v toM toP b).settled),
    Option.some.injEq] at hprune
  · exact Tree.ext_node hprune.symm
  · intro b _ hlt
    rw [← v.baseline.size_eq, Tree.root, Nat.zero_add] at hlt
    rw [tripleAt_eq h hlt, if_pos (hall b hlt)]
    rfl

theorem report_of_survives (h : s.Corresponded v matcher policy toM toP)
    (hall : ∀ b < v.baseline.size, survives toM toP b = true) : s.report = {} := by
  have hgone : (v.baseline.ids.filter fun b => !survives toM toP b) = [] := by
    rw [List.filter_eq_nil_iff]
    intro b hb
    rw [hall b (mem_ids.1 hb)]
    exact Bool.false_ne_true
  rw [h.report, hgone]
  rfl

end Session

namespace MergeRun

variable {v : Versions} {matcher : Matcher Nat} {policy : Policy}

theorem newRoots_of_matched (run : MergeRun v matcher policy) {side : Side}
    (h : ∀ n < (v.side side).size, (run.toMerged side).hasSrc n = true) : run.newRoots side = [] :=
  topmostUnmatched_eq_nil h

/-- Where every node of both sides has a counterpart, the skeleton is the result. -/
theorem result_of_matched (run : MergeRun v matcher policy)
    (h : ∀ side, ∀ n < (v.side side).size, (run.toMerged side).hasSrc n = true) :
    (mergeTrees v matcher policy).1 = .ok ⟨run.merged, run.built.report⟩ := by
  have hentering : ∀ side, run.entering side = [] := by
    intro side
    cases side with
    | modified => exact run.newRoots_of_matched (h .modified)
    | patched =>
      show (run.newRoots .patched).filter _ = []
      rw [run.newRoots_of_matched (h .patched), List.filter_nil]
  have hcopies : run.copies = fun _ => [] := by
    funext a
    rw [copies, copiesOf, copiesOf, hentering, hentering]
    rfl
  have htwice : run.twice = [] := by
    rw [twice, run.newRoots_of_matched (h .modified)]
    rfl
  have hreport : run.report = run.built.report := by
    obtain ⟨hinserted, hdeduplicated, hunanchored⟩ := run.report_built
    have heta : run.built.report = { run.built.report with
        inserted := [], deduplicated := 0, unanchored := [] } := by
      rw [← hinserted, ← hdeduplicated, ← hunanchored]
    rw [heta, report, placed, placed, unanchored, unanchored, hentering, hentering, htwice]
    rfl
  rw [run.mergeTrees_eq, result, hreport, run.report_built.2.2, if_neg fun herror => herror.2 rfl,
    hcopies, Tree.graft_nil]

end MergeRun

/-- **A merge that loses nothing and adds nothing** gives the baseline with the decided contents. -/
theorem mergeTrees_of_matched {v : Versions} {matcher : Matcher Nat} (policy : Policy)
    {toM toP ofM ofP : Mapping Nat} {merged : Tree}
    (hM : matcher.run 0 v.baseline v.modified = .ok toM)
    (hP : matcher.run 1 v.baseline v.patched = .ok toP)
    (validM : toM.Valid v.baseline.size v.modified.size)
    (validP : toP.Valid v.baseline.size v.patched.size)
    (hall : ∀ b < v.baseline.size, toM.hasSrc b = true)
    (hmerged : (v.baseline.relabel fun b _ => (Session.tripleOf v toM toP b).settled) = merged)
    (hM' : matcher.run 2 v.modified merged = .ok ofM)
    (hP' : matcher.run 3 v.patched merged = .ok ofP)
    (hallM : ∀ n < v.modified.size, ofM.hasSrc n = true)
    (hallP : ∀ n < v.patched.size, ofP.hasSrc n = true) :
    ∃ r log, mergeTrees v matcher policy = (.ok r, log) ∧ r.tree = merged ∧
      r.report.dropped = 0 ∧ r.report.deduplicated = 0 ∧ r.report.inserted = [] ∧
      r.report.unanchored = [] := by
  have hsurvives : ∀ b < v.baseline.size, Session.survives toM toP b = true :=
    fun b hb => Session.survives_iff.2 fun _ => Or.inl (hall b hb)
  obtain ⟨s₁, hs₁, h⟩ := Session.correspond_ok policy hM hP
  obtain ⟨merged', s₂, hs₂, hb⟩ := Session.build_ok h validM validP
  obtain rfl : merged' = merged := (Session.merged_eq_relabel h hb hsurvives).trans hmerged
  let run := MergeRun.ofStages hM hP hs₁ hs₂ hM' hP'
  have hmatched : ∀ side, ∀ n < (v.side side).size, (run.toMerged side).hasSrc n = true := by
    intro side
    cases side with
    | modified => exact hallM
    | patched => exact hallP
  obtain ⟨made, -, -, hreport⟩ := hb.report
  obtain ⟨hinserted, hdeduplicated, hunanchored⟩ := run.report_built
  refine ⟨⟨merged', s₂.report⟩, _, Prod.ext (run.result_of_matched hmatched) rfl, rfl, ?_,
    hdeduplicated, hinserted, hunanchored⟩
  show s₂.report.dropped = 0
  rw [hreport, Session.report_of_survives h hsurvives]

end TreeMerge
