import TreeMerge.Proofs.Merge.Append

/-!
# What a policy changes

Only the last stage reads the policy. So one run gives the outcome under every policy: the same
answers, skeleton, new subtrees and anchors, and the policy decides about the subtrees without an
anchor alone.

* `Session.correspond_withPolicy`, `Session.build_withPolicy` : the first stages do not read it;
* `MergeRun.withPolicy` : the same run under another policy;
* `MergeRun.record_withPolicy`, `MergeRun.result_withPolicy` : what two policies have in common;
* `AttachesRest` : two results that differ by what one of them attaches to the root;
* `mergeTrees_policies` : the outcomes under the three policies.
-/

namespace TreeMerge

namespace Session

/-- The session under another policy. -/
def withPolicy (s : Session Nat) (policy : Policy) : Session Nat :=
  { s with policy }

theorem correspond_withPolicy (s : Session Nat) (policy : Policy) :
    (s.withPolicy policy).correspond = (s.correspond.1, s.correspond.2.withPolicy policy) := by
  unfold correspond ask withPolicy
  cases s.matcher.run s.asked s.versions.baseline s.versions.modified with
  | error e => rfl
  | ok toM =>
    dsimp only
    cases s.matcher.run (s.asked + 1) s.versions.baseline s.versions.patched <;> rfl

theorem build_withPolicy (s : Session Nat) (policy : Policy) :
    (s.withPolicy policy).build = (s.build.1, s.build.2.withPolicy policy) := by
  have hkept : (s.withPolicy policy).kept = s.kept := rfl
  obtain ⟨made, fault, hmade⟩ : ∃ made fault, decideAll s.kept.preorder = (made, fault) :=
    ⟨_, _, rfl⟩
  unfold build
  simp only [hkept, hmade]
  cases fault <;> rfl

end Session

namespace MergeRun

variable {v : Versions} {matcher : Matcher Nat} {policy : Policy} (run : MergeRun v matcher policy)
  (policy' : Policy)

/-- The same run under another policy. -/
def withPolicy : MergeRun v matcher policy' where
  ofBaseline := run.ofBaseline
  paired := run.paired.withPolicy policy'
  merged := run.merged
  built := run.built.withPolicy policy'
  toMerged := run.toMerged
  ofBaseline_eq := run.ofBaseline_eq
  correspond_eq := by
    have h := Session.correspond_withPolicy (Session.start v matcher policy) policy'
    rwa [run.correspond_eq] at h
  build_eq := by rw [Session.build_withPolicy, run.build_eq]
  toMerged_eq := run.toMerged_eq

theorem entering_withPolicy (side : Side) :
    (run.withPolicy policy').entering side = run.entering side := rfl

theorem arrival_withPolicy (side : Side) (n : Nat) :
    (run.withPolicy policy').arrival side n = run.arrival side n := rfl

/-- The record of a subtree says the same wherever it is inserted. -/
theorem record_withPolicy (side : Side) :
    (run.withPolicy policy').record side = run.record side := by
  funext n
  rw [record, record, place, place, Arrival.getD_target?, Arrival.getD_target?]
  rfl

/-! ## Policies that leave out what has no anchor -/

section

variable {policy'} (h : policy ≠ .attachRoot) (h' : policy' ≠ .attachRoot)

include h h'

theorem report_withPolicy : (run.withPolicy policy').report = run.report := by
  have hplaced : ∀ side, (run.withPolicy policy').placed side = run.placed side := by
    intro side
    rw [placed_of_ne _ h', placed_of_ne _ h]
    rfl
  rw [report, report, hplaced, hplaced, record_withPolicy, record_withPolicy]
  rfl

theorem copies_withPolicy : (run.withPolicy policy').copies = run.copies := by
  have hcopies : ∀ side a, (run.withPolicy policy').copiesOf side a = run.copiesOf side a := by
    intro side a
    unfold copiesOf place
    simp only [Arrival.target?_of_ne h, Arrival.target?_of_ne h', entering_withPolicy,
      arrival_withPolicy]
  funext a
  rw [copies, copies, hcopies, hcopies]

theorem result_withPolicy : (run.withPolicy policy').result = run.result := by
  rw [result, result, run.report_withPolicy h h', run.copies_withPolicy h h']
  rfl

end

/-! ## The policy that attaches it to the root -/

theorem placed_attachRoot (run : MergeRun v matcher .attachRoot) (side : Side) :
    run.placed side = run.entering side := by
  unfold placed place
  simp only [Arrival.target?_attachRoot, Option.isSome_some, List.filter_true]

theorem inserted_attachRoot : (run.withPolicy .attachRoot).report.inserted =
    (run.entering .modified).map (run.record .modified) ++
      (run.entering .patched).map (run.record .patched) := by
  rw [report, placed_attachRoot, placed_attachRoot, record_withPolicy, record_withPolicy]
  rfl

end MergeRun

/-- Two results that differ by what the second one attaches to the root. -/
structure AttachesRest (skipped attached : MergeResult) : Prop where
  report : attached.report = { skipped.report with inserted := attached.report.inserted }
  anchored : (attached.report.inserted.filter fun i => !i.attachedToRoot) =
    skipped.report.inserted
  rest : (attached.report.inserted.filter fun i => i.attachedToRoot) =
    skipped.report.unanchored.map fun u =>
      { u with anchorKind := attached.tree.kind Tree.root, attachedToRoot := true }
  size : attached.tree.size =
    skipped.tree.size + (skipped.report.unanchored.map fun u => u.size).sum

namespace MergeRun

variable {v : Versions} {matcher : Matcher Nat} (run : MergeRun v matcher .skip)

theorem anchored_attachRoot :
    ((run.withPolicy .attachRoot).report.inserted.filter fun i => !i.attachedToRoot) =
      run.report.inserted := by
  have hside : ∀ side, (((run.entering side).map (run.record side)).filter
      fun i => !i.attachedToRoot) = (run.placed side).map (run.record side) := by
    intro side
    rw [List.filter_map, run.placed_of_ne (by decide)]
    simp only [← Option.not_isNone]
    rfl
  rw [inserted_attachRoot, List.filter_append, hside, hside, report]

theorem rest_attachRoot :
    ((run.withPolicy .attachRoot).report.inserted.filter fun i => i.attachedToRoot) =
      run.report.unanchored.map fun u =>
        { u with anchorKind := run.merged.kind Tree.root, attachedToRoot := true } := by
  have hside : ∀ side, (((run.entering side).map (run.record side)).filter
      fun i => i.attachedToRoot) = ((run.unanchored side).map fun n =>
        (run.arrival side n).summary).map fun u =>
          { u with anchorKind := run.merged.kind Tree.root, attachedToRoot := true } := by
    intro side
    rw [List.filter_map, List.map_map]
    refine List.map_congr_left fun n hn => ?_
    have hanchor : (run.arrival side n).anchor = none :=
      Option.isNone_iff_eq_none.1 (List.mem_filter.1 hn).2
    rw [record, place, Arrival.getD_target?, hanchor]
    rfl
  rw [inserted_attachRoot, List.filter_append, hside, hside, ← List.map_append]
  rfl

theorem sum_size_attachRoot :
    ((run.withPolicy .attachRoot).report.inserted.map fun i => i.size).sum =
      (run.report.inserted.map fun i => i.size).sum +
        (run.report.unanchored.map fun u => u.size).sum := by
  -- what is attached to the root and what is not are all that is inserted
  have hsplit := (List.filter_append_perm (fun i : Insertion => i.attachedToRoot)
    (run.withPolicy .attachRoot).report.inserted).map fun i => i.size
  rw [← hsplit.sum_eq, List.map_append, List.sum_append, run.rest_attachRoot,
    run.anchored_attachRoot, List.map_map, Nat.add_comm]
  rfl

theorem attachesRest : AttachesRest run.result (run.withPolicy .attachRoot).result := by
  have hroot : (run.withPolicy .attachRoot).result.tree.kind Tree.root =
      run.merged.kind Tree.root := by
    have hcontent := (run.withPolicy .attachRoot).appended.content Tree.root run.merged.size_pos
    rw [Tree.graftId_root] at hcontent
    rw [Tree.kind, Tree.kind]
    exact congrArg Content.kind hcontent
  constructor
  case report => rfl
  case anchored => exact run.anchored_attachRoot
  case rest =>
    rw [hroot]
    exact run.rest_attachRoot
  case size =>
    have hskipped : run.result.tree.size = run.merged.size +
        (run.report.inserted.map fun i => i.size).sum := run.appended.size
    have hattached : (run.withPolicy .attachRoot).result.tree.size = run.merged.size +
        ((run.withPolicy .attachRoot).report.inserted.map fun i => i.size).sum :=
      (run.withPolicy .attachRoot).appended.size
    rw [hattached, hskipped, run.sum_size_attachRoot, Nat.add_assoc]
    rfl

end MergeRun

/-- **What the policies differ in.** Leaving out what has no anchor and attaching it to the root
always succeed. Failing for want of an anchor is all that can fail under the remaining policy, which
otherwise does what leaving out does. -/
theorem mergeTrees_policies (v : Versions) (options : MatcherOptions) :
    ∃ skipped attached : MergeResult,
      (mergeTrees v (.greedy options) .skip).1 = .ok skipped ∧
      (mergeTrees v (.greedy options) .attachRoot).1 = .ok attached ∧
      (mergeTrees v (.greedy options) .error).1 =
        (if skipped.report.unanchored = [] then .ok skipped
          else .error (.unanchored skipped.report.unanchored)) ∧
      AttachesRest skipped attached := by
  obtain ⟨run⟩ := MergeRun.exists_greedy v options .skip
  refine ⟨run.result, (run.withPolicy .attachRoot).result, ?_, ?_, ?_, run.attachesRest⟩
  · exact run.mergeTrees_eq.trans (if_neg fun h => by cases h.1)
  · exact (run.withPolicy .attachRoot).mergeTrees_eq.trans (if_neg fun h => by cases h.1)
  · have hresult : (run.withPolicy .error).result = run.result :=
      run.result_withPolicy (by decide) (by decide)
    have hlost : (run.withPolicy .error).report.unanchored = run.result.report.unanchored := rfl
    rw [(run.withPolicy .error).mergeTrees_eq, hresult, hlost]
    by_cases hnone : run.result.report.unanchored = []
    · rw [if_neg fun herror => herror.2 hnone]
      exact (if_pos hnone).symm
    · rw [if_pos ⟨rfl, hnone⟩]
      exact (if_neg hnone).symm

end TreeMerge
