import TreeMerge.Proofs.Merge.Unchanged

/-!
# Changes on one side only

Where one side is the baseline, every node of it is its own counterpart there, whatever the other
side did. Each position is then decided by the other side alone: the skeleton is the baseline with
the contents that the other side has, and nothing can diverge or be dropped.

* `Side.other`, `Side.only` : the opposite side, and the rule by which a side alone decides;
* `MergeRun.rule_one_sided`, `MergeRun.content_one_sided` : the decision about a position;
* `MergeRun.OneSided` : what a merge with an unchanged side comes to;
* `mergeTrees_one_sided` : every such merge comes to that.
-/

namespace TreeMerge

/-- The opposite side. -/
def Side.other : Side → Side
  | .modified => .patched
  | .patched => .modified

/-- The rule for a position that this side alone has changed. -/
def Side.only : Side → Rule
  | .modified => .modifiedOnly
  | .patched => .patchedOnly

namespace MergeRun

variable {v : Versions} {options : MatcherOptions} {policy : Policy}

/-- The content that a side has for a baseline node: that of the counterpart, or else that of the
node itself. -/
def contentOn {matcher : Matcher Nat} (run : MergeRun v matcher policy) (side : Side) (b : Nat) :
    Content :=
  match (run.ofBaseline side).dst? b with
  | some d => (v.side side).content d
  | none => v.baseline.content b

/-- What a merge comes to of which `side` has changed nothing. -/
structure OneSided (run : MergeRun v (.greedy options) policy) (side : Side) : Prop where
  conflicts : run.report.conflicts = []
  dropped : run.report.dropped = 0
  convergent : run.report.decisions.convergent = 0
  diverged : run.report.decisions.diverged = 0
  own : run.report.decisions.count side.only = 0
  size : run.merged.size = v.baseline.size
  position : ∀ b < v.baseline.size, run.built.baselineToMerged.get? b = some b
  parent : ∀ b, run.merged.parent? b = v.baseline.parent? b
  children : ∀ b, run.merged.children b = v.baseline.children b
  content : ∀ b < v.baseline.size, run.merged.content b = run.contentOn side.other b

variable (run : MergeRun v (.greedy options) policy) {side : Side}
  (h : v.side side = v.baseline)

include h

/-- The rule depends on the other side alone. -/
theorem rule_one_sided {b : Nat} (hb : b < v.baseline.size) : (run.triple b).rule =
    if run.counterpart side.other b = some (v.baseline.subtree b) then .unchanged
    else side.other.only := by
  have hown := run.counterpart_unchanged h hb
  rw [run.rule_triple]
  cases side with
  | modified =>
    rw [hown]
    exact if_pos rfl
  | patched =>
    rw [hown, Rule.between, if_pos rfl, if_pos rfl]
    rfl

theorem rule_ne_one_sided {b : Nat} (hb : b < v.baseline.size) {r : Rule} (hr : r ≠ .unchanged)
    (hother : r ≠ side.other.only) : (run.triple b).rule ≠ r := by
  rw [run.rule_one_sided h hb]
  split
  · exact Ne.symm hr
  · exact Ne.symm hother

/-- So does the content. -/
theorem content_one_sided {b : Nat} (hb : b < v.baseline.size) :
    run.merged.content b = run.contentOn side.other b := by
  have hown := run.counterpart_unchanged h hb
  have hwinner : (run.triple b).winner =
      (run.counterpart side.other b).getD (v.baseline.subtree b) := by
    rw [run.winner_triple]
    cases side with
    | modified => rw [hown, threeWay_base_left, Side.other]
    | patched => rw [hown, threeWay_base_right, Side.other]
  rw [run.merged_unchanged h, Tree.content_relabel hb]
  show (run.triple b).settled = _
  rw [Triple.settled_eq_winner (run.wellPlaced_triple hb), hwinner, counterpart, contentOn]
  cases (run.ofBaseline side.other).dst? b <;> rfl

theorem count_one_sided {r : Rule} (hr : r ≠ .unchanged) (hother : r ≠ side.other.only) :
    run.report.decisions.count r = 0 :=
  run.count_eq_zero run.ofBaseline_valid fun _ hb =>
    run.rule_ne_one_sided h hb hr hother

theorem oneSided : run.OneSided side := by
  have hmerged := run.merged_unchanged h
  constructor
  case conflicts =>
    exact run.conflicts_eq_nil run.ofBaseline_valid fun b hb =>
      run.rule_ne_one_sided h hb (by decide) (by cases side <;> decide)
  case dropped => exact run.dropped_unchanged h
  case convergent =>
    exact run.count_one_sided h (r := .convergent) (by decide) (by cases side <;> decide)
  case diverged =>
    exact run.count_one_sided h (r := .diverged) (by decide) (by cases side <;> decide)
  case own => exact run.count_one_sided h (by cases side <;> decide) (by cases side <;> decide)
  case size => rw [hmerged, Tree.size_relabel]
  case position =>
    intro b hb
    have hrank : v.baseline.rank run.paired.tripleAt b = b :=
      Tree.rank_of_keeps fun a ha => run.keeps_unchanged h (ha.trans hb)
    exact (Session.baselineToMerged_eq run.corresponded run.isBuilt).2
      ⟨⟨hb, run.keeps_unchanged h hb⟩, hrank.symm⟩
  case parent =>
    intro b
    rw [hmerged, Tree.parent?_relabel]
  case children =>
    intro b
    rw [hmerged, Tree.children_relabel]
  case content => exact fun b hb => run.content_one_sided h hb

end MergeRun

/-- **A change on one side never conflicts and never deletes.** Where a side is the baseline, the
skeleton has every baseline node in its place, each with the content that the other side has for
it, and the only rules are that of no change and that of the other side; all that can fail is that
the policy does not allow for subtrees without an anchor. -/
theorem mergeTrees_one_sided {v : Versions} (options : MatcherOptions) (policy : Policy)
    {side : Side} (hside : (v.side side).isomorphic Tree.root v.baseline Tree.root = true) :
    ∃ run : MergeRun v (.greedy options) policy,
      (mergeTrees v (.greedy options) policy).1 =
        (if policy = .error ∧ run.report.unanchored ≠ [] then
          .error (.unanchored run.report.unanchored)
        else .ok run.result) ∧
      run.OneSided side := by
  obtain ⟨run⟩ := MergeRun.exists_greedy v options policy
  exact ⟨run, run.mergeTrees_eq, run.oneSided (Tree.eq_of_isomorphic_root hside)⟩

theorem mergeTrees_one_sided_crossed :
    (crossed.side .modified).isomorphic Tree.root crossed.baseline Tree.root = true ∧
      ∃ run : MergeRun crossed (.greedy {}) .skip,
        (mergeTrees crossed (.greedy {}) .skip).1 =
          .ok run.result ∧ run.OneSided .modified := by
  have hside : (crossed.side .modified).isomorphic Tree.root crossed.baseline Tree.root = true := by
    cbv
  obtain ⟨run, heq, h⟩ := mergeTrees_one_sided {} .skip hside
  exact ⟨hside, run, heq.trans (if_neg (by simp)), h⟩

end TreeMerge
