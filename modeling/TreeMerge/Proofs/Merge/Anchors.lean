import TreeMerge.Proofs.Merge.Account
import TreeMerge.Proofs.Merge.Run
import TreeMerge.Proofs.Merge.Topmost

/-!
# New subtrees without an anchor

The search for an anchor ends at the nearest ancestor that goes back to the baseline. So there is
none where all ancestors are new, and neither where that ancestor goes back to a node that was cut
off from the skeleton, though an ancestor farther up may go back to a node that was not.

* `MergeRun.get?_toBaseline` : the baseline node that a node goes back to;
* `MergeRun.AllNew`, `MergeRun.Stranded` : the two ways to be without an anchor;
* `MergeRun.anchor_eq_none_iff`, `MergeRun.mem_unanchored_iff` : there are no others;
* `mergeTrees_unanchored` : which new subtrees a merge reports;
* `moved_unanchored` : a new subtree whose parent is in the merged tree is reported.
-/

namespace TreeMerge

/-- The counterparts of different baseline nodes are different. -/
theorem Session.nodup_reverseLinks {m : Mapping Nat} (hm : (m.pairs.map Prod.snd).Nodup)
    {ids : List Nat} (hids : ids.Nodup) : ((reverseLinks ids m).map Prod.fst).Nodup := by
  rw [reverseLinks, List.map_filterMap]
  refine hids.filterMap fun b b' d hb hb' => ?_
  simp only [Option.map_map, Option.mem_def, Option.map_eq_some_iff, Function.comp] at hb hb'
  obtain ⟨_, hb, rfl⟩ := hb
  obtain ⟨_, hb', rfl⟩ := hb'
  have heq := List.inj_on_of_nodup_map hm (Mapping.mem_of_dst? hb) (Mapping.mem_of_dst? hb') rfl
  exact congrArg Prod.fst heq

namespace MergeRun

variable {v : Versions} {options : MatcherOptions} {policy : Policy}

/-- A node goes back to the baseline node that it is the counterpart of. -/
theorem get?_toBaseline (run : MergeRun v (.greedy options) policy) (side : Side) (d : Nat) :
    (run.built.toBaseline side).get? d = (run.ofBaseline side).src? d := by
  have hvalid := run.ofBaseline_valid side
  have hkeys := Session.nodup_reverseLinks hvalid.dst_nodup
    (show v.baseline.ids.Nodup from List.nodup_range)
  ext b
  rw [run.toBaseline_built, Table.get?_putAll _ hkeys, Table.get?_nil, Option.or_none,
    Table.get?_eq_some_iff hkeys, Mapping.src?_eq_some_iff hvalid.dst_nodup,
    ← Mapping.dst?_eq_some_iff hvalid.src_nodup, Session.reverseLinks, List.mem_filterMap]
  simp only [NodeName.ofId_nat, Option.map_eq_some_iff, Prod.mk.injEq]
  constructor
  · rintro ⟨_, -, _, hd, rfl, rfl⟩
    exact hd
  · intro hd
    exact ⟨b, mem_ids.2 (hvalid.src_lt _ (Mapping.mem_of_dst? hd)), d, hd, rfl, rfl⟩

/-- No ancestor goes back to the baseline. -/
def AllNew (run : MergeRun v (.greedy options) policy) (side : Side) (n : Nat) : Prop :=
  ∀ a ∈ (v.side side).ancestors n, (run.built.toBaseline side).get? a = none

/-- The nearest ancestor that goes back to the baseline goes back to a node that was cut off. -/
def Stranded (run : MergeRun v (.greedy options) policy) (side : Side) (n : Nat) : Prop :=
  ∃ nearer a farther b, (v.side side).ancestors n = nearer ++ a :: farther ∧
    (∀ x ∈ nearer, (run.built.toBaseline side).get? x = none) ∧
    (run.built.toBaseline side).get? a = some b ∧
    b ∈ Session.cutOff v (run.ofBaseline .modified) (run.ofBaseline .patched)

section

variable (run : MergeRun v (.greedy options) policy)

/-- What a node goes back to is missing from the skeleton exactly if it was cut off. -/
theorem baselineToMerged_eq_none_iff {side : Side} {a b : Nat}
    (hb : (run.built.toBaseline side).get? a = some b) :
    run.built.baselineToMerged.get? b = none ↔
      b ∈ Session.cutOff v (run.ofBaseline .modified) (run.ofBaseline .patched) := by
  rw [run.get?_toBaseline] at hb
  have hmem := Mapping.mem_of_src? hb
  have hlt : b < v.baseline.size := (run.ofBaseline_valid side).src_lt _ hmem
  have hself : Session.survives (run.ofBaseline .modified) (run.ofBaseline .patched) b = true := by
    refine Session.survives_iff.2 fun _ => ?_
    cases side with
    | modified => exact Or.inl (Mapping.hasSrc_iff.2 ⟨a, hmem⟩)
    | patched => exact Or.inr (Mapping.hasSrc_iff.2 ⟨a, hmem⟩)
  rw [← Option.not_isSome_iff_eq_none, Session.isSome_baselineToMerged run.corresponded run.isBuilt,
    and_iff_right hlt, Session.keeps_eq run.corresponded hlt, hself, Bool.true_and,
    Session.cutOff, List.mem_filter, mem_ids, and_iff_right hlt, hself, Bool.true_and,
    ← List.not_all_eq_any_not, Bool.not_eq_true, Bool.not_eq_true']

/-- **There are two ways to be without an anchor.** -/
theorem anchor_eq_none_iff {side : Side} {n : Nat} :
    (run.arrival side n).anchor = none ↔ run.AllNew side n ∨ run.Stranded side n := by
  show (((v.side side).ancestors n).findSome? fun a => (run.built.toBaseline side).get? a).bind
    run.built.baselineToMerged.get? = none ↔ _
  cases hfind : ((v.side side).ancestors n).findSome? fun a =>
      (run.built.toBaseline side).get? a with
  | none =>
    rw [List.findSome?_eq_none_iff] at hfind
    exact iff_of_true rfl (Or.inl hfind)
  | some b =>
    -- the search has ended at `a`, whatever the table of the skeleton has for `b`
    obtain ⟨nearer, a, farther, hsplit, ha, hnearer⟩ := List.findSome?_eq_some_iff.1 hfind
    have hold : ¬ run.AllNew side n := by
      intro hnew
      have := hnew a (hsplit ▸ List.mem_append_right _ List.mem_cons_self)
      rw [ha] at this
      cases this
    rw [Option.bind_some, run.baselineToMerged_eq_none_iff ha, or_iff_right hold]
    constructor
    · exact fun hcut => ⟨nearer, a, farther, b, hsplit, hnearer, ha, hcut⟩
    · rintro ⟨nearer', a', farther', b', hsplit', hnearer', ha', hcut⟩
      have hfind' := List.findSome?_eq_some_iff.2 ⟨nearer', a', farther', hsplit', ha', hnearer'⟩
      rw [hfind, Option.some.injEq] at hfind'
      rwa [hfind']

theorem mem_unanchored_iff {side : Side} {n : Nat} : n ∈ run.unanchored side ↔
    n ∈ run.entering side ∧ (run.AllNew side n ∨ run.Stranded side n) := by
  rw [unanchored, List.mem_filter, Option.isNone_iff_eq_none, run.anchor_eq_none_iff]

/-- Where nothing was cut off, nothing is stranded. -/
theorem not_stranded
    (h : Session.cutOff v (run.ofBaseline .modified) (run.ofBaseline .patched) = [])
    {side : Side} {n : Nat} : ¬ run.Stranded side n := by
  rintro ⟨_, _, _, b, -, -, -, hb⟩
  rw [h] at hb
  exact absurd hb List.not_mem_nil

end

end MergeRun

/-- **Which new subtrees are reported for want of an anchor**: those whose ancestors are all new,
and those that are stranded. Where no node that has a counterpart was cut off from the skeleton,
there are none of the second kind. -/
theorem mergeTrees_unanchored (v : Versions) (policy : Policy) :
    ∃ run : MergeRun v (.greedy {}) policy,
      (mergeTrees v (.greedy {}) policy).1 =
        (if policy = .error ∧ run.report.unanchored ≠ [] then
          .error (.unanchored run.report.unanchored) else .ok run.result) ∧
      run.report.unanchored =
        (run.unanchored .modified).map (fun n => (run.arrival .modified n).summary) ++
          (run.unanchored .patched).map (fun n => (run.arrival .patched n).summary) ∧
      (∀ side n, n ∈ run.unanchored side ↔
        n ∈ run.entering side ∧ (run.AllNew side n ∨ run.Stranded side n)) ∧
      (Session.cutOff v (run.ofBaseline .modified) (run.ofBaseline .patched) = [] →
        ∀ side, ∀ n ∈ run.unanchored side, run.AllNew side n) := by
  obtain ⟨run⟩ := MergeRun.exists_greedy v {} policy
  refine ⟨run, run.mergeTrees_eq, rfl, fun _ _ => run.mem_unanchored_iff, fun hnone side n hn => ?_⟩
  exact (run.mem_unanchored_iff.1 hn).2.resolve_right (run.not_stranded hnone)

/-- A subtree is taken out of a wrapper that both sides have deleted, by one side with its new leaf,
while the other one keeps a node of its kind elsewhere. -/
def moved : Versions where
  baseline := .ofNode (.node ⟨"R", ""⟩ [.node ⟨"W", ""⟩ [.node ⟨"F", ""⟩ [.node ⟨"a", ""⟩ []]],
    .node ⟨"F", ""⟩ [.node ⟨"c", ""⟩ []]])
  modified := .ofNode (.node ⟨"R", ""⟩ [.node ⟨"F", ""⟩ [.node ⟨"a", ""⟩ []]])
  patched := .ofNode (.node ⟨"R", ""⟩ [.node ⟨"F", ""⟩ [.node ⟨"c", ""⟩ []]])

/-- The new leaf is reported, though its parent goes back to the baseline and is matched. -/
def movedResult : MergeResult where
  tree := moved.patched
  report := {
    decisions := { modifiedOnly := 2, diverged := 1 }
    conflicts := [⟨⟨"R", ""⟩, some ⟨"R", ""⟩, some ⟨"R", ""⟩⟩]
    dropped := 1
    unanchored := [⟨.modified, "a", "", 1⟩] }

theorem moved_unanchored : (mergeTrees moved (.greedy {}) .skip).1 = .ok movedResult ∧
    ∃ run : MergeRun moved (.greedy {}) .skip, ∃ n ∈ run.unanchored .modified,
      ∃ p, moved.modified.parent? n = some p ∧
        ((run.built.toBaseline .modified).get? p).isSome = true := by
  have h : (mergeTrees moved (.greedy {}) .skip).1 = .ok movedResult := by cbv
  obtain ⟨run, hresult⟩ := MergeRun.of_mergeTrees h
  have hreport : run.report.unanchored = [⟨.modified, "a", "", 1⟩] :=
    congrArg (fun r : MergeResult => r.report.unanchored) hresult.symm
  have hleaf : (⟨.modified, "a", "", 1⟩ : NewSubtree) ∈ run.report.unanchored := by
    rw [hreport]
    exact List.mem_cons_self
  obtain ⟨n, hn, hsummary⟩ := run.of_mem_unanchored hleaf
  have hlt : n < 3 := (mem_topmostUnmatched.1 (run.mem_newRoots (List.mem_filter.1 hn).1)).1
  have hkind : "a" = moved.modified.kind n := congrArg NewSubtree.kind hsummary
  obtain rfl : n = 2 := by
    have hall : ∀ k < 3, "a" = moved.modified.kind k → k = 2 := by decide
    exact hall n hlt hkind
  have hmatch : greedyMatch roundBinary64 {} moved.baseline moved.modified =
      .ok ⟨[(2, 1), (3, 2), (0, 0)]⟩ := by cbv
  have hanswer : run.ofBaseline .modified = ⟨[(2, 1), (3, 2), (0, 0)]⟩ :=
    Except.ok.inj ((run.ofBaseline_eq .modified).symm.trans hmatch)
  refine ⟨h, run, 2, hn, 1, rfl, ?_⟩
  rw [run.get?_toBaseline, hanswer]
  rfl

end TreeMerge
