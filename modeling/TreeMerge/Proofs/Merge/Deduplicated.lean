import TreeMerge.Proofs.Merge.Represented

/-!
# What becomes of duplicates

A new subtree that both sides bring is taken from the patched side. The modified side's copy of it
is inserted like any other new subtree: under the policy that leaves out what has no anchor, it is
left out where it has none.

* `MergeRun.Inserts` : a copy of a subtree among those that a result got by insertion;
* `MergeRun.inserts_of_placed`, `MergeRun.mem_placed_of_ok` : new subtrees that are placed;
* `MergeRun.Deduplicated`, `mergeTrees_deduplicates` : what becomes of a duplicate;
* `replaced_left_out` : a subtree that both sides bring, counted as a duplicate and not inserted.
-/

namespace TreeMerge

namespace MergeRun

variable {v : Versions} {matcher : Matcher Nat} {policy : Policy}

/-- A copy of `n` was inserted: a new subtree equal to it is placed and recorded, and it stands
among what was appended to the skeleton node where it is placed. -/
def Inserts (run : MergeRun v matcher policy) (image : Nat → Nat) (r : MergeResult) (n : Node) :
    Prop :=
  ∃ side, ∃ q ∈ run.placed side, (v.side side).subtree q = n ∧
    run.record side q ∈ r.report.inserted ∧
    ∃ a, run.place side q = some a ∧
      ∃ x ∈ (r.tree.children (image a)).drop (run.merged.children a).length, r.tree.subtree x = n

/-- What is placed is inserted. -/
theorem inserts_of_placed (run : MergeRun v matcher policy) {image : Nat → Nat} {r : MergeResult}
    (hr : run.Appended image r) {side : Side} {q : Nat} (hq : q ∈ run.placed side) :
    run.Inserts image r ((v.side side).subtree q) := by
  obtain ⟨a, halt, ha⟩ := hr.placed side q hq
  obtain ⟨new, hchildren, hnew⟩ := hr.children a halt
  have hcopy : (v.side side).subtree q ∈ run.copiesOf side a :=
    List.mem_map_of_mem (List.mem_filter.2 ⟨(List.mem_filter.1 hq).1, beq_iff_eq.2 ha⟩)
  have hcopies : (v.side side).subtree q ∈ new.map r.tree.subtree := by
    rw [hnew, copies, List.mem_append]
    cases side with
    | modified => exact Or.inl hcopy
    | patched => exact Or.inr hcopy
  obtain ⟨x, hx, hsub⟩ := List.mem_map.1 hcopies
  refine ⟨side, q, hq, rfl, ?_, a, ha, x, ?_, hsub⟩
  · rw [hr.inserted, List.mem_append]
    cases side with
    | modified => exact Or.inl (List.mem_map_of_mem hq)
    | patched => exact Or.inr (List.mem_map_of_mem hq)
  · rwa [hchildren, List.drop_left' (by rw [List.length_map])]

/-- Where a merge returns and its policy is not to leave anything out, all new subtrees that are
kept are placed. -/
theorem mem_placed_of_ok (run : MergeRun v matcher policy) {r : MergeResult}
    (h : (mergeTrees v matcher policy).1 = .ok r) (hpolicy : policy ≠ .skip) {side : Side} {q : Nat}
    (hq : q ∈ run.entering side) : q ∈ run.placed side := by
  refine (run.place_cases hq).resolve_right ?_
  rintro ⟨hanchor, hattach⟩
  have herror : policy = .error := by
    cases policy with
    | skip => exact absurd rfl hpolicy
    | attachRoot => exact absurd rfl hattach
    | error => rfl
  have hlost : q ∈ run.unanchored side :=
    List.mem_filter.2 ⟨hq, Option.isNone_iff_eq_none.2 hanchor⟩
  have hreport : run.report.unanchored ≠ [] := by
    cases side <;> simp [report, List.ne_nil_of_mem hlost]
  rw [run.mergeTrees_eq, if_pos ⟨herror, hreport⟩] at h
  cases h

/-- The new subtrees that are equal to a duplicate of the patched side: those that are kept, and the
duplicate itself. -/
def EqualTo (run : MergeRun v matcher policy) (p : Nat) (side : Side) (q : Nat) : Prop :=
  (q ∈ run.entering side ∨ side = .patched ∧ q = p) ∧
    (v.side side).isomorphic q v.patched p = true

/-- What becomes of a new subtree of the patched side that the modified side brings already. -/
structure Deduplicated (run : MergeRun v matcher policy) (image : Nat → Nat) (r : MergeResult)
    (p : Nat) : Prop where
  isNew : p ∈ run.newRoots .patched
  /-- The modified side brings an equal one. -/
  twin : ∃ m ∈ run.newRoots .modified, v.modified.isomorphic m v.patched p = true
  /-- A copy is inserted. Where new subtrees without an anchor are left out, an equal one that is
  kept has to have an anchor. -/
  inserted : (policy = .skip → ∃ side, ∃ q ∈ run.entering side,
      (v.side side).isomorphic q v.patched p = true ∧ (run.arrival side q).anchor.isSome) →
    run.Inserts image r (v.patched.subtree p)
  /-- Where new subtrees without an anchor are left out, and neither this one nor an equal one that
  is kept has an anchor, no copy is inserted, and the twins are reported. Nothing is said of the
  case that only this one has an anchor. -/
  leftOut : policy = .skip →
    (∀ side q, run.EqualTo p side q → (run.arrival side q).anchor = none) →
    ¬ run.Inserts image r (v.patched.subtree p) ∧
    ∀ m ∈ run.newRoots .modified, v.modified.isomorphic m v.patched p = true →
      (run.arrival .modified m).summary ∈ r.report.unanchored

theorem isomorphic_newRoots (run : MergeRun v matcher policy) {side : Side} {q p : Nat}
    (hq : q ∈ run.entering side) (hp : p ∈ run.newRoots .patched) :
    (v.side side).isomorphic q v.patched p = true ↔
      (v.side side).subtree q = v.patched.subtree p :=
  Tree.isomorphic_iff (mem_topmostUnmatched.1 (run.mem_newRoots hq)).1
    (mem_topmostUnmatched.1 hp).1

theorem deduplicated (run : MergeRun v matcher policy)
    (h : (mergeTrees v matcher policy).1 = .ok run.result) {p : Nat} (hp : p ∈ run.twice) :
    run.Deduplicated (run.merged.graftId run.copies) run.result p := by
  obtain ⟨hnew, m, hm, htwin⟩ := of_mem_duplicates hp
  have hm' : m ∈ run.entering .modified := hm
  refine ⟨hnew, ⟨m, hm, htwin⟩, fun hanchored => ?_, fun hskip hnone => ⟨?_, ?_⟩⟩
  · -- under `skip` the copy is that of an anchored twin, else that of any twin
    by_cases hskip : policy = .skip
    · obtain ⟨side, q, hq, hiso, hanchor⟩ := hanchored hskip
      have hplaced : q ∈ run.placed side := by
        rw [run.placed_of_ne (by rw [hskip]; decide)]
        exact List.mem_filter.2 ⟨hq, hanchor⟩
      rw [← (run.isomorphic_newRoots hq hnew).1 hiso]
      exact run.inserts_of_placed run.appended hplaced
    · rw [← (run.isomorphic_newRoots hm' hnew).1 htwin]
      exact run.inserts_of_placed run.appended (run.mem_placed_of_ok h hskip hm')
  · rintro ⟨side, q, hq, hsub, -⟩
    rw [run.placed_of_ne (by rw [hskip]; decide)] at hq
    obtain ⟨hq, hanchor⟩ := List.mem_filter.1 hq
    rw [hnone side q ⟨.inl hq, (run.isomorphic_newRoots hq hnew).2 hsub⟩] at hanchor
    cases hanchor
  · intro m hm htwin
    refine List.mem_append_left _ (List.mem_map_of_mem (List.mem_filter.2 ⟨hm, ?_⟩))
    exact Option.isNone_iff_eq_none.2 (hnone .modified m ⟨.inl hm, htwin⟩)

end MergeRun

/-- **What both sides bring is inserted once**, if it is inserted at all. Whenever a merge returns,
every duplicate has a twin on the modified side and a copy in the result, unless new subtrees
without an anchor are left out and none that equals it and is kept has an anchor. -/
theorem mergeTrees_deduplicates {v : Versions} {matcher : Matcher Nat} {policy : Policy}
    {r : MergeResult} (h : (mergeTrees v matcher policy).1 = .ok r) :
    ∃ (run : MergeRun v matcher policy) (image : Nat → Nat), run.Appended image r ∧
      r.report.deduplicated = run.twice.length ∧
      ∀ p ∈ run.twice, run.Deduplicated image r p := by
  obtain ⟨run, rfl⟩ := MergeRun.of_mergeTrees h
  exact ⟨run, _, run.appended, rfl, fun p hp => run.deduplicated h hp⟩

/-- Both sides add the same leaf below the root. -/
def addedTwice : Versions where
  baseline := .ofNode (.node ⟨"R", ""⟩ [.node ⟨"F", ""⟩ []])
  modified := .ofNode (.node ⟨"R", ""⟩ [.node ⟨"F", ""⟩ [], .node ⟨"x", "1"⟩ []])
  patched := .ofNode (.node ⟨"R", ""⟩ [.node ⟨"F", ""⟩ [], .node ⟨"x", "1"⟩ []])

/-- The tree that results has it once. -/
def addedOnce : MergeResult where
  tree := addedTwice.modified
  report := {
    decisions := { unchanged := 1, convergent := 1 }
    inserted := [⟨⟨.modified, "x", "1", 1⟩, "R", false⟩]
    deduplicated := 1 }

theorem mergeTrees_deduplicates_added :
    (mergeTrees addedTwice (.greedy {}) .skip).1 = .ok addedOnce ∧
      ∃ (run : MergeRun addedTwice (.greedy {}) .skip) (image : Nat → Nat),
        run.Appended image addedOnce ∧ addedOnce.report.deduplicated = run.twice.length ∧
        ∀ p ∈ run.twice, run.Deduplicated image addedOnce p := by
  have h : (mergeTrees addedTwice (.greedy {}) .skip).1 = .ok addedOnce := by cbv
  exact ⟨h, mergeTrees_deduplicates h⟩

/-- Both sides replace the tree by the same new one. -/
def replaced : Versions where
  baseline := .ofNode (.node ⟨"R", ""⟩ [.node ⟨"c", "1"⟩ []])
  modified := .ofNode (.node ⟨"X", ""⟩ [.node ⟨"n", ""⟩ []])
  patched := .ofNode (.node ⟨"X", ""⟩ [.node ⟨"n", ""⟩ []])

/-- Only the old root is left, and there is no place for the new tree. -/
def replacedResult : MergeResult where
  tree := .ofNode (.node ⟨"R", ""⟩ [])
  report := {
    decisions := { diverged := 1 }
    conflicts := [⟨⟨"R", ""⟩, none, none⟩]
    dropped := 1
    deduplicated := 1
    unanchored := [⟨.modified, "X", "", 2⟩] }

/-- A duplicate of which no copy is inserted. -/
theorem replaced_left_out : (mergeTrees replaced (.greedy {}) .skip).1 = .ok replacedResult ∧
    ∃ run : MergeRun replaced (.greedy {}) .skip, replacedResult = run.result ∧
      ∃ p ∈ run.twice, ∀ side, ∀ q ∈ run.placed side,
        (replaced.side side).isomorphic q replaced.patched p = false := by
  have h : (mergeTrees replaced (.greedy {}) .skip).1 = .ok replacedResult := by cbv
  obtain ⟨run, hresult⟩ := MergeRun.of_mergeTrees h
  have htwice : run.twice.length = 1 :=
    congrArg (fun r : MergeResult => r.report.deduplicated) hresult.symm
  have hinserted : [] = (run.placed .modified).map (run.record .modified) ++
      (run.placed .patched).map (run.record .patched) :=
    congrArg (fun r : MergeResult => r.report.inserted) hresult
  have hplaced : ∀ side, run.placed side = [] := by
    rw [eq_comm, List.append_eq_nil_iff, List.map_eq_nil_iff, List.map_eq_nil_iff] at hinserted
    intro side
    cases side with
    | modified => exact hinserted.1
    | patched => exact hinserted.2
  obtain ⟨p, hp⟩ := List.exists_mem_of_length_pos (htwice ▸ Nat.one_pos)
  refine ⟨h, run, hresult, p, hp, fun side q hq => ?_⟩
  rw [hplaced side] at hq
  exact absurd hq List.not_mem_nil

end TreeMerge
