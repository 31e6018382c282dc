import TreeMerge.Merge.Perform
import TreeMerge.Proofs.Matching.Soundness
import TreeMerge.Proofs.Merge.Skeleton

/-!
# Runs of a merge

A merge asks four questions. The answers about the baseline make the skeleton, the answers about
the skeleton say what each side adds to it, and from there on nothing is left open.

* `Session.settle_eq` : what placing new subtrees comes to;
* `MergeRun` : the answers and the skeleton of a merge;
* `MergeRun.entering`, `MergeRun.place`, `MergeRun.copies` : the new subtrees, where they go, and
  what is appended to a node;
* `MergeRun.mergeTrees_eq` : the outcome of the merge;
* `MergeRun.count_decisions`, `MergeRun.count_eq_zero`, `MergeRun.conflicts_eq_nil` : how often a
  rule is used;
* `MergeRun.of_mergeTrees`, `MergeRun.of_valid`, `MergeRun.exists_greedy` : merges that have a run.
-/

namespace TreeMerge

theorem mapM_eq_map {ε α β : Type} {f : α → Except ε β} {g : α → β} {l : List α}
    (h : ∀ a ∈ l, f a = .ok (g a)) : l.mapM f = .ok (l.map g) := by
  induction l with
  | nil => rfl
  | cons a l ih =>
    have hrest := ih fun b hb => h b (List.mem_cons_of_mem a hb)
    rw [List.mapM_cons, bind_of_eq_ok (h a List.mem_cons_self), bind_of_eq_ok hrest]
    rfl

theorem filterMap_map_eq {α β γ : Type} (p : α → Option β) (g : α → β → γ) (d : β) (l : List α) :
    (l.filterMap fun a => (p a).map (g a)) =
      (l.filter fun a => (p a).isSome).map fun a => g a ((p a).getD d) := by
  induction l with
  | nil => rfl
  | cons a l ih =>
    cases h : p a with
    | none => simp [h, ih]
    | some b => simp [h, ih]

/-! ## Placing new subtrees -/

/-- A new subtree goes to its anchor, or to the root where the policy says so. -/
theorem Arrival.target?_eq_some {policy : Policy} {a : Arrival} {id : Nat} :
    a.target? policy = some id ↔
      a.anchor = some id ∨ a.anchor = none ∧ policy = .attachRoot ∧ id = Tree.root := by
  unfold target?
  cases a.anchor <;> cases policy <;> simp [eq_comm]

/-- It goes nowhere without an anchor unless the policy is to attach it to the root. -/
theorem Arrival.target?_of_ne {policy : Policy} (h : policy ≠ .attachRoot) (a : Arrival) :
    a.target? policy = a.anchor := by
  unfold target?
  cases a.anchor with
  | some id => rfl
  | none =>
    cases policy with
    | skip => rfl
    | attachRoot => exact absurd rfl h
    | error => rfl

theorem Arrival.target?_attachRoot (a : Arrival) :
    a.target? .attachRoot = some (a.anchor.getD Tree.root) := by
  unfold target?
  cases a.anchor <;> rfl

theorem Arrival.getD_target? (policy : Policy) (a : Arrival) :
    (a.target? policy).getD Tree.root = a.anchor.getD Tree.root := by
  by_cases h : policy = .attachRoot
  · rw [h, target?_attachRoot, Option.getD_some]
  · rw [target?_of_ne h]

/-- The record of an insertion, where the anchor is a node. -/
def Arrival.insertion (policy : Policy) (merged : Tree) (a : Arrival) : Option Insertion :=
  (a.target? policy).map fun id =>
    { a.summary with anchorKind := merged.kind id, attachedToRoot := a.anchor.isNone }

theorem Arrival.insertion?_eq {policy : Policy} {merged : Tree} {a : Arrival}
    (h : ∀ id, a.target? policy = some id → id < merged.size) :
    a.insertion? policy merged = .ok (a.insertion policy merged) := by
  rw [insertion?, insertion]
  cases ht : a.target? policy with
  | none => rfl
  | some id =>
    have hl : merged.locate id = .ok id := Tree.locate_nat (by simpa [Tree.has] using h id ht)
    exact bind_of_eq_ok hl

namespace Session

/-- What placing does where all anchors are nodes. -/
theorem settle_eq {ν : Type} {s : Session ν} {policy : Policy} (hp : s.policy = policy)
    {merged : Tree} {arrivals : List Arrival}
    (h : ∀ a ∈ arrivals, ∀ id, a.target? policy = some id → id < merged.size) :
    ∃ s', s.settle merged arrivals =
        (if policy = .error ∧ s'.report.unanchored ≠ [] then
            .error (.unanchored s'.report.unanchored)
          else .ok (merged.graft (appendedTo policy arrivals)), s') ∧
      s'.report = { s.report with
        inserted := s.report.inserted ++ arrivals.filterMap (Arrival.insertion policy merged)
        unanchored := s.report.unanchored ++
          (arrivals.filter fun a => a.anchor.isNone).map Arrival.summary } := by
  have hmap := mapM_eq_map fun a ha => Arrival.insertion?_eq (h a ha)
  unfold settle
  simp only [hp, hmap, List.filterMap_map, Function.id_comp]
  split
  · next herror =>
    refine ⟨_, Prod.ext ?_ rfl, ?_⟩
    · exact (if_pos herror).symm
    · rfl
  · next herror =>
    refine ⟨_, Prod.ext ?_ rfl, ?_⟩
    · exact (if_neg herror).symm
    · rfl

/-- A correspondence that is recorded comes from two answers. -/
theorem of_correspond {v : Versions} {matcher : Matcher Nat} {policy : Policy} {s : Session Nat}
    (h : (start v matcher policy).correspond = (.ok (), s)) :
    ∃ toM toP, matcher.run 0 v.baseline v.modified = .ok toM ∧
      matcher.run 1 v.baseline v.patched = .ok toP := by
  unfold correspond ask at h
  cases hM : matcher.run 0 v.baseline v.modified with
  | error e => simp [start, hM] at h
  | ok toM =>
    cases hP : matcher.run 1 v.baseline v.patched with
    | error e => simp [start, hM, hP] at h
    | ok toP => exact ⟨toM, toP, rfl, rfl⟩

/-- An insertion that succeeds comes from two answers. -/
theorem of_insert {ν : Type} [DecidableEq ν] [NodeName ν] {s s' : Session ν} {merged tree : Tree}
    (h : s.insert merged = (.ok tree, s')) :
    ∃ ofM ofP, s.matcher.run s.asked s.versions.modified merged = .ok ofM ∧
      s.matcher.run (s.asked + 1) s.versions.patched merged = .ok ofP := by
  unfold insert ask at h
  cases hM : s.matcher.run s.asked s.versions.modified merged with
  | error e => simp [hM] at h
  | ok ofM =>
    cases hP : s.matcher.run (s.asked + 1) s.versions.patched merged with
    | error e => simp [hM, hP] at h
    | ok ofP => exact ⟨ofM, ofP, rfl, rfl⟩

end Session

/-! ## Runs -/

/-- The tree of a side. -/
def Versions.side (v : Versions) : Side → Tree
  | .modified => v.modified
  | .patched => v.patched

/-- How many questions about the baseline come before that of a side. -/
def Side.turn : Side → Nat
  | .modified => 0
  | .patched => 1

/-- The baseline nodes that the nodes of a side go back to. -/
def Session.toBaseline (s : Session Nat) : Side → Table Nat Nat
  | .modified => s.modifiedToBaseline
  | .patched => s.patchedToBaseline

/-- Building changes none of them. -/
theorem Session.tables_of_build {s s' : Session Nat} {merged : Tree}
    (h : s.build = (.ok merged, s')) (side : Side) : s'.toBaseline side = s.toBaseline side := by
  obtain ⟨made, -, -, rfl⟩ := of_build h
  cases side <;> rfl

/-- The answers that a merge is given and the skeleton that it builds. -/
structure MergeRun (v : Versions) (matcher : Matcher Nat) (policy : Policy) where
  /-- The correspondence of the baseline with a side. -/
  ofBaseline : Side → Mapping Nat
  paired : Session Nat
  merged : Tree
  built : Session Nat
  /-- The correspondence of a side with the skeleton. -/
  toMerged : Side → Mapping Nat
  ofBaseline_eq : ∀ side, matcher.run side.turn v.baseline (v.side side) = .ok (ofBaseline side)
  correspond_eq : (Session.start v matcher policy).correspond = (.ok (), paired)
  build_eq : paired.build = (.ok merged, built)
  toMerged_eq : ∀ side, matcher.run (side.turn + 2) (v.side side) merged = .ok (toMerged side)

namespace MergeRun

variable {v : Versions} {matcher : Matcher Nat} {policy : Policy}

section

variable (run : MergeRun v matcher policy)

/-- A baseline node with its counterparts. -/
def triple (b : Nat) : Triple Nat :=
  Session.tripleOf v (run.ofBaseline .modified) (run.ofBaseline .patched) b

/-- The subtree of the counterpart that a baseline node has on a side. -/
def counterpart (side : Side) (b : Nat) : Option Node :=
  ((run.ofBaseline side).dst? b).map (v.side side).subtree

theorem counterpart_eq_none {side : Side} {b : Nat} :
    run.counterpart side b = none ↔ (run.ofBaseline side).hasSrc b = false := by
  rw [counterpart, Option.map_eq_none_iff, Mapping.dst?_eq_none_iff]

theorem rule_triple (b : Nat) : (run.triple b).rule =
    .between (v.baseline.subtree b) (run.counterpart .modified b) (run.counterpart .patched b) := by
  rw [Triple.rule, triple, Session.tripleOf, Option.map_map, Option.map_map]
  rfl

theorem winner_triple (b : Nat) : (run.triple b).winner =
    (threeWay (some (v.baseline.subtree b)) (run.counterpart .modified b)
      (run.counterpart .patched b)).getD (v.baseline.subtree b) := by
  rw [Triple.winner, triple, Session.tripleOf, Option.map_map, Option.map_map]
  rfl

/-- The baseline nodes of the skeleton, in order. -/
def kept : List Nat :=
  v.baseline.ids.filter (v.baseline.keeps run.paired.tripleAt)

/-- The roots of the new subtrees of a side. -/
def newRoots (side : Side) : List Nat :=
  topmostUnmatched (v.side side) (run.toMerged side)

/-- The new subtrees of the patched side that the modified side brings already. -/
def twice : List Nat :=
  duplicates (fun m p => v.modified.isomorphic m v.patched p) (run.newRoots .modified)
    (run.newRoots .patched)

/-- The new subtrees of a side that are not left to the other one. -/
def entering : Side → List Nat
  | .modified => run.newRoots .modified
  | .patched => (run.newRoots .patched).filter fun p => !run.twice.contains p

/-- A new subtree with its anchor. -/
def arrival (side : Side) (n : Nat) : Arrival :=
  .ofNode side (v.side side) (run.built.toBaseline side) run.built.baselineToMerged n

/-- The skeleton node that a new subtree is appended to: its anchor, or the root where the policy
says so. -/
def place (side : Side) (n : Nat) : Option Nat :=
  (run.arrival side n).target? policy

/-- The new subtrees of a side that are appended to some node. -/
def placed (side : Side) : List Nat :=
  (run.entering side).filter fun n => (run.place side n).isSome

/-- The new subtrees of a side that have no anchor. -/
def unanchored (side : Side) : List Nat :=
  (run.entering side).filter fun n => (run.arrival side n).anchor.isNone

/-- The record of an insertion. -/
def record (side : Side) (n : Nat) : Insertion :=
  { (run.arrival side n).summary with
    anchorKind := run.merged.kind ((run.place side n).getD Tree.root)
    attachedToRoot := (run.arrival side n).anchor.isNone }

/-- What a side appends to a skeleton node. -/
def copiesOf (side : Side) (a : Nat) : List Node :=
  ((run.entering side).filter fun n => run.place side n == some a).map (v.side side).subtree

/-- What is appended to a skeleton node: the new subtrees of the modified side, then those of the
patched side. -/
def copies (a : Nat) : List Node :=
  run.copiesOf .modified a ++ run.copiesOf .patched a

/-- The report of the merge. -/
def report : Report :=
  { run.built.report with
    inserted := (run.placed .modified).map (run.record .modified) ++
      (run.placed .patched).map (run.record .patched)
    deduplicated := run.twice.length
    unanchored := (run.unanchored .modified).map (fun n => (run.arrival .modified n).summary) ++
      (run.unanchored .patched).map (fun n => (run.arrival .patched n).summary) }

/-- What the merge returns, if the policy lets it. -/
def result : MergeResult :=
  ⟨run.merged.graft run.copies, run.report⟩

/-! ## Stages -/

theorem corresponded : run.paired.Corresponded v matcher policy (run.ofBaseline .modified)
    (run.ofBaseline .patched) := by
  obtain ⟨s, hs, h⟩ := Session.correspond_ok policy (run.ofBaseline_eq .modified)
    (run.ofBaseline_eq .patched)
  rw [run.correspond_eq, Prod.mk.injEq] at hs
  rw [hs.2]
  exact h

theorem isBuilt : Session.Built run.paired run.merged run.built :=
  Session.built_of_build run.corresponded run.build_eq

theorem report_built : run.built.report.inserted = [] ∧
    run.built.report.deduplicated = 0 ∧ run.built.report.unanchored = [] := by
  obtain ⟨made, -, -, hreport⟩ := run.isBuilt.report
  rw [hreport, run.corresponded.report]
  exact ⟨rfl, rfl, rfl⟩

/-- The baseline nodes that a side's nodes go back to are those they are counterparts of. -/
theorem toBaseline_built (side : Side) : run.built.toBaseline side =
    Table.putAll [] (Session.reverseLinks v.baseline.ids (run.ofBaseline side)) := by
  have hM : matcher.run 0 v.baseline v.modified = .ok (run.ofBaseline .modified) :=
    run.ofBaseline_eq .modified
  have hP : matcher.run 1 v.baseline v.patched = .ok (run.ofBaseline .patched) :=
    run.ofBaseline_eq .patched
  have hpaired := run.correspond_eq
  unfold Session.correspond Session.ask Session.start at hpaired
  simp only [hM, hP, Nat.zero_add, Prod.mk.injEq, true_and] at hpaired
  have hbuilt := Session.tables_of_build run.build_eq
  rw [hbuilt side, ← hpaired]
  cases side <;> rfl

/-- Every new subtree goes to a node of the skeleton. -/
theorem lt_of_place {side : Side} {n a : Nat} (h : run.place side n = some a) :
    a < run.merged.size := by
  rcases Arrival.target?_eq_some.1 h with hanchor | ⟨-, -, rfl⟩
  · obtain ⟨b, -, hb⟩ := Option.bind_eq_some_iff.1 hanchor
    obtain ⟨⟨hlt, hk⟩, rfl⟩ := (Session.baselineToMerged_eq run.corresponded run.isBuilt).1 hb
    exact Session.rank_lt_size_merged run.corresponded run.isBuilt hlt hk
  · exact run.merged.size_pos

/-- Unless new subtrees without an anchor go to the root, they are not placed. -/
theorem placed_of_ne (hpolicy : policy ≠ .attachRoot) (side : Side) :
    run.placed side = (run.entering side).filter fun n => (run.arrival side n).anchor.isSome := by
  unfold placed place
  simp only [Arrival.target?_of_ne hpolicy]

theorem length_entering (hpolicy : policy ≠ .attachRoot) (side : Side) :
    (run.entering side).length = (run.placed side).length + (run.unanchored side).length := by
  have h := List.length_eq_length_filter_add (l := run.entering side)
    fun n => (run.arrival side n).anchor.isSome
  simp only [Option.not_isSome] at h
  rwa [run.placed_of_ne hpolicy]

theorem mem_newRoots {side : Side} {n : Nat} (h : n ∈ run.entering side) :
    n ∈ run.newRoots side := by
  cases side with
  | modified => exact h
  | patched => exact (List.mem_filter.1 h).1

/-- An insertion that is recorded for a side is one of its new subtrees. -/
theorem of_mem_inserted {i : Insertion} (h : i ∈ run.report.inserted) :
    ∃ n ∈ run.placed i.origin, i = run.record i.origin n := by
  rcases List.mem_append.1 h with h | h
  · obtain ⟨n, hn, rfl⟩ := List.mem_map.1 h
    exact ⟨n, hn, rfl⟩
  · obtain ⟨n, hn, rfl⟩ := List.mem_map.1 h
    exact ⟨n, hn, rfl⟩

/-- So is a subtree without an anchor. -/
theorem of_mem_unanchored {u : NewSubtree} (h : u ∈ run.report.unanchored) :
    ∃ n ∈ run.unanchored u.origin, u = (run.arrival u.origin n).summary := by
  rcases List.mem_append.1 h with h | h
  · obtain ⟨n, hn, rfl⟩ := List.mem_map.1 h
    exact ⟨n, hn, rfl⟩
  · obtain ⟨n, hn, rfl⟩ := List.mem_map.1 h
    exact ⟨n, hn, rfl⟩

/-- The new subtrees in the order in which they are placed. -/
def arrivals : List Arrival :=
  (run.entering .modified).map (run.arrival .modified) ++
    (run.entering .patched).map (run.arrival .patched)

theorem lt_of_target? {a : Arrival} (ha : a ∈ run.arrivals) (id : Nat)
    (h : a.target? policy = some id) : id < run.merged.size := by
  rcases List.mem_append.1 ha with ha | ha
  · obtain ⟨n, -, rfl⟩ := List.mem_map.1 ha
    exact run.lt_of_place h
  · obtain ⟨n, -, rfl⟩ := List.mem_map.1 ha
    exact run.lt_of_place h

theorem appendedTo_arrivals : appendedTo policy run.arrivals = run.copies := by
  funext a
  rw [appendedTo, arrivals, List.filter_append, List.map_append, List.filter_map, List.filter_map,
    List.map_map, List.map_map]
  rfl

theorem insertions_arrivals : run.arrivals.filterMap (Arrival.insertion policy run.merged) =
    (run.placed .modified).map (run.record .modified) ++
      (run.placed .patched).map (run.record .patched) := by
  have hside : ∀ side, ((run.entering side).map (run.arrival side)).filterMap
      (Arrival.insertion policy run.merged) = (run.placed side).map (run.record side) := by
    intro side
    rw [List.filterMap_map]
    exact filterMap_map_eq (run.place side) _ Tree.root (run.entering side)
  rw [arrivals, List.filterMap_append, hside, hside]

theorem lost_arrivals : (run.arrivals.filter fun a => a.anchor.isNone).map Arrival.summary =
    (run.unanchored .modified).map (fun n => (run.arrival .modified n).summary) ++
      (run.unanchored .patched).map (fun n => (run.arrival .patched n).summary) := by
  rw [arrivals, List.filter_append, List.map_append, List.filter_map, List.filter_map,
    List.map_map, List.map_map]
  rfl

theorem insert_eq : ∃ s, run.built.insert run.merged =
    (if policy = .error ∧ run.report.unanchored ≠ [] then
        .error (.unanchored run.report.unanchored)
      else .ok (run.merged.graft run.copies), s) ∧ s.report = run.report := by
  have hv : run.built.versions = v := run.isBuilt.versions.trans run.corresponded.versions
  have hp : run.built.policy = policy := run.isBuilt.policy.trans run.corresponded.policy
  have hm : run.built.matcher = matcher := run.isBuilt.matcher.trans run.corresponded.matcher
  have ha : run.built.asked = 2 := run.isBuilt.asked.trans run.corresponded.asked
  have h₁ : matcher.run 2 v.modified run.merged = .ok (run.toMerged .modified) :=
    run.toMerged_eq .modified
  have h₂ : matcher.run 3 v.patched run.merged = .ok (run.toMerged .patched) :=
    run.toMerged_eq .patched
  unfold Session.insert Session.ask
  simp only [hv, hm, ha, h₁, h₂, Session.note]
  generalize hs : Session.mk _ _ _ _ _ _ _ _ _ _ = s
  have harrivals : s.arrivals (run.newRoots .modified) (run.newRoots .patched) run.twice =
      run.arrivals := by
    rw [← hs]
    rfl
  have hpolicy : s.policy = policy := by
    rw [← hs]
    exact hp
  obtain ⟨s', hs', hreport⟩ := Session.settle_eq hpolicy fun a => run.lt_of_target?
  have hreport' : s'.report = run.report := by
    rw [hreport, insertions_arrivals, lost_arrivals, ← hs]
    simp only [run.report_built.1, run.report_built.2.2, List.nil_append]
    rfl
  refine ⟨s', ?_, hreport'⟩
  rw [← hreport', ← run.appendedTo_arrivals, ← hs', ← harrivals]
  rfl

theorem mergeTrees_eq : (mergeTrees v matcher policy).1 =
    if policy = .error ∧ run.report.unanchored ≠ [] then
      .error (.unanchored run.report.unanchored)
    else .ok run.result := by
  obtain ⟨s, hs, hreport⟩ := run.insert_eq
  unfold mergeTrees
  simp only [run.correspond_eq, run.build_eq, hs]
  by_cases herror : policy = .error ∧ run.report.unanchored ≠ []
  · simp only [if_pos herror]
  · simp only [if_neg herror, hreport, result]

/-- What a merge that succeeds returns. -/
theorem of_ok {r : MergeResult} (h : (mergeTrees v matcher policy).1 = .ok r) :
    r = run.result := by
  rw [run.mergeTrees_eq] at h
  split at h
  · cases h
  · exact (Except.ok.inj h).symm

/-! ## Decisions -/

section

variable (hvalid : ∀ side, (run.ofBaseline side).Valid v.baseline.size (v.side side).size)

include hvalid

theorem count_decisions (r : Rule) : run.report.decisions.count r =
    (run.kept.filter fun b => (run.triple b).rule == r).length :=
  Session.count_decisions run.corresponded run.isBuilt (hvalid .modified) (hvalid .patched) r

theorem conflicts_eq : run.report.conflicts =
    (run.kept.filter fun b => (run.triple b).rule == .diverged).map fun b =>
      (run.triple b).conflict :=
  Session.conflicts_eq run.corresponded run.isBuilt (hvalid .modified) (hvalid .patched)

/-- A rule that applies nowhere is not counted. -/
theorem count_eq_zero {r : Rule} (h : ∀ b < v.baseline.size, (run.triple b).rule ≠ r) :
    run.report.decisions.count r = 0 := by
  rw [run.count_decisions hvalid, List.length_eq_zero_iff, List.filter_eq_nil_iff]
  intro b hb
  rw [beq_iff_eq]
  exact h b (mem_ids.1 (List.mem_filter.1 hb).1)

/-- Where nothing diverges, there is no conflict. -/
theorem conflicts_eq_nil (h : ∀ b < v.baseline.size, (run.triple b).rule ≠ .diverged) :
    run.report.conflicts = [] := by
  have hcount := run.count_eq_zero hvalid h
  rw [run.count_decisions hvalid, List.length_eq_zero_iff] at hcount
  rw [run.conflicts_eq hvalid, hcount, List.map_nil]

end

end

/-- The run of two correspondences, a skeleton and two answers about it. -/
def ofStages {toM toP ofM ofP : Mapping Nat} {s₁ s₂ : Session Nat} {merged : Tree}
    (hM : matcher.run 0 v.baseline v.modified = .ok toM)
    (hP : matcher.run 1 v.baseline v.patched = .ok toP)
    (hs₁ : (Session.start v matcher policy).correspond = (.ok (), s₁))
    (hs₂ : s₁.build = (.ok merged, s₂))
    (hM' : matcher.run 2 v.modified merged = .ok ofM)
    (hP' : matcher.run 3 v.patched merged = .ok ofP) : MergeRun v matcher policy where
  ofBaseline
    | .modified => toM
    | .patched => toP
  paired := s₁
  merged := merged
  built := s₂
  toMerged
    | .modified => ofM
    | .patched => ofP
  ofBaseline_eq
    | .modified => hM
    | .patched => hP
  correspond_eq := hs₁
  build_eq := hs₂
  toMerged_eq
    | .modified => hM'
    | .patched => hP'

/-- **A merge that succeeds has a run.** -/
theorem of_mergeTrees {r : MergeResult} (h : (mergeTrees v matcher policy).1 = .ok r) :
    ∃ run : MergeRun v matcher policy, r = run.result := by
  suffices hrun : Nonempty (MergeRun v matcher policy) from hrun.elim fun run => ⟨run, run.of_ok h⟩
  unfold mergeTrees at h
  rcases hs₁ : (Session.start v matcher policy).correspond with ⟨_ | _, s₁⟩
  · simp [hs₁] at h
  rcases hs₂ : s₁.build with ⟨_ | merged, s₂⟩
  · simp [hs₁, hs₂] at h
  rcases hs₃ : s₂.insert merged with ⟨_ | tree, s₃⟩
  · simp [hs₁, hs₂, hs₃] at h
  obtain ⟨toM, toP, hM, hP⟩ := Session.of_correspond hs₁
  obtain ⟨ofM, ofP, hM', hP'⟩ := Session.of_insert hs₃
  obtain ⟨s, hs, hc⟩ := Session.correspond_ok policy hM hP
  obtain rfl : s₁ = s := by
    rw [hs₁, Prod.mk.injEq] at hs
    exact hs.2
  have hb := Session.built_of_build hc hs₂
  rw [hb.matcher.trans hc.matcher, hb.asked.trans hc.asked, hb.versions.trans hc.versions]
    at hM' hP'
  exact ⟨ofStages hM hP hs₁ hs₂ hM' hP'⟩

/-- A merge whose answers are all given, and valid about the baseline, has a run. -/
theorem of_valid (hanswers : ∀ asked src dst, ∃ m, matcher.run asked src dst = .ok m ∧
    m.Valid src.size dst.size) : Nonempty (MergeRun v matcher policy) := by
  obtain ⟨toM, hM, validM⟩ := hanswers 0 v.baseline v.modified
  obtain ⟨toP, hP, validP⟩ := hanswers 1 v.baseline v.patched
  obtain ⟨s₁, hs₁, hc⟩ := Session.correspond_ok policy hM hP
  obtain ⟨merged, s₂, hs₂, -⟩ := Session.build_ok hc validM validP
  obtain ⟨ofM, hM', -⟩ := hanswers 2 v.modified merged
  obtain ⟨ofP, hP', -⟩ := hanswers 3 v.patched merged
  exact ⟨ofStages hM hP hs₁ hs₂ hM' hP'⟩

/-! ## The greedy matcher -/

/-- The greedy matcher gives valid answers to all questions. -/
theorem greedy_answers (options : MatcherOptions) : ∀ asked src dst, ∃ m,
    (Matcher.greedy options).run asked src dst = .ok m ∧ m.Valid src.size dst.size := by
  intro _ src dst
  obtain ⟨m, hm, hsound⟩ := greedyMatch_ok roundBinary64 options src dst
  exact ⟨m, hm, hsound.toValid⟩

/-- A merge with the greedy matcher has a run. -/
theorem exists_greedy (v : Versions) (options : MatcherOptions) (policy : Policy) :
    Nonempty (MergeRun v (.greedy options) policy) :=
  of_valid (greedy_answers options)

section

variable {options : MatcherOptions} (run : MergeRun v (.greedy options) policy)

theorem ofBaseline_sound (side : Side) :
    (run.ofBaseline side).Sound v.baseline (v.side side) := by
  obtain ⟨m, hm, hs⟩ := greedyMatch_ok roundBinary64 options v.baseline (v.side side)
  obtain rfl : m = run.ofBaseline side := Except.ok.inj (hm.symm.trans (run.ofBaseline_eq side))
  exact hs

theorem ofBaseline_valid (side : Side) :
    (run.ofBaseline side).Valid v.baseline.size (v.side side).size :=
  (run.ofBaseline_sound side).toValid

theorem wellPlaced_triple {b : Nat} (hb : b < v.baseline.size) : (run.triple b).WellPlaced :=
  Session.wellPlaced_tripleOf (run.ofBaseline_valid .modified) (run.ofBaseline_valid .patched) hb

end

end MergeRun

end TreeMerge
