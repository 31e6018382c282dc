import TreeMerge.Merge.Session
import TreeMerge.Proofs.Matching.Links
import TreeMerge.Proofs.Merge.Decision
import TreeMerge.Proofs.Tree.Prune

/-!
# The shape of the merged skeleton

The skeleton keeps the baseline nodes that have, like all nodes above them, a counterpart on some
side; each is decided once.

* `Session.Corresponded`, `Session.correspond_ok` : a session that has asked for its two
  correspondences;
* `Session.tripleAt_eq` : the nodes that are picked, with their triples;
* `Session.Built`, `Session.built_of_build`, `Session.build_ok` : the skeleton is the pruned
  baseline with decided contents;
* `Session.baselineToMerged_eq` : a kept node is found at the number of kept nodes before it;
* `Session.count_decisions`, `Session.conflicts_eq` : what the report says about the decisions;
* `Session.SkeletonShape`, `Session.skeleton_shape` : what the skeleton looks like.
-/

namespace TreeMerge

namespace Session

variable {v : Versions} {matcher : Matcher Nat} {policy : Policy} {toM toP : Mapping Nat}

/-! ## Correspondence -/

/-- A session that has asked its matcher for the correspondences of the baseline, and nothing
else. -/
structure Corresponded (v : Versions) (matcher : Matcher Nat) (policy : Policy)
    (toM toP : Mapping Nat) (s : Session Nat) : Prop where
  versions : s.versions = v
  matcher : s.matcher = matcher
  policy : s.policy = policy
  asked : s.asked = 2
  triples : s.triples = Table.putAll [] ((v.baseline.ids.filter (survives toM toP)).map fun b =>
    (b, tripleOf v toM toP b))
  baselineToMerged : s.baselineToMerged = []
  report : s.report =
    { dropped := (v.baseline.ids.filter fun b => !survives toM toP b).length }

theorem correspond_ok (policy : Policy) (hM : matcher.run 0 v.baseline v.modified = .ok toM)
    (hP : matcher.run 1 v.baseline v.patched = .ok toP) :
    ∃ s, (start v matcher policy).correspond = (.ok (), s) ∧
      s.Corresponded v matcher policy toM toP := by
  unfold correspond ask start
  simp only [hM, hP, Nat.zero_add]
  refine ⟨_, rfl, ?_⟩
  constructor <;> first | rfl | skip
  show ({ dropped := 0 + _ } : Report) = _
  rw [Nat.zero_add]

/-- The nodes of a correspondence belong to their trees. -/
theorem wellPlaced_tripleOf (hM : toM.Valid v.baseline.size v.modified.size)
    (hP : toP.Valid v.baseline.size v.patched.size) {b : Nat} (hb : b < v.baseline.size) :
    (tripleOf v toM toP b).WellPlaced := by
  refine ⟨hb, ?_, ?_⟩
  · intro r hr
    obtain ⟨m, hm, rfl⟩ := Option.map_eq_some_iff.1 hr
    exact hM.dst_lt _ (Mapping.mem_of_dst? hm)
  · intro r hr
    obtain ⟨p, hp, rfl⟩ := Option.map_eq_some_iff.1 hr
    exact hP.dst_lt _ (Mapping.mem_of_dst? hp)

theorem survives_iff {b : Nat} : survives toM toP b = true ↔
    (b ≠ Tree.root → toM.hasSrc b = true ∨ toP.hasSrc b = true) := by
  simp only [survives, Bool.or_eq_true, beq_iff_eq, NodeName.ofId_nat]
  by_cases hb : b = Tree.root <;> simp [hb]

/-- The triples are those of the surviving nodes. -/
theorem get?_triples {s : Session Nat} (h : s.Corresponded v matcher policy toM toP) {b : Nat}
    {t : Triple Nat} : s.triples.get? b = some t ↔
      b < v.baseline.size ∧ survives toM toP b = true ∧ t = tripleOf v toM toP b := by
  have hkeys : (((v.baseline.ids.filter (survives toM toP)).map fun b =>
      (b, tripleOf v toM toP b)).map Prod.fst).Nodup := by
    have hid : (Prod.fst ∘ fun b => (b, tripleOf v toM toP b)) = id := rfl
    rw [List.map_map, hid, List.map_id]
    exact List.nodup_range.filter _
  rw [h.triples, Table.get?_putAll _ hkeys, Table.get?_nil, Option.or_none,
    Table.get?_eq_some_iff hkeys, List.mem_map]
  constructor
  · rintro ⟨b', hb', he⟩
    rw [Prod.mk.injEq] at he
    obtain ⟨rfl, rfl⟩ := he
    exact ⟨mem_ids.1 (List.mem_filter.1 hb').1, (List.mem_filter.1 hb').2, rfl⟩
  · rintro ⟨hb, hs, rfl⟩
    exact ⟨b, List.mem_filter.2 ⟨mem_ids.2 hb, hs⟩, rfl⟩

theorem triples_get?_eq_some_iff {s : Session Nat}
    (h : s.Corresponded v matcher policy toM toP) {b : Nat} (hb : b < v.baseline.size)
    (t : Triple Nat) :
    s.triples.get? b = some t ↔ survives toM toP b = true ∧ t = tripleOf v toM toP b := by
  rw [get?_triples h, and_iff_right hb]

theorem tripleAt_eq {s : Session Nat} (h : s.Corresponded v matcher policy toM toP) {b : Nat}
    (hb : b < v.baseline.size) :
    s.tripleAt b = if survives toM toP b then some (tripleOf v toM toP b) else none := by
  unfold tripleAt
  cases hs : survives toM toP b with
  | true =>
    rw [(triples_get?_eq_some_iff h hb _).2 ⟨hs, rfl⟩]
    rfl
  | false =>
    have hroot : b ≠ Tree.root := by
      rintro rfl
      exact Bool.false_ne_true hs.symm
    cases ht : s.triples.get? b with
    | none => simp [hroot]
    | some t =>
      rw [((triples_get?_eq_some_iff h hb t).1 ht).1] at hs
      exact absurd hs.symm Bool.false_ne_true

theorem tripleAt_of_not_lt {s : Session Nat} (h : s.Corresponded v matcher policy toM toP) {b : Nat}
    (hb : ¬ b < v.baseline.size) : s.tripleAt b = none := by
  have hroot : b ≠ Tree.root := by
    rintro rfl
    exact hb v.baseline.size_pos
  have hnone : s.triples.get? b = none := by
    rw [Option.eq_none_iff_forall_ne_some]
    exact fun t ht => hb ((get?_triples h).1 ht).1
  rw [tripleAt, hnone]
  exact if_neg (by simpa using hroot)

theorem of_tripleAt {s : Session Nat} (h : s.Corresponded v matcher policy toM toP) {b : Nat}
    {t : Triple Nat} (ht : s.tripleAt b = some t) :
    b < v.baseline.size ∧ t = tripleOf v toM toP b := by
  by_cases hb : b < v.baseline.size
  · rw [tripleAt_eq h hb] at ht
    split at ht
    · exact ⟨hb, (Option.some.inj ht).symm⟩
    · cases ht
  · rw [tripleAt_of_not_lt h hb] at ht
    cases ht

/-! ## Building -/

/-- A session whose skeleton has been built. -/
structure Built (s : Session Nat) (merged : Tree) (s' : Session Nat) : Prop where
  versions : s'.versions = s.versions
  matcher : s'.matcher = s.matcher
  policy : s'.policy = s.policy
  asked : s'.asked = s.asked
  pruned : Rose.prune (fun b => (s.tripleAt b).map Triple.settled) Tree.root
    s.versions.baseline.node = some merged.node
  baselineToMerged : s'.baselineToMerged = Table.putAll []
    (s.versions.baseline.ids.filter (s.versions.baseline.keeps s.tripleAt)).zipIdx
  report : ∃ made : List (Triple Nat × Decision),
    made.map Prod.fst = (s.versions.baseline.ids.filter
      (s.versions.baseline.keeps s.tripleAt)).filterMap s.tripleAt ∧
    (∀ p ∈ made, p.1.decide = .ok p.2) ∧
    s'.report = { s.report with
      decisions := made.foldl (fun t d => t.add d.2.rule) s.report.decisions
      conflicts := s.report.conflicts ++
        (made.filter fun d => d.2.rule == .diverged).map fun d => d.1.conflict }

theorem survives_root : survives toM toP Tree.root = true := rfl

theorem tripleAt_root {s : Session Nat} (h : s.Corresponded v matcher policy toM toP) :
    s.tripleAt Tree.root = some (tripleOf v toM toP Tree.root) := by
  rw [tripleAt_eq h (show Tree.root < _ from v.baseline.size_pos), survives_root, if_pos rfl]

theorem survives_of_keeps {s : Session Nat} (h : s.Corresponded v matcher policy toM toP) {b : Nat}
    (hb : b < v.baseline.size) (hk : v.baseline.keeps s.tripleAt b = true) :
    survives toM toP b = true := by
  have hs := Tree.isSome_of_keeps hk
  rw [tripleAt_eq h hb] at hs
  by_contra hsv
  rw [if_neg hsv] at hs
  exact Bool.false_ne_true hs

theorem tripleAt_of_keeps {s : Session Nat} (h : s.Corresponded v matcher policy toM toP) {b : Nat}
    (hb : b < v.baseline.size) (hk : v.baseline.keeps s.tripleAt b = true) :
    s.tripleAt b = some (tripleOf v toM toP b) := by
  rw [tripleAt_eq h hb, if_pos (survives_of_keeps h hb hk)]

/-- The triples of the kept nodes. -/
theorem filterMap_tripleAt {s : Session Nat} (h : s.Corresponded v matcher policy toM toP) :
    (v.baseline.ids.filter (v.baseline.keeps s.tripleAt)).filterMap s.tripleAt =
      (v.baseline.ids.filter (v.baseline.keeps s.tripleAt)).map (tripleOf v toM toP) := by
  rw [← List.filterMap_eq_map]
  apply List.filterMap_congr
  intro b hmem
  rw [List.mem_filter, mem_ids] at hmem
  exact tripleAt_of_keeps h hmem.1 hmem.2

/-- The values of the kept part are the triples of the kept nodes. -/
theorem preorder_kept {s : Session Nat} (h : s.Corresponded v matcher policy toM toP) :
    Rose.prune s.tripleAt Tree.root v.baseline.node = some s.kept ∧
      s.kept.preorder =
        (v.baseline.ids.filter (v.baseline.keeps s.tripleAt)).filterMap s.tripleAt := by
  have hprune : Rose.prune s.tripleAt Tree.root v.baseline.node = some s.kept := by
    rw [kept, h.versions, Rose.prune_eq, tripleAt_root h]
    rfl
  have hpre := Tree.Stands.preorder_prune v.baseline.node none 0 Tree.root v.baseline.stands_root
    (show v.baseline.keeps s.tripleAt Tree.root = _ from Tree.keeps_root)
  rw [hprune, ← v.baseline.size_eq] at hpre
  refine ⟨hprune, ?_⟩
  rw [Tree.ids, List.range_eq_range']
  refine Eq.trans ?_ hpre.symm
  show _ = s.kept.preorder ++ []
  rw [List.append_nil]

/-- The kept nodes in the order in which they are decided. -/
theorem origins_kept {s : Session Nat} (h : s.Corresponded v matcher policy toM toP) :
    (s.kept.preorder.map fun t => t.baseline.id) =
      v.baseline.ids.filter (v.baseline.keeps s.tripleAt) := by
  rw [(preorder_kept h).2, filterMap_tripleAt h, List.map_map]
  exact List.map_id _

/-- What building gives, where it succeeds. -/
theorem of_build {ν : Type} [DecidableEq ν] [NodeName ν] {s s' : Session ν} {merged : Tree}
    (h : s.build = (.ok merged, s')) :
    ∃ made, decideAll s.kept.preorder = (made, none) ∧
      merged = .ofNode (s.kept.map Triple.settled) ∧
      s' = { s.recordDecisions made with
        baselineToMerged := s.baselineToMerged.putAll
          (s.kept.preorder.map fun t => t.baseline.id).zipIdx } := by
  obtain ⟨made, fault, hmade⟩ : ∃ made fault, decideAll s.kept.preorder = (made, fault) :=
    ⟨_, _, rfl⟩
  rw [build, hmade] at h
  cases fault with
  | some e => simp at h
  | none =>
    simp only [Prod.mk.injEq, Except.ok.injEq] at h
    exact ⟨made, hmade, h.1.symm, h.2.symm⟩

/-- Where building succeeds, there is one decision for each kept node. -/
theorem built_of_build {s s' : Session Nat} {merged : Tree}
    (h : s.Corresponded v matcher policy toM toP) (hbuild : s.build = (.ok merged, s')) :
    Built s merged s' := by
  obtain ⟨hprune, hpre⟩ := preorder_kept h
  obtain ⟨made, hmade, rfl, rfl⟩ := of_build hbuild
  obtain ⟨hfst, hdecide⟩ := of_decideAll_ok hmade
  constructor
  · rfl
  · rfl
  · rfl
  · rfl
  · rw [h.versions, Rose.prune_map, hprune, Tree.node_ofNode]
    rfl
  · rw [h.versions, ← origins_kept h]
    show s.baselineToMerged.putAll _ = _
    rw [h.baselineToMerged]
  · rw [h.versions, ← hpre]
    exact ⟨made, hfst, hdecide, rfl⟩

/-- **The skeleton is built** where the nodes of both correspondences belong to their trees. -/
theorem build_ok {s : Session Nat} (h : s.Corresponded v matcher policy toM toP)
    (hM : toM.Valid v.baseline.size v.modified.size)
    (hP : toP.Valid v.baseline.size v.patched.size) :
    ∃ merged s', s.build = (.ok merged, s') ∧ Built s merged s' := by
  obtain ⟨made, hmade⟩ := decideAll_ok s.kept.preorder (by
    intro t ht
    rw [(preorder_kept h).2, filterMap_tripleAt h, List.mem_map] at ht
    obtain ⟨b, hb, rfl⟩ := ht
    rw [List.mem_filter, mem_ids] at hb
    exact wellPlaced_tripleOf hM hP hb.1)
  obtain ⟨merged, s', hbuild⟩ : ∃ merged s', s.build = (.ok merged, s') := by
    rw [build, hmade]
    exact ⟨_, _, rfl⟩
  exact ⟨merged, s', hbuild, built_of_build h hbuild⟩

/-- A kept node is found at the number of kept nodes before it. -/
theorem baselineToMerged_eq {s s' : Session Nat} {merged : Tree}
    (h : s.Corresponded v matcher policy toM toP) (hb : Built s merged s') {b c : Nat} :
    s'.baselineToMerged.get? b = some c ↔
      (b < v.baseline.size ∧ v.baseline.keeps s.tripleAt b = true) ∧
        c = v.baseline.rank s.tripleAt b := by
  have hkeys :
      ((v.baseline.ids.filter (v.baseline.keeps s.tripleAt)).zipIdx.map Prod.fst).Nodup := by
    rw [List.zipIdx_map_fst]
    exact List.nodup_range.filter _
  rw [hb.baselineToMerged, h.versions, Table.get?_putAll _ hkeys, Table.get?_nil, Option.or_none,
    Table.get?_eq_some_iff hkeys, List.mem_zipIdx_iff_getElem?, Tree.getElem?_filter_keeps]

/-! ## The shape -/

/-- The node and all nodes above it, the root apart, have a counterpart on some side. -/
def Remains (v : Versions) (toM toP : Mapping Nat) (b : Nat) : Prop :=
  b < v.baseline.size ∧ ∀ a ∈ b :: v.baseline.ancestors b, a ≠ Tree.root →
    toM.hasSrc a = true ∨ toP.hasSrc a = true

theorem remains_iff {s : Session Nat} (h : s.Corresponded v matcher policy toM toP) {b : Nat} :
    Remains v toM toP b ↔ b < v.baseline.size ∧ v.baseline.keeps s.tripleAt b = true := by
  refine and_congr_right fun hb => ?_
  rw [Tree.keeps, List.all_eq_true]
  refine forall_congr' fun a => forall_congr' fun ha => ?_
  have hlt : a < v.baseline.size :=
    Tree.lt_size_of_contains ((Tree.mem_self_ancestors_iff hb).1 ha)
  rw [tripleAt_eq h hlt, ← survives_iff]
  cases survives toM toP a <;> simp

/-- What a skeleton looks like, with the baseline numbers of its nodes. -/
structure SkeletonShape (v : Versions) (toM toP : Mapping Nat) (s : Session Nat) (merged : Tree)
    (s' : Session Nat) : Prop where
  defined_iff : ∀ b, (s'.baselineToMerged.get? b).isSome = true ↔ Remains v toM toP b
  increasing : ∀ {b b' c c' : Nat}, s'.baselineToMerged.get? b = some c →
    s'.baselineToMerged.get? b' = some c' → b < b' → c < c'
  onto : ∀ c, c < merged.size ↔ ∃ b, s'.baselineToMerged.get? b = some c
  parent : ∀ {b c : Nat}, s'.baselineToMerged.get? b = some c → b ≠ Tree.root →
    ∃ p q, v.baseline.parent? b = some p ∧ s'.baselineToMerged.get? p = some q ∧
      merged.parent? c = some q
  children : ∀ {b c : Nat}, s'.baselineToMerged.get? b = some c →
    merged.children c = (v.baseline.children b).filterMap s'.baselineToMerged.get?
  content : ∀ {b c : Nat}, s'.baselineToMerged.get? b = some c →
    s.triples.get? b = some (tripleOf v toM toP b) ∧
      ∃ d, (tripleOf v toM toP b).decide = .ok d ∧ merged.content c = d.content
  total : s'.report.decisions.total = merged.size
  diverged : s'.report.conflicts.length = s'.report.decisions.diverged
  conflicts : s'.report.conflicts = (v.baseline.ids.filter fun b =>
    (s'.baselineToMerged.get? b).isSome && (tripleOf v toM toP b).diverges).map fun b =>
      (tripleOf v toM toP b).conflict

section

variable {s s' : Session Nat} {merged : Tree} (h : s.Corresponded v matcher policy toM toP)
  (hb : Built s merged s')

include h hb

theorem size_merged : merged.size = v.baseline.rank s.tripleAt v.baseline.size := by
  have hu := Tree.size_prune hb.pruned
  rwa [h.versions, Tree.rank_map] at hu

theorem children_merged {b : Nat} (hlt : b < v.baseline.size)
    (hk : v.baseline.keeps s.tripleAt b = true) :
    merged.children (v.baseline.rank s.tripleAt b) =
      ((v.baseline.children b).filter (v.baseline.keeps s.tripleAt)).map
        (v.baseline.rank s.tripleAt) := by
  have hu := hb.pruned
  rw [h.versions] at hu
  have hc := Tree.children_rank hu hlt (by rwa [Tree.keeps_map])
  rwa [Tree.rank_map, Tree.keeps_map] at hc

theorem rank_lt_size_merged {b : Nat} (hlt : b < v.baseline.size)
    (hk : v.baseline.keeps s.tripleAt b = true) :
    v.baseline.rank s.tripleAt b < merged.size := by
  rw [size_merged h hb]
  exact Tree.rank_lt_rank hk hlt

theorem content_merged {b : Nat} (hlt : b < v.baseline.size)
    (hk : v.baseline.keeps s.tripleAt b = true) :
    merged.content (v.baseline.rank s.tripleAt b) = (tripleOf v toM toP b).settled := by
  have hu := hb.pruned
  rw [h.versions] at hu
  have hc := Tree.content_rank hu hlt (by rwa [Tree.keeps_map])
  rw [tripleAt_of_keeps h hlt hk, Option.map_some, Option.some.injEq, Tree.rank_map] at hc
  exact hc.symm

/-- A look-up gives the rank of a kept child. -/
theorem filterMap_children {b : Nat} :
    (v.baseline.children b).filterMap s'.baselineToMerged.get? =
      ((v.baseline.children b).filter (v.baseline.keeps s.tripleAt)).map
        (v.baseline.rank s.tripleAt) := by
  rw [← List.filterMap_eq_map, List.filterMap_filter]
  apply List.filterMap_congr
  intro x hx
  have hlt := Tree.lt_size_of_mem_children hx
  by_cases hk : v.baseline.keeps s.tripleAt x = true
  · rw [if_pos hk, (baselineToMerged_eq h hb).2 ⟨⟨hlt, hk⟩, rfl⟩]
    rfl
  · rw [if_neg hk]
    cases hg : s'.baselineToMerged.get? x with
    | none => rfl
    | some c => exact absurd ((baselineToMerged_eq h hb).1 hg).1.2 hk

theorem isSome_baselineToMerged {b : Nat} :
    (s'.baselineToMerged.get? b).isSome = true ↔
      b < v.baseline.size ∧ v.baseline.keeps s.tripleAt b = true := by
  rw [Option.isSome_iff_exists]
  constructor
  · rintro ⟨c, hc⟩
    exact ((baselineToMerged_eq h hb).1 hc).1
  · exact fun hk => ⟨_, (baselineToMerged_eq h hb).2 ⟨hk, rfl⟩⟩

/-! ## What is counted -/

/-- There is one decision for each node of the skeleton. -/
theorem total_decisions : s'.report.decisions.total = merged.size := by
  obtain ⟨made, hfst, -, hreport⟩ := hb.report
  rw [h.versions, filterMap_tripleAt h] at hfst
  have hlength : made.length = merged.size := by
    rw [← List.length_map Prod.fst, hfst, List.length_map, Tree.length_filter_keeps,
      size_merged h hb]
  rw [hreport, h.report]
  show Tally.total (made.foldl _ {}) = _
  rw [Tally.total_foldl, hlength]
  exact Nat.zero_add _

/-- The dropped nodes are those that survive on neither side. -/
theorem dropped_eq :
    s'.report.dropped = (v.baseline.ids.filter fun b => !survives toM toP b).length := by
  obtain ⟨_, -, -, hreport⟩ := hb.report
  rw [hreport, h.report]

variable (hM : toM.Valid v.baseline.size v.modified.size)
  (hP : toP.Valid v.baseline.size v.patched.size)

include hM hP

/-- The decisions that one rule has made are those of the kept nodes that it applies to. -/
theorem exists_made :
    ∃ made : List (Triple Nat × Decision),
      s'.report = { s.report with
        decisions := made.foldl (fun t d => t.add d.2.rule) {}
        conflicts := (made.filter fun d => d.2.rule == .diverged).map fun d => d.1.conflict } ∧
      ∀ r, (made.filter fun d => d.2.rule == r).map Prod.fst =
        ((v.baseline.ids.filter (v.baseline.keeps s.tripleAt)).filter fun b =>
          (tripleOf v toM toP b).rule == r).map (tripleOf v toM toP) := by
  obtain ⟨made, hfst, hdecide, hreport⟩ := hb.report
  rw [h.versions, filterMap_tripleAt h] at hfst
  refine ⟨made, ?_, fun r => ?_⟩
  · rw [hreport, h.report]
    rfl
  · have hplaced : ∀ d ∈ made, d.1.WellPlaced := by
      intro d hd
      have hmem : d.1 ∈ made.map Prod.fst := List.mem_map_of_mem hd
      rw [hfst, List.mem_map] at hmem
      obtain ⟨b, hkept, htriple⟩ := hmem
      exact htriple ▸ wellPlaced_tripleOf hM hP (mem_ids.1 (List.mem_filter.1 hkept).1)
    rw [map_fst_filter_rule hdecide hplaced, hfst, List.filter_map]
    rfl

/-- **A rule is counted** once for each kept node that it applies to. -/
theorem count_decisions (r : Rule) : s'.report.decisions.count r =
    ((v.baseline.ids.filter (v.baseline.keeps s.tripleAt)).filter fun b =>
      (tripleOf v toM toP b).rule == r).length := by
  obtain ⟨made, hreport, hmade⟩ := exists_made h hb hM hP
  rw [hreport, ← List.length_map (tripleOf v toM toP), ← hmade r, List.length_map,
    Tally.count_foldl]
  cases r <;> exact Nat.zero_add _

/-- **The conflicts** are the kept nodes that diverge. -/
theorem conflicts_eq : s'.report.conflicts =
    ((v.baseline.ids.filter (v.baseline.keeps s.tripleAt)).filter fun b =>
      (tripleOf v toM toP b).rule == .diverged).map fun b => (tripleOf v toM toP b).conflict := by
  obtain ⟨made, hreport, hmade⟩ := exists_made h hb hM hP
  have hconflicts := congrArg (List.map Triple.conflict) (hmade .diverged)
  rw [List.map_map, List.map_map] at hconflicts
  rw [hreport]
  exact hconflicts

/-- **A skeleton has its shape.** -/
theorem Built.shape : SkeletonShape v toM toP s merged s' := by
  have hiff := @baselineToMerged_eq v matcher policy toM toP s s' merged h hb
  constructor
  case defined_iff =>
    intro b
    rw [isSome_baselineToMerged h hb, remains_iff h]
  case increasing =>
    intro b b' c c' hc hc' hlt
    obtain ⟨⟨-, hk⟩, rfl⟩ := hiff.1 hc
    obtain ⟨-, rfl⟩ := hiff.1 hc'
    exact Tree.rank_lt_rank hk hlt
  case onto =>
    intro c
    constructor
    · intro hc
      rw [size_merged h hb, ← Tree.length_filter_keeps] at hc
      exact ⟨_, hiff.2 (Tree.getElem?_filter_keeps.1 (List.getElem?_eq_getElem hc))⟩
    · rintro ⟨b, hc⟩
      obtain ⟨⟨hlt, hk⟩, rfl⟩ := hiff.1 hc
      exact rank_lt_size_merged h hb hlt hk
  case parent =>
    intro b c hc hroot
    obtain ⟨⟨hlt, hk⟩, rfl⟩ := hiff.1 hc
    obtain ⟨p, hp⟩ := Tree.exists_parent hlt hroot
    have hkp : v.baseline.keeps s.tripleAt p = true := by
      rw [Tree.keeps_child hp, Bool.and_eq_true] at hk
      exact hk.2
    have hltp := Tree.lt_size_of_children hp
    refine ⟨p, _, Tree.parent?_of_mem_children hp, hiff.2 ⟨⟨hltp, hkp⟩, rfl⟩, ?_⟩
    apply Tree.parent?_of_mem_children
    rw [children_merged h hb hltp hkp]
    exact List.mem_map_of_mem (List.mem_filter.2 ⟨hp, hk⟩)
  case children =>
    intro b c hc
    obtain ⟨⟨hlt, hk⟩, rfl⟩ := hiff.1 hc
    rw [children_merged h hb hlt hk, filterMap_children h hb]
  case content =>
    intro b c hc
    obtain ⟨⟨hlt, hk⟩, rfl⟩ := hiff.1 hc
    obtain ⟨d, hd⟩ := Triple.decide_ok (wellPlaced_tripleOf hM hP hlt)
    refine ⟨(triples_get?_eq_some_iff h hlt _).2 ⟨survives_of_keeps h hlt hk, rfl⟩, d, hd, ?_⟩
    rw [content_merged h hb hlt hk, Triple.settled_eq hd]
  case total => exact total_decisions h hb
  case diverged =>
    rw [conflicts_eq h hb hM hP, List.length_map]
    exact (count_decisions h hb hM hP .diverged).symm
  case conflicts =>
    rw [conflicts_eq h hb hM hP, List.filter_filter]
    congr 1
    apply List.filter_congr
    intro b hmem
    have hlt := mem_ids.1 hmem
    have hkeeps : (s'.baselineToMerged.get? b).isSome = v.baseline.keeps s.tripleAt b := by
      rw [Bool.eq_iff_iff, isSome_baselineToMerged h hb]
      exact and_iff_right hlt
    have hdiverges : (tripleOf v toM toP b).diverges =
        ((tripleOf v toM toP b).rule == .diverged) := by
      rw [Bool.eq_iff_iff, Triple.diverges_iff (wellPlaced_tripleOf hM hP hlt), beq_iff_eq]
    rw [hkeeps, hdiverges, Bool.and_comm]

end

/-- **The shape of the merged skeleton.** On a fresh session whose matcher answers with valid
correspondences, the first two stages succeed. -/
theorem skeleton_shape (v : Versions) (matcher : Matcher Nat) (policy : Policy)
    {toM toP : Mapping Nat} (hM : matcher.run 0 v.baseline v.modified = .ok toM)
    (hP : matcher.run 1 v.baseline v.patched = .ok toP)
    (validM : toM.Valid v.baseline.size v.modified.size)
    (validP : toP.Valid v.baseline.size v.patched.size) :
    ∃ s₁ merged s₂, (start v matcher policy).correspond = (.ok (), s₁) ∧
      s₁.build = (.ok merged, s₂) ∧ SkeletonShape v toM toP s₁ merged s₂ := by
  obtain ⟨s₁, hs₁, h⟩ := correspond_ok policy hM hP
  obtain ⟨merged, s₂, hs₂, hb⟩ := build_ok h validM validP
  exact ⟨s₁, merged, s₂, hs₁, hs₂, hb.shape h validM validP⟩

/-- A node `w` that neither side has, with a leaf that both have elsewhere. -/
def hoisted : Versions where
  baseline := .ofNode (.node ⟨"r", ""⟩ [.node ⟨"w", ""⟩ [.node ⟨"a", "1"⟩ []], .node ⟨"b", "2"⟩ []])
  modified := .ofNode (.node ⟨"r", ""⟩ [.node ⟨"a", "1"⟩ [], .node ⟨"b", "3"⟩ []])
  patched := .ofNode (.node ⟨"r", ""⟩ [.node ⟨"a", "1"⟩ [], .node ⟨"b", "4"⟩ []])

theorem skeleton_shape_hoisted :
    let matcher : Matcher Nat := .prepared [[(0, 0), (2, 1), (3, 2)], [(0, 0), (2, 1), (3, 2)]]
    let m : Mapping Nat := ⟨[(0, 0), (2, 1), (3, 2)]⟩
    matcher.run 0 hoisted.baseline hoisted.modified = .ok m ∧
      matcher.run 1 hoisted.baseline hoisted.patched = .ok m ∧
      m.Valid hoisted.baseline.size hoisted.modified.size ∧
      m.Valid hoisted.baseline.size hoisted.patched.size ∧
      ∃ s₁ merged s₂, (start hoisted matcher .skip).correspond = (.ok (), s₁) ∧
        s₁.build = (.ok merged, s₂) ∧ SkeletonShape hoisted m m s₁ merged s₂ := by
  have hv : (⟨[(0, 0), (2, 1), (3, 2)]⟩ : Mapping Nat).Valid 4 3 :=
    ⟨by decide, by decide, by decide, by decide⟩
  exact ⟨rfl, rfl, hv, hv, skeleton_shape hoisted _ .skip rfl rfl hv hv⟩

end Session

end TreeMerge
