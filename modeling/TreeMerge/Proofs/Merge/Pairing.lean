import Mathlib
import TreeMerge.Proofs.Merge.Arrivals
import TreeMerge.Proofs.Merge.Duplicates
import TreeMerge.Proofs.Merge.Topmost
import TreeMerge.Proofs.Tree.Normal

/-!
# New subtrees are paired one to one

The candidates of a side fall into classes of equal subtrees. An insertion takes out of each class
as many candidates of the patched side, from the front, as the modified side has of that class; all
others go on to be placed.

* `Tree.copiesAmong`, `subtreeClasses`, `sharedCopies` : the classes, and what both sides have of
  one;
* `PairsOff`, `pairsOff_duplicates` : what is taken out and what is kept of each class;
* `Session.InsertsOnce`, `Session.insertsOnce` : what an insertion does with the candidates;
* `Session.Fresh`, `Session.Balanced` : no candidate of a fresh session gets lost;
* `Session.insert_pairs_off` : both, for every session and every matcher.
-/

namespace TreeMerge

/-! ## Classes -/

/-- The nodes among `ids` whose subtrees are copies of `n`. -/
def Tree.copiesAmong (t : Tree) (n : Node) (ids : List Nat) : List Nat :=
  ids.filter fun id => Node.isomorphic n (t.subtree id)

/-- The subtrees at the given nodes of two trees, each of them once. -/
def subtreeClasses (t u : Tree) (ms ps : List Nat) : Finset Node :=
  (ms.map t.subtree ++ ps.map u.subtree).toFinset

/-- How many copies of `n` can be paired. -/
def sharedCopies (t u : Tree) (ms ps : List Nat) (n : Node) : Nat :=
  min (t.copiesAmong n ms).length (u.copiesAmong n ps).length

section

variable {t u : Tree} {ms ps ids : List Nat} {n : Node}

theorem Tree.mem_copiesAmong {id : Nat} :
    id ∈ t.copiesAmong n ids ↔ id ∈ ids ∧ t.subtree id = n := by
  rw [copiesAmong, List.mem_filter, Node.isomorphic_iff, @eq_comm _ n]

theorem Tree.copiesAmong_eq_filter :
    t.copiesAmong n ids = ids.filter fun id => t.subtree id == n := by
  refine List.filter_congr fun id _ => ?_
  rw [Bool.eq_iff_iff, Node.isomorphic_iff, beq_iff_eq, eq_comm]

theorem Tree.isomorphic_eq {a b : Nat} (ha : a < t.size) (hb : b < u.size) :
    t.isomorphic a u b = Node.isomorphic (t.subtree a) (u.subtree b) := by
  rw [Bool.eq_iff_iff, isomorphic_iff ha hb, Node.isomorphic_iff]

/-- Every node is a copy of one subtree. -/
theorem Tree.sum_copiesAmong {classes : Finset Node} (h : ∀ id ∈ ids, t.subtree id ∈ classes) :
    ∑ n ∈ classes, (t.copiesAmong n ids).length = ids.length := by
  induction ids with
  | nil => exact Finset.sum_eq_zero fun n _ => rfl
  | cons id ids ih =>
    have hcons : ∀ n, (t.copiesAmong n (id :: ids)).length =
        (if t.subtree id = n then 1 else 0) + (t.copiesAmong n ids).length := by
      intro n
      rw [copiesAmong_eq_filter, copiesAmong_eq_filter, List.filter_cons]
      split <;> simp_all [Nat.add_comm]
    rw [List.length_cons, Finset.sum_congr rfl fun n _ => hcons n, Finset.sum_add_distrib,
      Finset.sum_ite_eq, if_pos (h id List.mem_cons_self),
      ih fun x hx => h x (List.mem_cons_of_mem id hx), Nat.add_comm]

end

/-! ## Pairing -/

/-- Candidates are paired one to one: `twice` are the candidates `ps` of one tree that are taken out
because they are copies of candidates `ms` of another. -/
structure PairsOff (t u : Tree) (ms ps twice : List Nat) : Prop where
  nodup : twice.Nodup
  subset : twice ⊆ ps
  /-- Candidates are compared across two trees as members of the classes. -/
  compared : ∀ m ∈ ms, ∀ p ∈ ps,
    t.isomorphic m u p = Node.isomorphic (t.subtree m) (u.subtree p)
  taken : ∀ n, u.copiesAmong n twice = (u.copiesAmong n ps).take (sharedCopies t u ms ps n)
  kept : ∀ n, u.copiesAmong n (ps.filter fun p => !twice.contains p) =
    (u.copiesAmong n ps).drop (sharedCopies t u ms ps n)
  length : twice.length = ∑ n ∈ subtreeClasses t u ms ps, sharedCopies t u ms ps n

section

variable {t u : Tree} {ms ps : List Nat}

theorem copiesAmong_duplicates (hps : ps.Nodup) (hms : ∀ m ∈ ms, m < t.size)
    (hlt : ∀ p ∈ ps, p < u.size) (n : Node) :
    u.copiesAmong n (duplicates (fun m p => t.isomorphic m u p) ms ps) =
      (u.copiesAmong n ps).take (sharedCopies t u ms ps n) := by
  have htwin : ∀ m ∈ ms, ∀ p ∈ ps, t.isomorphic m u p = true ↔ t.subtree m = u.subtree p :=
    fun m hm p hp => Tree.isomorphic_iff (hms m hm) (hlt p hp)
  rw [sharedCopies, ← List.take_eq_take_min, Tree.copiesAmong_eq_filter,
    Tree.copiesAmong_eq_filter, Tree.copiesAmong_eq_filter, ← List.countP_eq_length_filter]
  exact filter_duplicates hps htwin n

theorem copiesAmong_rest {twice : List Nat} {n : Node} {k : Nat} (hps : ps.Nodup)
    (h : u.copiesAmong n twice = (u.copiesAmong n ps).take k) :
    u.copiesAmong n (ps.filter fun p => !twice.contains p) = (u.copiesAmong n ps).drop k := by
  have hclass : (u.copiesAmong n ps).Nodup := hps.filter _
  rw [← filter_free hclass, ← h]
  -- being taken and being of the class commute
  show List.filter _ (List.filter _ ps) = List.filter _ (List.filter _ ps)
  rw [List.filter_comm]
  refine List.filter_congr fun p hp => ?_
  obtain ⟨-, hclass⟩ := Tree.mem_copiesAmong.1 hp
  rw [Bool.eq_iff_iff]
  simp [Tree.mem_copiesAmong, hclass]

theorem pairsOff_duplicates (hps : ps.Nodup) (hms : ∀ m ∈ ms, m < t.size)
    (hlt : ∀ p ∈ ps, p < u.size) :
    PairsOff t u ms ps (duplicates (fun m p => t.isomorphic m u p) ms ps) := by
  have htaken := copiesAmong_duplicates hps hms hlt
  have hsubset : duplicates (fun m p => t.isomorphic m u p) ms ps ⊆ ps :=
    fun p hp => (of_mem_duplicates hp).1
  constructor
  case nodup => exact nodup_duplicates ms ps
  case subset => exact hsubset
  case compared => exact fun m hm p hp => Tree.isomorphic_eq (hms m hm) (hlt p hp)
  case taken => exact htaken
  case kept => exact fun n => copiesAmong_rest hps (htaken n)
  case length =>
    have hclass : ∀ p ∈ duplicates (fun m p => t.isomorphic m u p) ms ps,
        u.subtree p ∈ subtreeClasses t u ms ps := fun p hp =>
      List.mem_toFinset.2 (List.mem_append_right _ (List.mem_map_of_mem (hsubset hp)))
    -- a taken candidate is counted in the one class that it is of
    rw [← Tree.sum_copiesAmong hclass]
    refine Finset.sum_congr rfl fun n _ => ?_
    rw [htaken, List.length_take]
    exact min_eq_left (Nat.min_le_right _ _)

theorem PairsOff.length_kept {twice : List Nat} (h : PairsOff t u ms ps twice) (hps : ps.Nodup) :
    twice.length + (ps.filter fun p => !twice.contains p).length = ps.length := by
  have hperm : (ps.filter fun p => twice.contains p).Perm twice := by
    refine (List.perm_ext_iff_of_nodup (hps.filter _) h.nodup).2 fun p => ?_
    rw [List.mem_filter, List.contains_iff_mem]
    exact and_iff_right_of_imp fun hp => h.subset hp
  rw [← hperm.length_eq, List.length_eq_length_filter_add (l := ps) fun p => twice.contains p]

end

/-! ## Arrivals -/

/-- What arrives is inserted, or it has no anchor and is not attached to the root either. -/
theorem Arrival.length_insertions (policy : Policy) (merged : Tree) (arrivals : List Arrival) :
    arrivals.length = (arrivals.filterMap (Arrival.insertion policy merged)).length +
      if policy = .attachRoot then 0
      else (arrivals.filter fun a => a.anchor.isNone).length := by
  have hinserted : (arrivals.filterMap (Arrival.insertion policy merged)).length =
      arrivals.countP fun a => (a.target? policy).isSome := by
    rw [List.length_filterMap_eq_countP]
    exact List.countP_congr fun a _ => by rw [Arrival.insertion, Option.isSome_map]
  rw [hinserted]
  by_cases hpolicy : policy = .attachRoot
  · rw [if_pos hpolicy, hpolicy, Nat.add_zero, eq_comm, List.countP_eq_length]
    exact fun a _ => by rw [Arrival.target?_attachRoot, Option.isSome_some]
  · simp only [if_neg hpolicy, Arrival.target?_of_ne hpolicy, List.countP_eq_length_filter,
      ← Option.not_isSome]
    exact List.length_eq_length_filter_add _

namespace Session

variable {ν : Type}

/-! ## Insertion -/

theorem deduplicated_settle (s : Session ν) (merged : Tree) (arrivals : List Arrival) :
    (s.settle merged arrivals).2.report.deduplicated = s.report.deduplicated := by
  unfold settle
  cases arrivals.mapM (Arrival.insertion? s.policy merged) with
  | error e => rfl
  | ok insertions =>
    dsimp only
    split <;> rfl

variable [DecidableEq ν] [NodeName ν]

/-- What an insertion does with the candidates of the modified and the patched side. -/
structure InsertsOnce (s : Session ν) (merged : Tree) (ms ps twice : List Nat) : Prop where
  pairs : PairsOff s.versions.modified s.versions.patched ms ps twice
  /-- All candidates of the modified side are placed, then those of the patched side that are
  kept. -/
  places : ∃ s' : Session ν, s'.policy = s.policy ∧
    s'.report = { s.report with deduplicated := twice.length } ∧
    s.insert merged = s'.settle merged
      (ms.map (.ofNode .modified s.versions.modified s.modifiedToBaseline s.baselineToMerged) ++
        (ps.filter fun p => !twice.contains p).map
          (.ofNode .patched s.versions.patched s.patchedToBaseline s.baselineToMerged))
  deduplicated : (s.insert merged).2.report.deduplicated =
    ∑ n ∈ subtreeClasses s.versions.modified s.versions.patched ms ps,
      sharedCopies s.versions.modified s.versions.patched ms ps n

variable {s : Session ν} {merged : Tree} {ofM ofP : Mapping ν}

theorem insertsOnce (hM : s.matcher.run s.asked s.versions.modified merged = .ok ofM)
    (hP : s.matcher.run (s.asked + 1) s.versions.patched merged = .ok ofP) :
    ∃ twice, s.InsertsOnce merged (topmostUnmatched s.versions.modified ofM)
      (topmostUnmatched s.versions.patched ofP) twice := by
  have hpairs : PairsOff s.versions.modified s.versions.patched
      (topmostUnmatched s.versions.modified ofM) (topmostUnmatched s.versions.patched ofP)
      (s.twice (topmostUnmatched s.versions.modified ofM)
        (topmostUnmatched s.versions.patched ofP)) :=
    pairsOff_duplicates (List.nodup_range.filter _)
      (fun m hm => (mem_topmostUnmatched_iff.1 hm).1) fun p hp => (mem_topmostUnmatched_iff.1 hp).1
  obtain ⟨s', hpolicy, hreport, hinsert⟩ := insert_eq_settle hM hP
  refine ⟨_, hpairs, ⟨s', hpolicy, hreport, hinsert⟩, ?_⟩
  rw [hinsert, deduplicated_settle, hreport]
  exact hpairs.length

/-! ## Fresh sessions -/

/-- A session that has placed nothing, and whose anchors are nodes of a tree. -/
structure Fresh (s : Session ν) (merged : Tree) : Prop where
  inserted : s.report.inserted = []
  unanchored : s.report.unanchored = []
  anchors : ∀ b c, s.baselineToMerged.get? b = some c → c < merged.size

/-- No candidate gets lost: it is a duplicate, or it is inserted, or it has no anchor and is left
out. Only for want of an anchor an insertion fails. -/
structure Balanced (policy : Policy) (ms ps : List Nat) (outcome : Except Fault Tree × Session ν) :
    Prop where
  total : ms.length + ps.length =
    outcome.2.report.deduplicated + outcome.2.report.inserted.length +
      if policy = .attachRoot then 0 else outcome.2.report.unanchored.length
  fails : ∀ e, outcome.1 = .error e → policy = .error ∧ outcome.2.report.unanchored ≠ []

omit [DecidableEq ν] [NodeName ν] in
theorem fresh_start (v : Versions) (matcher : Matcher ν) (policy : Policy) (merged : Tree) :
    (start v matcher policy).Fresh merged :=
  ⟨rfl, rfl, fun b c h => by simp [start] at h⟩

/-- The kept nodes are sent to as many nodes as there are. -/
theorem fresh_of_build {v : Versions} {matcher : Matcher ν} {policy : Policy} {s' : Session ν}
    (h : (start v matcher policy).correspond = (.ok (), s)) (hbuild : s.build = (.ok merged, s')) :
    s'.Fresh merged := by
  have huntouched := untouched_of_build h hbuild
  refine ⟨huntouched.inserted, huntouched.unanchored, fun b c hc => ?_⟩
  obtain ⟨made, -, hmerged, hs'⟩ := of_build hbuild
  rw [hs'] at hc
  dsimp only at hc
  rw [(untouched_of_correspond h).2, Table.get?_putAll_last, Table.get?_nil, Option.or_none] at hc
  -- the table was empty before, so every entry is one of the numbering
  have hlt := List.snd_lt_of_mem_zipIdx (List.mem_reverse.1 (Table.mem_of_get? hc))
  rw [List.length_map, Rose.preorder, List.length_map, Rose.length_subtrees] at hlt
  rw [hmerged, Tree.size_eq, Tree.node_ofNode, Rose.size_map]
  omega

theorem Fresh.lt_of_target? (h : s.Fresh merged) {origin : Side} {t : Tree}
    {toBaseline : Table ν Nat} {policy : Policy} {n id : Nat}
    (ht : (Arrival.ofNode origin t toBaseline s.baselineToMerged n).target? policy = some id) :
    id < merged.size := by
  rcases Arrival.target?_eq_some.1 ht with hanchor | ⟨-, -, rfl⟩
  · obtain ⟨b, -, hb⟩ := Option.bind_eq_some_iff.1 hanchor
    exact h.anchors b id hb
  · exact merged.size_pos

theorem balanced (h : s.Fresh merged)
    (hM : s.matcher.run s.asked s.versions.modified merged = .ok ofM)
    (hP : s.matcher.run (s.asked + 1) s.versions.patched merged = .ok ofP) :
    Balanced s.policy (topmostUnmatched s.versions.modified ofM)
      (topmostUnmatched s.versions.patched ofP) (s.insert merged) := by
  obtain ⟨twice, hpairs, ⟨s', hpolicy, hreport, hinsert⟩, -⟩ := insertsOnce hM hP
  have hkept := hpairs.length_kept (List.nodup_range.filter _)
  rw [hinsert]
  generalize harrivals : List.map _ _ ++ List.map _ _ = arrivals
  have hlength : arrivals.length = (topmostUnmatched s.versions.modified ofM).length +
      ((topmostUnmatched s.versions.patched ofP).filter fun p => !twice.contains p).length := by
    rw [← harrivals, List.length_append, List.length_map, List.length_map]
  have hthere : ∀ a ∈ arrivals, ∀ id, a.target? s.policy = some id → id < merged.size := by
    intro a ha id hid
    rw [← harrivals] at ha
    rcases List.mem_append.1 ha with ha | ha
    · obtain ⟨n, -, rfl⟩ := List.mem_map.1 ha
      exact h.lt_of_target? hid
    · obtain ⟨n, -, rfl⟩ := List.mem_map.1 ha
      exact h.lt_of_target? hid
  obtain ⟨s'', hsettle, hsettled⟩ := settle_eq hpolicy hthere
  rw [hreport, h.inserted, h.unanchored] at hsettled
  rw [hsettle]
  constructor
  case total =>
    have hplaced := Arrival.length_insertions s.policy merged arrivals
    simp only [hsettled, List.nil_append, List.length_map]
    omega
  case fails =>
    intro e he
    dsimp only at he
    split at he
    · next hlost => exact hlost
    · cases he

/-- **New subtrees are paired one to one.** Whenever the matcher answers, an insertion takes the
first candidates of each class out of those of the patched side, as many as both sides have, keeps
the others, and counts what it took. In a session that has placed nothing, new or with a skeleton
that it built, no candidate gets lost. -/
theorem insert_pairs_off :
    (∀ (s : Session ν) (merged : Tree) (ofM ofP : Mapping ν),
      s.matcher.run s.asked s.versions.modified merged = .ok ofM →
      s.matcher.run (s.asked + 1) s.versions.patched merged = .ok ofP →
      (∃ twice, s.InsertsOnce merged (topmostUnmatched s.versions.modified ofM)
        (topmostUnmatched s.versions.patched ofP) twice) ∧
      (s.Fresh merged → Balanced s.policy (topmostUnmatched s.versions.modified ofM)
        (topmostUnmatched s.versions.patched ofP) (s.insert merged))) ∧
    ∀ (v : Versions) (matcher : Matcher ν) (policy : Policy),
      (∀ merged, (start v matcher policy).Fresh merged) ∧
      ∀ s merged s', (start v matcher policy).correspond = (.ok (), s) →
        s.build = (.ok merged, s') → s'.Fresh merged :=
  ⟨fun _ _ _ _ hM hP => ⟨insertsOnce hM hP, fun h => balanced h hM hP⟩,
    fun v matcher policy => ⟨fresh_start v matcher policy, fun _ _ _ => fresh_of_build⟩⟩

/-- Both sides add statements to the function, of which some are equal; the patched side also moves
the function to another root. -/
def addedOften : Versions where
  baseline := .ofNode (.node ⟨"R", ""⟩ [.node ⟨"F", ""⟩ []])
  modified := .ofNode (.node ⟨"R", ""⟩ [.node ⟨"F", ""⟩
    [.node ⟨"x", "1"⟩ [], .node ⟨"x", "1"⟩ [], .node ⟨"y", "2"⟩ []]])
  patched := .ofNode (.node ⟨"P", ""⟩ [.node ⟨"F", ""⟩
    [.node ⟨"x", "1"⟩ [], .node ⟨"y", "2"⟩ [], .node ⟨"y", "2"⟩ [], .node ⟨"x", "1"⟩ [],
      .node ⟨"x", "1"⟩ []]])

/-- The root has no counterpart on the patched side. -/
def oftenMatcher : Matcher Nat :=
  .prepared [[(0, 0), (1, 1)], [(1, 1)], [(0, 0), (1, 1)], [(1, 1)]]

def oftenPaired : Session Nat :=
  (start addedOften oftenMatcher .skip).correspond.2

def oftenBuilt : Session Nat :=
  oftenPaired.build.2

/-- Two statements of the one and one of the other kind are paired. Of nine candidates five are
inserted, and the root of the patched side has no anchor. -/
theorem insert_pairs_off_often :
    (start addedOften oftenMatcher .skip).correspond = (.ok (), oftenPaired) ∧
      oftenPaired.build = (.ok addedOften.baseline, oftenBuilt) ∧
      oftenMatcher.run 2 addedOften.modified addedOften.baseline = .ok ⟨[(0, 0), (1, 1)]⟩ ∧
      oftenMatcher.run 3 addedOften.patched addedOften.baseline = .ok ⟨[(1, 1)]⟩ ∧
      oftenBuilt.Fresh addedOften.baseline ∧
      (∃ twice, oftenBuilt.InsertsOnce addedOften.baseline [2, 3, 4] [0, 2, 3, 4, 5, 6] twice) ∧
      Balanced .skip [2, 3, 4] [0, 2, 3, 4, 5, 6] (oftenBuilt.insert addedOften.baseline) ∧
      (oftenBuilt.insert addedOften.baseline).2.report.deduplicated = 3 := by
  have hpaired : (start addedOften oftenMatcher .skip).correspond = (.ok (), oftenPaired) := rfl
  have hbuilt : oftenPaired.build = (.ok addedOften.baseline, oftenBuilt) :=
    Prod.ext (by cbv) rfl
  have hfresh := (insert_pairs_off.2 addedOften oftenMatcher .skip).2 _ _ _ hpaired hbuilt
  obtain ⟨hpairs, hbalanced⟩ := insert_pairs_off.1 oftenBuilt addedOften.baseline
    ⟨[(0, 0), (1, 1)]⟩ ⟨[(1, 1)]⟩ rfl rfl
  exact ⟨hpaired, hbuilt, rfl, rfl, hfresh, hpairs, hbalanced hfresh, by cbv⟩

end Session

end TreeMerge
