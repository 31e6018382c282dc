import Mathlib
import TreeMerge.Proofs.Merge.Arrivals
import TreeMerge.Proofs.Merge.Duplicates
import TreeMerge.Proofs.Merge.Topmost

/-!
# What becomes of unmatched nodes

A node of a side without a counterpart in the skeleton comes with the collected subtree that it is
in. A merge that returns has inserted that subtree, or reported it for want of an anchor, or left it
to the other side, which brings it as well.

* `Intake.AccountedFor` : the three things that can become of a collected subtree;
* `Intake.Settled.accountedFor` : one of them does;
* `unmatched_accounted` : no unmatched node is lost.
-/

namespace TreeMerge

variable {ν : Type} [DecidableEq ν] [NodeName ν]

namespace Intake

variable {v : Versions} {matcher : Matcher ν} {policy : Policy}

/-- What becomes of a collected subtree of a side. -/
inductive AccountedFor (intake : Intake v matcher policy) (image : Nat → Nat) (r : MergeResult)
    (side : Side) (c : Nat) : Prop
  /-- It is recorded, and a copy of it stands behind the old children of the node it is sent to. -/
  | inserted (id : Nat) (i : Insertion)
      (target : (intake.arrival side c).target? policy = some id)
      (insertion : (intake.arrival side c).insertion policy intake.merged = some i)
      (recorded : i ∈ r.report.inserted)
      (copy : ∃ x ∈ (r.tree.children (image id)).drop (intake.merged.children id).length,
        r.tree.subtree x = (v.side side).subtree c)
  /-- It has no anchor, and that is reported. -/
  | unanchored (anchor : (intake.arrival side c).anchor = none)
      (reported : (intake.arrival side c).summary ∈ r.report.unanchored)
  /-- The modified side brings it as well. -/
  | duplicate (patched : side = .patched) (counted : c ∈ intake.twice)
      (twin : ∃ m ∈ intake.newRoots .modified, v.modified.isomorphic m v.patched c = true)

theorem arrival_node (intake : Intake v matcher policy) (side : Side) (c : Nat) :
    (intake.arrival side c).node = (v.side side).subtree c := by
  cases side <;> rfl

namespace Settled

variable {intake : Intake v matcher policy} {image : Nat → Nat} {r : MergeResult} {side : Side}
  {c : Nat}

/-- What is sent to a node is copied there. -/
theorem copied (h : intake.Settled image r) {a : Arrival} (ha : a ∈ intake.arrivals) {id : Nat}
    (hid : a.target? policy = some id) :
    ∃ x ∈ (r.tree.children (image id)).drop (intake.merged.children id).length,
      r.tree.subtree x = a.node := by
  obtain ⟨new, hchildren, hnew⟩ := h.children id (h.target a ha id hid)
  have hcopy : a.node ∈ new.map r.tree.subtree := by
    rw [hnew]
    exact List.mem_map_of_mem (List.mem_filter.2 ⟨ha, beq_iff_eq.2 hid⟩)
  obtain ⟨x, hx, hsub⟩ := List.mem_map.1 hcopy
  refine ⟨x, ?_, hsub⟩
  rwa [hchildren, List.drop_left' (by rw [List.length_map])]

/-- What arrives is inserted or has no anchor. -/
theorem accountedFor_of_arrives (h : intake.Settled image r)
    (ha : intake.arrival side c ∈ intake.arrivals) : intake.AccountedFor image r side c := by
  cases hid : (intake.arrival side c).target? policy with
  | some id =>
    obtain ⟨i, hi⟩ : ∃ i, (intake.arrival side c).insertion policy intake.merged = some i := by
      unfold Arrival.insertion
      rw [hid]
      exact ⟨_, rfl⟩
    refine .inserted id i hid hi ?_ ?_
    · rw [h.inserted]
      exact List.mem_filterMap.2 ⟨_, ha, hi⟩
    · rw [← intake.arrival_node]
      exact h.copied ha hid
  | none =>
    have hanchor : (intake.arrival side c).anchor = none := by
      unfold Arrival.target? at hid
      cases hanchor : (intake.arrival side c).anchor with
      | none => rfl
      | some id => simp [hanchor] at hid
    refine .unanchored hanchor ?_
    rw [h.unanchored]
    exact List.mem_map_of_mem (List.mem_filter.2 ⟨ha, Option.isNone_iff_eq_none.2 hanchor⟩)

/-- **Every collected subtree is accounted for.** -/
theorem accountedFor (h : intake.Settled image r) (hc : c ∈ intake.newRoots side) :
    intake.AccountedFor image r side c := by
  rcases intake.mem_arrivals hc with ha | ⟨rfl, htwice⟩
  · exact h.accountedFor_of_arrives ha
  · exact .duplicate rfl htwice (of_mem_duplicates htwice).2

end Settled

end Intake

/-- **No unmatched node is lost.** Whatever the correspondence, the collected nodes are unmatched,
in order, and every unmatched node is below exactly one of them on a way of unmatched nodes.
Whenever a merge returns, such a collected node is the root of a subtree that is accounted for. -/
theorem unmatched_accounted :
    (∀ (t : Tree) (m : Mapping ν), Collects t m (topmostUnmatched t m)) ∧
    ∀ {v : Versions} {matcher : Matcher ν} {policy : Policy} {r : MergeResult},
      (mergeTrees v matcher policy).1 = .ok r →
      ∃ (intake : Intake v matcher policy) (image : Nat → Nat), intake.Settled image r ∧
        ∀ side, ∀ n < (v.side side).size,
          (intake.toMerged side).hasSrc (NodeName.ofId n) = false →
          ∃ c ∈ intake.newRoots side, (v.side side).contains c n = true ∧
            (∀ x, (v.side side).contains c x = true → (v.side side).contains x n = true →
              (intake.toMerged side).hasSrc (NodeName.ofId x) = false) ∧
            intake.AccountedFor image r side c := by
  refine ⟨fun t m => collects_topmostUnmatched t m, fun h => ?_⟩
  obtain ⟨intake, image, hsettled⟩ := Intake.of_mergeTrees h
  refine ⟨intake, image, hsettled, fun side n hn hfree => ?_⟩
  obtain ⟨c, hc, hcn, hpath⟩ := exists_unmatched_path (m := intake.toMerged side) hn hfree
  exact ⟨c, hc, hcn, hpath, hsettled.accountedFor hc⟩

/-- The function is put into a block on one side and is moved to another root on the other; both
give it the same statement. -/
def wrappedTwice : Versions where
  baseline := .ofNode (.node ⟨"R", ""⟩ [.node ⟨"F", ""⟩ []])
  modified := .ofNode (.node ⟨"R", ""⟩ [.node ⟨"B", ""⟩ [.node ⟨"F", ""⟩ [.node ⟨"x", "1"⟩ []]]])
  patched := .ofNode (.node ⟨"P", ""⟩ [.node ⟨"F", ""⟩ [.node ⟨"x", "1"⟩ []]])

/-- The block and the statement are inserted, the statement also as part of the block. The root of
the patched side has no anchor, and its statement is a duplicate. -/
def wrappedOnce : MergeResult where
  tree := .ofNode (.node ⟨"R", ""⟩ [.node ⟨"F", ""⟩ [.node ⟨"x", "1"⟩ []],
    .node ⟨"B", ""⟩ [.node ⟨"F", ""⟩ [.node ⟨"x", "1"⟩ []]]])
  report := {
    decisions := { convergent := 1, diverged := 1 }
    conflicts := [⟨⟨"R", ""⟩, some ⟨"R", ""⟩, none⟩]
    inserted := [⟨⟨.modified, "B", "", 3⟩, "R", false⟩, ⟨⟨.modified, "x", "1", 1⟩, "F", false⟩]
    deduplicated := 1
    unanchored := [⟨.patched, "P", "", 3⟩] }

theorem unmatched_accounted_wrapped :
    let matcher : Matcher Nat := .prepared [[(0, 0), (1, 2)], [(1, 1)], [(0, 0), (2, 1)], [(1, 1)]]
    (mergeTrees wrappedTwice matcher .skip).1 = .ok wrappedOnce ∧
      ∃ (intake : Intake wrappedTwice matcher .skip) (image : Nat → Nat),
        intake.Settled image wrappedOnce ∧
        ∀ side, ∀ n < (wrappedTwice.side side).size, (intake.toMerged side).hasSrc n = false →
          ∃ c ∈ intake.newRoots side, (wrappedTwice.side side).contains c n = true ∧
            (∀ x, (wrappedTwice.side side).contains c x = true →
              (wrappedTwice.side side).contains x n = true →
              (intake.toMerged side).hasSrc x = false) ∧
            intake.AccountedFor image wrappedOnce side c := by
  have h : (mergeTrees wrappedTwice (.prepared [[((0 : Nat), 0), (1, 2)], [(1, 1)],
      [(0, 0), (2, 1)], [(1, 1)]]) .skip).1 = .ok wrappedOnce := by cbv
  exact ⟨h, unmatched_accounted.2 h⟩

end TreeMerge
