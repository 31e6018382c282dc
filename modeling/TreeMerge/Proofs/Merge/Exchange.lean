import TreeMerge.Proofs.Merge.Run

/-!
# Exchanging the two sides

Which side is called modified decides nothing: the rule prefers it only where both sides agree.
With the sides exchanged, every position is settled as before, by the rule for the exchanged sides.

* `Rule.exchange`, `Tally.exchange`, `Conflict.exchange`, `Triple.exchange`, `Versions.exchange` :
  the same seen with the sides exchanged;
* `Triple.rule_exchange`, `Triple.settled_exchange` : the decision about one position;
* `Session.tripleAt_exchange`, `Session.keeps_exchange` : the nodes that are kept;
* `Session.Exchanged`, `Session.skeleton_exchange` : the skeletons of both orders.
-/

namespace TreeMerge

/-! ## One position -/

namespace Rule

/-- The rule for the exchanged sides. -/
def exchange : Rule → Rule
  | .unchanged => .unchanged
  | .patchedOnly => .modifiedOnly
  | .modifiedOnly => .patchedOnly
  | .convergent => .convergent
  | .diverged => .diverged

theorem exchange_beq (r r' : Rule) : (r.exchange == r') = (r == r'.exchange) := by
  cases r <;> cases r' <;> rfl

theorem between_exchange {α : Type} [DecidableEq α] (base : α) (left right : Option α) :
    between base right left = (between base left right).exchange := by
  by_cases hl : left = some base
  · by_cases hr : right = some base
    · rw [hl, hr, between_unchanged]
      rfl
    · rw [hl, between_base_left hr, between_base_right hr]
      rfl
  by_cases hr : right = some base
  · rw [hr, between_base_left hl, between_base_right hl]
    rfl
  by_cases hlr : left = right
  · rw [← hlr]
    cases left with
    | none =>
      rw [between_gone]
      rfl
    | some new =>
      rw [between_same hl]
      rfl
  · rw [between_of_ne hl hr hlr, between_of_ne hr hl (Ne.symm hlr)]
    rfl

end Rule

/-- The counts for the exchanged sides. -/
def Tally.exchange (t : Tally) : Tally :=
  { t with patchedOnly := t.modifiedOnly, modifiedOnly := t.patchedOnly }

theorem Tally.count_exchange (t : Tally) (r : Rule) : t.exchange.count r = t.count r.exchange := by
  cases r <;> rfl

/-- The conflict of the exchanged sides. -/
def Conflict.exchange (c : Conflict) : Conflict :=
  { c with modified := c.patched, patched := c.modified }

namespace Triple

/-- The triple with the sides exchanged. -/
def exchange (t : Triple Nat) : Triple Nat :=
  { t with modified := t.patched, patched := t.modified }

theorem conflict_exchange (t : Triple Nat) : t.exchange.conflict = t.conflict.exchange := rfl

theorem WellPlaced.exchange {t : Triple Nat} (h : t.WellPlaced) : t.exchange.WellPlaced :=
  ⟨h.baseline, h.patched, h.modified⟩

theorem rule_exchange (t : Triple Nat) : t.exchange.rule = t.rule.exchange :=
  Rule.between_exchange _ _ _

theorem winner_exchange (t : Triple Nat) : t.exchange.winner = t.winner :=
  congrArg (Option.getD · t.baseline.subtree) (threeWay_comm _ _ _)

/-- **A position is settled in the same way** with the sides exchanged. -/
theorem settled_exchange {t : Triple Nat} (h : t.WellPlaced) : t.exchange.settled = t.settled := by
  rw [settled_eq_winner h.exchange, settled_eq_winner h, winner_exchange]

end Triple

/-- The three trees with the sides exchanged. -/
def Versions.exchange (v : Versions) : Versions :=
  { v with modified := v.patched, patched := v.modified }

/-! ## The skeleton -/

namespace Session

variable {v : Versions} {matcher : Matcher Nat} {policy : Policy} {toM toP : Mapping Nat}
  {s u s' u' : Session Nat} {merged merged' : Tree}

theorem tripleOf_exchange (b : Nat) :
    tripleOf v.exchange toP toM b = (tripleOf v toM toP b).exchange := rfl

theorem survives_exchange (b : Nat) : survives toP toM b = survives toM toP b := by
  rw [survives, survives, Bool.or_assoc, Bool.or_assoc,
    Bool.or_comm (toP.hasSrc _) (toM.hasSrc _)]

/-- Two skeletons, with their sessions, that differ in which side is which. -/
structure Exchanged (merged : Tree) (s : Session Nat) (merged' : Tree) (s' : Session Nat) :
    Prop where
  merged : merged' = merged
  baselineToMerged : s'.baselineToMerged = s.baselineToMerged
  dropped : s'.report.dropped = s.report.dropped
  decisions : s'.report.decisions = s.report.decisions.exchange
  conflicts : s'.report.conflicts = s.report.conflicts.map Conflict.exchange

section

variable (h : s.Corresponded v matcher policy toM toP)
  (hu : u.Corresponded v.exchange matcher policy toP toM)

include h hu

theorem tripleAt_exchange : u.tripleAt = fun b => (s.tripleAt b).map Triple.exchange := by
  funext b
  by_cases hb : b < v.baseline.size
  · have hb' : b < v.exchange.baseline.size := hb
    rw [tripleAt_eq h hb, tripleAt_eq hu hb', survives_exchange, tripleOf_exchange]
    cases survives toM toP b <;> rfl
  · have hb' : ¬ b < v.exchange.baseline.size := hb
    rw [tripleAt_of_not_lt h hb, tripleAt_of_not_lt hu hb', Option.map_none]

theorem keeps_exchange : v.baseline.keeps u.tripleAt = v.baseline.keeps s.tripleAt := by
  rw [tripleAt_exchange h hu, Tree.keeps_map]

variable (hM : toM.Valid v.baseline.size v.modified.size)
  (hP : toP.Valid v.baseline.size v.patched.size)

include hM hP

theorem settledAt_exchange :
    (fun b => (u.tripleAt b).map Triple.settled) = fun b => (s.tripleAt b).map Triple.settled := by
  funext b
  rw [tripleAt_exchange h hu, Option.map_map]
  refine Option.map_congr fun t ht => ?_
  obtain ⟨hb, rfl⟩ := of_tripleAt h ht
  exact Triple.settled_exchange (wellPlaced_tripleOf hM hP hb)

theorem Built.exchanged (hb : Built s merged s') (hb' : Built u merged' u') :
    Exchanged merged s' merged' u' := by
  have hkeeps := keeps_exchange h hu
  have hbaseline : v.exchange.baseline = v.baseline := rfl
  constructor
  case merged =>
    have hpruned := hb'.pruned
    rw [settledAt_exchange h hu hM hP, hu.versions, hbaseline, ← h.versions, hb.pruned] at hpruned
    exact (Tree.ext_node (Option.some.inj hpruned)).symm
  case baselineToMerged =>
    rw [hb'.baselineToMerged, hb.baselineToMerged, hu.versions, h.versions, hbaseline, hkeeps]
  case dropped =>
    rw [dropped_eq hu hb', dropped_eq h hb]
    simp only [survives_exchange, hbaseline]
  case decisions =>
    refine Tally.ext_count fun r => ?_
    rw [Tally.count_exchange, count_decisions h hb hM hP, count_decisions hu hb' hP hM, hbaseline,
      hkeeps]
    simp only [tripleOf_exchange, Triple.rule_exchange, Rule.exchange_beq]
  case conflicts =>
    rw [conflicts_eq hu hb' hP hM, conflicts_eq h hb hM hP, hbaseline, hkeeps,
      List.map_map]
    simp only [tripleOf_exchange, Triple.rule_exchange, Rule.exchange_beq,
      Triple.conflict_exchange]
    rfl

end

/-- **The skeleton does not prefer a side.** With a matcher whose answers are valid and depend on
the two trees alone, the first two stages on the exchanged trees give the same skeleton at the same
numbers, the exchanged counts and the exchanged conflicts. -/
theorem skeleton_exchange (v : Versions) (matcher : Matcher Nat) (policy : Policy)
    (hsame : ∀ asked asked' src dst, matcher.run asked src dst = matcher.run asked' src dst)
    (hanswers : ∀ asked src dst, ∃ m, matcher.run asked src dst = .ok m ∧
      m.Valid src.size dst.size) :
    ∃ s₁ merged s₂ u₁ merged' u₂,
      (start v matcher policy).correspond = (.ok (), s₁) ∧ s₁.build = (.ok merged, s₂) ∧
      (start v.exchange matcher policy).correspond = (.ok (), u₁) ∧
        u₁.build = (.ok merged', u₂) ∧
      Exchanged merged s₂ merged' u₂ := by
  obtain ⟨toM, hM, validM⟩ := hanswers 0 v.baseline v.modified
  obtain ⟨toP, hP, validP⟩ := hanswers 1 v.baseline v.patched
  obtain ⟨s₁, hs₁, h⟩ := correspond_ok policy hM hP
  obtain ⟨merged, s₂, hs₂, hb⟩ := build_ok h validM validP
  have hP' : matcher.run 0 v.exchange.baseline v.exchange.modified = .ok toP :=
    (hsame 0 1 _ _).trans hP
  have hM' : matcher.run 1 v.exchange.baseline v.exchange.patched = .ok toM :=
    (hsame 1 0 _ _).trans hM
  obtain ⟨u₁, hu₁, hu⟩ := correspond_ok policy hP' hM'
  obtain ⟨merged', u₂, hu₂, hb'⟩ := build_ok hu validP validM
  exact ⟨s₁, merged, s₂, u₁, merged', u₂, hs₁, hs₂, hu₁, hu₂,
    Built.exchanged h hu validM validP hb hb'⟩

/-- The greedy matcher is such a matcher. -/
theorem skeleton_exchange_hoisted :
    let matcher : Matcher Nat := .greedy {}
    (∀ asked asked' src dst, matcher.run asked src dst = matcher.run asked' src dst) ∧
      (∀ asked src dst, ∃ m, matcher.run asked src dst = .ok m ∧ m.Valid src.size dst.size) ∧
      ∃ s₁ merged s₂ u₁ merged' u₂,
        (start hoisted matcher .skip).correspond = (.ok (), s₁) ∧ s₁.build = (.ok merged, s₂) ∧
        (start hoisted.exchange matcher .skip).correspond = (.ok (), u₁) ∧
          u₁.build = (.ok merged', u₂) ∧
        Exchanged merged s₂ merged' u₂ := by
  have hsame : ∀ asked asked' src dst,
      (Matcher.greedy {}).run asked src dst = (Matcher.greedy {}).run asked' src dst :=
    fun _ _ _ _ => rfl
  have hanswers := MergeRun.greedy_answers {}
  exact ⟨hsame, hanswers, skeleton_exchange hoisted _ .skip hsame hanswers⟩

end Session

end TreeMerge
