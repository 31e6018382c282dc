import TreeMerge.Merge.Decision
import TreeMerge.Proofs.Tree.Order

/-!
# Decisions are always made

Where a triple consists of nodes of its trees, the rule decides it, and only the subtrees of the
three nodes matter.

* `threeWay`, `Rule.between` : what a base and two sides come to, and by which rule;
* `Triple.WellPlaced` : a triple whose nodes belong to their trees;
* `Triple.decide_eq` : the decision in terms of the subtrees;
* `Triple.settled_eq_winner`, `Triple.settled_cases`, `Triple.settled_eq_threeWay` : what then
  stands at the position;
* `decideAll_ok`, `of_decideAll_ok` : one decision for each of several triples;
* `Tally.count`, `Tally.count_foldl` : what counting decisions gives.
-/

namespace TreeMerge

/-! ## Three values -/

section

variable {α : Type} [DecidableEq α]

/-- What the side that changed has; where both changed, what they agree on, or else the base. -/
def threeWay (base left right : α) : α :=
  if base = left then right
  else if base = right then left
  else if left = right then left
  else base

theorem threeWay_map {β : Type} [DecidableEq β] {f : α → β}
    (hf : Function.Injective f) (base left right : α) :
    threeWay (f base) (f left) (f right) = f (threeWay base left right) := by
  unfold threeWay
  simp only [hf.eq_iff]
  split
  · rfl
  split
  · rfl
  split <;> rfl

theorem threeWay_base_left (base right : α) : threeWay base base right = right :=
  if_pos rfl

theorem threeWay_base_right (base left : α) : threeWay base left base = left := by
  unfold threeWay
  split
  · assumption
  · exact if_pos rfl

theorem threeWay_same (base new : α) : threeWay base new new = new := by
  unfold threeWay
  simp

theorem threeWay_of_ne {base left right : α} (hl : base ≠ left) (hr : base ≠ right)
    (hlr : left ≠ right) : threeWay base left right = base := by
  rw [threeWay, if_neg hl, if_neg hr, if_neg hlr]

theorem threeWay_comm (base left right : α) :
    threeWay base left right = threeWay base right left := by
  by_cases hl : base = left
  · rw [← hl, threeWay_base_left, threeWay_base_right]
  by_cases hr : base = right
  · rw [← hr, threeWay_base_left, threeWay_base_right]
  by_cases hlr : left = right
  · rw [hlr]
  · rw [threeWay_of_ne hl hr hlr, threeWay_of_ne hr hl (Ne.symm hlr)]

theorem threeWay_mem (base left right : α) :
    threeWay base left right = base ∨ threeWay base left right = left ∨
      threeWay base left right = right := by
  unfold threeWay
  split
  · exact Or.inr (Or.inr rfl)
  split
  · exact Or.inr (Or.inl rfl)
  split
  · exact Or.inr (Or.inl rfl)
  · exact Or.inl rfl

/-- The rule for a base and two sides, each of which may be missing. -/
def Rule.between (base : α) (left right : Option α) : Rule :=
  if left = some base then
    if right = some base then .unchanged else .patchedOnly
  else if right = some base then .modifiedOnly
  else if left = right ∧ left ≠ none then .convergent
  else .diverged

namespace Rule

variable {base : α} {left right : Option α}

theorem between_unchanged (base : α) : between base (some base) (some base) = .unchanged := by
  rw [between, if_pos rfl, if_pos rfl]

theorem between_base_left (hr : right ≠ some base) :
    between base (some base) right = .patchedOnly := by
  rw [between, if_pos rfl, if_neg hr]

theorem between_base_right (hl : left ≠ some base) :
    between base left (some base) = .modifiedOnly := by
  rw [between, if_neg hl, if_pos rfl]

theorem between_same {new : α} (hne : some new ≠ some base) :
    between base (some new) (some new) = .convergent := by
  rw [between, if_neg hne, if_neg hne, if_pos ⟨rfl, Option.some_ne_none new⟩]

theorem between_gone (base : α) : between base none none = .diverged := by
  simp [between]

theorem between_alike (base : α) (new : Option α) : between base new new =
    if new = some base then .unchanged else if new = none then .diverged else .convergent := by
  by_cases hb : new = some base
  · rw [if_pos hb, hb, between_unchanged]
  rw [if_neg hb]
  cases new with
  | none => exact between_gone base
  | some new => exact between_same hb

theorem between_of_ne (hl : left ≠ some base) (hr : right ≠ some base) (hlr : left ≠ right) :
    between base left right = .diverged := by
  rw [between, if_neg hl, if_neg hr, if_neg fun h => hlr h.1]

end Rule

end

/-! ## Triples -/

/-- The subtree of a node. -/
def Ref.subtree (r : Ref Nat) : Node :=
  r.tree.subtree r.id

theorem Ref.checked_of_lt {r : Ref Nat} (h : r.id < r.tree.size) : r.checked = .ok r.id :=
  Tree.locate_nat (by simpa [Tree.has] using h)

theorem Ref.content_of_lt {r : Ref Nat} (h : r.id < r.tree.size) : r.content = r.subtree.value := by
  rw [Ref.content, Ref.checked_of_lt h]
  rfl

/-- Two nodes are identical if their subtrees are equal, and no node is identical to a missing
one. -/
theorem identical_some {a : Ref Nat} {b : Option (Ref Nat)} (ha : a.id < a.tree.size)
    (hb : ∀ r ∈ b, r.id < r.tree.size) :
    identical (some a) b = .ok (b.map Ref.subtree == some a.subtree) := by
  cases b with
  | none => rfl
  | some b =>
    have hiff := Tree.isomorphic_iff ha (hb b rfl)
    have heq : a.tree.isomorphic a.id b.tree b.id =
        ((some b).map Ref.subtree == some a.subtree) := by
      rw [Bool.eq_iff_iff, hiff, beq_iff_eq, Option.map_some, Option.some.injEq]
      exact eq_comm
    rw [identical, Ref.checked_of_lt ha, Ref.checked_of_lt (hb b rfl), ← heq]
    rfl

namespace Triple

theorem choose_ok {r : Ref Nat} (h : r.id < r.tree.size) (source : Version) (rule : Rule) :
    choose source r rule = .ok ⟨source, rule, r.subtree.value⟩ := by
  rw [choose, Ref.checked_of_lt h]
  rfl

/-- All nodes of a triple belong to their trees. -/
structure WellPlaced (t : Triple Nat) : Prop where
  baseline : t.baseline.id < t.baseline.tree.size
  modified : ∀ r ∈ t.modified, r.id < r.tree.size
  patched : ∀ r ∈ t.patched, r.id < r.tree.size

/-- The rule that the subtrees of the nodes lead to. -/
def rule (t : Triple Nat) : Rule :=
  .between t.baseline.subtree (t.modified.map Ref.subtree) (t.patched.map Ref.subtree)

/-- The subtree whose root gives the content; the baseline's where the one that wins is missing. -/
def winner (t : Triple Nat) : Node :=
  (threeWay (some t.baseline.subtree) (t.modified.map Ref.subtree)
    (t.patched.map Ref.subtree)).getD t.baseline.subtree

/-- **A triple of nodes of its trees is decided** by the subtrees of the nodes. -/
theorem decide_eq {t : Triple Nat} (h : t.WellPlaced) :
    ∃ source, t.decide = .ok ⟨source, t.rule, t.winner.value⟩ := by
  obtain ⟨b, m, p⟩ := t
  have hb : b.id < b.tree.size := h.baseline
  rw [decide, identical_some hb h.modified, identical_some hb h.patched, rule, winner]
  simp only [bind, Except.bind]
  by_cases hm : m.map Ref.subtree = some b.subtree
  · rw [hm, beq_self_eq_true, threeWay_base_left]
    by_cases hp : p.map Ref.subtree = some b.subtree
    · rw [hp, beq_self_eq_true, Rule.between_unchanged]
      exact ⟨_, choose_ok hb _ _⟩
    · rw [beq_eq_false_iff_ne.2 hp, Rule.between_base_left hp]
      cases p with
      | none => exact ⟨_, choose_ok hb _ _⟩
      | some p => exact ⟨_, choose_ok (h.patched p rfl) _ _⟩
  rw [beq_eq_false_iff_ne.2 hm]
  by_cases hp : p.map Ref.subtree = some b.subtree
  · rw [hp, beq_self_eq_true, threeWay_base_right, Rule.between_base_right hm]
    cases m with
    | none => exact ⟨_, choose_ok hb _ _⟩
    | some m => exact ⟨_, choose_ok (h.modified m rfl) _ _⟩
  rw [beq_eq_false_iff_ne.2 hp]
  -- neither side has the node as it was: what is left is whether they agree
  by_cases hmp : m.map Ref.subtree = p.map Ref.subtree
  · rw [← hmp, threeWay_same]
    cases m with
    | none =>
      rw [Option.map_none, Rule.between_gone]
      exact ⟨_, choose_ok hb _ _⟩
    | some m =>
      have hm' := h.modified m rfl
      rw [Option.map_some, Rule.between_same hm]
      simp only [identical_some hm' h.patched, ← hmp, Option.map_some, beq_self_eq_true, if_true]
      exact ⟨_, choose_ok hm' _ _⟩
  · rw [Rule.between_of_ne hm hp hmp, threeWay_of_ne (Ne.symm hm) (Ne.symm hp) hmp]
    cases m with
    | none => exact ⟨_, choose_ok hb _ _⟩
    | some m =>
      have hne : (p.map Ref.subtree == some m.subtree) = false :=
        beq_eq_false_iff_ne.2 (Ne.symm hmp)
      simp only [identical_some (h.modified m rfl) h.patched, hne, Bool.false_eq_true, if_false]
      exact ⟨_, choose_ok hb _ _⟩

theorem decide_ok {t : Triple Nat} (h : t.WellPlaced) : ∃ d, t.decide = .ok d := by
  obtain ⟨source, hd⟩ := decide_eq h
  exact ⟨_, hd⟩

theorem settled_eq {t : Triple Nat} {d : Decision} (h : t.decide = .ok d) :
    t.settled = d.content := by
  rw [settled, h]

theorem rule_eq {t : Triple Nat} (h : t.WellPlaced) {d : Decision} (hd : t.decide = .ok d) :
    d.rule = t.rule := by
  obtain ⟨source, heq⟩ := decide_eq h
  rw [Except.ok.inj (hd.symm.trans heq)]

theorem settled_eq_winner {t : Triple Nat} (h : t.WellPlaced) : t.settled = t.winner.value := by
  obtain ⟨source, hd⟩ := decide_eq h
  exact settled_eq hd

/-- What stands at a position is the content of the baseline node or of a counterpart. -/
theorem settled_cases {t : Triple Nat} (h : t.WellPlaced) :
    t.settled = t.baseline.subtree.value ∨ (∃ r ∈ t.modified, t.settled = r.subtree.value) ∨
      ∃ r ∈ t.patched, t.settled = r.subtree.value := by
  rw [settled_eq_winner h, winner]
  rcases threeWay_mem (some t.baseline.subtree) (t.modified.map Ref.subtree)
    (t.patched.map Ref.subtree) with hw | hw | hw
  · exact Or.inl (by rw [hw]; rfl)
  · rw [hw]
    cases hm : t.modified with
    | none => exact Or.inl rfl
    | some m => exact Or.inr (Or.inl ⟨m, rfl, rfl⟩)
  · rw [hw]
    cases hp : t.patched with
    | none => exact Or.inl rfl
    | some p => exact Or.inr (Or.inr ⟨p, rfl, rfl⟩)

/-- **The rule where both sides have a counterpart** compares whole subtrees. -/
theorem settled_eq_threeWay {b m p : Ref Nat} (h : (⟨b, some m, some p⟩ : Triple Nat).WellPlaced) :
    (⟨b, some m, some p⟩ : Triple Nat).settled =
      (threeWay (b.tree.subtree b.id) (m.tree.subtree m.id) (p.tree.subtree p.id)).value := by
  rw [settled_eq_winner h, winner]
  simp only [Option.map_some]
  rw [threeWay_map (fun _ _ => Option.some.inj)]
  rfl

/-- Whether both sides changed a position differently. -/
def diverges (t : Triple Nat) : Bool :=
  match t.decide with
  | .ok d => d.rule == .diverged
  | .error _ => false

theorem diverges_eq {t : Triple Nat} {d : Decision} (h : t.decide = .ok d) :
    t.diverges = (d.rule == .diverged) := by
  rw [diverges, h]

theorem diverges_iff {t : Triple Nat} (h : t.WellPlaced) :
    t.diverges = true ↔ t.rule = .diverged := by
  obtain ⟨d, hd⟩ := decide_ok h
  rw [diverges_eq hd, beq_iff_eq, rule_eq h hd]

end Triple

/-! ## Several positions -/

/-- Several triples of nodes of their trees are decided. -/
theorem decideAll_ok (ts : List (Triple Nat)) (h : ∀ t ∈ ts, t.WellPlaced) :
    ∃ made, decideAll ts = (made, none) := by
  induction ts with
  | nil => exact ⟨[], rfl⟩
  | cons t ts ih =>
    obtain ⟨made, hmade⟩ := ih fun t ht => h t (List.mem_cons_of_mem _ ht)
    obtain ⟨d, hd⟩ := Triple.decide_ok (h t List.mem_cons_self)
    exact ⟨(t, d) :: made, by rw [decideAll, hd, hmade]⟩

/-- One decision for each triple. -/
theorem of_decideAll_ok {ts : List (Triple Nat)} {made : List (Triple Nat × Decision)}
    (h : decideAll ts = (made, none)) :
    made.map Prod.fst = ts ∧ ∀ p ∈ made, p.1.decide = .ok p.2 := by
  induction ts generalizing made with
  | nil =>
    rw [decideAll, Prod.mk.injEq] at h
    rw [← h.1]
    exact ⟨rfl, fun p hp => absurd hp List.not_mem_nil⟩
  | cons t ts ih =>
    rw [decideAll] at h
    cases hd : t.decide with
    | error e => simp [hd] at h
    | ok d =>
      obtain ⟨made', fault, hrest⟩ : ∃ made' fault, decideAll ts = (made', fault) := ⟨_, _, rfl⟩
      simp only [hd, hrest, Prod.mk.injEq] at h
      obtain ⟨rfl, rfl⟩ := h
      obtain ⟨hfst, hall⟩ := ih hrest
      refine ⟨by rw [List.map_cons, hfst], fun p hp => ?_⟩
      rcases List.mem_cons.1 hp with rfl | hp
      · exact hd
      · exact hall p hp

/-- The triples that a rule decided are those it applies to. -/
theorem map_fst_filter_rule {made : List (Triple Nat × Decision)}
    (hdecide : ∀ d ∈ made, d.1.decide = .ok d.2) (hplaced : ∀ d ∈ made, d.1.WellPlaced) (r : Rule) :
    (made.filter fun d => d.2.rule == r).map Prod.fst =
      (made.map Prod.fst).filter fun t => t.rule == r := by
  rw [List.filter_map]
  congr 1
  apply List.filter_congr
  intro d hd
  rw [Triple.rule_eq (hplaced d hd) (hdecide d hd)]
  rfl

namespace Tally

variable {α : Type}

theorem total_foldl (rule : α → Rule) (l : List α) (t : Tally) :
    (l.foldl (fun t a => t.add (rule a)) t).total = t.total + l.length := by
  induction l generalizing t with
  | nil => rfl
  | cons a l ih => rw [List.foldl_cons, ih, total_add, List.length_cons]; omega

/-- How often a rule was used. -/
def count (t : Tally) : Rule → Nat
  | .unchanged => t.unchanged
  | .patchedOnly => t.patchedOnly
  | .modifiedOnly => t.modifiedOnly
  | .convergent => t.convergent
  | .diverged => t.diverged

theorem ext_count {t u : Tally} (h : ∀ r, t.count r = u.count r) : t = u := by
  rw [Tally.mk.injEq]
  exact ⟨h .unchanged, h .patchedOnly, h .modifiedOnly, h .convergent, h .diverged⟩

theorem count_add (t : Tally) (r r' : Rule) :
    (t.add r).count r' = t.count r' + if r = r' then 1 else 0 := by
  cases r <;> cases r' <;> rfl

/-- Counting the uses of rules counts, for each, where it is used. -/
theorem count_foldl (rule : α → Rule) (l : List α) (t : Tally) (r : Rule) :
    (l.foldl (fun t a => t.add (rule a)) t).count r =
      t.count r + (l.filter fun a => rule a == r).length := by
  induction l generalizing t with
  | nil => rfl
  | cons a l ih =>
    rw [List.foldl_cons, ih, count_add, List.filter_cons]
    by_cases h : rule a = r
    · simp only [h, beq_self_eq_true, if_true, List.length_cons]
      omega
    · simp only [h, beq_eq_false_iff_ne.2 h, if_false, Bool.false_eq_true]
      omega

end Tally

end TreeMerge
