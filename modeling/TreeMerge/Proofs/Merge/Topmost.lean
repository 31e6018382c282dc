import TreeMerge.Merge.Insertion
import TreeMerge.Proofs.Matching.Links

/-!
# Topmost unmatched nodes

A node without a counterpart is in the subtree of a topmost one. So is what lies below it, with or
without a counterpart; where a node below has one, its children without one are topmost again.

* `Collects`, `collects_topmostUnmatched` : an unmatched node is below one collected node, on a way
  of unmatched nodes;
* `topmostUnmatched_covers` : the nodes of the collected subtrees are those that are unmatched or
  below an unmatched node;
* `topmostUnmatched_overlap` : two collected subtrees share nodes only below a matched node;
* `topmostUnmatched_unique` : apart from that, a node is in one at most.
-/

namespace TreeMerge

/-! ## Collected nodes -/

section

variable {ν : Type} [DecidableEq ν] [NodeName ν] {t : Tree} {m : Mapping ν}

theorem mem_topmostUnmatched_iff {n : Nat} : n ∈ topmostUnmatched t m ↔
    n < t.size ∧ m.hasSrc (NodeName.ofId n) = false ∧
      ∀ p, t.parent? n = some p → m.hasSrc (NodeName.ofId p) = true := by
  rw [topmostUnmatched, List.mem_filter, mem_ids, Bool.and_eq_true, Bool.not_eq_true']
  cases t.parent? n <;> simp

/-- Nodes without a counterpart, in order, such that every node without one is below one of them on
a way without counterparts. -/
structure Collects (t : Tree) (m : Mapping ν) (roots : List Nat) : Prop where
  increasing : roots.Pairwise (· < ·)
  unmatched : ∀ c ∈ roots, c < t.size ∧ m.hasSrc (NodeName.ofId c) = false
  covers : ∀ n < t.size, m.hasSrc (NodeName.ofId n) = false → ∃! c, c ∈ roots ∧
    t.contains c n = true ∧ ∀ x, t.contains c x = true → t.contains x n = true →
      m.hasSrc (NodeName.ofId x) = false

/-- The way up from an unmatched node ends at the first one whose parent is matched. -/
theorem exists_unmatched_path {n : Nat} (hn : n < t.size)
    (hfree : m.hasSrc (NodeName.ofId n) = false) : ∃ c ∈ topmostUnmatched t m,
      t.contains c n = true ∧ ∀ x, t.contains c x = true → t.contains x n = true →
        m.hasSrc (NodeName.ofId x) = false := by
  refine Tree.induct (motive := fun n => m.hasSrc (NodeName.ofId n) = false →
    ∃ c ∈ topmostUnmatched t m, t.contains c n = true ∧ ∀ x, t.contains c x = true →
      t.contains x n = true → m.hasSrc (NodeName.ofId x) = false) ?_ ?_ n hn hfree
  · intro hroot
    refine ⟨Tree.root, mem_topmostUnmatched_iff.2 ⟨t.size_pos, hroot, by simp⟩,
      Tree.contains_root t.size_pos, fun x _ hx => ?_⟩
    rwa [Nat.le_zero.1 (Tree.le_of_contains hx)]
  · intro p c _ hc ih hcfree
    have hclt := Tree.lt_size_of_mem_children hc
    cases hp : m.hasSrc (NodeName.ofId p) with
    | true =>
      -- the way ends here
      refine ⟨c, mem_topmostUnmatched_iff.2 ⟨hclt, hcfree, fun q hq => ?_⟩,
        Tree.contains_self hclt, fun x hcx hxc => ?_⟩
      · rw [Tree.parent?_of_mem_children hc, Option.some.injEq] at hq
        rwa [← hq]
      · rwa [Nat.le_antisymm (Tree.le_of_contains hxc) (Tree.le_of_contains hcx)]
    | false =>
      obtain ⟨q, hq, hqp, hpath⟩ := ih hp
      refine ⟨q, hq, Tree.contains_trans hqp (Tree.contains_child hc), fun x hqx hxc => ?_⟩
      rcases (Tree.contains_parent_iff hc).1 hxc with rfl | hxp
      · exact hcfree
      · exact hpath x hqx hxp

/-- Of two collected nodes above a node, the lower one has a matched parent on the way from the
upper one. -/
theorem eq_of_unmatched_path {n c c' : Nat} (hc' : c' ∈ topmostUnmatched t m)
    (hpath : ∀ x, t.contains c x = true → t.contains x n = true →
      m.hasSrc (NodeName.ofId x) = false)
    (hcn : t.contains c' n = true) (hcc : t.contains c c' = true) : c = c' := by
  by_contra hne
  obtain ⟨hlt, -, hparent⟩ := mem_topmostUnmatched_iff.1 hc'
  have hroot : c' ≠ Tree.root := by
    rintro rfl
    exact hne (Nat.le_zero.1 (Tree.le_of_contains hcc))
  obtain ⟨p, hp⟩ := Tree.exists_parent hlt hroot
  have hcp := ((Tree.contains_parent_iff hp).1 hcc).resolve_left hne
  have hfree := hpath p hcp (Tree.contains_trans (Tree.contains_child hp) hcn)
  rw [hparent p (Tree.parent?_of_mem_children hp)] at hfree
  cases hfree

/-- **No unmatched node is lost**, whatever the correspondence. -/
theorem collects_topmostUnmatched (t : Tree) (m : Mapping ν) :
    Collects t m (topmostUnmatched t m) where
  increasing := List.pairwise_lt_range.filter _
  unmatched := fun _ hc => ⟨(mem_topmostUnmatched_iff.1 hc).1, (mem_topmostUnmatched_iff.1 hc).2.1⟩
  covers := by
    intro n hn hfree
    obtain ⟨c, hc, hcn, hpath⟩ := exists_unmatched_path hn hfree
    refine ⟨c, ⟨hc, hcn, hpath⟩, fun c' ⟨hc', hcn', hpath'⟩ => ?_⟩
    rcases Tree.contains_or_contains hcn hcn' with hcc | hcc
    · exact (eq_of_unmatched_path hc' hpath hcn' hcc).symm
    · exact eq_of_unmatched_path hc hpath' hcn hcc

end

/-! ## Collected subtrees -/

variable {t : Tree} {m : Mapping Nat}

theorem mem_topmostUnmatched {n : Nat} : n ∈ topmostUnmatched t m ↔
    n < t.size ∧ m.hasSrc n = false ∧ ∀ p, t.parent? n = some p → m.hasSrc p = true :=
  mem_topmostUnmatched_iff

theorem nodup_topmostUnmatched (t : Tree) (m : Mapping Nat) : (topmostUnmatched t m).Nodup :=
  List.nodup_range.filter _

theorem topmostUnmatched_eq_nil (h : ∀ n < t.size, m.hasSrc n = true) :
    topmostUnmatched t m = [] := by
  rw [List.eq_nil_iff_forall_not_mem]
  intro n hn
  obtain ⟨hlt, hfree, -⟩ := mem_topmostUnmatched.1 hn
  rw [h n hlt] at hfree
  cases hfree

theorem exists_topmost {n : Nat} (hn : n < t.size) (hfree : m.hasSrc n = false) :
    ∃ q ∈ topmostUnmatched t m, t.contains q n = true := by
  obtain ⟨q, hq, hqn, -⟩ := exists_unmatched_path (m := m) hn hfree
  exact ⟨q, hq, hqn⟩

/-- **The collected subtrees** hold the unmatched nodes and all that is below them. -/
theorem topmostUnmatched_covers {n : Nat} :
    (∃ q ∈ topmostUnmatched t m, t.contains q n = true) ↔
      ∃ a, t.contains a n = true ∧ m.hasSrc a = false := by
  constructor
  · rintro ⟨q, hq, hqn⟩
    exact ⟨q, hqn, (mem_topmostUnmatched.1 hq).2.1⟩
  · rintro ⟨a, han, ha⟩
    obtain ⟨q, hq, hqa⟩ := exists_topmost (Tree.lt_size_of_contains han) ha
    exact ⟨q, hq, Tree.contains_trans hqa han⟩

/-- A collected node inside another collected subtree hangs on a matched node there. -/
theorem topmostUnmatched_overlap {q q' : Nat} (hq' : q' ∈ topmostUnmatched t m) (hne : q ≠ q')
    (h : t.contains q q' = true) :
    ∃ p, t.parent? q' = some p ∧ t.contains q p = true ∧ m.hasSrc p = true := by
  obtain ⟨hlt, -, hparent⟩ := mem_topmostUnmatched.1 hq'
  have hroot : q' ≠ Tree.root := by
    rintro rfl
    have := Tree.le_of_contains h
    rw [Tree.root] at this hne
    omega
  obtain ⟨p, hp⟩ := Tree.exists_parent hlt hroot
  have hpar := Tree.parent?_of_mem_children hp
  exact ⟨p, hpar, ((Tree.contains_parent_iff hp).1 h).resolve_left hne, hparent p hpar⟩

/-- Where no matched node is below an unmatched one, collected subtrees share no node. -/
theorem topmostUnmatched_unique {n q q' : Nat}
    (h : ∀ a b, t.contains a b = true → t.contains b n = true → m.hasSrc b = true →
      m.hasSrc a = true)
    (hq : q ∈ topmostUnmatched t m) (hq' : q' ∈ topmostUnmatched t m)
    (hqn : t.contains q n = true) (hqn' : t.contains q' n = true) : q = q' := by
  have hnot : ∀ {q q'}, q ∈ topmostUnmatched t m → q' ∈ topmostUnmatched t m →
      t.contains q' n = true → t.contains q q' = true → q = q' := by
    intro q q' hq hq' hqn' hqq'
    by_contra hne
    obtain ⟨p, hp, hqp, hlinked⟩ := topmostUnmatched_overlap hq' hne hqq'
    have hpn := Tree.contains_trans (Tree.contains_child (Tree.mem_children_iff.2 hp)) hqn'
    have hfree := (mem_topmostUnmatched.1 hq).2.1
    rw [h q p hqp hpn hlinked] at hfree
    cases hfree
  rcases Tree.contains_or_contains hqn hqn' with hc | hc
  · exact hnot hq hq' hqn' hc
  · exact (hnot hq' hq hqn hc).symm

end TreeMerge
