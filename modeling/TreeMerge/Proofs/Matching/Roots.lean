import TreeMerge.Proofs.Matching.Saturation

/-!
# The roots of two trees

From the top down a root is linked only where its whole tree is, and the whole of a tree is linked
with a node below the other root only where it stands there once more. The last step links roots of
one kind that are open. So roots of one kind find each other unless one tree, tall enough, stands
inside the other; then its root is linked there.

* `rootsMeet_of_covered` : where neither tree stands inside the other, the roots are linked with
  each other or open;
* `TallTwins.exists_linked_src`, `TallTwins.exists_linked_dst` : where one does, its root is linked
  with that of a twin;
* `greedyMatch_links_roots`, `greedyMatch_roots` : when roots of one kind are linked, in particular
  in trees of one size;
* `greedyMatch_root_links` : when exactly the roots are linked, and what they are linked with if
  not;
* `block_roots_apart` : roots of one kind that are not linked.
-/

namespace TreeMerge

variable {src dst : Tree} {m m' : Mapping Nat} {minHeight : Rat}

theorem Tree.eq_root_of_same {t : Tree} {a : Nat} (ha : a < t.size)
    (h : t.subtree a = t.subtree root) : a = root := by
  have hroot : t.contains root a = true := contains_root ha
  exact (eq_of_contains_of_size hroot
    (subtreeSize_congr (lt_size_of_contains hroot) ha h.symm)).symm

theorem Tree.eq_root_of_contains {t : Tree} {a : Nat} (h : t.contains a root = true) :
    a = root := by
  have := le_of_contains h
  unfold root at this ⊢
  omega

/-! ## Open roots -/

/-- The roots are linked with each other, or both are open. -/
def RootsMeet (m : Mapping Nat) : Prop :=
  (Tree.root, Tree.root) ∈ m.pairs ∨ m.hasSrc Tree.root = false ∧ m.hasDst Tree.root = false

theorem rootsMeet_of_covered (hm : CoveredByCopies minHeight src dst m)
    (hsrc : ∀ d, TallTwins minHeight src dst Tree.root d → d = Tree.root)
    (hdst : ∀ s, TallTwins minHeight src dst s Tree.root → s = Tree.root) : RootsMeet m := by
  by_cases hlinked : (Tree.root, Tree.root) ∈ m.pairs
  · exact Or.inl hlinked
  · refine Or.inr ⟨Mapping.hasSrc_eq_false.2 ?_, Mapping.hasDst_eq_false.2 ?_⟩
    · intro p hp hroot
      obtain ⟨s, d, ht, hc, hin, -⟩ := hm p hp
      rw [hroot] at hin
      obtain rfl := Tree.eq_root_of_contains hin
      obtain rfl := hsrc d ht
      exact hlinked hc.root_linked
    · intro p hp hroot
      obtain ⟨s, d, ht, hc, -, hin⟩ := hm p hp
      rw [hroot] at hin
      obtain rfl := Tree.eq_root_of_contains hin
      obtain rfl := hdst s ht
      exact hlinked hc.root_linked

theorem RootsMeet.grows (h : RootsMeet m)
    (hg : m.Grows m' (· ≠ Tree.root) (· ≠ Tree.root)) : RootsMeet m' := by
  rcases h with h | ⟨ha, hb⟩
  · exact Or.inl (hg.mem h)
  · refine Or.inr ⟨?_, ?_⟩
    · rw [hg.hasSrc_eq fun h => h rfl, ha]
    · rw [hg.hasDst_eq fun h => h rfl, hb]

/-! ## Trees inside each other -/

namespace TallTwins

/-- The tree of the source is linked with a twin. -/
theorem exists_linked_src {d : Nat} (ht : TallTwins minHeight src dst Tree.root d)
    (hj : Joined src dst m Tree.root d) :
    ∃ y, TallTwins minHeight src dst Tree.root y ∧ (Tree.root, y) ∈ m.pairs := by
  rcases hj with ⟨y, hy⟩ | ⟨x, hx⟩
  · exact ⟨y, hy.tallTwins ht.tall, hy.root_linked⟩
  · obtain rfl := Tree.eq_root_of_same hx.src_lt (hx.same.trans ht.same.symm)
    exact ⟨d, ht, hx.root_linked⟩

/-- A twin is linked with the tree of the destination. -/
theorem exists_linked_dst {s : Nat} (ht : TallTwins minHeight src dst s Tree.root)
    (hj : Joined src dst m s Tree.root) :
    ∃ x, TallTwins minHeight src dst x Tree.root ∧ (x, Tree.root) ∈ m.pairs := by
  rcases hj with ⟨y, hy⟩ | ⟨x, hx⟩
  · obtain rfl := Tree.eq_root_of_same hy.dst_lt (hy.same.symm.trans ht.same)
    exact ⟨s, ht, hy.root_linked⟩
  · refine ⟨x, hx.tallTwins ?_, hx.root_linked⟩
    rw [isTall_congr hx.src_lt ht.src_lt (hx.same.trans ht.same.symm)]
    exact ht.tall

end TallTwins

/-! ## The matcher -/

/-- Roots of one kind are linked if neither tree stands inside the other. -/
theorem greedyMatch_links_roots {round : Rounding} {options : MatcherOptions}
    (hkind : src.kind Tree.root = dst.kind Tree.root)
    (hsrc : ∀ d, TallTwins options.minHeight src dst Tree.root d → d = Tree.root)
    (hdst : ∀ s, TallTwins options.minHeight src dst s Tree.root → s = Tree.root)
    (hm : greedyMatch round options src dst = .ok m) : (Tree.root, Tree.root) ∈ m.pairs := by
  obtain ⟨m₀, h₀, hs₀, hcovered, -⟩ := topDown_saturated round options.minHeight src dst
  obtain ⟨m₁, m₂, hg, h₂, -, hmem, hlink⟩ := bottomUp_ok round options.minDice hs₀
  obtain rfl : m = m₂ := Except.ok.inj (hm.symm.trans ((bind_of_eq_ok h₀).trans h₂))
  rcases (rootsMeet_of_covered hcovered hsrc hdst).grows hg with hroots | ⟨ha, hb⟩
  · exact hmem _ hroots
  · exact hlink ha hb hkind

/-- **Roots of one kind are linked** in trees of one size. -/
theorem greedyMatch_roots {round : Rounding} {options : MatcherOptions}
    (hsize : src.size = dst.size) (hkind : src.kind Tree.root = dst.kind Tree.root)
    (hm : greedyMatch round options src dst = .ok m) : (Tree.root, Tree.root) ∈ m.pairs := by
  refine greedyMatch_links_roots hkind (fun d ht => ?_) (fun s ht => ?_) hm
  · have hlen := Tree.subtreeSize_congr ht.src_lt ht.dst_lt ht.same
    rw [Tree.subtreeSize_root, hsize, ← Tree.subtreeSize_root] at hlen
    exact (Tree.eq_of_contains_of_size (Tree.contains_root ht.dst_lt) hlen).symm
  · have hlen := Tree.subtreeSize_congr ht.src_lt ht.dst_lt ht.same
    rw [Tree.subtreeSize_root, ← hsize, ← Tree.subtreeSize_root] at hlen
    exact (Tree.eq_of_contains_of_size (Tree.contains_root ht.src_lt) hlen.symm).symm

/-- **When exactly the roots are linked**: if they are of one kind and neither tree, of at least the
given height, is identical to a subtree below the root of the other. Where one is, its root is
linked with the root of such a subtree. -/
theorem greedyMatch_root_links (round : Rounding) (options : MatcherOptions) (src dst : Tree) :
    ∃ m, greedyMatch round options src dst = .ok m ∧
      (m.dst? Tree.root = some Tree.root ↔ src.kind Tree.root = dst.kind Tree.root ∧
        (∀ d, TallTwins options.minHeight src dst Tree.root d → d = Tree.root) ∧
        ∀ s, TallTwins options.minHeight src dst s Tree.root → s = Tree.root) ∧
      (∀ d, TallTwins options.minHeight src dst Tree.root d →
        ∃ y, TallTwins options.minHeight src dst Tree.root y ∧ m.dst? Tree.root = some y) ∧
      ∀ s, TallTwins options.minHeight src dst s Tree.root →
        ∃ x, TallTwins options.minHeight src dst x Tree.root ∧ m.dst? x = some Tree.root := by
  obtain ⟨m, hm, hsound, hjoined⟩ := greedyMatch_saturated round options src dst
  have hmem : ∀ a b, m.dst? a = some b ↔ (a, b) ∈ m.pairs := fun a b =>
    Mapping.dst?_eq_some_iff hsound.src_nodup
  have hsrc : ∀ d, TallTwins options.minHeight src dst Tree.root d →
      ∃ y, TallTwins options.minHeight src dst Tree.root y ∧ m.dst? Tree.root = some y := by
    intro d ht
    obtain ⟨y, hy, hlink⟩ := ht.exists_linked_src (hjoined _ d ht)
    exact ⟨y, hy, (hmem _ _).2 hlink⟩
  have hdst : ∀ s, TallTwins options.minHeight src dst s Tree.root →
      ∃ x, TallTwins options.minHeight src dst x Tree.root ∧ m.dst? x = some Tree.root := by
    intro s ht
    obtain ⟨x, hx, hlink⟩ := ht.exists_linked_dst (hjoined s _ ht)
    exact ⟨x, hx, (hmem _ _).2 hlink⟩
  refine ⟨m, hm, ⟨fun hlinked => ⟨?_, fun d ht => ?_, fun s ht => ?_⟩, ?_⟩, hsrc, hdst⟩
  · exact hsound.kind_eq _ ((hmem _ _).1 hlinked)
  · obtain ⟨y, hy, hroot⟩ := hsrc d ht
    obtain rfl : y = Tree.root := Option.some.inj (hroot.symm.trans hlinked)
    exact Tree.eq_root_of_same ht.dst_lt (ht.same.symm.trans hy.same)
  · obtain ⟨x, hx, hroot⟩ := hdst s ht
    -- two nodes linked with the root of `dst` are one
    have hinj := List.inj_on_of_nodup_map hsound.dst_nodup ((hmem _ _).1 hroot)
      ((hmem _ _).1 hlinked) rfl
    obtain rfl : x = Tree.root := congrArg Prod.fst hinj
    exact Tree.eq_root_of_same ht.src_lt (ht.same.trans hx.same.symm)
  · rintro ⟨hkind, hs, hd⟩
    exact (hmem _ _).2 (greedyMatch_links_roots hkind hs hd hm)

/-- A block, and a block around it. -/
def block : Tree :=
  .ofNode (.node ⟨"B", ""⟩ [.node ⟨"x", ""⟩ []])

def blockInBlock : Tree :=
  .ofNode (.node ⟨"B", ""⟩ [.node ⟨"B", ""⟩ [.node ⟨"x", ""⟩ []]])

/-- The block is found where it stands, inside the block around it. -/
theorem block_roots_apart :
    block.kind Tree.root = blockInBlock.kind Tree.root ∧
      ∃ m, greedyMatch roundBinary64 {} block blockInBlock = .ok m ∧ m.dst? Tree.root = some 1 := by
  refine ⟨rfl, ?_⟩
  have ht : TallTwins 2 block blockInBlock Tree.root 1 :=
    ⟨by decide, by decide, by decide, by decide⟩
  have hinner : ∀ y < blockInBlock.size,
      block.isomorphic Tree.root blockInBlock y = true → y = 1 := by
    decide
  obtain ⟨m, hm, hsound, hjoined⟩ := greedyMatch_saturated roundBinary64 {} block blockInBlock
  obtain ⟨y, hy, hlink⟩ := ht.exists_linked_src (hjoined _ _ ht)
  obtain rfl := hinner y hy.dst_lt hy.isomorphic
  exact ⟨m, hm, (Mapping.dst?_eq_some_iff hsound.src_nodup).2 hlink⟩

end TreeMerge
