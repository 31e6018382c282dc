import TreeMerge.Proofs.Matching.Soundness

/-!
# Subtrees linked as wholes

From the top down, identical free subtrees are linked as wholes. A subtree that is no taller than
what is linked then is never linked in part: either it lies in what is linked, and has a copy of its
own on the other side, or it stays free.

* `TallTwins` : identical subtrees of a least height;
* `Copied` : a subtree is linked node by node with an identical one;
* `BothFree`, `Joined` : two subtrees are free, or one of them is copied;
* `CopyStep` : what linking identical free subtrees does;
* `CopyStep.joined_or_free` : it leaves two identical subtrees, no taller, free or joins one of
  them;
* `CoveredByCopies`, `CopyStep.covered` : every link belongs to a copied tall subtree.
-/

namespace TreeMerge

variable {src dst : Tree} {m m' : Mapping Nat} {minHeight : Rat} {s d e f : Nat}

/-- Identical subtrees of at least the given height. -/
structure TallTwins (minHeight : Rat) (src dst : Tree) (s d : Nat) : Prop where
  src_lt : s < src.size
  dst_lt : d < dst.size
  tall : isTall minHeight src s = true
  isomorphic : src.isomorphic s dst d = true

namespace TallTwins

theorem same (h : TallTwins minHeight src dst s d) : src.subtree s = dst.subtree d :=
  (Tree.isomorphic_iff h.src_lt h.dst_lt).1 h.isomorphic

theorem height_eq (h : TallTwins minHeight src dst s d) : src.height s = dst.height d :=
  Tree.height_congr h.src_lt h.dst_lt h.same

end TallTwins

/-! ## Copies -/

/-- The subtree of `s` is linked node by node with the identical subtree of `d`. -/
structure Copied (src dst : Tree) (m : Mapping Nat) (s d : Nat) : Prop where
  src_lt : s < src.size
  dst_lt : d < dst.size
  same : src.subtree s = dst.subtree d
  linked : ∀ k < src.subtreeSize s, (s + k, d + k) ∈ m.pairs

namespace Copied

theorem mono (h : Copied src dst m s d) (hm : ∀ p ∈ m.pairs, p ∈ m'.pairs) :
    Copied src dst m' s d :=
  ⟨h.src_lt, h.dst_lt, h.same, fun k hk => hm _ (h.linked k hk)⟩

theorem root_linked (h : Copied src dst m s d) : (s, d) ∈ m.pairs :=
  h.linked 0 (Tree.subtreeSize_pos h.src_lt)

theorem tallTwins (h : Copied src dst m s d) (htall : isTall minHeight src s = true) :
    TallTwins minHeight src dst s d :=
  ⟨h.src_lt, h.dst_lt, htall, (Tree.isomorphic_iff h.src_lt h.dst_lt).2 h.same⟩

theorem subtreeSize_eq (h : Copied src dst m s d) : src.subtreeSize s = dst.subtreeSize d :=
  Tree.subtreeSize_congr h.src_lt h.dst_lt h.same

/-- What lies in a copied subtree is copied, to the same place. -/
theorem offset (h : Copied src dst m s d) {k : Nat} (hk : k < src.subtreeSize s) :
    Copied src dst m (s + k) (d + k) := by
  have hsize := h.subtreeSize_eq
  have hs : src.contains s (s + k) = true := Tree.contains_iff.2 ⟨by omega, by omega⟩
  have hd : dst.contains d (d + k) = true := Tree.contains_iff.2 ⟨by omega, by omega⟩
  refine ⟨Tree.contains_lt_size hs, Tree.contains_lt_size hd, ?_, fun j hj => ?_⟩
  · rw [Tree.subtree_offset h.dst_lt h.same hs, Nat.add_sub_cancel_left]
  · have := Tree.contains_add_size_le hs
    have hlink := h.linked (k + j) (by omega)
    rwa [← Nat.add_assoc, ← Nat.add_assoc] at hlink

theorem exists_dst (h : Copied src dst m s d) {x : Nat} (hx : src.contains s x = true) :
    ∃ y, Copied src dst m x y := by
  rw [Tree.contains_iff] at hx
  have hoff := h.offset (k := x - s) (by omega)
  rw [show s + (x - s) = x by omega] at hoff
  exact ⟨_, hoff⟩

theorem exists_src (h : Copied src dst m s d) {y : Nat} (hy : dst.contains d y = true) :
    ∃ x, Copied src dst m x y := by
  have hsize := h.subtreeSize_eq
  rw [Tree.contains_iff] at hy
  have hoff := h.offset (k := y - d) (by omega)
  rw [show d + (y - d) = y by omega] at hoff
  exact ⟨_, hoff⟩

end Copied

/-- Both subtrees are free. -/
def BothFree (src dst : Tree) (m : Mapping Nat) (s d : Nat) : Prop :=
  isFree src m.hasSrc s = true ∧ isFree dst m.hasDst d = true

/-- One of the two subtrees is linked as a whole, with the other or elsewhere. -/
def Joined (src dst : Tree) (m : Mapping Nat) (s d : Nat) : Prop :=
  (∃ y, Copied src dst m s y) ∨ ∃ x, Copied src dst m x d

theorem Joined.mono (h : Joined src dst m s d) (hm : ∀ p ∈ m.pairs, p ∈ m'.pairs) :
    Joined src dst m' s d := by
  rcases h with ⟨y, hy⟩ | ⟨x, hx⟩
  · exact Or.inl ⟨y, hy.mono hm⟩
  · exact Or.inr ⟨x, hx.mono hm⟩

theorem Joined.not_bothFree (h : Joined src dst m s d) : ¬ BothFree src dst m s d := by
  rintro ⟨hs, hd⟩
  rw [isFree_iff] at hs hd
  rcases h with ⟨y, hy⟩ | ⟨x, hx⟩
  · have hlinked := Mapping.hasSrc_iff.2 ⟨y, hy.root_linked⟩
    rw [hs s (Tree.contains_self hy.src_lt)] at hlinked
    cases hlinked
  · have hlinked := Mapping.hasDst_iff.2 ⟨x, hx.root_linked⟩
    rw [hd d (Tree.contains_self hx.dst_lt)] at hlinked
    cases hlinked

/-! ## One step -/

/-- `m'` is `m` with the subtree of `e` linked with the identical one of `f`. -/
structure CopyStep (src dst : Tree) (m m' : Mapping Nat) (e f : Nat) : Prop where
  src_lt : e < src.size
  dst_lt : f < dst.size
  same : src.subtree e = dst.subtree f
  pairs : m'.pairs = m.pairs ++ copyPairs src e dst f

/-- Identical free subtrees are linked. -/
theorem exists_copyStep (h : TallTwins minHeight src dst e f) (hf : BothFree src dst m e f)
    (hm : m.Sound src dst) :
    ∃ m', linkSubtrees src e dst f m = .ok m' ∧ m'.Sound src dst ∧ CopyStep src dst m m' e f := by
  obtain ⟨hlink, hsound⟩ := linkSubtrees_of_free h.src_lt h.dst_lt h.same hf.1 hf.2 hm
  exact ⟨_, hlink, hsound, h.src_lt, h.dst_lt, h.same, rfl⟩

/-- Every link lies in a tall subtree that is linked as a whole. -/
def CoveredByCopies (minHeight : Rat) (src dst : Tree) (m : Mapping Nat) : Prop :=
  ∀ p ∈ m.pairs, ∃ s d, TallTwins minHeight src dst s d ∧ Copied src dst m s d ∧
    src.contains s p.1 = true ∧ dst.contains d p.2 = true

namespace CopyStep

variable (h : CopyStep src dst m m' e f)

include h

theorem mem {p : Nat × Nat} (hp : p ∈ m.pairs) : p ∈ m'.pairs := by
  rw [h.pairs]
  exact List.mem_append_left _ hp

theorem subtreeSize_eq : src.subtreeSize e = dst.subtreeSize f :=
  Tree.subtreeSize_congr h.src_lt h.dst_lt h.same

theorem mem_iff {p : Nat × Nat} :
    p ∈ m'.pairs ↔ p ∈ m.pairs ∨ ∃ k < src.subtreeSize e, p = (e + k, f + k) := by
  rw [h.pairs, List.mem_append, mem_copyPairs h.subtreeSize_eq]

theorem copied : Copied src dst m' e f :=
  ⟨h.src_lt, h.dst_lt, h.same, fun k hk => h.mem_iff.2 (Or.inr ⟨k, hk, rfl⟩)⟩

theorem hasSrc_iff (x : Nat) :
    m'.hasSrc x = true ↔ m.hasSrc x = true ∨ src.contains e x = true := by
  obtain ⟨pairs⟩ := m'
  obtain rfl : pairs = m.pairs ++ copyPairs src e dst f := h.pairs
  rw [Mapping.hasSrc_append, map_fst_copyPairs h.subtreeSize_eq, Tree.mem_preOrder]

theorem hasDst_iff (y : Nat) :
    m'.hasDst y = true ↔ m.hasDst y = true ∨ dst.contains f y = true := by
  obtain ⟨pairs⟩ := m'
  obtain rfl : pairs = m.pairs ++ copyPairs src e dst f := h.pairs
  rw [Mapping.hasDst_append, map_snd_copyPairs h.subtreeSize_eq, Tree.mem_preOrder]

/-- Two identical subtrees, no taller than the ones linked, are not divided. -/
theorem joined_or_free (ht : TallTwins minHeight src dst s d) (hh : src.height s ≤ src.height e)
    (hold : Joined src dst m s d ∨ BothFree src dst m s d) :
    Joined src dst m' s d ∨ BothFree src dst m' s d := by
  have hh' : dst.height d ≤ dst.height f := by
    rwa [← ht.height_eq, ← Tree.height_congr h.src_lt h.dst_lt h.same]
  rcases hold with hj | ⟨hs, hd⟩
  · exact Or.inl (hj.mono fun p => h.mem)
  · rcases contains_or_isFree h.hasSrc_iff hh hs with hes | hs'
    · exact Or.inl (Or.inl (h.copied.exists_dst hes))
    · rcases contains_or_isFree h.hasDst_iff hh' hd with hfd | hd'
      · exact Or.inl (Or.inr (h.copied.exists_src hfd))
      · exact Or.inr ⟨hs', hd'⟩

theorem covered (ht : TallTwins minHeight src dst e f)
    (hold : CoveredByCopies minHeight src dst m) : CoveredByCopies minHeight src dst m' := by
  intro p hp
  rcases h.mem_iff.1 hp with hp | ⟨k, hk, rfl⟩
  · obtain ⟨s, d, hst, hc, hin⟩ := hold p hp
    exact ⟨s, d, hst, hc.mono fun q => h.mem, hin⟩
  · have hsize := h.subtreeSize_eq
    refine ⟨e, f, ht, h.copied, ?_, ?_⟩ <;> rw [Tree.contains_iff] <;> omega

end CopyStep

end TreeMerge
