import TreeMerge.Proofs.Matching.Links
import TreeMerge.Proofs.Tree.Relabel

/-!
# Trees that differ in one leaf

Two trees of one shape that differ in the label of a leaf at most. The subtrees that differ are
those that contain the leaf; they are nested.

* `LeafEdit` : the two trees;
* `Clean` : a node whose subtrees are equal;
* `LeafEdit.eq_of_not_clean`, `LeafEdit.clean_or_clean` : subtrees that differ are told apart by
  their sizes, so of two equal subtrees in different places one is clean;
* `Covered`, `Full` : a node of a clean subtree that is more than a leaf; a subtree all of which is
  linked;
* `Mapping.Identity` : a correspondence of nodes with themselves.
-/

namespace TreeMerge

/-- Two trees that differ in the label of the leaf `k` at most. -/
structure LeafEdit (k : Nat) (src dst : Tree) : Prop where
  size_eq : dst.size = src.size
  lt_size : k < src.size
  leaf : src.isLeaf k = true
  parent?_eq : ∀ a, dst.parent? a = src.parent? a
  children_eq : ∀ a, dst.children a = src.children a
  subtreeSize_eq : ∀ a, dst.subtreeSize a = src.subtreeSize a
  height_eq : ∀ a, dst.height a = src.height a
  kind_eq : ∀ a, dst.kind a = src.kind a
  content_eq : ∀ a, a ≠ k → dst.content a = src.content a
  subtree_eq : ∀ a, ¬ src.contains a k = true → dst.subtree a = src.subtree a

/-- Relabellings that keep kinds and agree elsewhere. -/
theorem LeafEdit.ofRelabel {t : Tree} {k : Nat} {f g : Nat → Content → Content} (hk : k < t.size)
    (hl : t.isLeaf k = true) (hfg : ∀ a, a ≠ k → f a = g a)
    (hf : ∀ a c, (f a c).kind = c.kind) (hg : ∀ a c, (g a c).kind = c.kind) :
    LeafEdit k (t.relabel f) (t.relabel g) := by
  constructor
  case size_eq => rw [Tree.size_relabel, Tree.size_relabel]
  case lt_size => rwa [Tree.size_relabel]
  case leaf => rwa [Tree.isLeaf, Tree.children_relabel]
  case parent?_eq => exact fun a => by rw [Tree.parent?_relabel, Tree.parent?_relabel]
  case children_eq => exact fun a => by rw [Tree.children_relabel, Tree.children_relabel]
  case subtreeSize_eq => exact fun a => by rw [Tree.subtreeSize_relabel, Tree.subtreeSize_relabel]
  case height_eq => exact fun a => by rw [Tree.height_relabel, Tree.height_relabel]
  case kind_eq =>
    intro a
    by_cases ha : a < t.size
    · rw [Tree.kind, Tree.kind, Tree.content_relabel ha, Tree.content_relabel ha, hf, hg]
    · rw [Tree.kind, Tree.kind, Tree.content, Tree.content, Tree.subtree, Tree.subtree,
        Tree.entry_relabel_of_not_lt ha, Tree.entry_relabel_of_not_lt ha]
  case content_eq =>
    intro a ha
    by_cases hlt : a < t.size
    · rw [Tree.content_relabel hlt, Tree.content_relabel hlt, hfg a ha]
    · rw [Tree.content, Tree.content, Tree.subtree, Tree.subtree,
        Tree.entry_relabel_of_not_lt hlt, Tree.entry_relabel_of_not_lt hlt]
  case subtree_eq =>
    intro a ha
    apply Tree.subtree_relabel_congr
    intro x hx
    refine (hfg x ?_).symm
    rintro rfl
    rw [Tree.contains_iff, Tree.subtreeSize_relabel, ← Tree.contains_iff] at ha
    exact ha hx

theorem LeafEdit.setLabel {t : Tree} {k : Nat} (hk : k < t.size) (hl : t.isLeaf k = true)
    (x y : Text) : LeafEdit k (t.setLabel k x) (t.setLabel k y) := by
  have hkind : ∀ (z : Text) (a : Nat) (c : Content),
      (if a = k then { c with label := z } else c).kind = c.kind := by
    intro z a c
    split <;> rfl
  refine LeafEdit.ofRelabel hk hl (fun a ha => ?_) (hkind x) (hkind y)
  funext c
  rw [if_neg ha, if_neg ha]

theorem LeafEdit.setLabel_right {t : Tree} {k : Nat} (hk : k < t.size) (hl : t.isLeaf k = true)
    (y : Text) : LeafEdit k t (t.setLabel k y) := by
  have h := LeafEdit.setLabel hk hl (t.label k) y
  rwa [Tree.setLabel_self] at h

/-- A node whose subtree is the same in both trees. -/
def Clean (src dst : Tree) (a : Nat) : Prop :=
  src.subtree a = dst.subtree a

/-- A node of a clean subtree that is more than a leaf. -/
def Covered (src dst : Tree) (x : Nat) : Prop :=
  ∃ e, Clean src dst e ∧ src.isLeaf e = false ∧ src.contains e x = true

/-- Every node of a subtree is linked. -/
def Full (src : Tree) (m : Mapping Nat) (e : Nat) : Prop :=
  ∀ x, src.contains e x = true → m.hasSrc x = true

namespace LeafEdit

variable {k : Nat} {src dst : Tree} (h : LeafEdit k src dst)

include h

theorem contains_eq (a b : Nat) : dst.contains a b = src.contains a b := by
  rw [Tree.contains, Tree.contains, h.subtreeSize_eq]

theorem isLeaf_eq (a : Nat) : dst.isLeaf a = src.isLeaf a := by
  rw [Tree.isLeaf, Tree.isLeaf, h.children_eq]

theorem isFree_eq (linked : Nat → Bool) (a : Nat) : isFree dst linked a = isFree src linked a := by
  rw [Bool.eq_iff_iff, isFree_iff, isFree_iff]
  simp only [h.contains_eq]

theorem contains_of_not_clean {a : Nat} (ha : ¬ Clean src dst a) : src.contains a k = true := by
  by_contra hk
  exact ha (h.subtree_eq a hk).symm

theorem clean_of_contains {a x : Nat} (ha : Clean src dst a) (hx : src.contains a x = true) :
    Clean src dst x := by
  have hlt : a < dst.size := by
    rw [h.size_eq]
    exact Tree.lt_size_of_contains hx
  have hsub := Tree.subtree_offset hlt ha hx
  rwa [show a + (x - a) = x by have := Tree.le_of_contains hx; omega] at hsub

/-- Subtrees that differ are nested. -/
theorem nested {a b : Nat} (ha : ¬ Clean src dst a) (hb : ¬ Clean src dst b) :
    src.contains a b = true ∨ src.contains b a = true :=
  Tree.contains_or_contains (h.contains_of_not_clean ha) (h.contains_of_not_clean hb)

theorem eq_of_not_clean {a b : Nat} (ha : ¬ Clean src dst a) (hb : ¬ Clean src dst b)
    (hs : src.subtreeSize a = src.subtreeSize b) : a = b := by
  rcases h.nested ha hb with hab | hba
  · exact Tree.eq_of_contains_of_size hab hs
  · exact (Tree.eq_of_contains_of_size hba hs.symm).symm

theorem subtreeSize_of_same {a b : Nat} (ha : a < src.size) (hb : b < src.size)
    (hs : src.subtree a = dst.subtree b) : src.subtreeSize a = src.subtreeSize b := by
  rw [← h.size_eq] at hb
  rw [Tree.subtreeSize_congr ha hb hs, h.subtreeSize_eq]

theorem height_of_same {a b : Nat} (ha : a < src.size) (hb : b < src.size)
    (hs : src.subtree a = dst.subtree b) : src.height a = src.height b := by
  rw [← h.size_eq] at hb
  rw [Tree.height_congr ha hb hs, h.height_eq]

/-- Of two equal subtrees one is clean. -/
theorem clean_or_clean {a b : Nat} (ha : a < src.size) (hb : b < src.size)
    (hs : src.subtree a = dst.subtree b) : Clean src dst a ∨ Clean src dst b := by
  by_contra hn
  rw [not_or] at hn
  have hab := h.eq_of_not_clean hn.1 hn.2 (h.subtreeSize_of_same ha hb hs)
  rw [← hab] at hs
  exact hn.1 hs

/-- Parents have the same content. -/
theorem content_parent {p c : Nat} (hc : c ∈ src.children p) : dst.content p = src.content p := by
  apply h.content_eq
  rintro rfl
  rw [Tree.isLeaf_iff.1 h.leaf] at hc
  exact List.not_mem_nil hc

omit h in
theorem covered_of_clean {a : Nat} (ha : a < src.size) (hc : Clean src dst a)
    (hl : src.isLeaf a = false) : Covered src dst a :=
  ⟨a, hc, hl, Tree.contains_self ha⟩

theorem clean_of_covered {a : Nat} (ha : Covered src dst a) : Clean src dst a := by
  obtain ⟨e, he, -, hx⟩ := ha
  exact h.clean_of_contains he hx

end LeafEdit

/-! ## Tall subtrees -/

/-- A subtree of height 2 or more is one that is more than a leaf. -/
theorem isTall_two {t : Tree} {a : Nat} (ha : a < t.size) :
    isTall 2 t a = true ↔ t.isLeaf a = false := by
  have hcast : isTall 2 t a = true ↔ 2 ≤ t.height a := by
    rw [isTall, decide_eq_true_iff]
    exact_mod_cast Iff.rfl
  rw [hcast]
  constructor
  · intro hh
    by_contra hl
    rw [Bool.not_eq_false] at hl
    rw [Tree.height_leaf ha hl] at hh
    omega
  · exact Tree.two_le_height

/-! ## Nodes linked with themselves -/

namespace Mapping

/-- Every link is one of a node with itself. -/
def Identity (m : Mapping Nat) : Prop :=
  ∀ p ∈ m.pairs, p.1 = p.2

theorem Identity.hasDst_eq {m : Mapping Nat} (h : m.Identity) : m.hasDst = m.hasSrc := by
  funext x
  rw [Bool.eq_iff_iff, hasDst_iff, hasSrc_iff]
  constructor
  · rintro ⟨a, ha⟩
    have hax : a = x := h _ ha
    exact ⟨x, hax ▸ ha⟩
  · rintro ⟨b, hb⟩
    have hxb : x = b := h _ hb
    exact ⟨x, hxb ▸ hb⟩

end Mapping

end TreeMerge
