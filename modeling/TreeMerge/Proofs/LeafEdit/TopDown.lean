import TreeMerge.Proofs.LeafEdit.Basic
import TreeMerge.Proofs.Matching.Soundness

/-!
# Identical subtrees of trees that differ in one leaf

From the top down, nodes are linked with themselves only, and a node is linked exactly if it belongs
to a clean subtree that is more than a leaf.

* `SelfLinked` : links of covered nodes with themselves;
* `LeafEdit.linkSelf` : linking a free clean subtree with itself;
* `FirstPass`, `LeafEdit.firstPass_step` : a subtree that is left ambiguous is free, and so is a
  twin of it, which no unique link can touch;
* `SecondPass`, `LeafEdit.secondPass_step` : the pair of a clean subtree with itself comes before
  every other pair of it;
* `LeafEdit.topDown_eq` : both passes.
-/

namespace TreeMerge

/-- A sound correspondence of covered nodes with themselves. -/
structure SelfLinked (src dst : Tree) (m : Mapping Nat) : Prop where
  sound : m.Sound src dst
  identity : m.Identity
  covered : ∀ x, m.hasSrc x = true → Covered src dst x

/-- A free subtree elsewhere that is a twin on either side. -/
def HasTwin (src dst : Tree) (m : Mapping Nat) (e : Nat) : Prop :=
  ∃ e', e' ≠ e ∧ e' < src.size ∧ isFree src m.hasSrc e' = true ∧
    (src.subtree e' = src.subtree e ∨ dst.subtree e' = src.subtree e)

/-- Neither free nor full subtrees of at most the same height are split by a new link. -/
theorem free_or_full_of_height {src : Tree} {m m' : Mapping Nat} {e f : Nat}
    (hnew : ∀ x, m'.hasSrc x = true ↔ m.hasSrc x = true ∨ src.contains e x = true)
    (hh : src.height f ≤ src.height e) (hf : isFree src m.hasSrc f = true ∨ Full src m f) :
    isFree src m'.hasSrc f = true ∨ Full src m' f := by
  rcases hf with hf | hf
  · rcases contains_or_isFree hnew hh hf with hef | hfree
    · exact Or.inr fun x hx => (hnew x).2 (Or.inr (Tree.contains_trans hef hx))
    · exact Or.inl hfree
  · exact Or.inr fun x hx => (hnew x).2 (Or.inl (hf x hx))

namespace LeafEdit

variable {k : Nat} {src dst : Tree} (h : LeafEdit k src dst)

include h

theorem isFree_dst {m : Mapping Nat} (hm : SelfLinked src dst m) (a : Nat) :
    isFree dst m.hasDst a = isFree src m.hasSrc a := by
  rw [hm.identity.hasDst_eq, h.isFree_eq]

/-- A free clean subtree is linked with itself. -/
theorem linkSelf {m : Mapping Nat} {e : Nat} (hm : SelfLinked src dst m) (he : e < src.size)
    (hc : Clean src dst e) (hl : src.isLeaf e = false) (hf : isFree src m.hasSrc e = true) :
    ∃ m', linkSubtrees src e dst e m = .ok m' ∧ SelfLinked src dst m' ∧
      ∀ x, m'.hasSrc x = true ↔ m.hasSrc x = true ∨ src.contains e x = true := by
  have hed : e < dst.size := by rwa [h.size_eq]
  obtain ⟨hlink, hsound⟩ := linkSubtrees_of_free he hed hc hf
    ((h.isFree_dst hm e).trans hf) hm.sound
  have hsize : src.subtreeSize e = dst.subtreeSize e := (h.subtreeSize_eq e).symm
  have hnew : ∀ x, (⟨m.pairs ++ copyPairs src e dst e⟩ : Mapping Nat).hasSrc x = true ↔
      m.hasSrc x = true ∨ src.contains e x = true := by
    intro x
    rw [Mapping.hasSrc_append, map_fst_copyPairs hsize, Tree.mem_preOrder]
  refine ⟨_, hlink, ⟨hsound, ?_, ?_⟩, hnew⟩
  · intro p hp
    rcases List.mem_append.1 hp with hp | hp
    · exact hm.identity p hp
    · obtain ⟨j, -, rfl⟩ := (mem_copyPairs hsize).1 hp
      rfl
  · intro x hx
    rcases (hnew x).1 hx with hx | hx
    · exact hm.covered x hx
    · exact ⟨e, hc, hl, hx⟩

/-! ## Unique twins -/

/-- A subtree without another free twin lies in no free subtree that has one, nor in its twin. -/
theorem not_contains_of_unique {m : Mapping Nat} {e f f' : Nat} (hc : Clean src dst e)
    (hu : ∀ g < src.size, isFree src m.hasSrc g = true →
      src.subtree g = src.subtree e ∨ dst.subtree g = src.subtree e → g = e)
    (hlt : f < src.size) (hf : isFree src m.hasSrc f = true) (hne : f' ≠ f)
    (hlt' : f' < src.size) (hf' : isFree src m.hasSrc f' = true)
    (ht : src.subtree f' = src.subtree f ∨ dst.subtree f' = src.subtree f) :
    ¬ src.contains f e = true ∧ ¬ src.contains f' e = true := by
  have hltd : f' < dst.size := by rwa [h.size_eq]
  have hsize : src.subtreeSize f' = src.subtreeSize f := by
    rcases ht with ht | ht
    · exact Tree.subtreeSize_congr hlt' hlt ht
    · rw [← h.subtreeSize_eq f']
      exact Tree.subtreeSize_congr hltd hlt ht
  constructor
  · intro hfe
    have hle := Tree.le_of_contains hfe
    have hin : src.contains f' (f' + (e - f)) = true := by
      rw [Tree.contains_iff] at hfe ⊢
      omega
    have hsame : src.subtree (f' + (e - f)) = src.subtree e ∨
        dst.subtree (f' + (e - f)) = src.subtree e := by
      rcases ht with ht | ht
      · exact Or.inl (Tree.subtree_offset hlt' ht.symm hfe).symm
      · exact Or.inr (Tree.subtree_offset hltd ht.symm hfe).symm
    have := hu _ (Tree.contains_lt_size hin) (isFree_of_contains hf' hin) hsame
    omega
  · intro hfe
    have hle := Tree.le_of_contains hfe
    have hin : src.contains f (f + (e - f')) = true := by
      rw [Tree.contains_iff] at hfe ⊢
      omega
    have hsame : src.subtree (f + (e - f')) = src.subtree e := by
      rcases ht with ht | ht
      · exact (Tree.subtree_offset hlt ht hfe).symm
      · rw [← h.contains_eq] at hfe
        exact (Tree.subtree_offset hlt ht hfe).symm.trans hc.symm
    have := hu _ (Tree.contains_lt_size hin) (isFree_of_contains hf hin) (Or.inl hsame)
    omega

omit h in
theorem mem_freeTwins_src {m : Mapping Nat} {e g : Nat} (he : e < src.size)
    (hl : src.isLeaf e = false) :
    g ∈ freeTwins 2 src e src m.hasSrc ↔
      g < src.size ∧ isFree src m.hasSrc g = true ∧ src.subtree g = src.subtree e := by
  rw [mem_freeTwins he]
  constructor
  · rintro ⟨hg, -, hf, hs⟩
    exact ⟨hg, hf, hs.symm⟩
  · rintro ⟨hg, hf, hs⟩
    exact ⟨hg, (isTall_two hg).2 ((Tree.isLeaf_congr hs).trans hl), hf, hs.symm⟩

theorem mem_freeTwins_dst {m : Mapping Nat} {e g : Nat} (hm : SelfLinked src dst m)
    (he : e < src.size) (hl : src.isLeaf e = false) :
    g ∈ freeTwins 2 src e dst m.hasDst ↔
      g < src.size ∧ isFree src m.hasSrc g = true ∧ dst.subtree g = src.subtree e := by
  rw [mem_freeTwins he, h.size_eq, h.isFree_dst hm]
  constructor
  · rintro ⟨hg, -, hf, hs⟩
    exact ⟨hg, hf, hs.symm⟩
  · rintro ⟨hg, hf, hs⟩
    exact ⟨hg, (isTall_two (by rwa [h.size_eq])).2 ((Tree.isLeaf_congr hs).trans hl), hf, hs.symm⟩

end LeafEdit

/-- What the first pass has done of its list: processed clean subtrees are full, or free and
ambiguous; the others are free or full. -/
structure FirstPass (src dst : Tree) (done rest : List Nat) (st : Settling) : Prop where
  mapping : SelfLinked src dst st.mapping
  ambiguous : SamePairs src dst st.ambiguous
  inner : ∀ p ∈ st.ambiguous, src.isLeaf p.1 = false
  remaining : ∀ e ∈ rest, isFree src st.mapping.hasSrc e = true ∨ Full src st.mapping e
  settled : ∀ e ∈ done, Clean src dst e → Full src st.mapping e ∨
    isFree src st.mapping.hasSrc e = true ∧ (e, e) ∈ st.ambiguous ∧
      HasTwin src dst st.mapping e

namespace LeafEdit

variable {k : Nat} {src dst : Tree} (h : LeafEdit k src dst) {done rest : List Nat}
  {st : Settling} {e : Nat}

include h

/-- A unique link leaves free what is ambiguous. -/
theorem hasTwin_of_unique {m m' : Mapping Nat} {f : Nat} (hc : Clean src dst e)
    (hu : ∀ g < src.size, isFree src m.hasSrc g = true →
      src.subtree g = src.subtree e ∨ dst.subtree g = src.subtree e → g = e)
    (hnew : ∀ x, m'.hasSrc x = true ↔ m.hasSrc x = true ∨ src.contains e x = true)
    (hlt : f < src.size) (hh : src.height e ≤ src.height f)
    (hf : isFree src m.hasSrc f = true) (ht : HasTwin src dst m f) :
    isFree src m'.hasSrc f = true ∧ HasTwin src dst m' f := by
  obtain ⟨f', hne, hlt', hf', hsub⟩ := ht
  obtain ⟨h₁, h₂⟩ := h.not_contains_of_unique hc hu hlt hf hne hlt' hf' hsub
  have hh' : src.height e ≤ src.height f' := by
    rcases hsub with hsub | hsub
    · rwa [Tree.height_congr hlt' hlt hsub]
    · rw [← h.height_eq f', Tree.height_congr (by rwa [h.size_eq]) hlt hsub]
      exact hh
  exact ⟨isFree_of_not_contains hnew hh hf h₁, f', hne, hlt',
    isFree_of_not_contains hnew hh' hf' h₂, hsub⟩

/-- A step that links a subtree with its only twin. -/
theorem firstPass_unique (hp : FirstPass src dst done (e :: rest) st) (he : e < src.size)
    (hl : src.isLeaf e = false) (hdone : ∀ f ∈ done, f < src.size ∧ src.height e ≤ src.height f)
    (hrest : ∀ f ∈ rest, src.height f ≤ src.height e)
    (hf : isFree src st.mapping.hasSrc e = true) {d : Nat}
    (hd : freeTwins 2 src e dst st.mapping.hasDst = [d])
    (hs : (freeTwins 2 src e src st.mapping.hasSrc).length = 1) :
    ∃ m, linkSubtrees src e dst d st.mapping = .ok m ∧
      FirstPass src dst (done ++ [e]) rest { st with mapping := m } := by
  have hsrc : ∀ g < src.size, isFree src st.mapping.hasSrc g = true →
      src.subtree g = src.subtree e → g = e := by
    intro g hg hgf hsub
    obtain ⟨y, hy⟩ := List.length_eq_one_iff.1 hs
    have h₁ := (mem_freeTwins_src he hl).2 ⟨hg, hgf, hsub⟩
    have h₂ := (mem_freeTwins_src he hl).2 ⟨he, hf, rfl⟩
    rw [hy, List.mem_singleton] at h₁ h₂
    rw [h₁, h₂]
  have hmem := h.mem_freeTwins_dst hp.mapping he hl (g := d)
  rw [hd, List.mem_singleton] at hmem
  obtain ⟨hdlt, hdf, hdsub⟩ := hmem.1 rfl
  -- a twin of a subtree that differs is clean, hence a second twin among the sources
  have hclean : Clean src dst e := by
    by_contra hn
    rcases h.clean_or_clean he hdlt hdsub.symm with hc | hc
    · exact hn hc
    · have hde := hsrc d hdlt hdf (hc.trans hdsub)
      rw [hde] at hdsub
      exact hn hdsub.symm
  have hdst : ∀ g < src.size, isFree src st.mapping.hasSrc g = true →
      dst.subtree g = src.subtree e → g = e := by
    intro g hg hgf hsub
    have h₁ := (h.mem_freeTwins_dst hp.mapping he hl).2 ⟨hg, hgf, hsub⟩
    have h₂ := (h.mem_freeTwins_dst hp.mapping he hl).2 ⟨he, hf, hclean.symm⟩
    rw [hd, List.mem_singleton] at h₁ h₂
    rw [h₁, h₂]
  have hde : d = e := hdst d hdlt hdf hdsub
  subst hde
  obtain ⟨m, hlink, hm, hnew⟩ := h.linkSelf hp.mapping he hclean hl hf
  refine ⟨m, hlink, hm, hp.ambiguous, hp.inner, ?_, ?_⟩
  · intro f hfr
    exact free_or_full_of_height hnew (hrest f hfr) (hp.remaining f (List.mem_cons_of_mem _ hfr))
  · intro f hfd hcf
    rcases List.mem_append.1 hfd with hfd | hfd
    · rcases hp.settled f hfd hcf with hfull | ⟨hff, hamb, htwin⟩
      · exact Or.inl fun x hx => (hnew x).2 (Or.inl (hfull x hx))
      · obtain ⟨hlt, hh⟩ := hdone f hfd
        obtain ⟨hff', htwin'⟩ := h.hasTwin_of_unique hclean
          (fun g hg hgf hsub => hsub.elim (hsrc g hg hgf) (hdst g hg hgf)) hnew hlt hh hff htwin
        exact Or.inr ⟨hff', hamb, htwin'⟩
    · rw [List.mem_singleton.1 hfd]
      exact Or.inl fun x hx => (hnew x).2 (Or.inr hx)

/-- A step that keeps a subtree with its twins for later. -/
theorem firstPass_ambiguous (hp : FirstPass src dst done (e :: rest) st) (he : e < src.size)
    (hl : src.isLeaf e = false) (hf : isFree src st.mapping.hasSrc e = true)
    (hs : (freeTwins 2 src e dst st.mapping.hasDst).length ≠ 1 ∨
      (freeTwins 2 src e src st.mapping.hasSrc).length ≠ 1) :
    FirstPass src dst (done ++ [e]) rest { st with
      ambiguous := st.ambiguous ++
        (freeTwins 2 src e dst st.mapping.hasDst).map fun d => (e, d) } := by
  refine ⟨hp.mapping, hp.ambiguous.append (samePairs_freeTwins 2 dst _ he), ?_, ?_, ?_⟩
  · intro p hmem
    rcases List.mem_append.1 hmem with hmem | hmem
    · exact hp.inner p hmem
    · obtain ⟨d, -, rfl⟩ := List.mem_map.1 hmem
      exact hl
  · exact fun f hfr => hp.remaining f (List.mem_cons_of_mem _ hfr)
  · intro f hfd hcf
    rcases List.mem_append.1 hfd with hfd | hfd
    · rcases hp.settled f hfd hcf with hfull | ⟨hff, hamb, htwin⟩
      · exact Or.inl hfull
      · exact Or.inr ⟨hff, List.mem_append_left _ hamb, htwin⟩
    · rw [List.mem_singleton.1 hfd] at hcf ⊢
      have hdst : e ∈ freeTwins 2 src e dst st.mapping.hasDst :=
        (h.mem_freeTwins_dst hp.mapping he hl).2 ⟨he, hf, hcf.symm⟩
      have hsrc : e ∈ freeTwins 2 src e src st.mapping.hasSrc :=
        (mem_freeTwins_src he hl).2 ⟨he, hf, rfl⟩
      refine Or.inr ⟨hf, List.mem_append_right _ (List.mem_map_of_mem hdst), ?_⟩
      rcases hs with hs | hs
      · obtain ⟨e', hmem, hne⟩ := exists_ne_of_length_ne_one (nodup_freeTwins _ _ _ _ _) hdst hs
        obtain ⟨hlt, hff, hsub⟩ := (h.mem_freeTwins_dst hp.mapping he hl).1 hmem
        exact ⟨e', hne, hlt, hff, Or.inr hsub⟩
      · obtain ⟨e', hmem, hne⟩ := exists_ne_of_length_ne_one (nodup_freeTwins _ _ _ _ _) hsrc hs
        obtain ⟨hlt, hff, hsub⟩ := (mem_freeTwins_src he hl).1 hmem
        exact ⟨e', hne, hlt, hff, Or.inl hsub⟩

/-- A step that does nothing: the subtree is linked already, or it differs. -/
theorem firstPass_skip (hp : FirstPass src dst done (e :: rest) st) (he : e < src.size)
    (hl : src.isLeaf e = false) (hs : isFree src st.mapping.hasSrc e = false ∨
      freeTwins 2 src e dst st.mapping.hasDst = []) :
    FirstPass src dst (done ++ [e]) rest st := by
  refine ⟨hp.mapping, hp.ambiguous, hp.inner,
    fun f hfr => hp.remaining f (List.mem_cons_of_mem _ hfr), ?_⟩
  intro f hfd hcf
  rcases List.mem_append.1 hfd with hfd | hfd
  · exact hp.settled f hfd hcf
  · rw [List.mem_singleton.1 hfd] at hcf ⊢
    rcases hp.remaining e List.mem_cons_self with hf | hfull
    · rcases hs with hs | hs
      · rw [hs] at hf
        exact absurd hf Bool.false_ne_true
      · have hmem := (h.mem_freeTwins_dst hp.mapping he hl).2 ⟨he, hf, hcf.symm⟩
        rw [hs] at hmem
        exact absurd hmem List.not_mem_nil
    · exact Or.inl hfull

/-- **One step of the first pass.** -/
theorem firstPass_step (hp : FirstPass src dst done (e :: rest) st) (he : e < src.size)
    (hl : src.isLeaf e = false) (hdone : ∀ f ∈ done, f < src.size ∧ src.height e ≤ src.height f)
    (hrest : ∀ f ∈ rest, src.height f ≤ src.height e) :
    ∃ st', settleUnique 2 src dst st e = .ok st' ∧ FirstPass src dst (done ++ [e]) rest st' := by
  rcases settleUnique_cases 2 src dst st e with ⟨hs, heq⟩ | ⟨hf, d, hd, hs, heq⟩ | ⟨hf, hs, heq⟩
  · exact ⟨st, heq, h.firstPass_skip hp he hl hs⟩
  · obtain ⟨m, hlink, hp'⟩ := h.firstPass_unique hp he hl hdone hrest hf hd hs
    refine ⟨_, ?_, hp'⟩
    rw [heq, hlink]
    rfl
  · exact ⟨_, heq, h.firstPass_ambiguous hp he hl hf hs⟩

theorem firstPass_run :
    ∃ st, (tallestFirst 2 src).foldlM (settleUnique 2 src dst) {} = .ok st ∧
      FirstPass src dst (tallestFirst 2 src) [] st := by
  have hsorted := pairwise_tallestFirst 2 src
  obtain ⟨st, hst, done, hdone, hp⟩ := foldlM_ok (f := settleUnique 2 src dst)
    (fun l st => ∃ done, tallestFirst 2 src = done ++ l ∧ FirstPass src dst done l st)
    (by
      rintro e l st ⟨done, hsplit, hp⟩
      have hmem : ∀ a ∈ done ++ e :: l, a < src.size ∧ src.isLeaf a = false := by
        intro a ha
        rw [← hsplit, mem_tallestFirst] at ha
        exact ⟨ha.1, (isTall_two ha.1).1 ha.2⟩
      rw [hsplit, List.pairwise_append, List.pairwise_cons] at hsorted
      obtain ⟨he, hl⟩ := hmem e (by simp)
      obtain ⟨st', hst', hp'⟩ := h.firstPass_step hp he hl
        (fun f hf => ⟨(hmem f (List.mem_append_left _ hf)).1,
          hsorted.2.2 f hf e List.mem_cons_self⟩)
        hsorted.2.1.1
      exact ⟨st', hst', done ++ [e], by rw [hsplit, List.append_assoc]; rfl, hp'⟩)
    (tallestFirst 2 src) {} ⟨[], rfl, ⟨.empty src dst, fun _ hp => absurd hp List.not_mem_nil,
      fun x hx => by simp [Mapping.hasSrc, Mapping.dst?, Mapping.empty] at hx⟩,
      fun _ hp => absurd hp List.not_mem_nil, fun _ hp => absurd hp List.not_mem_nil,
      fun e _ => Or.inl (isFree_iff.2 fun n _ => rfl), fun _ hp => absurd hp List.not_mem_nil⟩
  rw [List.append_nil] at hdone
  rw [← hdone] at hp
  exact ⟨st, hst, hp⟩

end LeafEdit

/-! ## Ranked twins -/

namespace TwinPair

/-- Nothing of the same height and farther apart precedes a pair of the best rank. -/
theorem not_precedes {a b : TwinPair} (hh : a.height = b.height) (hb : b.parentMiss = 0)
    (hd : b.distance < a.distance) : a.precedes b = false := by
  grind [precedes]

/-- Different numbers in trees of one size are apart. -/
theorem relativeDistance_pos {src dst : Tree} {s d : Nat} (hsize : dst.size = src.size)
    (hne : s ≠ d) : 0 < relativeDistance id src s dst d := by
  have hn : (src.size : Rat) ≠ 0 := by
    have := src.size_pos
    exact_mod_cast Nat.ne_of_gt this
  rw [relativeDistance, Rat.abs_pos_iff, hsize]
  intro hz
  have hz' : (s : Rat) / src.size - (d : Rat) / src.size = 0 := hz
  have heq := @Rat.sub_add_cancel ((s : Rat) / src.size) ((d : Rat) / src.size)
  rw [hz', Rat.zero_add] at heq
  have hmul := congrArg (· * (src.size : Rat)) heq.symm
  simp only [Rat.div_mul_cancel hn] at hmul
  exact hne (by exact_mod_cast hmul)

theorem relativeDistance_self {src dst : Tree} (s : Nat) (hsize : dst.size = src.size) :
    relativeDistance id src s dst s = 0 := by
  rw [relativeDistance, hsize]
  show (_ - _ : Rat).abs = 0
  rw [Rat.sub_self, Rat.abs_zero]

end TwinPair

/-- What the second pass has left of its list: clean subtrees are full, or free and still to be
linked with themselves. -/
structure SecondPass (src dst : Tree) (rest : List TwinPair) (m : Mapping Nat) : Prop where
  mapping : SelfLinked src dst m
  settled : ∀ e < src.size, Clean src dst e → src.isLeaf e = false → Full src m e ∨
    isFree src m.hasSrc e = true ∧ TwinPair.ofNodes id src dst (e, e) ∈ rest

namespace LeafEdit

variable {k : Nat} {src dst : Tree} (h : LeafEdit k src dst) {rest : List TwinPair}
  {m : Mapping Nat} {s d : Nat}

include h

/-- Equal subtrees in different places are not whole trees. -/
theorem ne_root_of_same (hs : s < src.size) (hd : d < src.size)
    (hsub : src.subtree s = dst.subtree d) (hne : s ≠ d) : s ≠ Tree.root ∧ d ≠ Tree.root := by
  have hsize := h.subtreeSize_of_same hs hd hsub
  constructor
  · rintro rfl
    exact hne (Tree.eq_of_contains_of_size (Tree.contains_root hd) hsize)
  · rintro rfl
    exact hne (Tree.eq_of_contains_of_size (Tree.contains_root hs) hsize.symm).symm

theorem parentMiss_self {e : Nat} (he : e < src.size) (hr : e ≠ Tree.root) :
    (TwinPair.ofNodes id src dst (e, e)).parentMiss = 0 := by
  obtain ⟨p, hp⟩ := Tree.exists_parent he hr
  have hpar := Tree.parent?_of_mem_children hp
  have hsame : TwinPair.sameParents src e dst e = true := by
    unfold TwinPair.sameParents
    rw [h.parent?_eq, hpar]
    simp only [h.content_parent hp, decide_true]
  show (if TwinPair.sameParents src e dst e then 0 else 1) = 0
  rw [if_pos hsame]

/-- The pair of a node with itself comes before the pairs of different nodes that have its
height. -/
theorem not_precedes_self {e : Nat} (he : e < src.size) (hr : e ≠ Tree.root) (hne : s ≠ d)
    (hh : src.height s = src.height e) :
    (TwinPair.ofNodes id src dst (s, d)).precedes (TwinPair.ofNodes id src dst (e, e)) = false := by
  refine TwinPair.not_precedes hh (h.parentMiss_self he hr) ?_
  show TwinPair.relativeDistance id src e dst e < TwinPair.relativeDistance id src s dst d
  rw [TwinPair.relativeDistance_self e h.size_eq]
  exact TwinPair.relativeDistance_pos h.size_eq hne

/-- Free equal subtrees that come next are one and the same node. -/
theorem eq_of_first (hp : SecondPass src dst (TwinPair.ofNodes id src dst (s, d) :: rest) m)
    (hfirst : ∀ q ∈ rest, (TwinPair.ofNodes id src dst (s, d)).precedes q = true)
    (hs : s < src.size) (hd : d < src.size) (hl : src.isLeaf s = false)
    (hsub : src.subtree s = dst.subtree d) (hsf : isFree src m.hasSrc s = true)
    (hdf : isFree src m.hasSrc d = true) : s = d := by
  by_contra hne
  obtain ⟨hsr, hdr⟩ := h.ne_root_of_same hs hd hsub hne
  have hld : src.isLeaf d = false := by
    rw [← h.isLeaf_eq d, ← Tree.isLeaf_congr hsub, hl]
  have hclash : ∀ e, e < src.size → e ≠ Tree.root → src.height s = src.height e →
      Clean src dst e → src.isLeaf e = false → isFree src m.hasSrc e = true → False := by
    intro e he hr hh hc hle hef
    rcases hp.settled e he hc hle with hfull | ⟨-, hmem⟩
    · have hlinked := hfull e (Tree.contains_self he)
      rw [isFree_iff.1 hef e (Tree.contains_self he)] at hlinked
      exact Bool.false_ne_true hlinked
    · rcases List.mem_cons.1 hmem with heq | hmem
      · have h₁ : e = s := congrArg TwinPair.src heq
        have h₂ : e = d := congrArg TwinPair.dst heq
        exact hne (h₁.symm.trans h₂)
      · have hprec := hfirst _ hmem
        rw [h.not_precedes_self he hr hne hh] at hprec
        exact Bool.false_ne_true hprec
  rcases h.clean_or_clean hs hd hsub with hc | hc
  · exact hclash s hs hsr rfl hc hl hsf
  · exact hclash d hd hdr (h.height_of_same hs hd hsub) hc hld hdf

/-- **One step of the second pass.** -/
theorem secondPass_step
    (hp : SecondPass src dst (TwinPair.ofNodes id src dst (s, d) :: rest) m)
    (hfirst : ∀ q ∈ rest, (TwinPair.ofNodes id src dst (s, d)).precedes q = true)
    (hs : s < src.size) (hd : d < src.size) (hl : src.isLeaf s = false)
    (hsub : src.subtree s = dst.subtree d) :
    ∃ m', settlePair src dst m (TwinPair.ofNodes id src dst (s, d)) = .ok m' ∧
      SecondPass src dst rest m' := by
  rw [settlePair]
  show ∃ m', (if isFree src m.hasSrc s && isFree dst m.hasDst d then
    linkSubtrees src s dst d m else .ok m) = .ok m' ∧ _
  rw [h.isFree_dst hp.mapping]
  by_cases hf : isFree src m.hasSrc s = true ∧ isFree src m.hasSrc d = true
  · have hsd := h.eq_of_first hp hfirst hs hd hl hsub hf.1 hf.2
    subst hsd
    rw [if_pos (by rw [hf.1]; rfl)]
    obtain ⟨m', hlink, hm', hnew⟩ := h.linkSelf hp.mapping hs hsub hl hf.1
    refine ⟨m', hlink, hm', ?_⟩
    intro e he hc hle
    rcases hp.settled e he hc hle with hfull | ⟨hef, hmem⟩
    · exact Or.inl fun x hx => (hnew x).2 (Or.inl (hfull x hx))
    · rcases List.mem_cons.1 hmem with heq | hmem
      · have hes : e = s := congrArg TwinPair.src heq
        rw [hes]
        exact Or.inl fun x hx => (hnew x).2 (Or.inr hx)
      · have hh : src.height e ≤ src.height s := TwinPair.height_le_of_precedes (hfirst _ hmem)
        rcases free_or_full_of_height hnew hh (Or.inl hef) with hfree | hfull
        · exact Or.inr ⟨hfree, hmem⟩
        · exact Or.inl hfull
  · rw [if_neg (by rwa [Bool.and_eq_true])]
    refine ⟨m, rfl, hp.mapping, ?_⟩
    intro e he hc hle
    rcases hp.settled e he hc hle with hfull | ⟨hef, hmem⟩
    · exact Or.inl hfull
    · rcases List.mem_cons.1 hmem with heq | hmem
      · have h₁ : e = s := congrArg TwinPair.src heq
        have h₂ : e = d := congrArg TwinPair.dst heq
        rw [← h₁, ← h₂] at hf
        exact absurd ⟨hef, hef⟩ hf
      · exact Or.inr ⟨hef, hmem⟩

/-- **Matching from the top down** links the covered nodes, each with itself. -/
theorem topDown_eq : ∃ m, topDown id 2 src dst = .ok m ∧ SelfLinked src dst m ∧
    ∀ x, m.hasSrc x = true ↔ Covered src dst x := by
  obtain ⟨st, hst, hfirst⟩ := h.firstPass_run
  have hsorted := pairwise_rankPairs id src dst st.ambiguous
  obtain ⟨m, hm, -, -, hp⟩ := foldlM_ok (f := settlePair src dst)
    (fun l m => (∀ p ∈ l, ∃ q ∈ st.ambiguous, TwinPair.ofNodes id src dst q = p) ∧
      l.Pairwise (fun a b => a.precedes b = true) ∧ SecondPass src dst l m)
    (by
      rintro p l m ⟨hl, hsorted, hp⟩
      rw [List.pairwise_cons] at hsorted
      obtain ⟨⟨s, d⟩, hq, rfl⟩ := hl p List.mem_cons_self
      obtain ⟨hs, hd, hsub⟩ := hfirst.ambiguous _ hq
      rw [h.size_eq] at hd
      obtain ⟨m', hm', hp'⟩ := h.secondPass_step hp hsorted.1 hs hd (hfirst.inner _ hq) hsub
      exact ⟨m', hm', fun q hq => hl q (List.mem_cons_of_mem _ hq), hsorted.2, hp'⟩)
    (rankPairs id src dst st.ambiguous) st.mapping
    ⟨fun p hp => mem_rankPairs.1 hp, hsorted, hfirst.mapping, by
      intro e he hc hl
      have hmem : e ∈ tallestFirst 2 src := mem_tallestFirst.2 ⟨he, (isTall_two he).2 hl⟩
      rcases hfirst.settled e hmem hc with hfull | ⟨hef, hamb, -⟩
      · exact Or.inl hfull
      · exact Or.inr ⟨hef, mem_rankPairs.2 ⟨(e, e), hamb, rfl⟩⟩⟩
  refine ⟨m, ?_, hp.mapping, fun x => ⟨hp.mapping.covered x, ?_⟩⟩
  · rw [topDown, hst]
    exact hm
  · rintro ⟨e, hc, hl, hx⟩
    rcases hp.settled e (Tree.lt_size_of_contains hx) hc hl with hfull | ⟨-, hmem⟩
    · exact hfull x hx
    · exact absurd hmem List.not_mem_nil

end LeafEdit

end TreeMerge
