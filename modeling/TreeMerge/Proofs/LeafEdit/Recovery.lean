import TreeMerge.Proofs.LeafEdit.Basic
import TreeMerge.Proofs.Matching.Soundness

/-!
# Recovery in trees that differ in one leaf

Recovery under a node and itself links all that is left below it. Equal leaves with one parent may
be exchanged; all other nodes are linked with themselves.

* `Close` : a node and itself, or equal leaves with one parent;
* `exists_left_out` : the item of a list that a sublist shorter by one leaves out;
* `linkLeaves` : linking leaves as subtrees is linking them;
* `Ready`, `Recovered` : what recovery starts from, and what it reaches;
* `LeafEdit.recover_eq` : the recursion.
-/

namespace TreeMerge

/-- A node and itself, or two leaves with one parent that the destination does not tell apart. -/
def Close (src dst : Tree) (p : Nat × Nat) : Prop :=
  p.1 = p.2 ∨ src.isLeaf p.1 = true ∧ src.isLeaf p.2 = true ∧
    src.parent? p.1 = src.parent? p.2 ∧ dst.subtree p.2 = dst.subtree p.1

/-! ## Lists -/

/-- A sublist that is shorter by one leaves out one item. -/
theorem exists_left_out {l ys : List Nat} (hs : ys.Sublist l) (hn : l.Nodup)
    (hlen : l.length = ys.length + 1) :
    ∃ b, (b :: ys).Perm l ∧ (l.filter fun x => !ys.contains x) = [b] := by
  obtain ⟨rest, hperm⟩ := hs.exists_perm_append
  have hone : rest.length = 1 := by
    have := hperm.length_eq
    rw [List.length_append] at this
    omega
  obtain ⟨b, rfl⟩ := List.length_eq_one_iff.1 hone
  have hcons : (b :: ys).Perm l := (List.perm_append_singleton b ys).symm.trans hperm.symm
  have hb : b ∉ ys := (List.nodup_cons.1 (hcons.nodup_iff.2 hn)).1
  refine ⟨b, hcons, List.perm_singleton.1 ?_⟩
  refine (hcons.symm.filter _).trans ?_
  rw [List.filter_cons, if_pos (by simpa using hb), List.filter_eq_nil_iff.2 (by simp)]

theorem filter_middle {front back : List Nat} {c : Nat} (hn : (front ++ c :: back).Nodup) :
    ((front ++ c :: back).filter fun x => !(front ++ back).contains x) = [c] := by
  rw [List.nodup_middle, List.nodup_cons] at hn
  rw [List.filter_append, List.filter_cons, if_pos (by simpa using hn.1),
    List.filter_eq_nil_iff.2 (by simp +contextual), List.filter_eq_nil_iff.2 (by simp +contextual)]
  rfl

theorem map_eq_of_zip {α β γ : Type} {f : α → γ} {g : β → γ} {xs : List α} {ys : List β}
    (hlen : ys.length = xs.length) (h : ∀ p ∈ xs.zip ys, f p.1 = g p.2) : xs.map f = ys.map g := by
  have hfst : (xs.zip ys).map Prod.fst = xs := List.map_fst_zip (Nat.le_of_eq hlen.symm)
  have hsnd : (xs.zip ys).map Prod.snd = ys := List.map_snd_zip (Nat.le_of_eq hlen)
  calc xs.map f = ((xs.zip ys).map Prod.fst).map f := by rw [hfst]
    _ = ((xs.zip ys).map Prod.snd).map g := by
      rw [List.map_map, List.map_map]
      exact List.map_congr_left h
    _ = ys.map g := by rw [hsnd]

/-! ## Leaves -/

theorem linkSubtrees_leaf {src dst : Tree} {a b : Nat} (ha : a < src.size) (hb : b < dst.size)
    (hla : src.isLeaf a = true) (hlb : dst.isLeaf b = true) (m : Mapping Nat) :
    linkSubtrees src a dst b m = m.link a b := by
  rw [linkSubtrees, Tree.preOrder, Tree.preOrder, Tree.subtreeSize_leaf ha hla,
    Tree.subtreeSize_leaf hb hlb]
  show (m.link a b >>= fun m => List.foldlM _ m []) = _
  cases m.link a b <;> rfl

/-- Linking leaves as subtrees is linking them. -/
theorem linkLeaves {src dst : Tree} {ps : List (Nat × Nat)}
    (hleaf : ∀ p ∈ ps, (p.1 < src.size ∧ src.isLeaf p.1 = true) ∧
      p.2 < dst.size ∧ dst.isLeaf p.2 = true) (m : Mapping Nat) :
    ps.foldlM (fun m p => linkSubtrees src p.1 dst p.2 m) m = m.linkAll ps := by
  induction ps generalizing m with
  | nil => rfl
  | cons p ps ih =>
    obtain ⟨⟨h₁, h₂⟩, h₃, h₄⟩ := hleaf p List.mem_cons_self
    rw [List.foldlM_cons, linkSubtrees_leaf h₁ h₃ h₂ h₄, Mapping.linkAll, List.foldlM_cons]
    have ih' := ih fun q hq => hleaf q (List.mem_cons_of_mem _ hq)
    exact congrArg (m.link p.1 p.2 >>= ·) (funext ih')

/-- Linking some children leaves the others open. -/
theorem openChildren_or {t : Tree} {linked linked' : Nat → Bool} {xs : List Nat} {q : Nat}
    (h : ∀ x, linked' x = true ↔ linked x = true ∨ x ∈ xs) :
    openChildren t linked' q = (openChildren t linked q).filter fun x => !xs.contains x := by
  rw [openChildren, openChildren, List.filter_filter]
  apply List.filter_congr
  intro x _
  rw [Bool.eq_iff_iff, Bool.and_eq_true, Bool.not_eq_true', Bool.not_eq_true', Bool.not_eq_true',
    ← Bool.not_eq_true, h, not_or, List.contains_eq_mem, decide_eq_false_iff_not, Bool.not_eq_true,
    and_comm]

/-! ## Below one node -/

/-- What recovery below `q` starts from: covered nodes are linked, and so is all of a subtree that
differs once its root is. -/
structure Ready (src dst : Tree) (q : Nat) (m : Mapping Nat) : Prop where
  sound : m.Sound src dst
  same : ∀ x ∈ src.descendants q, m.hasDst x = m.hasSrc x
  covered : ∀ x, Covered src dst x → m.hasSrc x = true
  full : ∀ x ∈ src.descendants q, ¬ Clean src dst x → m.hasSrc x = true → Full src m x

/-- All nodes below `q` are linked, by links that were there or are close. -/
structure Recovered (src dst : Tree) (q : Nat) (m m' : Mapping Nat) : Prop where
  close : ∀ p ∈ m'.pairs, p ∈ m.pairs ∨ Close src dst p
  hasSrc : ∀ x ∈ src.descendants q, m'.hasSrc x = true
  hasDst : ∀ x ∈ src.descendants q, m'.hasDst x = true

/-- Recovery below a node that was linked with itself leaves its subtree linked. -/
theorem Recovered.linked {src dst : Tree} {c : Nat} {ps : List (Nat × Nat)} {m : Mapping Nat}
    {S D : Nat → Prop} (hr : Recovered src dst c ⟨ps ++ [(c, c)]⟩ m)
    (hg : (⟨ps ++ [(c, c)]⟩ : Mapping Nat).Grows m S D) (x : Nat)
    (hx : src.contains c x = true) : m.hasSrc x = true ∧ m.hasDst x = true := by
  by_cases hcx : c = x
  · subst hcx
    have hmem : (c, c) ∈ m.pairs := hg.mem (List.mem_append_right ps (List.mem_singleton_self _))
    exact ⟨Mapping.hasSrc_iff.2 ⟨c, hmem⟩, Mapping.hasDst_iff.2 ⟨c, hmem⟩⟩
  · have hd := Tree.mem_descendants.2 ⟨hcx, hx⟩
    exact ⟨hr.hasSrc x hd, hr.hasDst x hd⟩

theorem Recovered.openChildren_eq_nil {src dst : Tree} {q : Nat} {m m' : Mapping Nat}
    (hr : Recovered src dst q m m') : openChildren src m'.hasSrc q = [] := by
  rw [openChildren, List.filter_eq_nil_iff]
  intro x hx
  rw [hr.hasSrc x (Tree.child_mem_descendants hx)]
  exact Bool.false_ne_true

namespace LeafEdit

variable {k : Nat} {src dst : Tree} (h : LeafEdit k src dst) {q : Nat} {m : Mapping Nat}

include h

theorem openChildren_eq (hr : Ready src dst q m) :
    openChildren dst m.hasDst q = openChildren src m.hasSrc q := by
  rw [openChildren, openChildren, h.children_eq]
  apply List.filter_congr
  intro x hx
  rw [hr.same x (Tree.child_mem_descendants hx)]

omit h in
/-- An open child that does not differ is a leaf. -/
theorem leaf_of_open {c : Nat} (hr : Ready src dst q m) (hc : c ∈ openChildren src m.hasSrc q)
    (hclean : Clean src dst c) : src.isLeaf c = true := by
  obtain ⟨hmem, hopen⟩ := mem_openChildren.1 hc
  by_contra hl
  rw [Bool.not_eq_true] at hl
  have := hr.covered c (covered_of_clean (Tree.lt_size_of_mem_children hmem) hclean hl)
  rw [hopen] at this
  exact Bool.false_ne_true this

omit h in
/-- Below a child that is linked everything is. -/
theorem linked_below {c : Nat} (hr : Ready src dst q m) (hc : c ∈ src.children q)
    (hl : m.hasSrc c = true) (x : Nat) (hx : src.contains c x = true) :
    m.hasSrc x = true ∧ m.hasDst x = true := by
  have hsrc : m.hasSrc x = true := by
    by_cases hclean : Clean src dst c
    · cases hleaf : src.isLeaf c with
      | true =>
        rw [← Tree.eq_of_leaf_contains hleaf hx]
        exact hl
      | false => exact hr.covered x ⟨c, hclean, hleaf, hx⟩
    · exact hr.full c (Tree.child_mem_descendants hc) hclean hl x hx
  refine ⟨hsrc, ?_⟩
  rw [hr.same x (Tree.mem_descendants_of_child hc hx)]
  exact hsrc

omit h in
/-- All is linked once the open children are, with all below them. -/
theorem recovered_of_open {m' : Mapping Nat} (hr : Ready src dst q m)
    {S D : Nat → Prop} (hg : m.Grows m' S D)
    (hclose : ∀ p ∈ m'.pairs, p ∈ m.pairs ∨ Close src dst p)
    (hopen : ∀ c ∈ openChildren src m.hasSrc q, ∀ x, src.contains c x = true →
      m'.hasSrc x = true ∧ m'.hasDst x = true) : Recovered src dst q m m' := by
  have hall : ∀ x ∈ src.descendants q, m'.hasSrc x = true ∧ m'.hasDst x = true := by
    intro x hx
    obtain ⟨hne, hqx⟩ := Tree.mem_descendants.1 hx
    obtain ⟨c, hc, hcx⟩ := Tree.exists_child_contains hqx hne
    cases hl : m.hasSrc c with
    | true =>
      obtain ⟨h₁, h₂⟩ := linked_below hr hc hl x hcx
      exact ⟨hg.hasSrc h₁, hg.hasDst h₂⟩
    | false => exact hopen c (mem_openChildren.2 ⟨hc, hl⟩) x hcx
  exact ⟨hclose, fun x hx => (hall x hx).1, fun x hx => (hall x hx).2⟩

/-- The first round links clean leaves. -/
theorem linkTwins_eq (hr : Ready src dst q m) {ps : List (Nat × Nat)}
    (hps : longestCommon (freeAndSame src dst m) (openChildren src m.hasSrc q)
      (openChildren dst m.hasDst q) = ps) (hclean : ∀ p ∈ ps, Clean src dst p.1) :
    ps.foldlM (fun m p => linkSubtrees src p.1 dst p.2 m) m = .ok ⟨m.pairs ++ ps⟩ ∧
      Mapping.Sound src dst ⟨m.pairs ++ ps⟩ ∧ (∀ p ∈ ps, Close src dst p) ∧
      (∀ p ∈ ps, p.1 ∈ src.children q ∧ p.2 ∈ src.children q) ∧
      ∀ p ∈ ps, src.subtree p.1 = dst.subtree p.2 := by
  have hpair := pairing_longestCommon (freeAndSame src dst m) (openChildren src m.hasSrc q)
    (openChildren dst m.hasDst q)
  rw [hps] at hpair
  obtain ⟨hchildren, hfree, hdistinct⟩ := hpair.openChildren
  have hlt : ∀ p ∈ ps, p.1 < src.size ∧ p.2 < dst.size := fun p hp =>
    ⟨Tree.lt_size_of_mem_children (hchildren p hp).1,
      Tree.lt_size_of_mem_children (hchildren p hp).2⟩
  have hsame : ∀ p ∈ ps, src.subtree p.1 = dst.subtree p.2 := fun p hp =>
    ((freeAndSame_iff (hlt p hp).1 (hlt p hp).2).1 (hpair.related p hp)).2.2
  have hleaf : ∀ p ∈ ps, src.isLeaf p.1 = true ∧ dst.isLeaf p.2 = true := by
    intro p hp
    have hopen := mem_openChildren.2 ⟨(hchildren p hp).1, (hfree p hp).1⟩
    have hl := leaf_of_open hr hopen (hclean p hp)
    exact ⟨hl, (Tree.isLeaf_congr (hsame p hp)).symm.trans hl⟩
  have h₁ : (ps.map Prod.fst).Nodup := (nodup_openChildren _ _ _).sublist hpair.fst
  have h₂ : (ps.map Prod.snd).Nodup := (nodup_openChildren _ _ _).sublist hpair.snd
  refine ⟨?_, ?_, ?_, fun p hp => ⟨(hchildren p hp).1, h.children_eq q ▸ (hchildren p hp).2⟩, hsame⟩
  · rw [linkLeaves (fun p hp => ⟨⟨(hlt p hp).1, (hleaf p hp).1⟩, (hlt p hp).2, (hleaf p hp).2⟩)]
    exact Mapping.linkAll_of_free h₁ h₂ hfree
  · refine hr.sound.append h₁ h₂ hfree fun p hp => ⟨(hlt p hp).1, (hlt p hp).2, ?_⟩
    rw [Tree.kind, Tree.kind, Tree.content, Tree.content, hsame p hp]
  · intro p hp
    obtain ⟨hc₁, hc₂⟩ := hchildren p hp
    refine Or.inr ⟨(hleaf p hp).1, (h.isLeaf_eq _).symm.trans (hleaf p hp).2, ?_, ?_⟩
    · rw [h.children_eq] at hc₂
      rw [Tree.parent?_of_mem_children hc₁, Tree.parent?_of_mem_children hc₂]
    · rw [← hsame p hp]
      exact hclean p hp

/-- At most one open child differs. -/
theorem open_split (m : Mapping Nat) (q : Nat) :
    (∀ x ∈ openChildren src m.hasSrc q, Clean src dst x) ∨
      ∃ front c back, openChildren src m.hasSrc q = front ++ c :: back ∧ ¬ Clean src dst c ∧
        ∀ x ∈ front ++ back, Clean src dst x := by
  by_cases hall : ∀ x ∈ openChildren src m.hasSrc q, Clean src dst x
  · exact Or.inl hall
  · obtain ⟨c, hc⟩ := Classical.not_forall.1 hall
    obtain ⟨hmem, hdirty⟩ := Classical.not_imp.1 hc
    obtain ⟨front, back, hsplit⟩ := List.append_of_mem hmem
    refine Or.inr ⟨front, c, back, hsplit, hdirty, ?_⟩
    intro x hx
    by_contra hxd
    have hn := nodup_openChildren src m.hasSrc q
    have hxmem : x ∈ openChildren src m.hasSrc q := by
      rw [hsplit]
      rcases List.mem_append.1 hx with hx | hx
      · exact List.mem_append_left _ hx
      · exact List.mem_append_right _ (List.mem_cons_of_mem _ hx)
    have hxc : x = c := Tree.child_unique (mem_openChildren.1 hxmem).1 (mem_openChildren.1 hmem).1
      (h.contains_of_not_clean hxd) (h.contains_of_not_clean hdirty)
    rw [hsplit, List.nodup_middle, List.nodup_cons] at hn
    exact hn.1 (hxc ▸ hx)

/-- A leaf that is open is free, and related to itself if it is clean. -/
theorem freeAndSame_self (hr : Ready src dst q m) {c : Nat}
    (hc : c ∈ openChildren src m.hasSrc q) (hclean : Clean src dst c) :
    freeAndSame src dst m c c = true := by
  obtain ⟨hmem, hopen⟩ := mem_openChildren.1 hc
  have hl := leaf_of_open hr hc hclean
  have hlt := Tree.lt_size_of_mem_children hmem
  have hdst : m.hasDst c = false := by
    rw [hr.same c (Tree.mem_descendants_of_child hmem (Tree.contains_self hlt))]
    exact hopen
  refine (freeAndSame_iff hlt (by rwa [h.size_eq])).2 ⟨isFree_iff.2 ?_, isFree_iff.2 ?_, hclean⟩
  · intro n hn
    rw [← Tree.eq_of_leaf_contains hl hn]
    exact hopen
  · intro n hn
    rw [h.contains_eq] at hn
    rw [← Tree.eq_of_leaf_contains hl hn]
    exact hdst

/-- Where no open child differs, all of them are linked in the first round. -/
theorem recover_clean (hr : Ready src dst q m)
    (hall : ∀ x ∈ openChildren src m.hasSrc q, Clean src dst x) (fuel : Nat) :
    ∃ m', recover src dst (fuel + 1) q q m = .ok m' ∧ Recovered src dst q m m' := by
  have hself : ∀ x ∈ openChildren src m.hasSrc q, freeAndSame src dst m x x = true :=
    fun x hx => h.freeAndSame_self hr hx (hall x hx)
  have hps : longestCommon (freeAndSame src dst m) (openChildren src m.hasSrc q)
      (openChildren dst m.hasDst q) = (openChildren src m.hasSrc q).map fun x => (x, x) := by
    rw [h.openChildren_eq hr, longestCommon_self hself]
  obtain ⟨hlink, -, hclose, -, -⟩ := h.linkTwins_eq hr hps (by
    intro p hp
    obtain ⟨x, hx, rfl⟩ := List.mem_map.1 hp
    exact hall x hx)
  have hfst : ((openChildren src m.hasSrc q).map fun x => (x, x)).map Prod.fst =
      openChildren src m.hasSrc q := by
    rw [List.map_map]
    exact List.map_id _
  have hsnd : ((openChildren src m.hasSrc q).map fun x => (x, x)).map Prod.snd =
      openChildren src m.hasSrc q := by
    rw [List.map_map]
    exact List.map_id _
  refine ⟨_, recover_succ_of_twins (by rw [hps]; exact hlink) ?_, ?_⟩
  · rw [openChildren_or fun x => Mapping.hasSrc_append, hfst, List.filter_eq_nil_iff]
    simp
  · refine recovered_of_open hr (S := fun _ => True) (D := fun _ => True)
      ⟨_, rfl, fun _ _ => ⟨trivial, trivial⟩⟩ ?_ ?_
    · intro p hp
      exact (List.mem_append.1 hp).imp_right (hclose p)
    · intro c hc x hx
      rw [← Tree.eq_of_leaf_contains (leaf_of_open hr hc (hall c hc)) hx, Mapping.hasSrc_append,
        Mapping.hasDst_append, hfst, hsnd]
      exact ⟨Or.inr hc, Or.inr hc⟩

/-- Where one open child differs, the first round links all others, and leaves a node on the other
side that is like it. -/
theorem twins_of_split (hr : Ready src dst q m) {front back : List Nat} {c : Nat}
    (hsplit : openChildren src m.hasSrc q = front ++ c :: back) (hc : ¬ Clean src dst c)
    (hclean : ∀ x ∈ front ++ back, Clean src dst x) :
    ∃ ps b, longestCommon (freeAndSame src dst m) (openChildren src m.hasSrc q)
        (openChildren dst m.hasDst q) = ps ∧ ps.map Prod.fst = front ++ back ∧
      ((front ++ c :: back).filter fun x => !(ps.map Prod.snd).contains x) = [b] ∧
      (b :: ps.map Prod.snd).Perm (front ++ c :: back) ∧ dst.subtree b = dst.subtree c := by
  have hmem : ∀ x ∈ front ++ back, x ∈ openChildren src m.hasSrc q := by
    intro x hx
    rw [hsplit]
    rcases List.mem_append.1 hx with hx | hx
    · exact List.mem_append_left _ hx
    · exact List.mem_append_right _ (List.mem_cons_of_mem _ hx)
  have hself : ∀ x ∈ front ++ back, freeAndSame src dst m x x = true :=
    fun x hx => h.freeAndSame_self hr (hmem x hx) (hclean x hx)
  have hcmem : c ∈ openChildren src m.hasSrc q := by
    rw [hsplit]
    simp
  have hclt := Tree.lt_size_of_mem_children (mem_openChildren.1 hcmem).1
  have hcc : freeAndSame src dst m c c = false := by
    rw [Bool.eq_false_iff]
    intro hcc
    exact hc ((freeAndSame_iff hclt (by rwa [h.size_eq])).1 hcc).2.2
  obtain ⟨ys, hys, hsub, hlen⟩ := longestCommon_cons_self hcc fun a ha =>
    hself a (List.mem_append_right _ ha)
  have hps : longestCommon (freeAndSame src dst m) (openChildren src m.hasSrc q)
      (openChildren dst m.hasDst q) = (front.map fun x => (x, x)) ++ back.zip ys := by
    rw [h.openChildren_eq hr, hsplit,
      longestCommon_append_left (fun a ha => hself a (List.mem_append_left _ ha)), hys]
  have hfst : ((front.map fun x => (x, x)) ++ back.zip ys).map Prod.fst = front ++ back := by
    rw [List.map_append, List.map_map, List.map_fst_zip (Nat.le_of_eq hlen.symm)]
    exact congrArg (· ++ back) (List.map_id front)
  have hsnd : ((front.map fun x => (x, x)) ++ back.zip ys).map Prod.snd = front ++ ys := by
    rw [List.map_append, List.map_map, List.map_snd_zip (Nat.le_of_eq hlen)]
    exact congrArg (· ++ ys) (List.map_id front)
  have hsubl : (front ++ ys).Sublist (front ++ c :: back) := hsub.append_left front
  have hnodup : (front ++ c :: back).Nodup := hsplit ▸ nodup_openChildren src m.hasSrc q
  obtain ⟨b, hperm, hfilter⟩ := exists_left_out hsubl hnodup (by
    rw [List.length_append, List.length_append, List.length_cons, hlen]
    rfl)
  obtain ⟨-, -, -, -, hsame⟩ := h.linkTwins_eq hr hps (by
    intro p hp
    apply hclean
    rw [← hfst]
    exact List.mem_map_of_mem hp)
  -- what the second list has on the left of the pairs and on their right is the same
  have hback : back.map dst.subtree = ys.map dst.subtree := by
    rw [← map_eq_of_zip hlen fun p hp => hsame p (List.mem_append_right _ hp)]
    apply List.map_congr_left
    intro x hx
    exact (hclean x (List.mem_append_right _ hx)).symm
  have hcancel : ([dst.subtree b] ++ (front ++ back).map dst.subtree).Perm
      ([dst.subtree c] ++ (front ++ back).map dst.subtree) := by
    have hmap := hperm.map dst.subtree
    rw [List.map_cons, List.map_append, ← hback, ← List.map_append] at hmap
    refine hmap.trans ?_
    rw [List.map_append, List.map_cons, List.map_append]
    exact List.perm_middle
  refine ⟨_, b, hps, hfst, hsnd ▸ hfilter, hsnd ▸ hperm, ?_⟩
  exact List.singleton_inj.1 (List.perm_singleton.1 ((List.perm_append_right_iff _).1 hcancel))

/-- What the first round leaves open where one open child differs. -/
structure Split (src dst : Tree) (q : Nat) (m : Mapping Nat) (ps : List (Nat × Nat)) (c b : Nat) :
    Prop where
  link : (longestCommon (freeAndSame src dst m) (openChildren src m.hasSrc q)
    (openChildren dst m.hasDst q)).foldlM (fun m p => linkSubtrees src p.1 dst p.2 m) m =
      .ok ⟨m.pairs ++ ps⟩
  sound : Mapping.Sound src dst ⟨m.pairs ++ ps⟩
  close : ∀ p ∈ ps, Close src dst p
  children : ∀ p ∈ ps, p.1 ∈ src.children q ∧ p.2 ∈ src.children q
  src_open : openChildren src (⟨m.pairs ++ ps⟩ : Mapping Nat).hasSrc q = [c]
  dst_open : openChildren dst (⟨m.pairs ++ ps⟩ : Mapping Nat).hasDst q = [b]
  mem_src : ∀ x ∈ openChildren src m.hasSrc q, x = c ∨
    src.isLeaf x = true ∧ x ∈ ps.map Prod.fst
  mem_dst : ∀ x ∈ openChildren src m.hasSrc q, x = b ∨ x ∈ ps.map Prod.snd
  subtree_eq : dst.subtree b = dst.subtree c

theorem exists_split (hr : Ready src dst q m) {front back : List Nat} {c : Nat}
    (hsplit : openChildren src m.hasSrc q = front ++ c :: back) (hc : ¬ Clean src dst c)
    (hclean : ∀ x ∈ front ++ back, Clean src dst x) : ∃ ps b, Split src dst q m ps c b := by
  obtain ⟨ps, b, hps, hfst, hfilter, hperm, hsub⟩ := h.twins_of_split hr hsplit hc hclean
  have hnodup : (front ++ c :: back).Nodup := hsplit ▸ nodup_openChildren src m.hasSrc q
  obtain ⟨hlink, hsound, hclose, hchildren, -⟩ := h.linkTwins_eq hr hps fun p hp =>
    hclean p.1 (hfst ▸ List.mem_map_of_mem hp)
  refine ⟨ps, b, by rw [hps]; exact hlink, hsound, hclose, hchildren, ?_, ?_, ?_, ?_, hsub⟩
  · rw [openChildren_or fun x => Mapping.hasSrc_append, hfst, hsplit, filter_middle hnodup]
  · rw [openChildren_or fun x => Mapping.hasDst_append, h.openChildren_eq hr, hsplit, hfilter]
  · intro x hx
    by_cases hxc : x = c
    · exact Or.inl hxc
    · have hmem : x ∈ front ++ back := by
        rw [hsplit, List.perm_middle.mem_iff, List.mem_cons] at hx
        exact hx.resolve_left hxc
      exact Or.inr ⟨leaf_of_open hr hx (hclean x hmem), hfst ▸ hmem⟩
  · intro x hx
    rw [hsplit, ← hperm.mem_iff, List.mem_cons] at hx
    exact hx

omit h in
theorem Split.src_free {ps : List (Nat × Nat)} {c b : Nat} (hs : Split src dst q m ps c b) :
    c ∈ src.children q ∧ (⟨m.pairs ++ ps⟩ : Mapping Nat).hasSrc c = false := by
  rw [← mem_openChildren, hs.src_open]
  exact List.mem_singleton_self c

omit h in
theorem Split.dst_free {ps : List (Nat × Nat)} {c b : Nat} (hs : Split src dst q m ps c b) :
    b ∈ dst.children q ∧ (⟨m.pairs ++ ps⟩ : Mapping Nat).hasDst b = false := by
  rw [← mem_openChildren, hs.dst_open]
  exact List.mem_singleton_self b

omit h in
/-- All is linked once the two children that are left are, with all below them. -/
theorem Split.recovered {ps : List (Nat × Nat)} {c b : Nat} (hs : Split src dst q m ps c b)
    (hr : Ready src dst q m) {m' : Mapping Nat} {S D : Nat → Prop}
    (hg : (⟨m.pairs ++ ps⟩ : Mapping Nat).Grows m' S D)
    (hclose : ∀ p ∈ m'.pairs, p ∈ m.pairs ++ ps ∨ Close src dst p)
    (hleaf : c ≠ b → src.isLeaf c = true)
    (hc : ∀ x, src.contains c x = true → m'.hasSrc x = true)
    (hb : ∀ x, src.contains b x = true → m'.hasDst x = true) : Recovered src dst q m m' := by
  have hg' : m.Grows m' (fun _ => True) (fun _ => True) := by
    obtain ⟨new, hnew, -⟩ := hg
    exact ⟨ps ++ new, by rw [hnew, List.append_assoc], fun _ _ => ⟨trivial, trivial⟩⟩
  refine recovered_of_open hr hg' ?_ ?_
  · intro p hp
    rcases hclose p hp with hp | hp
    · exact (List.mem_append.1 hp).imp_right (hs.close p)
    · exact Or.inr hp
  · intro x hx y hxy
    constructor
    · rcases hs.mem_src x hx with rfl | ⟨hl, hmem⟩
      · exact hc y hxy
      · rw [← Tree.eq_of_leaf_contains hl hxy]
        exact hg.hasSrc (Mapping.hasSrc_append.2 (Or.inr hmem))
    · by_cases hxb : x = b
      · exact hb y (hxb ▸ hxy)
      · have hl : src.isLeaf x = true := by
          rcases hs.mem_src x hx with rfl | ⟨hl, -⟩
          · exact hleaf hxb
          · exact hl
        rw [← Tree.eq_of_leaf_contains hl hxy]
        exact hg.hasDst (Mapping.hasDst_append.2 (Or.inr ((hs.mem_dst x hx).resolve_left hxb)))

/-- A leaf that differs goes to the leaf that is left, in the last round. -/
theorem recover_leaf (hr : Ready src dst q m) {ps : List (Nat × Nat)} {c b : Nat}
    (hs : Split src dst q m ps c b) (hc : ¬ Clean src dst c) (hl : src.isLeaf c = true)
    (fuel : Nat) :
    ∃ m', recover src dst (fuel + 1) q q m = .ok m' ∧ Recovered src dst q m m' := by
  obtain ⟨hcq, hcopen⟩ := hs.src_free
  obtain ⟨hbq, hbopen⟩ := hs.dst_free
  have hlb : src.isLeaf b = true := by
    rw [← h.isLeaf_eq, Tree.isLeaf_congr hs.subtree_eq, h.isLeaf_eq, hl]
  have hcontent : sameContent src dst c b = false := by
    rw [sameContent, decide_eq_false_iff_not]
    intro heq
    apply hc
    rw [Clean, Tree.subtree_leaf hl, Tree.subtree_leaf (by rwa [h.isLeaf_eq]), heq, Tree.content,
      Tree.content, hs.subtree_eq]
  have hkind : dst.kind b = src.kind c := by
    rw [← h.kind_eq c, Tree.kind, Tree.kind, Tree.content, Tree.content, hs.subtree_eq]
  have h₂ : longestCommon (sameContent src dst) [c] [b] = [] := by
    rw [longestCommon_cons_cons, commonCell, hcontent, longestCommon_nil_left,
      longestCommon_nil_right]
    rfl
  have h₃ : solePairs src [c] dst [b] = [(c, b)] := by
    simp [solePairs, soleOfKind?, countKind, hkind]
  refine ⟨⟨m.pairs ++ ps ++ [(c, b)]⟩,
    recover_succ hs.link (by rw [hs.src_open, hs.dst_open, h₂]; rfl) ?_, ?_⟩
  · rw [hs.src_open, hs.dst_open, h₃]
    show (((⟨m.pairs ++ ps⟩ : Mapping Nat).link c b >>= recover src dst fuel c b) >>= pure) = _
    rw [Mapping.link_of_free hcopen hbopen]
    show (recover src dst fuel c b _ >>= pure) = _
    rw [recover_of_no_open (by rw [openChildren, Tree.isLeaf_iff.1 hl, List.filter_nil])]
    rfl
  · refine hs.recovered hr (S := fun _ => True) (D := fun _ => True)
      ⟨[(c, b)], rfl, fun _ _ => ⟨trivial, trivial⟩⟩ ?_ (fun _ => hl) ?_ ?_
    · intro p hp
      refine (List.mem_append.1 hp).imp_right fun hp => ?_
      rw [List.mem_singleton.1 hp]
      rw [h.children_eq] at hbq
      refine Or.inr ⟨hl, hlb, ?_, hs.subtree_eq⟩
      rw [Tree.parent?_of_mem_children hcq, Tree.parent?_of_mem_children hbq]
    · intro x hx
      rw [← Tree.eq_of_leaf_contains hl hx]
      exact Mapping.hasSrc_append.2 (Or.inr (List.mem_singleton_self c))
    · intro x hx
      rw [← Tree.eq_of_leaf_contains hlb hx]
      exact Mapping.hasDst_append.2 (Or.inr (List.mem_singleton_self b))

/-- An inner node that differs is linked with itself before recovery goes on below it. -/
theorem ready_child (hr : Ready src dst q m) {ps : List (Nat × Nat)} {c : Nat}
    (hs : Split src dst q m ps c c) :
    Ready src dst c ⟨m.pairs ++ ps ++ [(c, c)]⟩ := by
  obtain ⟨hcq, hcopen⟩ := hs.src_free
  have hclt := Tree.lt_size_of_mem_children hcq
  -- the new links are between children of `q`, and no child lies below another
  have hchild : ∀ x ∈ src.descendants c, x ∉ src.children q := by
    intro x hx hxq
    obtain ⟨hne, hcx⟩ := Tree.mem_descendants.1 hx
    exact hne (Tree.child_unique hcq hxq hcx (Tree.contains_self (Tree.contains_lt_size hcx)))
  have hg : m.Grows ⟨m.pairs ++ ps ++ [(c, c)]⟩ (· ∈ src.children q) (· ∈ src.children q) := by
    refine ⟨ps ++ [(c, c)], List.append_assoc _ _ _, fun p hp => ?_⟩
    rcases List.mem_append.1 hp with hp | hp
    · exact hs.children p hp
    · rw [List.mem_singleton.1 hp]
      exact ⟨hcq, hcq⟩
  refine ⟨hs.sound.snoc hcopen hs.dst_free.2 hclt (by rwa [h.size_eq]) (h.kind_eq c).symm, ?_, ?_,
    ?_⟩
  · intro x hx
    rw [hg.hasSrc_eq (hchild x hx), hg.hasDst_eq (hchild x hx)]
    exact hr.same x (Tree.mem_descendants_of_child hcq (Tree.mem_descendants.1 hx).2)
  · exact fun x hx => hg.hasSrc (hr.covered x hx)
  · intro x hx hdirty hlinked y hy
    rw [hg.hasSrc_eq (hchild x hx)] at hlinked
    have hxq := Tree.mem_descendants_of_child hcq (Tree.mem_descendants.1 hx).2
    exact hg.hasSrc (hr.full x hxq hdirty hlinked y hy)

/-- An inner node that differs goes to itself, in the second round. -/
theorem recover_inner (hr : Ready src dst q m) {ps : List (Nat × Nat)} {c : Nat}
    (hs : Split src dst q m ps c c) (hl : src.isLeaf c = false) {fuel : Nat}
    (ih : ∀ m, Ready src dst c m →
      ∃ m', recover src dst fuel c c m = .ok m' ∧ Recovered src dst c m m') :
    ∃ m', recover src dst (fuel + 1) q q m = .ok m' ∧ Recovered src dst q m m' := by
  have hready := h.ready_child hr hs
  obtain ⟨m₂, hm₂, hrec⟩ := ih _ hready
  obtain ⟨m₂', hm₂', -, hg⟩ := recover_ok src dst fuel c c _ hready.sound
  rw [hm₂, Except.ok.injEq] at hm₂'
  subst hm₂'
  have hcontent : sameContent src dst c c = true := by
    rw [sameContent, decide_eq_true_iff, h.content_eq]
    rintro rfl
    rw [h.leaf] at hl
    exact Bool.false_ne_true hl.symm
  have h₂ : longestCommon (sameContent src dst) [c] [c] = [(c, c)] := by
    rw [longestCommon_self (by simpa using hcontent)]
    rfl
  have hfull := hrec.linked hg
  have hrecovered : Recovered src dst q m m₂ := by
    obtain ⟨new, hnew, -⟩ := hg
    refine hs.recovered hr (S := fun _ => True) (D := fun _ => True)
      ⟨(c, c) :: new, by rw [hnew, List.append_assoc]; rfl, fun _ _ => ⟨trivial, trivial⟩⟩ ?_
      (fun hcc => absurd rfl hcc) (fun x hx => (hfull x hx).1) (fun x hx => (hfull x hx).2)
    intro p hp
    rcases hrec.close p hp with hp | hp
    · refine (List.mem_append.1 hp).imp_right fun hp => ?_
      rw [List.mem_singleton.1 hp]
      exact Or.inl rfl
    · exact Or.inr hp
  refine ⟨m₂, recover_succ_of_closed hs.link ?_ hrecovered.openChildren_eq_nil, hrecovered⟩
  rw [hs.src_open, hs.dst_open, h₂]
  show (((⟨m.pairs ++ ps⟩ : Mapping Nat).link c c >>= recover src dst fuel c c) >>= pure) = _
  rw [Mapping.link_of_free hs.src_free.2 hs.dst_free.2]
  show (recover src dst fuel c c _ >>= pure) = _
  rw [hm₂]
  rfl

/-- **Recovery under a node and itself** links all nodes below it. -/
theorem recover_eq (fuel : Nat) : ∀ q < src.size, src.height q ≤ fuel → ∀ m, Ready src dst q m →
    ∃ m', recover src dst fuel q q m = .ok m' ∧ Recovered src dst q m m' := by
  induction fuel with
  | zero =>
    intro q hq hh
    have := Tree.height_pos hq
    omega
  | succ fuel ih =>
    intro q hq hh m hr
    rcases h.open_split m q with hall | ⟨front, c, back, hsplit, hc, hclean⟩
    · exact h.recover_clean hr hall fuel
    · obtain ⟨ps, b, hs⟩ := h.exists_split hr hsplit hc hclean
      cases hl : src.isLeaf c with
      | true => exact h.recover_leaf hr hs hc hl fuel
      | false =>
        have hcmem : c ∈ openChildren src m.hasSrc q := by
          rw [hsplit]
          simp
        have hbmem : b ∈ openChildren src m.hasSrc q := by
          have hb : b ∈ openChildren dst (⟨m.pairs ++ ps⟩ : Mapping Nat).hasDst q := by
            rw [hs.dst_open]
            exact List.mem_singleton_self b
          rw [openChildren_or fun x => Mapping.hasDst_append, h.openChildren_eq hr] at hb
          exact (List.mem_filter.1 hb).1
        have hbc : b = c := by
          rcases hs.mem_src b hbmem with hbc | ⟨hlb, -⟩
          · exact hbc
          · rw [← h.isLeaf_eq, Tree.isLeaf_congr hs.subtree_eq, h.isLeaf_eq, hl] at hlb
            exact absurd hlb Bool.false_ne_true
        subst hbc
        have hcq := (mem_openChildren.1 hcmem).1
        have := Tree.height_child_lt hcq
        exact h.recover_inner hr hs hl (ih b (Tree.lt_size_of_mem_children hcq) (by omega))

end LeafEdit

end TreeMerge
