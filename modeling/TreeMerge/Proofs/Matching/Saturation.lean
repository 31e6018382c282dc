import TreeMerge.Proofs.Matching.Copies

/-!
# Matching from the top down leaves no twins behind

After the two passes from the top down, of any two tall identical subtrees one is linked as a whole.
Subtrees are visited from the tallest down, so a subtree that comes up is free or lies in a copied
one. It is linked at once, or its pairs are kept for the second pass. Such a pair stays free to the
end of the first pass: it has a third twin, so nothing in it can be the only one of its kind. The
second pass goes from the tallest down as well.

* `FreeCopy` : a free subtree that is equal to a given one;
* `Crowded` : a pair of free twins of which there is a third one, `Crowded.kept` : it stays free;
* `Sifting`, `Sifting.step`, `sift` : the first pass;
* `Ranking`, `Ranking.step`, `topDown_saturated` : the second;
* `greedyMatch_saturated` : what is left after the whole matcher;
* `greedyMatch_maximal` : no two tall identical subtrees are left free;
* `greedyMatch_unique_twins` : a tall subtree that is alone of its kind on either side is linked
  with its twin.
-/

namespace TreeMerge

variable {src dst : Tree} {m m' : Mapping Nat} {minHeight : Rat} {s d e f : Nat}

/-! ## Free copies -/

/-- A free subtree of `t` that is equal to `n`. -/
structure FreeCopy (t : Tree) (linked : Nat → Bool) (n : Node) (a : Nat) : Prop where
  lt : a < t.size
  eq : t.subtree a = n
  free : isFree t linked a = true

theorem mem_freeTwins_of_tall {t : Tree} {linked : Nat → Bool} {a : Nat} (hs : s < src.size)
    (htall : isTall minHeight src s = true) :
    a ∈ freeTwins minHeight src s t linked ↔ FreeCopy t linked (src.subtree s) a := by
  rw [mem_freeTwins hs]
  constructor
  · rintro ⟨ha, -, hf, hsub⟩
    exact ⟨ha, hsub.symm, hf⟩
  · rintro ⟨ha, hsub, hf⟩
    refine ⟨ha, ?_, hf, hsub.symm⟩
    rwa [isTall_congr ha hs hsub]

/-- A place in a subtree has a free copy in each free copy of the subtree. -/
theorem FreeCopy.offset {t u : Tree} {linked : Nat → Bool} {a b x : Nat}
    (ha : FreeCopy t linked (u.subtree b) a) (hx : u.contains b x = true) :
    FreeCopy t linked (u.subtree x) (a + (x - b)) := by
  have hsize := Tree.subtreeSize_congr ha.lt (Tree.lt_size_of_contains hx) ha.eq
  have hin : t.contains a (a + (x - b)) = true := by
    rw [Tree.contains_iff] at hx ⊢
    omega
  exact ⟨Tree.contains_lt_size hin, (Tree.subtree_offset ha.lt ha.eq.symm hx).symm,
    isFree_of_contains ha.free hin⟩

theorem FreeCopy.tallTwins {linked : Nat → Bool} (hd : FreeCopy dst linked (src.subtree s) d)
    (hs : s < src.size) (htall : isTall minHeight src s = true) :
    TallTwins minHeight src dst s d :=
  ⟨hs, hd.lt, htall, (Tree.isomorphic_iff hs hd.lt).2 hd.eq.symm⟩

/-- A pair of free twins with a third one in either tree. -/
structure Crowded (src dst : Tree) (m : Mapping Nat) (s d : Nat) : Prop where
  src_copy : FreeCopy src m.hasSrc (src.subtree s) s
  dst_copy : FreeCopy dst m.hasDst (src.subtree s) d
  third : (∃ s', s' ≠ s ∧ FreeCopy src m.hasSrc (src.subtree s) s') ∨
    ∃ d', d' ≠ d ∧ FreeCopy dst m.hasDst (src.subtree s) d'

/-- The subtree of `e` has no free copy but itself in its own tree and `f` in the other. -/
structure Lone (src dst : Tree) (m : Mapping Nat) (e f : Nat) : Prop where
  src_eq : ∀ g, FreeCopy src m.hasSrc (src.subtree e) g → g = e
  dst_eq : ∀ g, FreeCopy dst m.hasDst (src.subtree e) g → g = f

theorem crowded_of_many (hs : s < src.size) (htall : isTall minHeight src s = true)
    (hfree : isFree src m.hasSrc s = true)
    (hmany : (freeTwins minHeight src s dst m.hasDst).length ≠ 1 ∨
      (freeTwins minHeight src s src m.hasSrc).length ≠ 1)
    (hd : d ∈ freeTwins minHeight src s dst m.hasDst) : Crowded src dst m s d := by
  have hself : FreeCopy src m.hasSrc (src.subtree s) s := ⟨hs, rfl, hfree⟩
  refine ⟨hself, (mem_freeTwins_of_tall hs htall).1 hd, ?_⟩
  rcases hmany with hmany | hmany
  · obtain ⟨d', hd', hne⟩ := exists_ne_of_length_ne_one (nodup_freeTwins _ _ _ _ _) hd hmany
    exact Or.inr ⟨d', hne, (mem_freeTwins_of_tall hs htall).1 hd'⟩
  · obtain ⟨s', hs', hne⟩ := exists_ne_of_length_ne_one (nodup_freeTwins _ _ _ _ _)
      ((mem_freeTwins_of_tall hs htall).2 hself) hmany
    exact Or.inl ⟨s', hne, (mem_freeTwins_of_tall hs htall).1 hs'⟩

namespace Crowded

variable (h : Crowded src dst m s d)

include h

theorem bothFree : BothFree src dst m s d :=
  ⟨h.src_copy.free, h.dst_copy.free⟩

/-- What lies in a crowded subtree is not alone. -/
theorem not_contains (hlone : Lone src dst m e f) {u : Tree} {b x : Nat}
    (hb : u.subtree b = src.subtree s) (hx : u.subtree x = src.subtree e) :
    ¬ u.contains b x = true := by
  intro hin
  obtain ⟨hs, hd, hthird⟩ := h
  rw [← hb] at hs hd hthird
  -- the place of `x` has a free copy in the pair and in the third twin: two in one tree
  rcases hthird with ⟨s', hne, hs'⟩ | ⟨d', hne, hd'⟩
  · have h₁ := hlone.src_eq _ (hx ▸ hs.offset hin)
    have h₂ := hlone.src_eq _ (hx ▸ hs'.offset hin)
    omega
  · have h₁ := hlone.dst_eq _ (hx ▸ hd.offset hin)
    have h₂ := hlone.dst_eq _ (hx ▸ hd'.offset hin)
    omega

/-- Linking lone twins that are no taller leaves a crowded pair crowded. -/
theorem kept (hstep : CopyStep src dst m m' e f) (hlone : Lone src dst m e f)
    (hh : src.height e ≤ src.height s) : Crowded src dst m' s d := by
  have hsrc : ∀ g, FreeCopy src m.hasSrc (src.subtree s) g →
      FreeCopy src m'.hasSrc (src.subtree s) g := by
    intro g hg
    refine ⟨hg.lt, hg.eq, isFree_of_not_contains hstep.hasSrc_iff ?_ hg.free
      (h.not_contains hlone hg.eq rfl)⟩
    rwa [Tree.height_congr hg.lt h.src_copy.lt hg.eq]
  have hdst : ∀ g, FreeCopy dst m.hasDst (src.subtree s) g →
      FreeCopy dst m'.hasDst (src.subtree s) g := by
    intro g hg
    refine ⟨hg.lt, hg.eq, isFree_of_not_contains hstep.hasDst_iff ?_ hg.free
      (h.not_contains hlone hg.eq hstep.same.symm)⟩
    rwa [Tree.height_congr hg.lt h.src_copy.lt hg.eq,
      ← Tree.height_congr hstep.src_lt hstep.dst_lt hstep.same]
  refine ⟨hsrc s h.src_copy, hdst d h.dst_copy, ?_⟩
  rcases h.third with ⟨s', hne, hs'⟩ | ⟨d', hne, hd'⟩
  · exact Or.inl ⟨s', hne, hsrc s' hs'⟩
  · exact Or.inr ⟨d', hne, hdst d' hd'⟩

end Crowded

/-! ## The first pass -/

/-- What the first pass has done before it visits `rest`. -/
structure Sifting (minHeight : Rat) (src dst : Tree) (rest : List Nat) (st : Settling) : Prop where
  sound : st.mapping.Sound src dst
  covered : CoveredByCopies minHeight src dst st.mapping
  twins : ∀ p ∈ st.ambiguous, TallTwins minHeight src dst p.1 p.2
  crowded : ∀ p ∈ st.ambiguous, Crowded src dst st.mapping p.1 p.2
  taller : ∀ p ∈ st.ambiguous, ∀ e ∈ rest, src.height e ≤ src.height p.1
  pending : ∀ s d, TallTwins minHeight src dst s d → Joined src dst st.mapping s d ∨
    (s, d) ∈ st.ambiguous ∨ s ∈ rest ∧ BothFree src dst st.mapping s d

namespace Sifting

variable {rest : List Nat} {st : Settling} (h : Sifting minHeight src dst (e :: rest) st)

include h

/-- After a visit nothing is pending but subtrees to come, if those are not divided by it. -/
theorem pending_after {st' : Settling}
    (hm : ∀ p ∈ st.mapping.pairs, p ∈ st'.mapping.pairs)
    (hamb : ∀ p ∈ st.ambiguous, p ∈ st'.ambiguous)
    (hhead : ∀ d, TallTwins minHeight src dst e d → BothFree src dst st.mapping e d →
      Joined src dst st'.mapping e d ∨ (e, d) ∈ st'.ambiguous)
    (hrest : ∀ s ∈ rest, ∀ d, TallTwins minHeight src dst s d →
      BothFree src dst st.mapping s d →
        Joined src dst st'.mapping s d ∨ BothFree src dst st'.mapping s d)
    (s d : Nat) (ht : TallTwins minHeight src dst s d) :
    Joined src dst st'.mapping s d ∨ (s, d) ∈ st'.ambiguous ∨
      s ∈ rest ∧ BothFree src dst st'.mapping s d := by
  rcases h.pending s d ht with hj | hp | ⟨hs, hfree⟩
  · exact Or.inl (hj.mono hm)
  · exact Or.inr (Or.inl (hamb _ hp))
  · rcases List.mem_cons.1 hs with rfl | hs
    · exact (hhead d ht hfree).imp_right Or.inl
    · exact (hrest s hs d ht hfree).imp_right fun hfree' => Or.inr ⟨hs, hfree'⟩

/-- A subtree that is linked, or has no free twin, needs no more visit. -/
theorem skip (hskip : isFree src st.mapping.hasSrc e = false ∨
      freeTwins minHeight src e dst st.mapping.hasDst = []) :
    Sifting minHeight src dst rest st := by
  refine ⟨h.sound, h.covered, h.twins, h.crowded,
    fun p hp f hf => h.taller p hp f (List.mem_cons_of_mem e hf),
    h.pending_after (fun p hp => hp) (fun p hp => hp) (fun d ht hfree => ?_)
      fun s _ d _ hfree => Or.inr hfree⟩
  have hmem := (mem_freeTwins_of_tall ht.src_lt ht.tall).2 ⟨ht.dst_lt, ht.same.symm, hfree.2⟩
  rcases hskip with hlinked | hnone
  · rw [hfree.1] at hlinked
    cases hlinked
  · rw [hnone] at hmem
    cases hmem

/-- Lone twins are linked. -/
theorem link (hstep : CopyStep src dst st.mapping m' e f) (hm' : m'.Sound src dst)
    (ht : TallTwins minHeight src dst e f) (hlone : Lone src dst st.mapping e f)
    (hrest : ∀ s ∈ rest, src.height s ≤ src.height e) :
    Sifting minHeight src dst rest { st with mapping := m' } := by
  refine ⟨hm', hstep.covered ht h.covered, h.twins,
    fun p hp => (h.crowded p hp).kept hstep hlone (h.taller p hp e List.mem_cons_self),
    fun p hp f hf => h.taller p hp f (List.mem_cons_of_mem e hf),
    h.pending_after (fun p => hstep.mem) (fun p hp => hp) (fun d _ _ => ?_)
      fun s hs d hsd hfree => ?_⟩
  · exact Or.inl (Or.inl ⟨f, hstep.copied⟩)
  · exact hstep.joined_or_free hsd (hrest s hs) (Or.inr hfree)

/-- The pairs of a subtree that is not alone of its kind are kept. -/
theorem keep (he : e < src.size) (htall : isTall minHeight src e = true)
    (hfree : isFree src st.mapping.hasSrc e = true)
    (hmany : (freeTwins minHeight src e dst st.mapping.hasDst).length ≠ 1 ∨
      (freeTwins minHeight src e src st.mapping.hasSrc).length ≠ 1)
    (hrest : ∀ s ∈ rest, src.height s ≤ src.height e) :
    Sifting minHeight src dst rest { st with
      ambiguous := st.ambiguous ++
        (freeTwins minHeight src e dst st.mapping.hasDst).map fun d => (e, d) } := by
  have hnew : ∀ p, p ∈ st.ambiguous ++
      ((freeTwins minHeight src e dst st.mapping.hasDst).map fun d => (e, d)) →
        p ∈ st.ambiguous ∨ p.1 = e ∧ Crowded src dst st.mapping e p.2 := by
    intro p hp
    rcases List.mem_append.1 hp with hp | hp
    · exact Or.inl hp
    · obtain ⟨d, hd, rfl⟩ := List.mem_map.1 hp
      exact Or.inr ⟨rfl, crowded_of_many he htall hfree hmany hd⟩
  refine ⟨h.sound, h.covered, fun p hp => ?_, fun p hp => ?_, fun p hp f hf => ?_,
    h.pending_after (fun p hp => hp) (fun p => List.mem_append_left _) (fun d ht hd => ?_)
      fun s _ d _ hfree' => Or.inr hfree'⟩
  · rcases hnew p hp with hp | ⟨h₁, hc⟩
    · exact h.twins p hp
    · rw [h₁]
      exact hc.dst_copy.tallTwins he htall
  · rcases hnew p hp with hp | ⟨h₁, hc⟩
    · exact h.crowded p hp
    · rw [h₁]
      exact hc
  · rcases hnew p hp with hp | ⟨h₁, -⟩
    · exact h.taller p hp f (List.mem_cons_of_mem e hf)
    · rw [h₁]
      exact hrest f hf
  · have hmem := (mem_freeTwins_of_tall he htall).2 ⟨ht.dst_lt, ht.same.symm, hd.2⟩
    exact Or.inr (List.mem_append_right _ (List.mem_map_of_mem hmem))

/-- **One step of the first pass.** -/
theorem step (he : e < src.size) (htall : isTall minHeight src e = true)
    (hrest : ∀ s ∈ rest, src.height s ≤ src.height e) :
    ∃ st', settleUnique minHeight src dst st e = .ok st' ∧ Sifting minHeight src dst rest st' := by
  rcases settleUnique_cases minHeight src dst st e with
    ⟨hskip, heq⟩ | ⟨hfree, d, hd, hs, heq⟩ | ⟨hfree, hmany, heq⟩
  · exact ⟨st, heq, h.skip hskip⟩
  · -- one free twin on either side: `e` is the one in its own tree
    obtain ⟨a, ha⟩ := List.length_eq_one_iff.1 hs
    have hdst : ∀ g, FreeCopy dst st.mapping.hasDst (src.subtree e) g ↔ g = d := by
      intro g
      rw [← mem_freeTwins_of_tall he htall, hd, List.mem_singleton]
    have hsrc : ∀ g, FreeCopy src st.mapping.hasSrc (src.subtree e) g ↔ g = a := by
      intro g
      rw [← mem_freeTwins_of_tall he htall, ha, List.mem_singleton]
    obtain rfl : e = a := (hsrc e).1 ⟨he, rfl, hfree⟩
    have hcopy := (hdst d).2 rfl
    have ht := hcopy.tallTwins he htall
    obtain ⟨m', hlink, hm', hstep⟩ := exists_copyStep ht ⟨hfree, hcopy.free⟩ h.sound
    exact ⟨_, heq.trans (bind_of_eq_ok hlink),
      h.link hstep hm' ht ⟨fun g => (hsrc g).1, fun g => (hdst g).1⟩ hrest⟩
  · exact ⟨_, heq, h.keep he htall hfree hmany hrest⟩

end Sifting

/-- **The first pass** joins all tall twins, or keeps them for the second. -/
theorem sift (minHeight : Rat) (src dst : Tree) :
    ∃ st, (tallestFirst minHeight src).foldlM (settleUnique minHeight src dst) {} = .ok st ∧
      Sifting minHeight src dst [] st := by
  -- the invariant speaks of the list to come, which is sorted: nothing later is taller
  obtain ⟨st, hst, -, -, h⟩ := foldlM_ok (f := settleUnique minHeight src dst)
    (fun l st => (∀ e ∈ l, e < src.size ∧ isTall minHeight src e = true) ∧
      l.Pairwise (fun a b => src.height b ≤ src.height a) ∧ Sifting minHeight src dst l st)
    (by
      rintro e l st ⟨hl, hsorted, h⟩
      rw [List.pairwise_cons] at hsorted
      obtain ⟨he, htall⟩ := hl e List.mem_cons_self
      obtain ⟨st', hst', h'⟩ := h.step he htall hsorted.1
      exact ⟨st', hst', fun x hx => hl x (List.mem_cons_of_mem e hx), hsorted.2, h'⟩)
    (tallestFirst minHeight src) {}
    ⟨fun e he => mem_tallestFirst.1 he, pairwise_tallestFirst minHeight src, .empty src dst,
      fun _ hp => absurd hp List.not_mem_nil, fun _ hp => absurd hp List.not_mem_nil,
      fun _ hp => absurd hp List.not_mem_nil, fun _ hp => absurd hp List.not_mem_nil,
      fun s d ht => Or.inr (Or.inr ⟨mem_tallestFirst.2 ⟨ht.src_lt, ht.tall⟩,
        isFree_iff.2 fun n _ => rfl, isFree_iff.2 fun n _ => rfl⟩)⟩
  exact ⟨st, hst, h⟩

/-! ## The second pass -/

/-- What the second pass has done before it visits `rest`. -/
structure Ranking (round : Rounding) (minHeight : Rat) (src dst : Tree) (rest : List TwinPair)
    (m : Mapping Nat) : Prop where
  sound : m.Sound src dst
  covered : CoveredByCopies minHeight src dst m
  pending : ∀ s d, TallTwins minHeight src dst s d → Joined src dst m s d ∨
    TwinPair.ofNodes round src dst (s, d) ∈ rest ∧ BothFree src dst m s d

/-- **One step of the second pass.** -/
theorem Ranking.step {round : Rounding} {rest : List TwinPair}
    (h : Ranking round minHeight src dst (TwinPair.ofNodes round src dst (e, f) :: rest) m)
    (ht : TallTwins minHeight src dst e f)
    (hfirst : ∀ q ∈ rest, (TwinPair.ofNodes round src dst (e, f)).precedes q = true) :
    ∃ m', settlePair src dst m (TwinPair.ofNodes round src dst (e, f)) = .ok m' ∧
      Ranking round minHeight src dst rest m' := by
  show ∃ m', (if isFree src m.hasSrc e && isFree dst m.hasDst f then
    linkSubtrees src e dst f m else .ok m) = .ok m' ∧ _
  by_cases hfree : BothFree src dst m e f
  · rw [if_pos (by rw [hfree.1, hfree.2]; rfl)]
    obtain ⟨m', hlink, hm', hstep⟩ := exists_copyStep ht hfree h.sound
    refine ⟨m', hlink, hm', hstep.covered ht h.covered, fun s d hsd => ?_⟩
    rcases h.pending s d hsd with hj | ⟨hmem, hsdf⟩
    · exact Or.inl (hj.mono fun p => hstep.mem)
    · rcases List.mem_cons.1 hmem with heq | hmem
      · obtain rfl : s = e := congrArg TwinPair.src heq
        exact Or.inl (Or.inl ⟨f, hstep.copied⟩)
      · have hh : src.height s ≤ src.height e := TwinPair.height_le_of_precedes (hfirst _ hmem)
        rcases hstep.joined_or_free hsd hh (Or.inr hsdf) with hj | hsdf
        · exact Or.inl hj
        · exact Or.inr ⟨hmem, hsdf⟩
  · -- nothing is linked, and the pair, which is not free, is not one of those still to come
    rw [if_neg (by rwa [Bool.and_eq_true])]
    refine ⟨m, rfl, h.sound, h.covered, fun s d hsd => ?_⟩
    rcases h.pending s d hsd with hj | ⟨hmem, hsdf⟩
    · exact Or.inl hj
    · rcases List.mem_cons.1 hmem with heq | hmem
      · obtain rfl : s = e := congrArg TwinPair.src heq
        obtain rfl : d = f := congrArg TwinPair.dst heq
        exact absurd hsdf hfree
      · exact Or.inr ⟨hmem, hsdf⟩

/-- **Both passes**: of any two tall twins one is linked as a whole, and nothing else is linked. -/
theorem topDown_saturated (round : Rounding) (minHeight : Rat) (src dst : Tree) :
    ∃ m, topDown round minHeight src dst = .ok m ∧ m.Sound src dst ∧
      CoveredByCopies minHeight src dst m ∧
      ∀ s d, TallTwins minHeight src dst s d → Joined src dst m s d := by
  obtain ⟨st, hst, hsift⟩ := sift minHeight src dst
  obtain ⟨m, hm, -, -, h⟩ := foldlM_ok (f := settlePair src dst)
    (fun l m => (∀ p ∈ l, ∃ q ∈ st.ambiguous, TwinPair.ofNodes round src dst q = p) ∧
      l.Pairwise (fun a b => a.precedes b = true) ∧ Ranking round minHeight src dst l m)
    (by
      rintro p l m ⟨hl, hsorted, h⟩
      rw [List.pairwise_cons] at hsorted
      obtain ⟨⟨e, f⟩, hq, rfl⟩ := hl p List.mem_cons_self
      obtain ⟨m', hm', h'⟩ := h.step (hsift.twins _ hq) hsorted.1
      exact ⟨m', hm', fun q hq => hl q (List.mem_cons_of_mem _ hq), hsorted.2, h'⟩)
    (rankPairs round src dst st.ambiguous) st.mapping
    ⟨fun p hp => mem_rankPairs.1 hp, pairwise_rankPairs round src dst st.ambiguous, hsift.sound,
      hsift.covered, fun s d ht => by
        rcases hsift.pending s d ht with hj | hamb | ⟨hnone, -⟩
        · exact Or.inl hj
        · exact Or.inr ⟨mem_rankPairs.2 ⟨(s, d), hamb, rfl⟩, (hsift.crowded _ hamb).bothFree⟩
        · cases hnone⟩
  refine ⟨m, ?_, h.sound, h.covered, fun s d ht => ?_⟩
  · rw [topDown, hst]
    exact hm
  · rcases h.pending s d ht with hj | ⟨hnone, -⟩
    · exact hj
    · cases hnone

/-! ## The whole matcher -/

/-- What follows adds links only. -/
theorem greedyMatch_saturated (round : Rounding) (options : MatcherOptions) (src dst : Tree) :
    ∃ m, greedyMatch round options src dst = .ok m ∧ m.Sound src dst ∧
      ∀ s d, TallTwins options.minHeight src dst s d → Joined src dst m s d := by
  obtain ⟨m₀, h₀, hs₀, -, hjoined⟩ := topDown_saturated round options.minHeight src dst
  obtain ⟨m₁, m, hg, h, hs, hmem, -⟩ := bottomUp_ok round options.minDice hs₀
  exact ⟨m, (bind_of_eq_ok h₀).trans h, hs,
    fun s d ht => (hjoined s d ht).mono fun p hp => hmem p (hg.mem hp)⟩

/-- **Matching from the top down is maximal**: no two identical subtrees of at least the given
height are left without any link. -/
theorem greedyMatch_maximal (round : Rounding) (options : MatcherOptions) (src dst : Tree) :
    ∃ m, greedyMatch round options src dst = .ok m ∧
      ¬ ∃ s d, TallTwins options.minHeight src dst s d ∧ BothFree src dst m s d := by
  obtain ⟨m, hm, -, hjoined⟩ := greedyMatch_saturated round options src dst
  refine ⟨m, hm, ?_⟩
  rintro ⟨s, d, ht, hfree⟩
  exact (hjoined s d ht).not_bothFree hfree

/-- **A subtree that is alone of its kind is found wherever it moved**: if it is tall enough and the
other tree has exactly one like it, the two are linked node by node. -/
theorem greedyMatch_unique_twins (round : Rounding) (options : MatcherOptions) {src dst : Tree}
    {s d : Nat} (ht : TallTwins options.minHeight src dst s d)
    (hsrc : ∀ x < src.size, src.isomorphic s src x = true → x = s)
    (hdst : ∀ y < dst.size, src.isomorphic s dst y = true → y = d) :
    ∃ m, greedyMatch round options src dst = .ok m ∧
      ∀ k < src.subtreeSize s, m.dst? (s + k) = some (d + k) := by
  obtain ⟨m, hm, hsound, hjoined⟩ := greedyMatch_saturated round options src dst
  have hcopied : Copied src dst m s d := by
    rcases hjoined s d ht with ⟨y, hy⟩ | ⟨x, hx⟩
    · obtain rfl := hdst y hy.dst_lt ((Tree.isomorphic_iff hy.src_lt hy.dst_lt).2 hy.same)
      exact hy
    · have hsame := ht.same.trans hx.same.symm
      obtain rfl := hsrc x hx.src_lt ((Tree.isomorphic_iff ht.src_lt hx.src_lt).2 hsame)
      exact hx
  exact ⟨m, hm, fun k hk => (Mapping.dst?_eq_some_iff hsound.src_nodup).2 (hcopied.linked k hk)⟩

/-- A call that moves from one function to another; its argument occurs elsewhere as well. -/
def callBefore : Tree :=
  .ofNode (.node ⟨"R", ""⟩
    [.node ⟨"F", ""⟩ [.node ⟨"C", ""⟩ [.node ⟨"x", "1"⟩ []], .node ⟨"y", ""⟩ []],
      .node ⟨"G", ""⟩ [.node ⟨"x", "1"⟩ []]])

def callAfter : Tree :=
  .ofNode (.node ⟨"R", ""⟩
    [.node ⟨"G", ""⟩ [.node ⟨"x", "1"⟩ [], .node ⟨"C", ""⟩ [.node ⟨"x", "1"⟩ []]],
      .node ⟨"F", ""⟩ []])

theorem greedyMatch_unique_twins_call :
    TallTwins 2 callBefore callAfter 2 3 ∧
      (∀ x < callBefore.size, callBefore.isomorphic 2 callBefore x = true → x = 2) ∧
      (∀ y < callAfter.size, callBefore.isomorphic 2 callAfter y = true → y = 3) ∧
      ∃ m, greedyMatch roundBinary64 {} callBefore callAfter = .ok m ∧
        ∀ k < 2, m.dst? (2 + k) = some (3 + k) := by
  have ht : TallTwins 2 callBefore callAfter 2 3 :=
    ⟨by decide, by decide, by decide, by decide⟩
  have hsrc : ∀ x < callBefore.size, callBefore.isomorphic 2 callBefore x = true → x = 2 := by
    decide
  have hdst : ∀ y < callAfter.size, callBefore.isomorphic 2 callAfter y = true → y = 3 := by
    decide
  exact ⟨ht, hsrc, hdst, greedyMatch_unique_twins roundBinary64 {} ht hsrc hdst⟩

end TreeMerge
