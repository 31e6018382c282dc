import TreeMerge.Proofs.Matching.CommonSubsequence
import TreeMerge.Proofs.Matching.Links

/-!
# The greedy matcher is sound

No link that the matcher makes is ever refused, and what it returns is a correspondence of the two
trees that links nodes of equal kinds.

* `foldlM_children` : a loop over pairs of children, each step of which adds links below its own
  pair only;
* `recover_ok` : recovery under a linked pair adds links below the pair;
* `topDown_ok`, `bottomUp_ok` : the two passes;
* `greedyMatch_ok`, `Mapping.Valid.dst?_eq_some_iff_src?` : the matcher, and the two directions of
  what it returns;
* `greedyMatch_sound` : all of it.
-/

namespace TreeMerge

variable {src dst : Tree}

/-! ## Pairs of children -/

/-- A loop over pairs of children of `s` and `d`. What a step needs of its pair (`Ready`) depends on
the nodes below the pair only, and its links are made there; so no step spoils a later one. -/
theorem foldlM_children {s d : Nat} {ps : List (Nat × Nat)}
    {f : Mapping Nat → Nat × Nat → Except Fault (Mapping Nat)}
    (Ready : Mapping Nat → Nat × Nat → Prop)
    (children : ∀ p ∈ ps, p.1 ∈ src.children s ∧ p.2 ∈ dst.children d)
    (distinct : ps.Pairwise fun p q => p.1 ≠ q.1 ∧ p.2 ≠ q.2)
    (stable : ∀ (m m' : Mapping Nat), ∀ p ∈ ps,
      (∀ x, src.contains p.1 x = true → m'.hasSrc x = m.hasSrc x) →
      (∀ y, dst.contains p.2 y = true → m'.hasDst y = m.hasDst y) → Ready m p → Ready m' p)
    (step : ∀ m, ∀ p ∈ ps, m.Sound src dst → Ready m p → ∃ m', f m p = .ok m' ∧
      m'.Sound src dst ∧ m.Grows m' (fun x => src.contains p.1 x = true)
        (fun y => dst.contains p.2 y = true))
    {m : Mapping Nat} (hm : m.Sound src dst) (ready : ∀ p ∈ ps, Ready m p) :
    ∃ m', ps.foldlM f m = .ok m' ∧ m'.Sound src dst ∧
      m.Grows m' (· ∈ src.descendants s) (· ∈ dst.descendants d) := by
  induction ps generalizing m with
  | nil => exact ⟨m, rfl, hm, .refl _ _ _⟩
  | cons p ps ih =>
    rw [List.pairwise_cons] at distinct
    obtain ⟨hp₁, hp₂⟩ := children p List.mem_cons_self
    obtain ⟨m₁, hf, hm₁, hg₁⟩ := step m p List.mem_cons_self hm (ready p List.mem_cons_self)
    obtain ⟨m₂, hfold, hm₂, hg₂⟩ := ih
      (fun q hq => children q (List.mem_cons_of_mem p hq)) distinct.2
      (fun m m' q hq => stable m m' q (List.mem_cons_of_mem p hq))
      (fun m q hq => step m q (List.mem_cons_of_mem p hq)) hm₁ (by
        intro q hq
        obtain ⟨hq₁, hq₂⟩ := children q (List.mem_cons_of_mem p hq)
        obtain ⟨hne₁, hne₂⟩ := distinct.1 q hq
        refine stable m m₁ q (List.mem_cons_of_mem p hq) ?_ ?_ (ready q (List.mem_cons_of_mem p hq))
        · exact fun x hx => hg₁.hasSrc_eq fun hpx => hne₁ (Tree.child_unique hp₁ hq₁ hpx hx)
        · exact fun y hy => hg₁.hasDst_eq fun hpy => hne₂ (Tree.child_unique hp₂ hq₂ hpy hy))
    refine ⟨m₂, by rw [List.foldlM_cons, hf]; exact hfold, hm₂, .trans (hg₁.mono ?_ ?_) hg₂⟩
    · intro x hx
      have := Tree.lt_of_mem_children hp₁
      have := Tree.le_of_contains hx
      exact Tree.mem_descendants.2 ⟨by omega, Tree.contains_trans (Tree.contains_child hp₁) hx⟩
    · intro y hy
      have := Tree.lt_of_mem_children hp₂
      have := Tree.le_of_contains hy
      exact Tree.mem_descendants.2 ⟨by omega, Tree.contains_trans (Tree.contains_child hp₂) hy⟩

theorem mem_openChildren {t : Tree} {linked : Nat → Bool} {id c : Nat} :
    c ∈ openChildren t linked id ↔ c ∈ t.children id ∧ linked c = false := by
  rw [openChildren, List.mem_filter, Bool.not_eq_true']

theorem nodup_openChildren (t : Tree) (linked : Nat → Bool) (id : Nat) :
    (openChildren t linked id).Nodup :=
  (t.nodup_children id).filter _

/-- Pairs whose sides are sublists without repetition repeat no node. -/
theorem pairwise_ne {ps : List (Nat × Nat)} (h₁ : (ps.map Prod.fst).Nodup)
    (h₂ : (ps.map Prod.snd).Nodup) : ps.Pairwise fun p q => p.1 ≠ q.1 ∧ p.2 ≠ q.2 :=
  (List.pairwise_map.1 h₁).and (List.pairwise_map.1 h₂)

/-- The pairs along a common subsequence of open children. -/
theorem Pairing.openChildren {eq : Nat → Nat → Bool} {m : Mapping Nat} {s d : Nat}
    {ps : List (Nat × Nat)}
    (h : Pairing eq (openChildren src m.hasSrc s) (openChildren dst m.hasDst d) ps) :
    (∀ p ∈ ps, p.1 ∈ src.children s ∧ p.2 ∈ dst.children d) ∧
      (∀ p ∈ ps, m.hasSrc p.1 = false ∧ m.hasDst p.2 = false) ∧
      ps.Pairwise fun p q => p.1 ≠ q.1 ∧ p.2 ≠ q.2 := by
  have hmem : ∀ p ∈ ps, (p.1 ∈ src.children s ∧ m.hasSrc p.1 = false) ∧
      p.2 ∈ dst.children d ∧ m.hasDst p.2 = false := fun p hp =>
    ⟨mem_openChildren.1 (h.fst.subset (List.mem_map_of_mem hp)),
      mem_openChildren.1 (h.snd.subset (List.mem_map_of_mem hp))⟩
  exact ⟨fun p hp => ⟨(hmem p hp).1.1, (hmem p hp).2.1⟩,
    fun p hp => ⟨(hmem p hp).1.2, (hmem p hp).2.2⟩,
    pairwise_ne ((nodup_openChildren _ _ _).sublist h.fst)
      ((nodup_openChildren _ _ _).sublist h.snd)⟩

/-! ## Recovery -/

/-- Two free subtrees that are identical. -/
theorem freeAndSame_iff {m : Mapping Nat} {a b : Nat} (ha : a < src.size) (hb : b < dst.size) :
    freeAndSame src dst m a b = true ↔ isFree src m.hasSrc a = true ∧
      isFree dst m.hasDst b = true ∧ src.subtree a = dst.subtree b := by
  rw [freeAndSame, Bool.and_eq_true, Bool.and_eq_true, Tree.isomorphic_iff ha hb, and_assoc]

/-- The round that links identical subtrees. -/
theorem linkTwins_ok {m : Mapping Nat} {s d : Nat} (hm : m.Sound src dst) {ps : List (Nat × Nat)}
    (h : Pairing (freeAndSame src dst m) (openChildren src m.hasSrc s)
      (openChildren dst m.hasDst d) ps) :
    ∃ m', ps.foldlM (fun m p => linkSubtrees src p.1 dst p.2 m) m = .ok m' ∧ m'.Sound src dst ∧
      m.Grows m' (· ∈ src.descendants s) (· ∈ dst.descendants d) := by
  obtain ⟨hc, -, hd⟩ := h.openChildren
  refine foldlM_children (fun m p => isFree src m.hasSrc p.1 = true ∧
    isFree dst m.hasDst p.2 = true ∧ src.subtree p.1 = dst.subtree p.2) hc hd ?_ ?_ hm ?_
  · rintro m m' p - hs hd ⟨h₁, h₂, h₃⟩
    exact ⟨(isFree_congr hs).trans h₁, (isFree_congr hd).trans h₂, h₃⟩
  · rintro m p hp hm ⟨h₁, h₂, h₃⟩
    have hp₁ := Tree.lt_size_of_mem_children (hc p hp).1
    have hp₂ := Tree.lt_size_of_mem_children (hc p hp).2
    obtain ⟨hl, hm'⟩ := linkSubtrees_of_free hp₁ hp₂ h₃ h₁ h₂ hm
    exact ⟨_, hl, hm', grows_copyPairs (Tree.subtreeSize_congr hp₁ hp₂ h₃)⟩
  · intro p hp
    exact (freeAndSame_iff (Tree.lt_size_of_mem_children (hc p hp).1)
      (Tree.lt_size_of_mem_children (hc p hp).2)).1 (h.related p hp)

/-- What recovery under a pair of nodes gives, `fuel` levels down. -/
def RecoverOk (src dst : Tree) (fuel : Nat) : Prop :=
  ∀ (s d : Nat) (m : Mapping Nat), m.Sound src dst →
    ∃ m', recover src dst fuel s d m = .ok m' ∧ m'.Sound src dst ∧
      m.Grows m' (· ∈ src.descendants s) (· ∈ dst.descendants d)

/-- Two open nodes of one kind are linked, and then what is below them. -/
theorem linkAndRecover_ok {fuel : Nat} (hr : RecoverOk src dst fuel) {m : Mapping Nat} {a b : Nat}
    (hm : m.Sound src dst) (has : a < src.size) (hbs : b < dst.size) (ha : m.hasSrc a = false)
    (hb : m.hasDst b = false) (hk : src.kind a = dst.kind b) :
    ∃ m', (m.link a b >>= recover src dst fuel a b) = .ok m' ∧ m'.Sound src dst ∧
      m.Grows m' (fun x => src.contains a x = true) (fun y => dst.contains b y = true) := by
  obtain ⟨m', hm', hs, hg⟩ := hr a b ⟨m.pairs ++ [(a, b)]⟩ (hm.snoc ha hb has hbs hk)
  refine ⟨m', ?_, hs, .trans ⟨[(a, b)], rfl, fun p hp => ?_⟩ (hg.mono ?_ ?_)⟩
  · rw [Mapping.link_of_free ha hb]
    exact hm'
  · rw [List.mem_singleton.1 hp]
    exact ⟨Tree.contains_self has, Tree.contains_self hbs⟩
  · exact fun x hx => (Tree.mem_descendants.1 hx).2
  · exact fun y hy => (Tree.mem_descendants.1 hy).2

/-- The rounds that link pairs of open children and go on below them. -/
theorem linkChildren_ok {fuel : Nat} (hr : RecoverOk src dst fuel) {m : Mapping Nat} {s d : Nat}
    (hm : m.Sound src dst) {ps : List (Nat × Nat)}
    (children : ∀ p ∈ ps, p.1 ∈ src.children s ∧ p.2 ∈ dst.children d)
    (distinct : ps.Pairwise fun p q => p.1 ≠ q.1 ∧ p.2 ≠ q.2)
    (free : ∀ p ∈ ps, m.hasSrc p.1 = false ∧ m.hasDst p.2 = false)
    (kinds : ∀ p ∈ ps, src.kind p.1 = dst.kind p.2) :
    ∃ m', ps.foldlM (fun m p => do recover src dst fuel p.1 p.2 (← m.link p.1 p.2)) m = .ok m' ∧
      m'.Sound src dst ∧ m.Grows m' (· ∈ src.descendants s) (· ∈ dst.descendants d) := by
  have hlt : ∀ p ∈ ps, p.1 < src.size ∧ p.2 < dst.size := fun p hp =>
    ⟨Tree.lt_size_of_mem_children (children p hp).1,
      Tree.lt_size_of_mem_children (children p hp).2⟩
  refine foldlM_children (fun m p => m.hasSrc p.1 = false ∧ m.hasDst p.2 = false) children distinct
    ?_ ?_ hm free
  · rintro m m' p hp hs hd ⟨h₁, h₂⟩
    rw [hs _ (Tree.contains_self (hlt p hp).1), hd _ (Tree.contains_self (hlt p hp).2)]
    exact ⟨h₁, h₂⟩
  · rintro m p hp hm ⟨h₁, h₂⟩
    exact linkAndRecover_ok hr hm (hlt p hp).1 (hlt p hp).2 h₁ h₂ (kinds p hp)

/-- A loop that does nothing where there is no partner is a loop over the pairs there are. -/
theorem foldlM_partners {f : Mapping Nat → Nat × Nat → Except Fault (Mapping Nat)}
    (partner : Nat → Option Nat) (l : List Nat) (m : Mapping Nat) :
    l.foldlM (fun m a =>
      match partner a with
      | some b => f m (a, b)
      | none => .ok m) m =
      (l.filterMap fun a => (partner a).map (Prod.mk a)).foldlM f m := by
  induction l generalizing m with
  | nil => rfl
  | cons a l ih =>
    rw [List.foldlM_cons]
    cases hp : partner a with
    | none =>
      rw [List.filterMap_cons_none (by rw [hp]; rfl), ← ih]
      rfl
    | some b =>
      rw [List.filterMap_cons_some (by rw [hp]; rfl), List.foldlM_cons]
      exact congrArg (f m (a, b) >>= ·) (funext ih)

theorem soleOfKind?_eq_some {ss ds : List Nat} {a b : Nat}
    (h : soleOfKind? src ss dst ds a = some b) :
    countKind src ss (src.kind a) = 1 ∧ b ∈ ds ∧ dst.kind b = src.kind a := by
  rw [soleOfKind?] at h
  split at h
  · rename_i hc
    rw [Bool.and_eq_true, beq_iff_eq, beq_iff_eq] at hc
    have hk := List.find?_some h
    rw [beq_iff_eq] at hk
    exact ⟨hc.1, List.mem_of_find?_eq_some h, hk⟩
  · cases h

theorem eq_of_countKind_eq_one {t : Tree} {ids : List Nat} {kind : Text}
    (h : countKind t ids kind = 1) {a a' : Nat} (ha : a ∈ ids) (ha' : a' ∈ ids)
    (hk : t.kind a = kind) (hk' : t.kind a' = kind) : a = a' := by
  obtain ⟨x, hx⟩ := List.length_eq_one_iff.1 h
  have h₁ : a ∈ ids.filter fun id => t.kind id == kind :=
    List.mem_filter.2 ⟨ha, beq_iff_eq.2 hk⟩
  have h₂ : a' ∈ ids.filter fun id => t.kind id == kind :=
    List.mem_filter.2 ⟨ha', beq_iff_eq.2 hk'⟩
  rw [hx, List.mem_singleton] at h₁ h₂
  rw [h₁, h₂]

/-- The pairs of children whose kinds occur once on either side. -/
def solePairs (src : Tree) (ss : List Nat) (dst : Tree) (ds : List Nat) : List (Nat × Nat) :=
  ss.filterMap fun a => (soleOfKind? src ss dst ds a).map (Prod.mk a)

theorem mem_solePairs {ss ds : List Nat} {p : Nat × Nat} :
    p ∈ solePairs src ss dst ds ↔ p.1 ∈ ss ∧ soleOfKind? src ss dst ds p.1 = some p.2 := by
  rw [solePairs, List.mem_filterMap]
  constructor
  · rintro ⟨a, ha, h⟩
    obtain ⟨b, hb, rfl⟩ := Option.map_eq_some_iff.1 h
    exact ⟨ha, hb⟩
  · rintro ⟨ha, hb⟩
    exact ⟨p.1, ha, by rw [hb]; rfl⟩

theorem pairwise_solePairs {ss ds : List Nat} (hs : ss.Nodup) :
    (solePairs src ss dst ds).Pairwise fun p q => p.1 ≠ q.1 ∧ p.2 ≠ q.2 := by
  rw [solePairs, List.pairwise_filterMap]
  refine List.Pairwise.imp_of_mem ?_ hs
  intro a a' ha ha' hne p hp q hq
  obtain ⟨b, hb, rfl⟩ := Option.map_eq_some_iff.1 hp
  obtain ⟨b', hb', rfl⟩ := Option.map_eq_some_iff.1 hq
  refine ⟨hne, fun hbb => hne ?_⟩
  obtain ⟨hc, -, hk⟩ := soleOfKind?_eq_some hb
  obtain ⟨-, -, hk'⟩ := soleOfKind?_eq_some hb'
  change b = b' at hbb
  rw [← hbb, hk] at hk'
  exact eq_of_countKind_eq_one hc ha ha' rfl hk'.symm

/-- The three rounds of recovery, one after the other. -/
theorem recover_succ {fuel s d : Nat} {m m₁ m₂ m₃ : Mapping Nat}
    (h₁ : (longestCommon (freeAndSame src dst m) (openChildren src m.hasSrc s)
      (openChildren dst m.hasDst d)).foldlM (fun m p => linkSubtrees src p.1 dst p.2 m) m = .ok m₁)
    (h₂ : (longestCommon (sameContent src dst) (openChildren src m₁.hasSrc s)
      (openChildren dst m₁.hasDst d)).foldlM
        (fun m p => do recover src dst fuel p.1 p.2 (← m.link p.1 p.2)) m₁ = .ok m₂)
    (h₃ : (solePairs src (openChildren src m₂.hasSrc s) dst (openChildren dst m₂.hasDst d)).foldlM
        (fun m p => do recover src dst fuel p.1 p.2 (← m.link p.1 p.2)) m₂ = .ok m₃) :
    recover src dst (fuel + 1) s d m = .ok m₃ := by
  rw [recover]
  exact (bind_of_eq_ok h₁).trans ((bind_of_eq_ok h₂).trans ((foldlM_partners _ _ _).trans h₃))

/-- The last round has nothing to do where no child is open. -/
theorem recover_succ_of_closed {fuel s d : Nat} {m m₁ m₂ : Mapping Nat}
    (h₁ : (longestCommon (freeAndSame src dst m) (openChildren src m.hasSrc s)
      (openChildren dst m.hasDst d)).foldlM (fun m p => linkSubtrees src p.1 dst p.2 m) m = .ok m₁)
    (h₂ : (longestCommon (sameContent src dst) (openChildren src m₁.hasSrc s)
      (openChildren dst m₁.hasDst d)).foldlM
        (fun m p => do recover src dst fuel p.1 p.2 (← m.link p.1 p.2)) m₁ = .ok m₂)
    (hs : openChildren src m₂.hasSrc s = []) :
    recover src dst (fuel + 1) s d m = .ok m₂ := by
  refine recover_succ h₁ h₂ ?_
  rw [hs]
  rfl

/-- Nor has the second. -/
theorem recover_succ_of_twins {fuel s d : Nat} {m m₁ : Mapping Nat}
    (h₁ : (longestCommon (freeAndSame src dst m) (openChildren src m.hasSrc s)
      (openChildren dst m.hasDst d)).foldlM (fun m p => linkSubtrees src p.1 dst p.2 m) m = .ok m₁)
    (hs : openChildren src m₁.hasSrc s = []) :
    recover src dst (fuel + 1) s d m = .ok m₁ := by
  refine recover_succ_of_closed h₁ ?_ hs
  rw [hs, longestCommon_nil_left]
  rfl

theorem recover_of_no_open {a b : Nat} {m : Mapping Nat}
    (hs : openChildren src m.hasSrc a = []) (fuel : Nat) :
    recover src dst fuel a b m = .ok m := by
  cases fuel with
  | zero => rfl
  | succ fuel =>
    refine recover_succ_of_twins ?_ hs
    rw [hs, longestCommon_nil_left]
    rfl

/-- **Recovery under a pair** never meets a linked node, and adds links below the pair only. -/
theorem recover_ok (src dst : Tree) (fuel : Nat) : RecoverOk src dst fuel := by
  induction fuel with
  | zero => exact fun s d m hm => ⟨m, rfl, hm, .refl _ _ _⟩
  | succ fuel ih =>
    intro s d m hm
    obtain ⟨m₁, h₁, hm₁, hg₁⟩ := linkTwins_ok hm (pairing_longestCommon
      (freeAndSame src dst m) (openChildren src m.hasSrc s) (openChildren dst m.hasDst d))
    have hp := pairing_longestCommon (sameContent src dst) (openChildren src m₁.hasSrc s)
      (openChildren dst m₁.hasDst d)
    obtain ⟨hc, hf, hd⟩ := hp.openChildren
    obtain ⟨m₂, h₂, hm₂, hg₂⟩ := linkChildren_ok ih hm₁ hc hd hf (by
      intro p hp'
      have hsame := of_decide_eq_true (hp.related p hp')
      rw [Tree.kind, Tree.kind, hsame])
    have hsole : ∀ p ∈ solePairs src (openChildren src m₂.hasSrc s) dst
        (openChildren dst m₂.hasDst d), (p.1 ∈ src.children s ∧ m₂.hasSrc p.1 = false) ∧
          (p.2 ∈ dst.children d ∧ m₂.hasDst p.2 = false) ∧ dst.kind p.2 = src.kind p.1 := by
      intro p hp'
      obtain ⟨ha, hb⟩ := mem_solePairs.1 hp'
      obtain ⟨-, hb, hk⟩ := soleOfKind?_eq_some hb
      exact ⟨mem_openChildren.1 ha, mem_openChildren.1 hb, hk⟩
    obtain ⟨m₃, h₃, hm₃, hg₃⟩ := linkChildren_ok ih hm₂
      (fun p hp' => ⟨(hsole p hp').1.1, (hsole p hp').2.1.1⟩)
      (pairwise_solePairs (nodup_openChildren _ _ _))
      (fun p hp' => ⟨(hsole p hp').1.2, (hsole p hp').2.1.2⟩)
      (fun p hp' => (hsole p hp').2.2.symm)
    exact ⟨m₃, recover_succ h₁ h₂ h₃, hm₃, (hg₁.trans hg₂).trans hg₃⟩

/-! ## From the top down -/

theorem mem_tallestFirst {minHeight : Rat} {t : Tree} {id : Nat} :
    id ∈ tallestFirst minHeight t ↔ id < t.size ∧ isTall minHeight t id = true := by
  rw [tallestFirst, List.mem_mergeSort, List.mem_filter, mem_ids]

theorem pairwise_tallestFirst (minHeight : Rat) (t : Tree) :
    (tallestFirst minHeight t).Pairwise fun a b => t.height b ≤ t.height a := by
  refine (List.pairwise_mergeSort ?_ ?_ _).imp ?_
  · intro a b c hab hbc
    grind
  · intro a b
    grind
  · intro a b hab
    grind

namespace TwinPair

theorem precedes_trans (a b c : TwinPair) (h₁ : a.precedes b = true) (h₂ : b.precedes c = true) :
    a.precedes c = true := by
  grind [precedes]

theorem precedes_total (a b : TwinPair) : (a.precedes b || b.precedes a) = true := by
  grind [precedes]

theorem height_le_of_precedes {a b : TwinPair} (h : a.precedes b = true) : b.height ≤ a.height := by
  grind [precedes]

end TwinPair

/-- Pairs of nodes with equal subtrees. -/
def SamePairs (src dst : Tree) (ps : List (Nat × Nat)) : Prop :=
  ∀ p ∈ ps, p.1 < src.size ∧ p.2 < dst.size ∧ src.subtree p.1 = dst.subtree p.2

theorem SamePairs.append {ps qs : List (Nat × Nat)} (hp : SamePairs src dst ps)
    (hq : SamePairs src dst qs) : SamePairs src dst (ps ++ qs) := by
  intro p h
  rcases List.mem_append.1 h with h | h
  · exact hp p h
  · exact hq p h

/-- The pairs that a source subtree is ambiguous with. -/
theorem samePairs_freeTwins (minHeight : Rat) (dst : Tree) (linked : Nat → Bool) {s : Nat}
    (hs : s < src.size) :
    SamePairs src dst ((freeTwins minHeight src s dst linked).map fun d => (s, d)) := by
  intro p hp
  obtain ⟨d, hd, rfl⟩ := List.mem_map.1 hp
  obtain ⟨hlt, -, -, hsub⟩ := (mem_freeTwins hs).1 hd
  exact ⟨hs, hlt, hsub⟩

/-- What the first pass keeps: a sound correspondence, and pairs of equal subtrees. -/
structure Settling.Sound (src dst : Tree) (st : Settling) : Prop where
  mapping : st.mapping.Sound src dst
  ambiguous : SamePairs src dst st.ambiguous

theorem exists_ne_of_length_ne_one {α : Type} {l : List α} {a : α} (hn : l.Nodup) (ha : a ∈ l)
    (hl : l.length ≠ 1) : ∃ b ∈ l, b ≠ a := by
  by_contra hall
  have heq : ∀ b ∈ l, b = a := fun b hb => Classical.byContradiction fun hne => hall ⟨b, hb, hne⟩
  have hrep := List.eq_replicate_of_mem heq
  rw [hrep, List.nodup_replicate] at hn
  have := List.length_pos_of_mem ha
  omega

/-- What the first pass does with a subtree. -/
theorem settleUnique_cases (minHeight : Rat) (src dst : Tree) (st : Settling) (s : Nat) :
    (isFree src st.mapping.hasSrc s = false ∨
        freeTwins minHeight src s dst st.mapping.hasDst = []) ∧
      settleUnique minHeight src dst st s = .ok st ∨
    (isFree src st.mapping.hasSrc s = true ∧
      ∃ d, freeTwins minHeight src s dst st.mapping.hasDst = [d] ∧
        (freeTwins minHeight src s src st.mapping.hasSrc).length = 1 ∧
        settleUnique minHeight src dst st s =
          (linkSubtrees src s dst d st.mapping >>= fun m => .ok { st with mapping := m })) ∨
    (isFree src st.mapping.hasSrc s = true ∧
      ((freeTwins minHeight src s dst st.mapping.hasDst).length ≠ 1 ∨
        (freeTwins minHeight src s src st.mapping.hasSrc).length ≠ 1) ∧
      settleUnique minHeight src dst st s = .ok { st with
        ambiguous := st.ambiguous ++
          (freeTwins minHeight src s dst st.mapping.hasDst).map fun d => (s, d) }) := by
  rw [settleUnique]
  cases hf : isFree src st.mapping.hasSrc s with
  | false => exact Or.inl ⟨Or.inl rfl, rfl⟩
  | true =>
    rw [if_neg (by decide)]
    rcases hds : freeTwins minHeight src s dst st.mapping.hasDst with _ | ⟨d, _ | ⟨d', ds⟩⟩
    · exact Or.inl ⟨Or.inr rfl, rfl⟩
    · by_cases hs : (freeTwins minHeight src s src st.mapping.hasSrc).length = 1
      · refine Or.inr (Or.inl ⟨rfl, d, rfl, hs, ?_⟩)
        simp only [hs, beq_self_eq_true, if_true]
        rfl
      · refine Or.inr (Or.inr ⟨rfl, Or.inr hs, ?_⟩)
        simp only [beq_eq_false_iff_ne.2 hs, Bool.false_eq_true, if_false]
        rfl
    · refine Or.inr (Or.inr ⟨rfl, Or.inl ?_, rfl⟩)
      simp

/-- A property of correspondences that linking equal subtrees keeps. -/
def KeptByCopies (src dst : Tree) (motive : Mapping Nat → Prop) : Prop :=
  ∀ (m : Mapping Nat) (s d : Nat), s < src.size → d < dst.size → src.subtree s = dst.subtree d →
    motive m → motive ⟨m.pairs ++ copyPairs src s dst d⟩

section

variable {motive : Mapping Nat → Prop} (kept : KeptByCopies src dst motive)

include kept

theorem settleUnique_ok {minHeight : Rat} {st : Settling} {s : Nat} (hs : s < src.size)
    (h : st.Sound src dst) (hm : motive st.mapping) :
    ∃ st', settleUnique minHeight src dst st s = .ok st' ∧ st'.Sound src dst ∧
      motive st'.mapping := by
  rcases settleUnique_cases minHeight src dst st s with ⟨-, heq⟩ | ⟨hf, d, hd, -, heq⟩ | ⟨-, -, heq⟩
  · exact ⟨st, heq, h, hm⟩
  · have hmem : d ∈ freeTwins minHeight src s dst st.mapping.hasDst := by
      rw [hd]
      exact List.mem_singleton_self d
    obtain ⟨hlt, -, hdf, hsub⟩ := (mem_freeTwins hs).1 hmem
    obtain ⟨hl, hsound⟩ := linkSubtrees_of_free hs hlt hsub hf hdf h.mapping
    exact ⟨_, heq.trans (bind_of_eq_ok hl), ⟨hsound, h.ambiguous⟩, kept _ s d hs hlt hsub hm⟩
  · have hsame := samePairs_freeTwins minHeight dst st.mapping.hasDst hs
    exact ⟨_, heq, ⟨h.mapping, h.ambiguous.append hsame⟩, hm⟩

theorem settlePair_ok {m : Mapping Nat} {p : TwinPair} (h : m.Sound src dst) (hm : motive m)
    (hp₁ : p.src < src.size) (hp₂ : p.dst < dst.size)
    (hsub : src.subtree p.src = dst.subtree p.dst) :
    ∃ m', settlePair src dst m p = .ok m' ∧ m'.Sound src dst ∧ motive m' := by
  rw [settlePair]
  split
  · rename_i hfree
    rw [Bool.and_eq_true] at hfree
    obtain ⟨hl, hsound⟩ := linkSubtrees_of_free hp₁ hp₂ hsub hfree.1 hfree.2 h
    exact ⟨_, hl, hsound, kept m p.src p.dst hp₁ hp₂ hsub hm⟩
  · exact ⟨m, rfl, h, hm⟩

omit kept in
theorem mem_rankPairs {round : Rounding} {pairs : List (Nat × Nat)} {p : TwinPair} :
    p ∈ rankPairs round src dst pairs ↔
      ∃ q ∈ pairs, TwinPair.ofNodes round src dst q = p := by
  rw [rankPairs, List.mem_mergeSort, List.mem_map]

omit kept in
theorem pairwise_rankPairs (round : Rounding) (src dst : Tree) (pairs : List (Nat × Nat)) :
    (rankPairs round src dst pairs).Pairwise fun a b => a.precedes b = true :=
  List.pairwise_mergeSort (fun a b c => TwinPair.precedes_trans a b c) TwinPair.precedes_total _

/-- **The first pass succeeds**, and keeps what linking equal subtrees keeps. -/
theorem topDown_ok (round : Rounding) (minHeight : Rat) (base : motive .empty) :
    ∃ m, topDown round minHeight src dst = .ok m ∧ m.Sound src dst ∧ motive m := by
  obtain ⟨st, hst, -, h, hm⟩ := foldlM_ok (f := settleUnique minHeight src dst)
    (fun l st => (∀ s ∈ l, s < src.size) ∧ st.Sound src dst ∧ motive st.mapping)
    (by
      rintro s l st ⟨hl, h, hm⟩
      obtain ⟨st', hst', h', hm'⟩ := settleUnique_ok kept (hl s List.mem_cons_self) h hm
      exact ⟨st', hst', fun x hx => hl x (List.mem_cons_of_mem s hx), h', hm'⟩)
    (tallestFirst minHeight src) {}
    ⟨fun s hs => (mem_tallestFirst.1 hs).1,
      ⟨.empty src dst, fun _ h => absurd h List.not_mem_nil⟩, base⟩
  obtain ⟨m, hfold, -, h', hm'⟩ := foldlM_ok (f := settlePair src dst)
    (fun l m => (∀ p ∈ l, p.src < src.size ∧ p.dst < dst.size ∧
      src.subtree p.src = dst.subtree p.dst) ∧ m.Sound src dst ∧ motive m)
    (by
      rintro p l m ⟨hl, h, hm⟩
      obtain ⟨h₁, h₂, h₃⟩ := hl p List.mem_cons_self
      obtain ⟨m', hp, h', hm'⟩ := settlePair_ok kept h hm h₁ h₂ h₃
      exact ⟨m', hp, fun x hx => hl x (List.mem_cons_of_mem p hx), h', hm'⟩)
    (rankPairs round src dst st.ambiguous) st.mapping
    ⟨fun p hp => by
      obtain ⟨q, hq, rfl⟩ := mem_rankPairs.1 hp
      exact h.ambiguous q hq, h.mapping, hm⟩
  refine ⟨m, ?_, h', hm'⟩
  rw [topDown, hst]
  exact hfold

end

/-! ## From the bottom up -/

/-- The nodes that a bottom-up step chooses from. -/
theorem mem_bottomUpCandidates {s d : Nat} {m : Mapping Nat} :
    d ∈ bottomUpCandidates src s dst m ↔
      (∃ n e, n ∈ src.descendants s ∧ m.dst? n = some e ∧ d ∈ dst.ancestors e) ∧
        dst.isRoot d = false ∧ dst.kind d = src.kind s ∧ m.hasDst d = false := by
  rw [bottomUpCandidates, List.mem_mergeSort, List.mem_eraseDups, List.mem_filter, List.mem_flatMap]
  simp only [List.mem_filterMap, Bool.and_eq_true, Bool.not_eq_true', beq_iff_eq, and_assoc]
  constructor
  · rintro ⟨⟨e, ⟨n, hn, he⟩, hd⟩, h⟩
    exact ⟨⟨n, e, hn, he, hd⟩, h⟩
  · rintro ⟨⟨n, e, hn, he, hd⟩, h⟩
    exact ⟨⟨e, ⟨n, hn, he⟩, hd⟩, h⟩

/-- One step of the search for the best candidate. -/
def better (score : Nat → Rat) (best : Option (Nat × Rat)) (d : Nat) : Option (Nat × Rat) :=
  match best with
  | none => some (d, score d)
  | some (_, top) => if top < score d then some (d, score d) else best

theorem better_some (score : Nat → Rat) (best : Option (Nat × Rat)) (d : Nat) :
    ∃ e v, better score best d = some (e, v) ∧ score d ≤ v ∧
      ((e, v) = (d, score d) ∨ best = some (e, v)) ∧ ∀ f w, best = some (f, w) → w ≤ v := by
  cases best with
  | none => exact ⟨d, score d, rfl, Rat.le_refl, Or.inl rfl, fun _ _ h => by cases h⟩
  | some best =>
    obtain ⟨f, top⟩ := best
    by_cases hlt : top < score d
    · refine ⟨d, score d, if_pos hlt, Rat.le_refl, Or.inl rfl, fun g w h => ?_⟩
      rw [Option.some.injEq, Prod.mk.injEq] at h
      rw [← h.2]
      exact Rat.le_of_lt hlt
    · refine ⟨f, top, if_neg hlt, Rat.not_lt.1 hlt, Or.inr rfl, fun g w h => ?_⟩
      rw [Option.some.injEq, Prod.mk.injEq] at h
      exact h.2 ▸ Rat.le_refl

theorem foldl_better {score : Nat → Rat} {ds : List Nat} {best : Option (Nat × Rat)} {d : Nat}
    {v : Rat} (h : ds.foldl (better score) best = some (d, v)) :
    (d ∈ ds ∧ v = score d ∨ best = some (d, v)) ∧ (∀ e ∈ ds, score e ≤ v) ∧
      ∀ f w, best = some (f, w) → w ≤ v := by
  induction ds generalizing best with
  | nil =>
    refine ⟨Or.inr h, fun _ he => absurd he List.not_mem_nil, fun f w hb => ?_⟩
    have heq := hb.symm.trans h
    rw [Option.some.injEq, Prod.mk.injEq] at heq
    exact heq.2 ▸ Rat.le_refl
  | cons c ds ih =>
    obtain ⟨e, u, hb, hc, hor, hmono⟩ := better_some score best c
    obtain ⟨h₁, h₂, h₃⟩ := ih h
    have huv := h₃ e u hb
    refine ⟨?_, ?_, fun f w hf => Rat.le_trans (hmono f w hf) huv⟩
    · rcases h₁ with ⟨hd, hv⟩ | h₁
      · exact Or.inl ⟨List.mem_cons_of_mem c hd, hv⟩
      · rw [hb, Option.some.injEq] at h₁
        rw [h₁] at hor
        rcases hor with hor | hor
        · rw [Prod.mk.injEq] at hor
          refine Or.inl ⟨?_, ?_⟩
          · rw [hor.1]
            exact List.mem_cons_self
          · rw [hor.1, hor.2]
        · exact Or.inr hor
    · intro g hg
      rcases List.mem_cons.1 hg with rfl | hg
      · exact Rat.le_trans hc huv
      · exact h₂ g hg

/-- The best candidate is one of the candidates, and none has a higher score. -/
theorem bestCandidate?_eq_some {score : Nat → Rat} {ds : List Nat} {d : Nat} {v : Rat}
    (h : bestCandidate? score ds = some (d, v)) :
    d ∈ ds ∧ v = score d ∧ ∀ e ∈ ds, score e ≤ v := by
  obtain ⟨h₁, h₂, -⟩ := foldl_better (show ds.foldl (better score) none = some (d, v) from h)
  rcases h₁ with ⟨hd, hv⟩ | h₁
  · exact ⟨hd, hv, h₂⟩
  · cases h₁

/-- There is no best candidate only where there is no candidate. -/
theorem bestCandidate?_eq_none {score : Nat → Rat} {ds : List Nat}
    (h : bestCandidate? score ds = none) : ds = [] := by
  have hsome : ∀ (ds : List Nat) (best : Nat × Rat),
      ds.foldl (better score) (some best) ≠ none := by
    intro ds
    induction ds with
    | nil => exact fun best => Option.some_ne_none best
    | cons d ds ih =>
      intro best
      obtain ⟨e, v, hb, -⟩ := better_some score (some best) d
      rw [List.foldl_cons, hb]
      exact ih (e, v)
  cases ds with
  | nil => rfl
  | cons d ds => exact absurd h (hsome ds (d, score d))

/-- Open roots of one kind are linked, and then what is below them. -/
theorem settleRoots_of_open {m : Mapping Nat} (ha : m.hasSrc Tree.root = false)
    (hb : m.hasDst Tree.root = false) (hk : src.kind Tree.root = dst.kind Tree.root) :
    settleRoots src dst Tree.root m =
      recoverBelow src dst Tree.root Tree.root ⟨m.pairs ++ [(Tree.root, Tree.root)]⟩ := by
  have hl := Mapping.link_of_free ha hb
  have hd : (⟨m.pairs ++ [(Tree.root, Tree.root)]⟩ : Mapping Nat).dst? Tree.root =
      some Tree.root := by
    rw [Mapping.dst?_link hl, if_pos rfl]
  have hj : (!m.hasSrc Tree.root && !m.hasDst Tree.root &&
      src.kind Tree.root == dst.kind Tree.root) = true := by
    rw [ha, hb, hk, beq_self_eq_true]
    rfl
  rw [settleRoots]
  exact (if_pos hj).trans ((bind_of_eq_ok hl).trans (if_pos hd))

/-- Otherwise recovery runs if the roots are linked. -/
theorem settleRoots_of_not_open {m : Mapping Nat}
    (hj : ¬ (m.hasSrc Tree.root = false ∧ m.hasDst Tree.root = false ∧
      src.kind Tree.root = dst.kind Tree.root)) :
    settleRoots src dst Tree.root m =
      if m.dst? Tree.root = some Tree.root then recoverBelow src dst Tree.root Tree.root m
      else .ok m := by
  have hj' : ¬ (!m.hasSrc Tree.root && !m.hasDst Tree.root &&
      src.kind Tree.root == dst.kind Tree.root) = true := by
    rwa [Bool.and_eq_true, Bool.and_eq_true, Bool.not_eq_true', Bool.not_eq_true', beq_iff_eq,
      and_assoc]
  rw [settleRoots]
  exact if_neg hj'

theorem settleNode_root {round : Rounding} {minDice : Rat} {m : Mapping Nat} :
    settleNode round minDice src dst m Tree.root = settleRoots src dst Tree.root m :=
  if_pos ((Tree.isRoot_iff (show Tree.root < src.size from src.size_pos)).2 rfl)

/-- The step at the source root links the roots if they are open and of one kind. -/
theorem settleRoots_ok {m : Mapping Nat} (hm : m.Sound src dst) :
    ∃ m', settleRoots src dst Tree.root m = .ok m' ∧ m'.Sound src dst ∧
      (∀ p ∈ m.pairs, p ∈ m'.pairs) ∧
      (m.hasSrc Tree.root = false → m.hasDst Tree.root = false →
        src.kind Tree.root = dst.kind Tree.root → (Tree.root, Tree.root) ∈ m'.pairs) := by
  have hrec : ∀ m : Mapping Nat, m.Sound src dst →
      ∃ m', recoverBelow src dst Tree.root Tree.root m = .ok m' ∧ m'.Sound src dst ∧
        ∀ p ∈ m.pairs, p ∈ m'.pairs := by
    intro m hm
    obtain ⟨m', hm', hs, hg⟩ := recover_ok src dst (src.height Tree.root) Tree.root Tree.root m hm
    exact ⟨m', hm', hs, fun p => hg.mem⟩
  by_cases hj : m.hasSrc Tree.root = false ∧ m.hasDst Tree.root = false ∧
      src.kind Tree.root = dst.kind Tree.root
  · obtain ⟨ha, hb, hk⟩ := hj
    rw [settleRoots_of_open ha hb hk]
    obtain ⟨m', hm', hs, hmem⟩ := hrec _ (hm.snoc ha hb src.size_pos dst.size_pos hk)
    exact ⟨m', hm', hs, fun p hp => hmem p (List.mem_append_left _ hp),
      fun _ _ _ => hmem _ (List.mem_append_right _ (List.mem_singleton_self _))⟩
  · have hlinked : ∀ m', m.hasSrc Tree.root = false → m.hasDst Tree.root = false →
        src.kind Tree.root = dst.kind Tree.root → (Tree.root, Tree.root) ∈ Mapping.pairs m' :=
      fun _ ha hb hk => absurd ⟨ha, hb, hk⟩ hj
    rw [settleRoots_of_not_open hj]
    split
    · obtain ⟨m', hm', hs, hmem⟩ := hrec m hm
      exact ⟨m', hm', hs, hmem, hlinked m'⟩
    · exact ⟨m, rfl, hm, fun _ => id, hlinked m⟩

/-- Any other step leaves the roots alone. -/
theorem settleNode_ok {round : Rounding} {minDice : Rat} {m : Mapping Nat} {s : Nat}
    (hs : s < src.size) (hroot : s ≠ Tree.root) (hm : m.Sound src dst) :
    ∃ m', settleNode round minDice src dst m s = .ok m' ∧ m'.Sound src dst ∧
      m.Grows m' (· ≠ Tree.root) (· ≠ Tree.root) := by
  have hsrc : ¬ src.isRoot s = true := fun h => hroot ((Tree.isRoot_iff hs).1 h)
  rw [settleNode, if_neg hsrc]
  split
  · exact ⟨m, rfl, hm, .refl _ _ _⟩
  rename_i hu
  rw [Bool.or_eq_true, not_or, Bool.not_eq_true] at hu
  split
  · rename_i d score hbest
    split
    · obtain ⟨hd, -, -⟩ := bestCandidate?_eq_some hbest
      obtain ⟨⟨n, e, -, he, hd⟩, hdst, hk, hdf⟩ := mem_bottomUpCandidates.1 hd
      have hes := hm.dst_lt _ (Mapping.mem_of_dst? he)
      have hds := Tree.lt_size_of_contains ((Tree.mem_ancestors_iff hes).1 hd).2
      obtain ⟨m', hm', hs', hg⟩ := linkAndRecover_ok (recover_ok src dst (src.height s)) hm hs hds
        hu.1 hdf hk.symm
      -- what lies below a node other than the root is not the root
      have hlow : ∀ {a x : Nat}, a ≠ Tree.root → a ≤ x → x ≠ Tree.root := by
        intro a x ha hle
        rw [Tree.root] at ha ⊢
        omega
      have hdroot : d ≠ Tree.root := by
        rintro rfl
        rw [(Tree.isRoot_iff hds).2 rfl] at hdst
        cases hdst
      exact ⟨m', hm', hs', hg.mono (fun x hx => hlow hroot (Tree.le_of_contains hx))
        fun y hy => hlow hdroot (Tree.le_of_contains hy)⟩
    · exact ⟨m, rfl, hm, .refl _ _ _⟩
  · exact ⟨m, rfl, hm, .refl _ _ _⟩

/-- **The second pass succeeds**: its steps leave the roots alone until it reaches them. -/
theorem bottomUp_ok (round : Rounding) (minDice : Rat) {m : Mapping Nat} (hm : m.Sound src dst) :
    ∃ m₁ m₂, m.Grows m₁ (· ≠ Tree.root) (· ≠ Tree.root) ∧
      bottomUp round minDice src dst m = .ok m₂ ∧ m₂.Sound src dst ∧
      (∀ p ∈ m₁.pairs, p ∈ m₂.pairs) ∧
      (m₁.hasSrc Tree.root = false → m₁.hasDst Tree.root = false →
        src.kind Tree.root = dst.kind Tree.root → (Tree.root, Tree.root) ∈ m₂.pairs) := by
  obtain ⟨init, hinit, hall⟩ := src.postOrder_root
  obtain ⟨m₁, hfold, -, hs, hg⟩ := foldlM_ok (f := settleNode round minDice src dst)
    (fun l m₁ => (∀ s ∈ l, s < src.size ∧ s ≠ Tree.root) ∧ m₁.Sound src dst ∧
      m.Grows m₁ (· ≠ Tree.root) (· ≠ Tree.root))
    (by
      rintro s l m₁ ⟨hl, hm₁, hg⟩
      obtain ⟨hlt, hroot⟩ := hl s List.mem_cons_self
      obtain ⟨m', hm', hs, hg'⟩ := settleNode_ok hlt hroot hm₁
      exact ⟨m', hm', fun x hx => hl x (List.mem_cons_of_mem s hx), hs, hg.trans hg'⟩)
    init m ⟨hall, hm, .refl _ _ _⟩
  obtain ⟨m₂, hm₂, hroots⟩ := settleRoots_ok hs
  refine ⟨m₁, m₂, hg, ?_, hroots⟩
  rw [bottomUp, hinit, List.foldlM_append, bind_of_eq_ok hfold, List.foldlM_cons, settleNode_root,
    bind_of_eq_ok hm₂]
  rfl

/-! ## The matcher -/

/-- The matcher never fails, and what it returns is sound. -/
theorem greedyMatch_ok (round : Rounding) (options : MatcherOptions) (src dst : Tree) :
    ∃ m, greedyMatch round options src dst = .ok m ∧ m.Sound src dst := by
  have hkept : KeptByCopies src dst fun _ => True := fun _ _ _ _ _ _ h => h
  obtain ⟨m, hm, hs, -⟩ := topDown_ok hkept round options.minHeight trivial
  obtain ⟨-, m', -, hm', hs', -⟩ := bottomUp_ok round options.minDice hs
  exact ⟨m', (bind_of_eq_ok hm).trans hm', hs'⟩

/-- The two directions of a correspondence are inverse to each other. -/
theorem Mapping.Valid.dst?_eq_some_iff_src? {m : Mapping Nat} {n k : Nat} (h : m.Valid n k)
    (a b : Nat) : m.dst? a = some b ↔ m.src? b = some a := by
  rw [Mapping.dst?_eq_some_iff h.src_nodup, Mapping.src?_eq_some_iff h.dst_nodup]

/-- **The greedy matcher is sound.** Whatever the thresholds and the rounding of fractions, it
returns a correspondence: no link is refused, linked nodes belong to their trees, no node is linked
twice, the two directions are inverse to each other, and linked nodes are of one kind. -/
theorem greedyMatch_sound (round : Rounding) (options : MatcherOptions) (src dst : Tree) :
    ∃ m, greedyMatch round options src dst = .ok m ∧ m.Valid src.size dst.size ∧
      (∀ a b, m.dst? a = some b ↔ m.src? b = some a) ∧
      (∀ a a' b, m.dst? a = some b → m.dst? a' = some b → a = a') ∧
      ∀ a b, m.dst? a = some b → a < src.size ∧ b < dst.size ∧ src.kind a = dst.kind b := by
  obtain ⟨m, hm, hs⟩ := greedyMatch_ok round options src dst
  have hinv := hs.toValid.dst?_eq_some_iff_src?
  refine ⟨m, hm, hs.toValid, hinv, ?_, ?_⟩
  · intro a a' b h h'
    rw [hinv] at h h'
    exact Option.some.inj (h.symm.trans h')
  · intro a b h
    have hp := Mapping.mem_of_dst? h
    exact ⟨hs.src_lt _ hp, hs.dst_lt _ hp, hs.kind_eq _ hp⟩

end TreeMerge
