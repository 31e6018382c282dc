import TreeMerge.Proofs.LeafEdit.Recovery
import TreeMerge.Proofs.LeafEdit.TopDown

/-!
# Inner nodes of trees that differ in one leaf

From the bottom up, the inner nodes above the leaf go to themselves or stay open: a candidate below
a node shares too little, one above it less than the node itself. The roots are linked in the end,
and with them all nodes.

* `Reached` : the covered nodes and one subtree are linked, with close nodes;
* `LeafEdit.reach` : linking a node with itself and recovering below it;
* `linkedCount`, `LeafEdit.sharedCount_eq` : how much two nodes share;
* `LeafEdit.best_eq` : a candidate that is good enough is the node itself;
* `Visited`, `LeafEdit.visit_step` : the loop;
* `Faithful`, `LeafEdit.greedyMatch_eq` : the whole matcher.
-/

namespace TreeMerge

/-- The nodes that are linked are the covered ones and those of the subtree of `top`; linked nodes
are close. -/
structure Reached (src dst : Tree) (top : Option Nat) (m : Mapping Nat) : Prop where
  sound : m.Sound src dst
  close : ∀ p ∈ m.pairs, Close src dst p
  hasSrc_iff : ∀ x, m.hasSrc x = true ↔
    Covered src dst x ∨ ∃ q ∈ top, src.contains q x = true
  hasDst_iff : ∀ x, m.hasDst x = true ↔
    Covered src dst x ∨ ∃ q ∈ top, src.contains q x = true

theorem Reached.hasDst_eq {src dst : Tree} {top : Option Nat} {m : Mapping Nat}
    (hm : Reached src dst top m) (x : Nat) : m.hasDst x = m.hasSrc x := by
  rw [Bool.eq_iff_iff, hm.hasDst_iff, hm.hasSrc_iff]

/-- What is linked once the subtree of `s`, which contains that of `top`, is linked as a whole. -/
theorem linked_iff_of_full {src dst : Tree} {top : Option Nat} {s : Nat}
    (htop : ∀ q ∈ top, src.contains s q = true) {has has' : Nat → Bool}
    (hhas : ∀ x, has x = true ↔ Covered src dst x ∨ ∃ q ∈ top, src.contains q x = true)
    (hmono : ∀ x, has x = true → has' x = true)
    (hin : ∀ x, src.contains s x = true → has' x = true)
    (hout : ∀ x, ¬ src.contains s x = true → has' x = has x) (x : Nat) :
    has' x = true ↔ Covered src dst x ∨ ∃ q ∈ some s, src.contains q x = true := by
  constructor
  · intro hx
    by_cases hsx : src.contains s x = true
    · exact Or.inr ⟨s, rfl, hsx⟩
    · rw [hout x hsx, hhas] at hx
      rcases hx with hx | ⟨q, hq, hqx⟩
      · exact Or.inl hx
      · exact absurd (Tree.contains_trans (htop q hq) hqx) hsx
  · rintro (hx | ⟨q, hq, hqx⟩)
    · exact hmono x ((hhas x).2 (Or.inl hx))
    · rw [Option.mem_def, Option.some.injEq] at hq
      rw [← hq] at hqx
      exact hin x hqx

namespace LeafEdit

variable {k : Nat} {src dst : Tree} (h : LeafEdit k src dst) {top : Option Nat} {m : Mapping Nat}
  {s : Nat}

include h

/-- An open node that is linked with itself is ready for recovery. -/
theorem ready_of_reached (hm : Reached src dst top m) (hs : s < src.size)
    (hopen : m.hasSrc s = false) : Ready src dst s ⟨m.pairs ++ [(s, s)]⟩ := by
  have hg : m.Grows ⟨m.pairs ++ [(s, s)]⟩ (· = s) (· = s) :=
    ⟨_, rfl, fun p hp => by rw [List.mem_singleton.1 hp]; exact ⟨rfl, rfl⟩⟩
  have hne : ∀ x ∈ src.descendants s, ¬ x = s := fun x hx hxs =>
    (Tree.mem_descendants.1 hx).1 hxs.symm
  refine ⟨hm.sound.snoc hopen ((hm.hasDst_eq s).trans hopen) hs (by rwa [h.size_eq])
    (h.kind_eq s).symm, ?_, ?_, ?_⟩
  · intro x hx
    rw [hg.hasSrc_eq (hne x hx), hg.hasDst_eq (hne x hx), hm.hasDst_eq]
  · exact fun x hx => hg.hasSrc ((hm.hasSrc_iff x).2 (Or.inl hx))
  · intro x hx hdirty hlinked y hy
    rw [hg.hasSrc_eq (hne x hx), hm.hasSrc_iff] at hlinked
    rcases hlinked with hcov | ⟨q, hq, hqx⟩
    · exact absurd (h.clean_of_covered hcov) hdirty
    · exact hg.hasSrc ((hm.hasSrc_iff y).2 (Or.inr ⟨q, hq, Tree.contains_trans hqx hy⟩))

/-- Linking a node with itself, and recovering below it, links its whole subtree. -/
theorem reach (hm : Reached src dst top m) (hs : s < src.size) (hopen : m.hasSrc s = false)
    (htop : ∀ q ∈ top, src.contains s q = true) :
    ∃ m', recoverBelow src dst s s ⟨m.pairs ++ [(s, s)]⟩ = .ok m' ∧
      Reached src dst (some s) m' := by
  have hready := h.ready_of_reached hm hs hopen
  obtain ⟨m', hm', hrec⟩ := h.recover_eq (src.height s) s hs (Nat.le_refl _) _ hready
  obtain ⟨m'', hm'', hsound, hg⟩ := recover_ok src dst (src.height s) s s _ hready.sound
  rw [hm', Except.ok.injEq] at hm''
  subst hm''
  -- links are made in the subtree of `s` only, and all of it is linked in the end
  have hgrow : m.Grows m' (fun x => src.contains s x = true)
      (fun x => src.contains s x = true) := by
    obtain ⟨new, hnew, hin⟩ := hg
    refine ⟨(s, s) :: new, by rw [hnew, List.append_assoc]; rfl, fun p hp => ?_⟩
    rcases List.mem_cons.1 hp with rfl | hp
    · exact ⟨Tree.contains_self hs, Tree.contains_self hs⟩
    · obtain ⟨hsrc, hdst⟩ := hin p hp
      rw [Tree.mem_descendants, h.contains_eq] at hdst
      exact ⟨(Tree.mem_descendants.1 hsrc).2, hdst.2⟩
  have hfull := hrec.linked hg
  refine ⟨m', hm', hsound, ?_, ?_, ?_⟩
  · intro p hp
    rcases hrec.close p hp with hp | hp
    · rcases List.mem_append.1 hp with hp | hp
      · exact hm.close p hp
      · rw [List.mem_singleton.1 hp]
        exact Or.inl rfl
    · exact hp
  · exact linked_iff_of_full htop hm.hasSrc_iff (fun _ => hgrow.hasSrc) (fun x hx => (hfull x hx).1)
      fun _ => hgrow.hasSrc_eq
  · exact linked_iff_of_full htop hm.hasDst_iff (fun _ => hgrow.hasDst) (fun x hx => (hfull x hx).2)
      fun _ => hgrow.hasDst_eq

end LeafEdit

/-! ## Sharing -/

/-- The number of linked nodes below a node. -/
def linkedCount (src : Tree) (m : Mapping Nat) (d : Nat) : Nat :=
  ((src.descendants d).filter m.hasSrc).length

/-- Close nodes lie below the same nodes. -/
theorem Close.mem_descendants_iff {src dst : Tree} {p : Nat × Nat} (hp : Close src dst p)
    (h₁ : p.1 < src.size) (h₂ : p.2 < src.size) (d : Nat) :
    p.1 ∈ src.descendants d ↔ p.2 ∈ src.descendants d := by
  rcases hp with heq | ⟨-, -, hpar, -⟩
  · rw [heq]
  · by_cases hr : p.1 = Tree.root
    · rw [hr, Tree.parent?_root] at hpar
      have hr₂ := (Tree.isRoot_iff h₂).1 (by rw [Tree.isRoot, ← hpar]; rfl)
      rw [hr, hr₂]
    · obtain ⟨q, hq⟩ := Tree.exists_parent h₁ hr
      rw [Tree.parent?_of_mem_children hq] at hpar
      rw [Tree.mem_descendants_child hq,
        Tree.mem_descendants_child (Tree.mem_children_iff.2 hpar.symm)]

namespace LeafEdit

variable {k : Nat} {src dst : Tree} (h : LeafEdit k src dst) {top : Option Nat} {m : Mapping Nat}
  {s d : Nat}

include h

/-- The counterpart of a node below `s` lies below `s`. -/
theorem mem_descendants_of_dst? (hm : Reached src dst top m) {n e : Nat} (he : m.dst? n = some e)
    (d : Nat) : n ∈ src.descendants d ↔ e ∈ src.descendants d := by
  have hp := Mapping.mem_of_dst? he
  have hlt := hm.sound.dst_lt _ hp
  rw [h.size_eq] at hlt
  exact (hm.close _ hp).mem_descendants_iff (hm.sound.src_lt _ hp) hlt d

/-- What `s` shares with `d` are the linked nodes below both. -/
theorem sharedCount_eq (hm : Reached src dst top m) : sharedCount src s dst d m =
    ((src.descendants s).filter fun n => n ∈ src.descendants d ∧ m.hasSrc n = true).length := by
  rw [sharedCount]
  congr 1
  apply List.filter_congr
  intro n _
  rw [Bool.eq_iff_iff, decide_eq_true_iff]
  cases he : m.dst? n with
  | none => simp [Mapping.hasSrc, he]
  | some e =>
    rw [h.mem_descendants_of_dst? hm he d, Tree.mem_descendants, Mapping.hasSrc_of_dst? he]
    simp only [Bool.and_eq_true, bne_iff_ne, h.contains_eq, and_true]
    exact and_congr_left fun _ => ne_comm

theorem sharedCount_le_left (hm : Reached src dst top m) :
    sharedCount src s dst d m ≤ linkedCount src m s := by
  rw [h.sharedCount_eq hm, linkedCount, ← List.countP_eq_length_filter,
    ← List.countP_eq_length_filter]
  apply List.countP_mono_left
  intro n _ hn
  exact (of_decide_eq_true hn).2

theorem sharedCount_le_right (hm : Reached src dst top m) :
    sharedCount src s dst d m ≤ linkedCount src m d := by
  rw [h.sharedCount_eq hm, linkedCount]
  refine List.Nodup.length_le_of_subset ((src.nodup_descendants s).filter _) ?_
  intro n hn
  have := of_decide_eq_true (List.mem_filter.1 hn).2
  exact List.mem_filter.2 this

theorem sharedCount_self (hm : Reached src dst top m) :
    sharedCount src s dst s m = linkedCount src m s := by
  rw [h.sharedCount_eq hm, linkedCount]
  congr 1
  apply List.filter_congr
  intro n hn
  rw [Bool.eq_iff_iff, decide_eq_true_iff]
  exact and_iff_right hn

end LeafEdit

/-! ## Scores -/

theorem natCast_div_le_iff {a b x y : Nat} (ha : 0 < a) (hb : 0 < b) :
    (x : Rat) / (a : Rat) ≤ (y : Rat) / (b : Rat) ↔ x * b ≤ y * a := by
  have ha' : (0 : Rat) < a := Rat.natCast_pos.2 ha
  have hb' : (0 : Rat) < b := Rat.natCast_pos.2 hb
  have hswap : (x : Rat) / a * b = (x : Rat) * b / a := by
    rw [Rat.div_def, Rat.div_def, Rat.mul_assoc, Rat.mul_assoc, Rat.mul_comm (a : Rat)⁻¹]
  rw [← Rat.not_lt, Rat.div_lt_iff hb', hswap, Rat.lt_div_iff ha', Rat.not_lt]
  exact_mod_cast Iff.rfl

theorem half_le_div {all x : Nat} (hall : 0 < all) :
    (1 / 2 : Rat) ≤ (x : Rat) / (all : Rat) ↔ all ≤ 2 * x := by
  have hcast : (1 / 2 : Rat) = ((1 : Nat) : Rat) / ((2 : Nat) : Rat) := rfl
  rw [hcast, natCast_div_le_iff (by decide) hall, Nat.one_mul, Nat.mul_comm]

namespace LeafEdit

variable {k : Nat} {src dst : Tree} (h : LeafEdit k src dst) {top : Option Nat} {m : Mapping Nat}
  {s d : Nat}

include h

theorem dice_eq (hl : src.isLeaf s = false) : dice id src s dst d m =
    ((2 * sharedCount src s dst d m : Nat) : Rat) /
      (((src.descendants s).length + (src.descendants d).length : Nat) : Rat) := by
  have hpos := Tree.length_descendants_pos hl
  have hd : dst.subtreeSize d - 1 = (src.descendants d).length := by
    rw [h.subtreeSize_eq, Tree.length_descendants]
  rw [dice, hd]
  exact if_neg (by omega)

theorem half_le_dice (hl : src.isLeaf s = false) : 1 / 2 ≤ dice id src s dst d m ↔
    (src.descendants s).length + (src.descendants d).length ≤ 4 * sharedCount src s dst d m := by
  have hpos := Tree.length_descendants_pos hl
  rw [h.dice_eq hl, half_le_div (by omega)]
  omega

theorem dice_le_dice (hl : src.isLeaf s = false) {e : Nat} :
    dice id src s dst e m ≤ dice id src s dst d m ↔
      sharedCount src s dst e m * ((src.descendants s).length + (src.descendants d).length) ≤
        sharedCount src s dst d m *
          ((src.descendants s).length + (src.descendants e).length) := by
  have hpos := Tree.length_descendants_pos hl
  rw [h.dice_eq hl, h.dice_eq hl, natCast_div_le_iff (by omega) (by omega), Nat.mul_assoc,
    Nat.mul_assoc]
  omega

/-! ## Candidates -/

omit h in
/-- An open inner node differs. -/
theorem not_clean_of_open (hm : Reached src dst top m) (hs : s < src.size)
    (hl : src.isLeaf s = false) (hopen : m.hasSrc s = false) : ¬ Clean src dst s := by
  intro hc
  rw [(hm.hasSrc_iff s).2 (Or.inl (covered_of_clean hs hc hl))] at hopen
  exact Bool.false_ne_true hopen.symm

/-- An open node is a candidate for itself as soon as something below it is linked. -/
theorem self_mem_candidates (hm : Reached src dst top m) (hs : s < src.size) (hr : s ≠ Tree.root)
    (hopen : m.hasSrc s = false) {n : Nat} (hn : n ∈ src.descendants s)
    (hlinked : m.hasSrc n = true) : s ∈ bottomUpCandidates src s dst m := by
  obtain ⟨e, he⟩ := Option.isSome_iff_exists.1 hlinked
  have hes := Tree.mem_descendants.1 ((h.mem_descendants_of_dst? hm he s).1 hn)
  rw [mem_bottomUpCandidates]
  refine ⟨⟨n, e, hn, he, ?_⟩, ?_, h.kind_eq s, (hm.hasDst_eq s).trans hopen⟩
  · rw [Tree.mem_ancestors_iff (hm.sound.dst_lt _ (Mapping.mem_of_dst? he)), h.contains_eq]
    exact hes
  · rw [Bool.eq_false_iff, ne_eq, Tree.isRoot_iff (by rwa [h.size_eq])]
    exact hr

/-- A candidate stands above or below the node, and has nodes below it. -/
theorem nested_of_candidate (hm : Reached src dst top m)
    (hd : d ∈ bottomUpCandidates src s dst m) :
    (src.contains s d = true ∨ src.contains d s = true) ∧ src.isLeaf d = false ∧
      m.hasSrc d = false ∧ ∃ n ∈ src.descendants s, m.hasSrc n = true := by
  obtain ⟨⟨n, e, hn, he, hde⟩, -, -, hopen⟩ := mem_bottomUpCandidates.1 hd
  have hes := Tree.mem_descendants.1 ((h.mem_descendants_of_dst? hm he s).1 hn)
  rw [Tree.mem_ancestors_iff (hm.sound.dst_lt _ (Mapping.mem_of_dst? he)), h.contains_eq] at hde
  refine ⟨Tree.contains_or_contains hes.2 hde.2, ?_, ?_, n, hn, Mapping.hasSrc_of_dst? he⟩
  · rw [Bool.eq_false_iff]
    exact fun hl => hde.1 (Tree.eq_of_leaf_contains hl hde.2)
  · rw [← hm.hasDst_eq, hopen]

/-- **A candidate that is good enough is the node itself**, if the open inner nodes below it share
less than half of what is below them. -/
theorem best_eq (hm : Reached src dst top m) (hs : s < src.size) (hr : s ≠ Tree.root)
    (hl : src.isLeaf s = false) (hopen : m.hasSrc s = false)
    (hweak : ∀ d ∈ src.descendants s, src.isLeaf d = false → m.hasSrc d = false →
      2 * linkedCount src m d < (src.descendants d).length) {v : Rat}
    (hbest : bestCandidate? (fun d => dice id src s dst d m) (bottomUpCandidates src s dst m) =
      some (d, v)) (hv : 1 / 2 ≤ v) : d = s := by
  obtain ⟨hd, rfl, hmax⟩ := bestCandidate?_eq_some hbest
  obtain ⟨hnest, hld, hdopen, n, hn, hlinked⟩ := h.nested_of_candidate hm hd
  rw [h.half_le_dice hl] at hv
  by_contra hne
  rcases hnest with hsd | hds
  -- below `s`, the candidate would have to share more than it has links
  · have hlt := hweak d (Tree.mem_descendants.2 ⟨Ne.symm hne, hsd⟩) hld hdopen
    have hsh := h.sharedCount_le_right hm (s := s) (d := d)
    have h₁ := Tree.contains_add_size_le hsd
    have h₂ := Tree.le_of_contains hsd
    rw [Tree.length_descendants] at hv hlt
    rw [Tree.length_descendants] at hv
    omega
  -- above `s`, it shares no more than `s` does, among more nodes
  · have hself := hmax s (h.self_mem_candidates hm hs hr hopen hn hlinked)
    rw [h.dice_le_dice hl, h.sharedCount_self hm] at hself
    have hsh := h.sharedCount_le_left hm (s := s) (d := d)
    have hpos : 0 < linkedCount src m s :=
      List.length_pos_of_mem (List.mem_filter.2 ⟨hn, hlinked⟩)
    have h₁ := Tree.contains_add_size_le hds
    have h₂ := Tree.le_of_contains hds
    have hlt : (src.descendants s).length < (src.descendants d).length := by
      have := Tree.subtreeSize_pos hs
      rw [Tree.length_descendants, Tree.length_descendants]
      omega
    have hle := Nat.le_trans hself (Nat.mul_le_mul_right _ hsh)
    have := Nat.le_of_mul_le_mul_left hle hpos
    omega

/-- A node all of whose candidates share too little shares too little with itself. -/
theorem weak_of_dice_lt (hm : Reached src dst top m) (hs : s < src.size) (hr : s ≠ Tree.root)
    (hl : src.isLeaf s = false) (hopen : m.hasSrc s = false)
    (hlt : ∀ d ∈ bottomUpCandidates src s dst m, dice id src s dst d m < 1 / 2) :
    2 * linkedCount src m s < (src.descendants s).length := by
  by_cases hn : ∃ n ∈ src.descendants s, m.hasSrc n = true
  · obtain ⟨n, hn, hlinked⟩ := hn
    have hself := hlt s (h.self_mem_candidates hm hs hr hopen hn hlinked)
    rw [← Rat.not_le, h.half_le_dice hl, h.sharedCount_self hm] at hself
    omega
  · have hnil : linkedCount src m s = 0 := by
      rw [linkedCount, List.length_eq_zero_iff, List.filter_eq_nil_iff]
      exact fun n hns hlinked => hn ⟨n, hns, hlinked⟩
    have := Tree.length_descendants_pos hl
    omega

end LeafEdit

/-- Every node is linked, with one that the destination does not tell from the node in its place. -/
structure Faithful (src dst : Tree) (m : Mapping Nat) : Prop where
  sound : m.Sound src dst
  link : ∀ n < src.size, ∃ b, m.dst? n = some b ∧ dst.subtree b = dst.subtree n

theorem Faithful.hasSrc {src dst : Tree} {m : Mapping Nat} (h : Faithful src dst m) :
    ∀ n < src.size, m.hasSrc n = true := by
  intro n hn
  obtain ⟨b, hb, -⟩ := h.link n hn
  exact Mapping.hasSrc_of_dst? hb

/-! ## The loop -/

/-- What the loop has reached when the nodes `done` are visited. -/
structure Visited (src dst : Tree) (done : List Nat) (top : Option Nat) (m : Mapping Nat) :
    Prop where
  reached : Reached src dst top m
  dirty : ∀ q ∈ top, ¬ Clean src dst q
  weak : ∀ d ∈ done, src.isLeaf d = false → m.hasSrc d = false →
    2 * linkedCount src m d < (src.descendants d).length

namespace LeafEdit

variable {k : Nat} {src dst : Tree} (h : LeafEdit k src dst) {done : List Nat}
  {top : Option Nat} {m : Mapping Nat} {s : Nat}

include h

/-- A node that goes to itself leaves no inner node visited before it open. -/
theorem visit_self (hv : Visited src dst done top m) (hs : s < src.size)
    (hl : src.isLeaf s = false) (hopen : m.hasSrc s = false)
    (hdone : ∀ d ∈ done, d < src.size ∧ ¬ src.contains d s = true) :
    ∃ m', recoverBelow src dst s s ⟨m.pairs ++ [(s, s)]⟩ = .ok m' ∧
      Visited src dst (done ++ [s]) (some s) m' := by
  have hdirty : ¬ Clean src dst s := not_clean_of_open hv.reached hs hl hopen
  have htop : ∀ q ∈ top, src.contains s q = true := by
    intro q hq
    rcases h.nested hdirty (hv.dirty q hq) with hsq | hqs
    · exact hsq
    · rw [(hv.reached.hasSrc_iff s).2 (Or.inr ⟨q, hq, hqs⟩)] at hopen
      exact absurd hopen.symm Bool.false_ne_true
  obtain ⟨m', hm', hr⟩ := h.reach hv.reached hs hopen htop
  refine ⟨m', hm', hr, fun q hq => Option.some.inj hq ▸ hdirty, ?_⟩
  intro d hd hld hdopen
  have hin : src.contains s d = true := by
    rcases List.mem_append.1 hd with hd | hd
    · obtain ⟨hlt, hnot⟩ := hdone d hd
      exact (h.nested (not_clean_of_open hr hlt hld hdopen) hdirty).resolve_left hnot
    · rw [List.mem_singleton.1 hd]
      exact Tree.contains_self hs
  rw [(hr.hasSrc_iff d).2 (Or.inr ⟨s, rfl, hin⟩)] at hdopen
  exact absurd hdopen.symm Bool.false_ne_true

omit h in
theorem visit_skip (hv : Visited src dst done top m)
    (hweak : src.isLeaf s = false → m.hasSrc s = false →
      2 * linkedCount src m s < (src.descendants s).length) :
    Visited src dst (done ++ [s]) top m := by
  refine ⟨hv.reached, hv.dirty, fun d hd => ?_⟩
  rcases List.mem_append.1 hd with hd | hd
  · exact hv.weak d hd
  · rw [List.mem_singleton.1 hd]
    exact hweak

theorem visit_step (hv : Visited src dst done top m) (hs : s < src.size) (hr : s ≠ Tree.root)
    (hdone : ∀ d ∈ done, d < src.size ∧ ¬ src.contains d s = true)
    (hbelow : ∀ d ∈ src.descendants s, d ∈ done) :
    ∃ m' top', settleNode id (1 / 2) src dst m s = .ok m' ∧
      Visited src dst (done ++ [s]) top' m' := by
  have hroot : ¬ src.isRoot s = true := fun hr' => hr ((Tree.isRoot_iff hs).1 hr')
  rw [settleNode, if_neg hroot]
  by_cases hskip : (m.hasSrc s || src.isLeaf s) = true
  · rw [if_pos hskip]
    refine ⟨m, top, rfl, visit_skip hv fun hl hopen => ?_⟩
    rw [hl, hopen] at hskip
    exact absurd hskip Bool.false_ne_true
  · rw [if_neg hskip]
    rw [Bool.not_eq_true, Bool.or_eq_false_iff] at hskip
    obtain ⟨hopen, hl⟩ := hskip
    have hweak := fun hlt => h.weak_of_dice_lt hv.reached hs hr hl hopen hlt
    cases hbest : bestCandidate? (fun d => dice id src s dst d m)
        (bottomUpCandidates src s dst m) with
    | none =>
      refine ⟨m, top, rfl, visit_skip hv fun _ _ => hweak ?_⟩
      rw [bestCandidate?_eq_none hbest]
      exact fun d hd => absurd hd List.not_mem_nil
    | some best =>
      obtain ⟨d, v⟩ := best
      dsimp only
      by_cases hscore : 1 / 2 ≤ v
      · have hds := h.best_eq hv.reached hs hr hl hopen
          (fun d hd => hv.weak d (hbelow d hd)) hbest hscore
        subst hds
        obtain ⟨m', hm', hv'⟩ := h.visit_self hv hs hl hopen hdone
        rw [if_pos hscore]
        exact ⟨m', _, (bind_of_eq_ok (Mapping.link_of_free hopen
          ((hv.reached.hasDst_eq d).trans hopen))).trans hm', hv'⟩
      · rw [if_neg hscore]
        refine ⟨m, top, rfl, visit_skip hv fun _ _ => hweak fun e he => ?_⟩
        rw [← Rat.not_le]
        exact fun hle => hscore (Rat.le_trans hle ((bestCandidate?_eq_some hbest).2.2 e he))

/-- The loop up to the root. -/
theorem visit_run {init : List Nat} (hinit : src.postOrder Tree.root = init ++ [Tree.root])
    (hmem : ∀ x ∈ init, x < src.size ∧ x ≠ Tree.root) (hr : Reached src dst none m) :
    ∃ m' top, init.foldlM (settleNode id (1 / 2) src dst) m = .ok m' ∧
      Visited src dst init top m' := by
  have hpair := src.pairwise_postOrder
  obtain ⟨m', hm', done, top, hdone, hv⟩ := foldlM_ok (f := settleNode id (1 / 2) src dst)
    (fun l m => ∃ done top, done ++ l = init ∧ Visited src dst done top m)
    (by
      rintro s l m ⟨done, top, hsplit, hv⟩
      obtain ⟨hs, hr⟩ := hmem s (hsplit ▸ List.mem_append_right _ List.mem_cons_self)
      have hall : src.postOrder Tree.root = done ++ s :: (l ++ [Tree.root]) := by
        rw [hinit, ← hsplit, List.append_assoc, List.cons_append]
      rw [hall, List.pairwise_append, List.pairwise_cons] at hpair
      obtain ⟨-, ⟨hafter, -⟩, hbefore⟩ := hpair
      obtain ⟨m', top', hm', hv'⟩ := h.visit_step hv hs hr
        (fun d hd => ⟨(hmem d (hsplit ▸ List.mem_append_left _ hd)).1,
          hbefore d hd s List.mem_cons_self⟩)
        (by
          -- what is below `s` comes before it
          intro d hd
          obtain ⟨hne, hsd⟩ := Tree.mem_descendants.1 hd
          have hin := Tree.mem_postOrder.2 (Tree.contains_lt_size hsd)
          rw [hall, List.mem_append, List.mem_cons] at hin
          rcases hin with hin | rfl | hin
          · exact hin
          · exact absurd rfl hne
          · exact absurd hsd (hafter d hin))
      exact ⟨m', hm', done ++ [s], top', by rw [← hsplit, List.append_assoc]; rfl, hv'⟩)
    init m ⟨[], none, rfl, hr, fun _ hq => absurd hq (by simp), fun _ hd => absurd hd (by simp)⟩
  rw [List.append_nil] at hdone
  exact ⟨m', top, hm', hdone ▸ hv⟩

/-- The roots are linked in the end, and all nodes with them. -/
theorem settleRoots_eq (hv : Visited src dst done top m) :
    ∃ m' top', settleRoots src dst Tree.root m = .ok m' ∧ Reached src dst top' m' ∧
      ∀ n < src.size, m'.hasSrc n = true := by
  cases hopen : m.hasSrc Tree.root with
  | false =>
    obtain ⟨m', hm', hr⟩ := h.reach hv.reached src.size_pos hopen fun q hq =>
      Tree.contains_root (Tree.lt_size_of_contains (h.contains_of_not_clean (hv.dirty q hq)))
    refine ⟨m', _, ?_, hr, fun n hn => ?_⟩
    · rw [settleRoots_of_open hopen ((hv.reached.hasDst_eq _).trans hopen) (h.kind_eq _).symm]
      exact hm'
    · exact (hr.hasSrc_iff n).2 (Or.inr ⟨Tree.root, rfl, Tree.contains_root hn⟩)
  | true =>
    have hall : ∀ n < src.size, m.hasSrc n = true := by
      intro n hn
      have hrn := Tree.contains_root hn
      rw [hv.reached.hasSrc_iff]
      rcases (hv.reached.hasSrc_iff _).1 hopen with ⟨e, hc, hl, he⟩ | ⟨q, hq, hqr⟩
      · exact Or.inl ⟨e, hc, hl, Tree.contains_trans he hrn⟩
      · exact Or.inr ⟨q, hq, Tree.contains_trans hqr hrn⟩
    refine ⟨m, top, ?_, hv.reached, hall⟩
    rw [settleRoots_of_not_open fun hj => Bool.false_ne_true (hj.1.symm.trans hopen)]
    split
    · apply recover_of_no_open
      rw [openChildren, List.filter_eq_nil_iff]
      intro c hc
      rw [hall c (Tree.lt_size_of_mem_children hc)]
      exact Bool.false_ne_true
    · rfl

/-- **Trees that differ in one leaf** are matched faithfully. -/
theorem greedyMatch_eq : ∃ m, greedyMatch id {} src dst = .ok m ∧ Faithful src dst m := by
  obtain ⟨m, hm, hself, hcov⟩ := h.topDown_eq
  have hr : Reached src dst none m := by
    refine ⟨hself.sound, fun p hp => Or.inl (hself.identity p hp), ?_, ?_⟩
    · intro x
      simp [hcov]
    · intro x
      simp [hself.identity.hasDst_eq, hcov]
  obtain ⟨init, hinit, hmem⟩ := src.postOrder_root
  obtain ⟨m₁, top, hm₁, hv⟩ := h.visit_run hinit hmem hr
  obtain ⟨m₂, top', hm₂, hr₂, hall⟩ := h.settleRoots_eq hv
  refine ⟨m₂, ?_, hr₂.sound, fun n hn => ?_⟩
  · rw [greedyMatch]
    refine (bind_of_eq_ok hm).trans ?_
    rw [bottomUp, hinit, List.foldlM_append]
    refine (bind_of_eq_ok hm₁).trans ?_
    have hroot : src.isRoot Tree.root = true := (Tree.isRoot_iff src.size_pos).2 rfl
    rw [List.foldlM_cons, settleNode, if_pos hroot]
    exact (bind_of_eq_ok hm₂).trans rfl
  · obtain ⟨b, hb⟩ := Option.isSome_iff_exists.1 (hall n hn)
    refine ⟨b, hb, ?_⟩
    rcases hr₂.close _ (Mapping.mem_of_dst? hb) with heq | ⟨-, -, -, hsub⟩
    · exact congrArg dst.subtree heq.symm
    · exact hsub

end LeafEdit

end TreeMerge
