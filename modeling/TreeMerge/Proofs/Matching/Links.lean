import Mathlib.Data.List.Nodup
import TreeMerge.Matching.Matcher
import TreeMerge.Proofs.Tree.Order

/-!
# Links that are added to a correspondence

A correspondence only ever grows, and what is added to it lies in known parts of the two trees.

* `foldlM_ok` : a loop whose steps keep an invariant of what is left succeeds;
* `Mapping.hasSrc_iff`, `Mapping.dst?_eq_some_iff` : the linked nodes, and their counterparts;
* `Mapping.link_of_free`, `Mapping.linkAll_of_free` : links between free nodes are made;
* `Mapping.Grows` : the links of one correspondence and new ones between given sets of nodes;
* `Mapping.Sound` : a correspondence of two trees that links nodes of equal kinds;
* `isFree_iff`, `mem_freeTwins` : free subtrees and their twins;
* `contains_or_isFree`, `isFree_of_not_contains` : which free subtrees a new link leaves free;
* `linkSubtrees_of_free` : free identical subtrees are linked node by node.
-/

namespace TreeMerge

/-! ## Loops -/

theorem bind_of_eq_ok {ε α β : Type} {x : Except ε α} {a : α} {f : α → Except ε β}
    (h : x = .ok a) : (x >>= f) = f a := by
  rw [h]
  rfl

/-- Only a result lets a computation go on. -/
theorem Except.exists_of_bind_eq_ok {ε α β : Type} {x : Except ε α} {f : α → Except ε β} {b : β}
    (h : x.bind f = .ok b) : ∃ a, x = .ok a ∧ f a = .ok b := by
  cases x with
  | error e => exact absurd h (by simp [Except.bind])
  | ok a => exact ⟨a, rfl, h⟩

/-- A loop succeeds if each of its steps keeps an invariant of what is left to do. -/
theorem foldlM_ok {ε σ α : Type} {f : σ → α → Except ε σ} (inv : List α → σ → Prop)
    (step : ∀ a l s, inv (a :: l) s → ∃ s', f s a = .ok s' ∧ inv l s') :
    ∀ (l : List α) (s : σ), inv l s → ∃ s', l.foldlM f s = .ok s' ∧ inv [] s'
  | [], s, h => ⟨s, rfl, h⟩
  | a :: l, s, h => by
    obtain ⟨s', hs', h'⟩ := step a l s h
    obtain ⟨s'', hs'', h''⟩ := foldlM_ok inv step l s' h'
    exact ⟨s'', (bind_of_eq_ok hs').trans hs'', h''⟩

namespace Mapping

/-! ## Linked nodes -/

section Names

variable {ν : Type} [DecidableEq ν] {m : Mapping ν} {a b : ν}

theorem hasSrc_iff : m.hasSrc a = true ↔ ∃ b, (a, b) ∈ m.pairs := by
  rw [hasSrc, Option.isSome_iff_ne_none, ne_eq, dst?_eq_none]
  constructor
  · intro h
    by_contra hn
    exact h fun p hp hpa => hn ⟨p.2, hpa ▸ hp⟩
  · rintro ⟨b, hb⟩ h
    exact h (a, b) hb rfl

theorem hasDst_iff : m.hasDst b = true ↔ ∃ a, (a, b) ∈ m.pairs := by
  rw [hasDst, Option.isSome_iff_ne_none, ne_eq, src?_eq_none]
  constructor
  · intro h
    by_contra hn
    exact h fun p hp hpb => hn ⟨p.1, hpb ▸ hp⟩
  · rintro ⟨a, ha⟩ h
    exact h (a, b) ha rfl

theorem hasSrc_eq_false : m.hasSrc a = false ↔ ∀ p ∈ m.pairs, p.1 ≠ a := by
  rw [hasSrc, Option.isSome_eq_false_iff, Option.isNone_iff_eq_none, dst?_eq_none]

theorem hasDst_eq_false : m.hasDst b = false ↔ ∀ p ∈ m.pairs, p.2 ≠ b := by
  rw [hasDst, Option.isSome_eq_false_iff, Option.isNone_iff_eq_none, src?_eq_none]

theorem dst?_eq_none_iff : m.dst? a = none ↔ m.hasSrc a = false := by
  rw [hasSrc, Option.isSome_eq_false_iff, Option.isNone_iff_eq_none]

theorem hasSrc_of_dst? (h : m.dst? a = some b) : m.hasSrc a = true := by
  rw [hasSrc, h]
  rfl

theorem mem_of_dst? (h : m.dst? a = some b) : (a, b) ∈ m.pairs := by
  obtain ⟨p, hp, rfl⟩ := Option.map_eq_some_iff.1 h
  have h₁ := List.find?_some hp
  have h₂ := List.mem_of_find?_eq_some hp
  rw [beq_iff_eq] at h₁
  rwa [← h₁]

theorem mem_of_src? (h : m.src? b = some a) : (a, b) ∈ m.pairs := by
  obtain ⟨p, hp, rfl⟩ := Option.map_eq_some_iff.1 h
  have h₁ := List.find?_some hp
  have h₂ := List.mem_of_find?_eq_some hp
  rw [beq_iff_eq] at h₁
  rwa [← h₁]

/-- Where no source is linked twice, a node has the counterpart that it is linked with. -/
theorem dst?_eq_some_iff (hn : (m.pairs.map Prod.fst).Nodup) :
    m.dst? a = some b ↔ (a, b) ∈ m.pairs := by
  refine ⟨mem_of_dst?, fun h => ?_⟩
  have hs : m.hasSrc a = true := hasSrc_iff.2 ⟨b, h⟩
  obtain ⟨b', hb'⟩ := Option.isSome_iff_exists.1 hs
  have heq := List.inj_on_of_nodup_map hn (mem_of_dst? hb') h rfl
  rw [Prod.mk.injEq] at heq
  rw [hb', heq.2]

theorem src?_eq_some_iff (hn : (m.pairs.map Prod.snd).Nodup) :
    m.src? b = some a ↔ (a, b) ∈ m.pairs := by
  refine ⟨mem_of_src?, fun h => ?_⟩
  have hs : m.hasDst b = true := hasDst_iff.2 ⟨a, h⟩
  obtain ⟨a', ha'⟩ := Option.isSome_iff_exists.1 hs
  have heq := List.inj_on_of_nodup_map hn (mem_of_src? ha') h rfl
  rw [Prod.mk.injEq] at heq
  rw [ha', heq.1]

theorem hasSrc_append {ps : List (ν × ν)} :
    (⟨m.pairs ++ ps⟩ : Mapping ν).hasSrc a = true ↔
      m.hasSrc a = true ∨ a ∈ ps.map Prod.fst := by
  rw [hasSrc_iff, hasSrc_iff, List.mem_map]
  constructor
  · rintro ⟨b, hb⟩
    rcases List.mem_append.1 hb with hb | hb
    · exact Or.inl ⟨b, hb⟩
    · exact Or.inr ⟨(a, b), hb, rfl⟩
  · rintro (⟨b, hb⟩ | ⟨p, hp, rfl⟩)
    · exact ⟨b, List.mem_append_left _ hb⟩
    · exact ⟨p.2, List.mem_append_right _ hp⟩

theorem hasDst_append {ps : List (ν × ν)} :
    (⟨m.pairs ++ ps⟩ : Mapping ν).hasDst b = true ↔
      m.hasDst b = true ∨ b ∈ ps.map Prod.snd := by
  rw [hasDst_iff, hasDst_iff, List.mem_map]
  constructor
  · rintro ⟨a, ha⟩
    rcases List.mem_append.1 ha with ha | ha
    · exact Or.inl ⟨a, ha⟩
    · exact Or.inr ⟨(a, b), ha, rfl⟩
  · rintro (⟨a, ha⟩ | ⟨p, hp, rfl⟩)
    · exact ⟨a, List.mem_append_left _ ha⟩
    · exact ⟨p.1, List.mem_append_right _ hp⟩

/-! ## Making links -/

variable [NodeName ν]

theorem link_of_free (ha : m.hasSrc a = false) (hb : m.hasDst b = false) :
    m.link a b = .ok ⟨m.pairs ++ [(a, b)]⟩ := by
  rw [hasSrc, Option.isSome_eq_false_iff, Option.isNone_iff_eq_none] at ha
  rw [hasDst, Option.isSome_eq_false_iff, Option.isNone_iff_eq_none] at hb
  rw [link_eq_ok]
  exact ⟨ha, hb, rfl⟩

/-- Links between free nodes, none of them twice, are made one after the other. -/
theorem linkAll_of_free {ps : List (ν × ν)} (h₁ : (ps.map Prod.fst).Nodup)
    (h₂ : (ps.map Prod.snd).Nodup)
    (hf : ∀ p ∈ ps, m.hasSrc p.1 = false ∧ m.hasDst p.2 = false) :
    m.linkAll ps = .ok ⟨m.pairs ++ ps⟩ := by
  induction ps generalizing m with
  | nil =>
    rw [List.append_nil]
    rfl
  | cons p ps ih =>
    rw [List.map_cons, List.nodup_cons] at h₁ h₂
    obtain ⟨hs, hd⟩ := hf p List.mem_cons_self
    have hl : (⟨m.pairs ++ [p]⟩ : Mapping ν).linkAll ps = .ok ⟨m.pairs ++ [p] ++ ps⟩ := by
      refine ih h₁.2 h₂.2 fun q hq => ?_
      obtain ⟨hqs, hqd⟩ := hf q (List.mem_cons_of_mem p hq)
      rw [← Bool.not_eq_true] at hqs hqd
      constructor
      · rw [← Bool.not_eq_true, hasSrc_append, not_or]
        exact ⟨hqs, fun he => h₁.1 (List.mem_singleton.1 he ▸ List.mem_map_of_mem hq)⟩
      · rw [← Bool.not_eq_true, hasDst_append, not_or]
        exact ⟨hqd, fun he => h₂.1 (List.mem_singleton.1 he ▸ List.mem_map_of_mem hq)⟩
    rw [List.append_assoc] at hl
    rw [linkAll, List.foldlM_cons, link_of_free hs hd]
    exact hl

end Names

/-! ## Growth -/

/-- The links of `m` and new ones from nodes in `S` to nodes in `D`. -/
def Grows (m m' : Mapping Nat) (S D : Nat → Prop) : Prop :=
  ∃ new, m'.pairs = m.pairs ++ new ∧ ∀ p ∈ new, S p.1 ∧ D p.2

namespace Grows

variable {m m' m'' : Mapping Nat} {S S' D D' : Nat → Prop}

theorem refl (m : Mapping Nat) (S D : Nat → Prop) : Grows m m S D :=
  ⟨[], (List.append_nil _).symm, fun _ h => absurd h List.not_mem_nil⟩

theorem trans (h : Grows m m' S D) (h' : Grows m' m'' S D) : Grows m m'' S D := by
  obtain ⟨new, hp, hn⟩ := h
  obtain ⟨new', hp', hn'⟩ := h'
  refine ⟨new ++ new', by rw [hp', hp, List.append_assoc], fun p hm => ?_⟩
  rcases List.mem_append.1 hm with hm | hm
  · exact hn p hm
  · exact hn' p hm

theorem mono (h : Grows m m' S D) (hS : ∀ x, S x → S' x) (hD : ∀ y, D y → D' y) :
    Grows m m' S' D' := by
  obtain ⟨new, hp, hn⟩ := h
  exact ⟨new, hp, fun p hm => ⟨hS _ (hn p hm).1, hD _ (hn p hm).2⟩⟩

theorem mem (h : Grows m m' S D) {p : Nat × Nat} (hp : p ∈ m.pairs) : p ∈ m'.pairs := by
  obtain ⟨new, he, -⟩ := h
  rw [he]
  exact List.mem_append_left new hp

theorem hasSrc (h : Grows m m' S D) {a : Nat} (ha : m.hasSrc a = true) : m'.hasSrc a = true := by
  obtain ⟨b, hb⟩ := hasSrc_iff.1 ha
  exact hasSrc_iff.2 ⟨b, h.mem hb⟩

theorem hasDst (h : Grows m m' S D) {b : Nat} (hb : m.hasDst b = true) : m'.hasDst b = true := by
  obtain ⟨a, ha⟩ := hasDst_iff.1 hb
  exact hasDst_iff.2 ⟨a, h.mem ha⟩

/-- A source outside the set of new ones is linked as before. -/
theorem hasSrc_eq (h : Grows m m' S D) {a : Nat} (ha : ¬ S a) : m'.hasSrc a = m.hasSrc a := by
  rw [Bool.eq_iff_iff]
  refine ⟨fun h' => ?_, h.hasSrc⟩
  obtain ⟨new, he, hn⟩ := h
  obtain ⟨b, hb⟩ := hasSrc_iff.1 h'
  rw [he] at hb
  rcases List.mem_append.1 hb with hb | hb
  · exact hasSrc_iff.2 ⟨b, hb⟩
  · exact absurd (hn _ hb).1 ha

/-- A destination outside the set of new ones is linked as before. -/
theorem hasDst_eq (h : Grows m m' S D) {b : Nat} (hb : ¬ D b) : m'.hasDst b = m.hasDst b := by
  rw [Bool.eq_iff_iff]
  refine ⟨fun h' => ?_, h.hasDst⟩
  obtain ⟨new, he, hn⟩ := h
  obtain ⟨a, ha⟩ := hasDst_iff.1 h'
  rw [he] at ha
  rcases List.mem_append.1 ha with ha | ha
  · exact hasDst_iff.2 ⟨a, ha⟩
  · exact absurd (hn _ ha).2 hb

end Grows

/-! ## Soundness -/

/-- A correspondence of two trees that links nodes of equal kinds. -/
structure Sound (src dst : Tree) (m : Mapping Nat) : Prop extends m.Valid src.size dst.size where
  kind_eq : ∀ p ∈ m.pairs, src.kind p.1 = dst.kind p.2

namespace Sound

variable {src dst : Tree} {m : Mapping Nat}

theorem empty (src dst : Tree) : Sound src dst .empty where
  src_lt := fun _ h => absurd h List.not_mem_nil
  dst_lt := fun _ h => absurd h List.not_mem_nil
  src_nodup := List.nodup_nil
  dst_nodup := List.nodup_nil
  kind_eq := fun _ h => absurd h List.not_mem_nil

/-- New links between free nodes of equal kinds, none of them twice, keep a correspondence sound. -/
theorem append (hm : Sound src dst m) {ps : List (Nat × Nat)} (h₁ : (ps.map Prod.fst).Nodup)
    (h₂ : (ps.map Prod.snd).Nodup)
    (hf : ∀ p ∈ ps, m.hasSrc p.1 = false ∧ m.hasDst p.2 = false)
    (hin : ∀ p ∈ ps, p.1 < src.size ∧ p.2 < dst.size ∧ src.kind p.1 = dst.kind p.2) :
    Sound src dst ⟨m.pairs ++ ps⟩ := by
  refine ⟨⟨fun p hp => ?_, fun p hp => ?_, ?_, ?_⟩, fun p hp => ?_⟩
  · rcases List.mem_append.1 hp with hp | hp
    · exact hm.src_lt p hp
    · exact (hin p hp).1
  · rcases List.mem_append.1 hp with hp | hp
    · exact hm.dst_lt p hp
    · exact (hin p hp).2.1
  · rw [List.map_append, List.nodup_append]
    refine ⟨hm.src_nodup, h₁, ?_⟩
    intro a ha b hb
    obtain ⟨p, hp, rfl⟩ := List.mem_map.1 ha
    obtain ⟨q, hq, rfl⟩ := List.mem_map.1 hb
    exact hasSrc_eq_false.1 (hf q hq).1 p hp
  · rw [List.map_append, List.nodup_append]
    refine ⟨hm.dst_nodup, h₂, ?_⟩
    intro a ha b hb
    obtain ⟨p, hp, rfl⟩ := List.mem_map.1 ha
    obtain ⟨q, hq, rfl⟩ := List.mem_map.1 hb
    exact hasDst_eq_false.1 (hf q hq).2 p hp
  · rcases List.mem_append.1 hp with hp | hp
    · exact hm.kind_eq p hp
    · exact (hin p hp).2.2

theorem snoc (hm : Sound src dst m) {a b : Nat} (ha : m.hasSrc a = false)
    (hb : m.hasDst b = false) (has : a < src.size) (hbs : b < dst.size)
    (hk : src.kind a = dst.kind b) : Sound src dst ⟨m.pairs ++ [(a, b)]⟩ := by
  refine hm.append (by simp) (by simp) ?_ ?_
  · intro p hp
    rw [List.mem_singleton.1 hp]
    exact ⟨ha, hb⟩
  · intro p hp
    rw [List.mem_singleton.1 hp]
    exact ⟨has, hbs, hk⟩

end Sound

end Mapping

/-! ## Free subtrees -/

theorem isFree_iff {t : Tree} {linked : Nat → Bool} {id : Nat} :
    isFree t linked id = true ↔ ∀ n, t.contains id n = true → linked n = false := by
  simp only [isFree, List.all_eq_true, Bool.not_eq_eq_eq_not, Bool.not_true, Tree.mem_preOrder]

/-- Whether a subtree is free depends on its own nodes only. -/
theorem isFree_congr {t : Tree} {linked linked' : Nat → Bool} {id : Nat}
    (h : ∀ n, t.contains id n = true → linked' n = linked n) :
    isFree t linked' id = isFree t linked id := by
  rw [Bool.eq_iff_iff, isFree_iff, isFree_iff]
  constructor
  · intro hf n hn
    rw [← h n hn]
    exact hf n hn
  · intro hf n hn
    rw [h n hn]
    exact hf n hn

theorem isFree_of_contains {t : Tree} {linked : Nat → Bool} {a x : Nat}
    (ha : isFree t linked a = true) (hx : t.contains a x = true) : isFree t linked x = true := by
  rw [isFree_iff] at ha ⊢
  exact fun n hn => ha n (Tree.contains_trans hx hn)

section NewLinks

variable {t : Tree} {linked linked' : Nat → Bool} {e f : Nat}
  (hnew : ∀ x, linked' x = true ↔ linked x = true ∨ t.contains e x = true)

include hnew

/-- A free subtree apart from a new link stays free. -/
theorem isFree_of_disjoint (hf : isFree t linked f = true) (h₁ : ¬ t.contains e f = true)
    (h₂ : ¬ t.contains f e = true) : isFree t linked' f = true := by
  rw [isFree_iff] at hf ⊢
  intro x hx
  rw [Bool.eq_false_iff]
  intro hx'
  rcases (hnew x).1 hx' with hold | hin
  · rw [hf x hx] at hold
    exact Bool.false_ne_true hold
  · exact (Tree.contains_or_contains hin hx).elim h₁ h₂

/-- A free subtree that is at most as tall as a newly linked one lies within it or stays free. -/
theorem contains_or_isFree (hh : t.height f ≤ t.height e) (hf : isFree t linked f = true) :
    t.contains e f = true ∨ isFree t linked' f = true := by
  by_cases hef : t.contains e f = true
  · exact Or.inl hef
  · refine Or.inr (isFree_of_disjoint hnew hf hef fun hfe => ?_)
    have heq := Tree.eq_of_contains_of_height hfe hh
    rw [heq] at hef hfe
    exact hef hfe

/-- One that is at least as tall and does not contain the newly linked one stays free. -/
theorem isFree_of_not_contains (hh : t.height e ≤ t.height f) (hf : isFree t linked f = true)
    (hfe : ¬ t.contains f e = true) : isFree t linked' f = true := by
  refine isFree_of_disjoint hnew hf (fun hef => ?_) hfe
  have heq := Tree.eq_of_contains_of_height hef hh
  rw [heq] at hfe hef
  exact hfe hef

end NewLinks

theorem isTall_congr {t u : Tree} {a b : Nat} (ha : a < t.size) (hb : b < u.size)
    (h : t.subtree a = u.subtree b) (minHeight : Rat) :
    isTall minHeight t a = isTall minHeight u b := by
  unfold isTall
  rw [Tree.height_congr ha hb h]

theorem mem_ids {t : Tree} {id : Nat} : id ∈ t.ids ↔ id < t.size := by
  rw [Tree.ids, List.mem_range]

theorem mem_freeTwins {minHeight : Rat} {src t : Tree} {s id : Nat} {linked : Nat → Bool}
    (hs : s < src.size) :
    id ∈ freeTwins minHeight src s t linked ↔
      id < t.size ∧ isTall minHeight t id = true ∧ isFree t linked id = true ∧
        src.subtree s = t.subtree id := by
  rw [freeTwins, bucket, List.mem_filter, List.mem_filter, mem_ids, Bool.and_eq_true,
    Bool.and_eq_true, beq_iff_eq]
  constructor
  · rintro ⟨⟨hid, ht, -⟩, hf, hi⟩
    exact ⟨hid, ht, hf, (Tree.isomorphic_iff hs hid).1 hi⟩
  · rintro ⟨hid, ht, hf, hsub⟩
    refine ⟨⟨hid, ht, ?_⟩, hf, (Tree.isomorphic_iff hs hid).2 hsub⟩
    rw [Tree.hash_eq hs, Tree.hash_eq hid, hsub]

theorem nodup_freeTwins (minHeight : Rat) (src t : Tree) (s : Nat) (linked : Nat → Bool) :
    (freeTwins minHeight src s t linked).Nodup := by
  rw [freeTwins, bucket, Tree.ids]
  exact (List.nodup_range.filter _).filter _

/-! ## Linking subtrees -/

/-- The pairs of nodes at equal places of two subtrees. -/
def copyPairs (src : Tree) (s : Nat) (dst : Tree) (d : Nat) : List (Nat × Nat) :=
  (src.preOrder s).zip (dst.preOrder d)

section Copies

variable {src dst : Tree} {s d : Nat} {m : Mapping Nat}

theorem mem_copyPairs (hs : src.subtreeSize s = dst.subtreeSize d) {p : Nat × Nat} :
    p ∈ copyPairs src s dst d ↔ ∃ k < src.subtreeSize s, p = (s + k, d + k) := by
  rw [copyPairs, Tree.preOrder, Tree.preOrder, ← hs, List.range'_eq_map_range,
    List.range'_eq_map_range, List.zip_map', List.mem_map]
  constructor
  · rintro ⟨k, hk, rfl⟩
    exact ⟨k, List.mem_range.1 hk, rfl⟩
  · rintro ⟨k, hk, rfl⟩
    exact ⟨k, List.mem_range.2 hk, rfl⟩

theorem map_fst_copyPairs (hs : src.subtreeSize s = dst.subtreeSize d) :
    (copyPairs src s dst d).map Prod.fst = src.preOrder s := by
  rw [copyPairs]
  apply List.map_fst_zip
  apply Nat.le_of_eq
  rw [Tree.preOrder, Tree.preOrder, List.length_range', List.length_range', hs]

theorem map_snd_copyPairs (hs : src.subtreeSize s = dst.subtreeSize d) :
    (copyPairs src s dst d).map Prod.snd = dst.preOrder d := by
  rw [copyPairs]
  apply List.map_snd_zip
  apply Nat.le_of_eq
  rw [Tree.preOrder, Tree.preOrder, List.length_range', List.length_range', hs]

/-- **Free identical subtrees are linked** node by node, and the correspondence stays sound. -/
theorem linkSubtrees_of_free (hs : s < src.size) (hd : d < dst.size)
    (hsub : src.subtree s = dst.subtree d) (hsf : isFree src m.hasSrc s = true)
    (hdf : isFree dst m.hasDst d = true) (hm : m.Sound src dst) :
    linkSubtrees src s dst d m = .ok ⟨m.pairs ++ copyPairs src s dst d⟩ ∧
      Mapping.Sound src dst ⟨m.pairs ++ copyPairs src s dst d⟩ := by
  have hsize := Tree.subtreeSize_congr hs hd hsub
  have h₁ : ((copyPairs src s dst d).map Prod.fst).Nodup := by
    rw [map_fst_copyPairs hsize, Tree.preOrder]
    exact List.nodup_range'
  have h₂ : ((copyPairs src s dst d).map Prod.snd).Nodup := by
    rw [map_snd_copyPairs hsize, Tree.preOrder]
    exact List.nodup_range'
  have hin : ∀ p ∈ copyPairs src s dst d, src.contains s p.1 = true ∧
      dst.contains d p.2 = true ∧ src.subtree p.1 = dst.subtree p.2 := by
    intro p hp
    obtain ⟨k, hk, rfl⟩ := (mem_copyPairs hsize).1 hp
    have hc : src.contains s (s + k) = true := Tree.contains_iff.2 ⟨by omega, by omega⟩
    refine ⟨hc, Tree.contains_iff.2 ⟨by omega, by omega⟩, ?_⟩
    rw [Tree.subtree_offset hd hsub hc, Nat.add_sub_cancel_left]
  have hf : ∀ p ∈ copyPairs src s dst d, m.hasSrc p.1 = false ∧ m.hasDst p.2 = false :=
    fun p hp => ⟨isFree_iff.1 hsf _ (hin p hp).1, isFree_iff.1 hdf _ (hin p hp).2.1⟩
  refine ⟨Mapping.linkAll_of_free h₁ h₂ hf, hm.append h₁ h₂ hf fun p hp => ?_⟩
  obtain ⟨hp₁, hp₂, hp₃⟩ := hin p hp
  refine ⟨Tree.contains_lt_size hp₁, Tree.contains_lt_size hp₂, ?_⟩
  rw [Tree.kind, Tree.kind, Tree.content, Tree.content, hp₃]

/-- Linking subtrees adds links between their nodes only. -/
theorem grows_copyPairs (hs : src.subtreeSize s = dst.subtreeSize d) :
    m.Grows ⟨m.pairs ++ copyPairs src s dst d⟩ (fun x => src.contains s x = true)
      (fun y => dst.contains d y = true) := by
  refine ⟨copyPairs src s dst d, rfl, fun p hp => ?_⟩
  obtain ⟨k, hk, rfl⟩ := (mem_copyPairs hs).1 hp
  exact ⟨Tree.contains_iff.2 ⟨by omega, by omega⟩, Tree.contains_iff.2 ⟨by omega, by omega⟩⟩

end Copies

end TreeMerge
