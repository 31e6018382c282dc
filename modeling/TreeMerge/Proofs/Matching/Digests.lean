import TreeMerge.Proofs.Matching.Soundness

/-!
# Digests never decide

Subtrees are compared by their digests first, and twins are looked up among the subtrees of one
digest. Neither changes an answer, as equal subtrees have equal digests and the comparison that
follows is a full one; different subtrees of one digest cost time only.

* `Node.toSpec_inj`, `Tree.isomorphic_iff_toSpec` : subtrees are identical if their descriptions
  are;
* `scanTwins` : free twins by a plain scan, `freeTwins_eq_scanTwins` : it finds what the look-up
  finds;
* `greedyMatchBy` : the matcher with any search for twins;
* `digests_transparent` : the comparison is that of descriptions, the matcher that of the plain
  scan.
-/

namespace TreeMerge

/-! ## Comparison -/

theorem Node.toSpec_inj {n k : Node} : n.toSpec = k.toSpec ↔ n = k := by
  constructor
  · intro h
    rw [← Spec.toNode_toSpec n, ← Spec.toNode_toSpec k, h]
  · exact congrArg Node.toSpec

namespace Tree

variable {t u : Tree} {a b : Nat}

theorem isomorphic_eq_same (ha : a < t.size) (hb : b < u.size) :
    t.isomorphic a u b = Rose.same (t.subtree a) (u.subtree b) := by
  rw [Bool.eq_iff_iff, isomorphic_iff ha hb, Rose.same_iff]

theorem isomorphic_iff_toSpec (ha : a < t.size) (hb : b < u.size) :
    t.isomorphic a u b = true ↔ (t.subtree a).toSpec = (u.subtree b).toSpec := by
  rw [isomorphic_iff ha hb, Node.toSpec_inj]

end Tree

/-- Two leaves of one digest are not identical. -/
example : Node.hash (.node ⟨"x", "ejcaqu"⟩ []) = Node.hash (.node ⟨"x", "sijwso"⟩ []) ∧
    Node.isomorphic (.node ⟨"x", "ejcaqu"⟩ []) (.node ⟨"x", "sijwso"⟩ []) = false := by
  decide

/-! ## The search for twins -/

/-- A search, in a tree, for the free subtrees that are identical to that of node `s` of `src`. -/
abbrev TwinSearch := (src : Tree) → (s : Nat) → (t : Tree) → (linked : Nat → Bool) → List Nat

/-- All nodes in pre-order, each compared in full. -/
def scanTwins : TwinSearch := fun src s t linked =>
  t.ids.filter fun id => isFree t linked id && Rose.same (src.subtree s) (t.subtree id)

/-- Where the subtree is tall, the look-up by digest finds what the scan finds, in its order. -/
theorem freeTwins_eq_scanTwins {minHeight : Rat} {src : Tree} {s : Nat} (hs : s < src.size)
    (htall : isTall minHeight src s = true) (t : Tree) (linked : Nat → Bool) :
    freeTwins minHeight src s t linked = scanTwins src s t linked := by
  unfold freeTwins bucket scanTwins
  rw [List.filter_filter]
  apply List.filter_congr
  intro id hid
  rw [mem_ids] at hid
  rw [Tree.isomorphic_eq_same hs hid]
  cases hsame : Rose.same (src.subtree s) (t.subtree id) with
  | false => simp
  | true =>
    rw [Rose.same_iff] at hsame
    have hhash : t.hash id = src.hash s := by
      rw [Tree.hash_eq hid, Tree.hash_eq hs, hsame]
    have hheight : isTall minHeight t id = true := by
      rwa [← isTall_congr hs hid hsame]
    simp [hhash, hheight]

/-! ## The matcher with any search -/

/-- `settleUnique` with a search of its own. -/
def settleUniqueBy (twins : TwinSearch) (src dst : Tree) (st : Settling) (s : Nat) :
    Except Fault Settling :=
  if !isFree src st.mapping.hasSrc s then .ok st
  else
    match twins src s dst st.mapping.hasDst with
    | [] => .ok st
    | [d] =>
      if (twins src s src st.mapping.hasSrc).length == 1 then do
        let mapping ← linkSubtrees src s dst d st.mapping
        return { st with mapping }
      else .ok { st with ambiguous := st.ambiguous ++ [(s, d)] }
    | ds => .ok { st with ambiguous := st.ambiguous ++ ds.map fun d => (s, d) }

def topDownBy (twins : TwinSearch) (round : Rounding) (minHeight : Rat) (src dst : Tree) :
    Except Fault (Mapping Nat) := do
  let st ← (tallestFirst minHeight src).foldlM (settleUniqueBy twins src dst) {}
  (rankPairs round src dst st.ambiguous).foldlM (settlePair src dst) st.mapping

def greedyMatchBy (twins : TwinSearch) (round : Rounding) (options : MatcherOptions)
    (src dst : Tree) : Except Fault (Mapping Nat) := do
  bottomUp round options.minDice src dst (← topDownBy twins round options.minHeight src dst)

theorem greedyMatchBy_freeTwins (round : Rounding) (options : MatcherOptions) (src dst : Tree) :
    greedyMatchBy (freeTwins options.minHeight) round options src dst =
      greedyMatch round options src dst := rfl

theorem foldlM_congr {ε σ α : Type} {f g : σ → α → Except ε σ} {l : List α}
    (h : ∀ a ∈ l, ∀ s, f s a = g s a) (s : σ) : l.foldlM f s = l.foldlM g s := by
  induction l generalizing s with
  | nil => rfl
  | cons a l ih =>
    rw [List.foldlM_cons, List.foldlM_cons, h a List.mem_cons_self]
    exact congrArg (g s a >>= ·) (funext (ih fun b hb => h b (List.mem_cons_of_mem a hb)))

/-- Two searches that agree on the tall subtrees of the source make one matcher. -/
theorem greedyMatchBy_congr {twins twins' : TwinSearch} {options : MatcherOptions} {src : Tree}
    (h : ∀ s < src.size, isTall options.minHeight src s = true →
      twins src s = twins' src s) (round : Rounding) (dst : Tree) :
    greedyMatchBy twins round options src dst = greedyMatchBy twins' round options src dst := by
  unfold greedyMatchBy topDownBy
  rw [foldlM_congr (g := settleUniqueBy twins' src dst)]
  intro s hs st
  obtain ⟨hlt, htall⟩ := mem_tallestFirst.1 hs
  unfold settleUniqueBy
  rw [h s hlt htall]

/-- **Digests are transparent.** Two nodes compare as identical exactly if they are described alike,
which the full comparison alone finds as well; and the matcher makes the same links in the same
order as with a plain scan for twins. -/
theorem digests_transparent :
    (∀ (t u : Tree) (a : Fin t.size) (b : Fin u.size),
      t.isomorphic a u b = Rose.same (t.subtree a) (u.subtree b) ∧
        (t.isomorphic a u b = true ↔ (t.subtree a).toSpec = (u.subtree b).toSpec)) ∧
      ∀ round options src dst, greedyMatch round options src dst =
        greedyMatchBy scanTwins round options src dst := by
  refine ⟨fun t u a b => ⟨Tree.isomorphic_eq_same a.2 b.2, Tree.isomorphic_iff_toSpec a.2 b.2⟩, ?_⟩
  intro round options src dst
  rw [← greedyMatchBy_freeTwins]
  apply greedyMatchBy_congr
  intro s hs htall
  funext t linked
  exact freeTwins_eq_scanTwins hs htall t linked

end TreeMerge
