import Mathlib.Data.List.SplitBy
import TreeMerge.Proofs.Tree.Order
import TreeMerge.Render.Tokens

/-!
# A line of source can be cut back into its tokens

Rendering puts a space between two tokens unless one of them is a mark that closes up to the other.
So two words never touch, and cutting a line at its spaces and around its marks gives the tokens
back.

* `isMark`, `isWordUnit`, `IsToken` : marks, and the tokens that a line can be cut into;
* `sourceTokens` : the tokens of a line;
* `head?_joinTokens` : what stands behind a word;
* `cutTokens_joinTokens` : cutting what was joined, by induction on the tokens;
* `Tree.leafLabels` : the labels that a line is made of, by the numbers of the leaves;
* `sourceTokens_renderTokens` : the tokens of a rendered line.
-/

namespace TreeMerge

open Text (unit)

/-! ## Cutting -/

/-- The units that are tokens by themselves. -/
def marks : List UInt16 :=
  [';', ',', '(', ')', '[', ']', '.']

def isMark (u : UInt16) : Bool :=
  marks.contains u

/-- A unit of a word: neither a mark nor a space. -/
def isWordUnit (u : UInt16) : Bool :=
  u != unit ' ' && !isMark u

/-- A mark, or a text of word units only; the empty text is one. -/
def IsToken (t : Text) : Prop :=
  (∃ u ∈ marks, t = Text.mk [u]) ∨ ∀ u ∈ t.units, isWordUnit u = true

instance (t : Text) : Decidable (IsToken t) :=
  decidable_of_iff ((marks.any fun u => t == Text.mk [u]) || t.units.all isWordUnit)
    (by simp [IsToken])

/-- Cut between two units unless both belong to a word, and drop the spaces. -/
def cutTokens (us : List UInt16) : List (List UInt16) :=
  (us.splitBy fun a b => isWordUnit a && isWordUnit b).filter (· != [unit ' '])

/-- The tokens of a line: its maximal runs of word units and its marks. -/
def sourceTokens (line : Text) : List Text :=
  (cutTokens line.units).map Text.mk

/-- A piece is cut off where a word does not go on. -/
theorem cutTokens_append {piece rest : List UInt16} (hne : piece ≠ [])
    (hpiece : piece.IsChain fun a b => (isWordUnit a && isWordUnit b) = true)
    (hrest : ∀ a ∈ piece.getLast?, ∀ b ∈ rest.head?, (isWordUnit a && isWordUnit b) = false) :
    cutTokens (piece ++ rest) = (if piece = [unit ' '] then [] else [piece]) ++ cutTokens rest := by
  unfold cutTokens
  rw [List.splitBy_append hrest, List.splitBy_of_isChain hne hpiece, List.filter_append]
  by_cases hspace : piece = [unit ' '] <;> simp [hspace]

theorem cutTokens_space (rest : List UInt16) : cutTokens (unit ' ' :: rest) = cutTokens rest := by
  have hstop : ∀ a ∈ [unit ' '].getLast?, ∀ b ∈ rest.head?,
      (isWordUnit a && isWordUnit b) = false := by
    simp [isWordUnit]
  exact cutTokens_append (by simp) (by simp) hstop

theorem cutTokens_mark {u : UInt16} (hu : u ∈ marks) (rest : List UInt16) :
    cutTokens (u :: rest) = [u] :: cutTokens rest := by
  have hword : isWordUnit u = false := by
    simp [isWordUnit, isMark, hu]
  have hspace : u ≠ unit ' ' := by
    rintro rfl
    revert hu
    decide
  have hstop : ∀ a ∈ [u].getLast?, ∀ b ∈ rest.head?, (isWordUnit a && isWordUnit b) = false := by
    simp [hword]
  have hcut := cutTokens_append (by simp) (by simp) hstop
  simpa [hspace] using hcut

theorem cutTokens_word {w rest : List UInt16} (hne : w ≠ []) (hw : ∀ u ∈ w, isWordUnit u = true)
    (hrest : ∀ b ∈ rest.head?, isWordUnit b = false) :
    cutTokens (w ++ rest) = w :: cutTokens rest := by
  have hspace : w ≠ [unit ' '] := by
    rintro rfl
    exact absurd (hw (unit ' ') (by simp)) (by decide)
  have hchain : w.IsChain fun a b => (isWordUnit a && isWordUnit b) = true :=
    (List.pairwise_of_forall_mem_list fun a ha b hb => by rw [hw a ha, hw b hb]; rfl).isChain
  rw [cutTokens_append hne hchain, if_neg hspace, List.singleton_append]
  intro a _ b hb
  rw [hrest b hb, Bool.and_false]

/-! ## What was joined -/

theorem closesBefore_eq : closesBefore = marks.map fun u => Text.mk [u] := by
  decide

theorem mem_closesBefore {t : Text} :
    t ∈ closesBefore ↔ ∃ u ∈ marks, t = Text.mk [u] := by
  rw [closesBefore_eq, List.mem_map]
  simp only [eq_comm]

theorem closesAfter_subset : closesAfter ⊆ closesBefore := by
  decide

theorem not_mem_closesBefore {w : Text} (hw : ∀ u ∈ w.units, isWordUnit u = true) :
    w ∉ closesBefore := by
  rw [mem_closesBefore]
  rintro ⟨u, hu, rfl⟩
  have := hw u (by simp)
  simp [isWordUnit, isMark, hu] at this

theorem spaced_word {w : Text} (hw : ∀ u ∈ w.units, isWordUnit u = true) (t : Text) :
    spaced w t = !closesBefore.contains t := by
  have hafter : w ∉ closesAfter := fun h => not_mem_closesBefore hw (closesAfter_subset h)
  simp [spaced, hafter]

theorem head?_joinTokens {w : Text} (hw : ∀ u ∈ w.units, isWordUnit u = true)
    (ts : List Text) : ∀ b ∈ (joinTokens (some w) ts).head?, isWordUnit b = false := by
  induction ts with
  | nil => simp [joinTokens]
  | cons t ts ih =>
    unfold joinTokens
    by_cases ht : t = ""
    · rw [if_pos ht]
      exact ih
    rw [if_neg ht, Option.map_some, Option.getD_some, spaced_word hw]
    cases hmark : closesBefore.contains t with
    | true =>
      obtain ⟨u, hu, rfl⟩ := mem_closesBefore.1 (List.contains_iff_mem.1 hmark)
      simp [isWordUnit, isMark, hu]
    | false => simp [isWordUnit]

/-- **Cutting what was joined** gives the tokens that are not empty, whatever stands before them. -/
theorem cutTokens_joinTokens {ts : List Text} (h : ∀ t ∈ ts, IsToken t) (prev : Option Text) :
    cutTokens (joinTokens prev ts) = (ts.filter (!·.isEmpty)).map Text.units := by
  induction ts generalizing prev with
  | nil => rfl
  | cons t ts ih =>
    have hts := ih fun w hw => h w (List.mem_cons_of_mem _ hw)
    unfold joinTokens
    by_cases ht : t = ""
    · rw [if_pos ht, hts prev, List.filter_cons_of_neg (by simp [ht])]
    rw [if_neg ht, List.filter_cons_of_pos (by simp [ht]), List.map_cons, ← hts (some t)]
    -- whether there is a space in front depends on `prev`, but it is dropped
    have hgap : ∀ gap : Bool, cutTokens ((if gap then [unit ' '] else []) ++ t.units ++
        joinTokens (some t) ts) = cutTokens (t.units ++ joinTokens (some t) ts) := by
      intro gap
      cases gap with
      | true => exact cutTokens_space _
      | false => rfl
    rw [hgap]
    rcases h t List.mem_cons_self with ⟨u, hu, rfl⟩ | hword
    · exact cutTokens_mark hu _
    · -- a word ends there, since what follows it is a space or a mark
      exact cutTokens_word (by simpa using ht) hword (head?_joinTokens hword ts)

theorem sourceTokens_line {ts : List Text} (h : ∀ t ∈ ts, IsToken t) :
    sourceTokens (renderTokens ts) = ts.filter (!·.isEmpty) := by
  unfold sourceTokens renderTokens
  rw [cutTokens_joinTokens h, List.map_map]
  simp [Function.comp_def]

/-! ## Trees -/

namespace Tree

variable {t : Tree}

/-- The labels of the leaves of a subtree, in order. -/
def leafLabels (t : Tree) (id : Nat) : List Text :=
  ((t.preOrder id).filter t.isLeaf).map t.label

theorem isLeaf_subtree (t : Tree) (id : Nat) : (t.subtree id).isLeaf = t.isLeaf id := by
  rw [Rose.isLeaf, isLeaf, ← map_subtree_children, List.isEmpty_map]

theorem map_subtree_preOrder {id : Nat} (h : id < t.size) :
    (t.preOrder id).map t.subtree = (t.subtree id).subtrees := by
  refine List.ext_getElem? fun k => ?_
  rw [List.getElem?_map, preOrder]
  by_cases hk : k < t.subtreeSize id
  · rw [subtrees_getElem? h hk, List.getElem?_range' hk, Option.map_some, Nat.one_mul]
  · have hlen : (t.subtree id).subtrees.length = t.subtreeSize id := by
      rw [Rose.length_subtrees, subtreeSize_eq h]
    rw [List.getElem?_eq_none (by simpa using Nat.le_of_not_lt hk),
      List.getElem?_eq_none (by omega), Option.map_none]

theorem leafLabels_subtree {id : Nat} (h : id < t.size) :
    Node.leafLabels (t.subtree id) = t.leafLabels id := by
  have hleaf : Rose.isLeaf ∘ t.subtree = t.isLeaf := funext t.isLeaf_subtree
  rw [Node.leafLabels, ← map_subtree_preOrder h, List.filter_map, hleaf, List.map_map]
  rfl

end Tree

/-- **A line of source determines its tokens**: cutting it gives the tokens that it was made of,
except for the empty ones. So it does for the leaves of a tree, and trees with the same line have
the same labels on their leaves, up to empty ones. -/
theorem sourceTokens_renderTokens :
    (∀ tokens : List Text, (∀ t ∈ tokens, IsToken t) →
      sourceTokens (renderTokens tokens) = tokens.filter (!·.isEmpty)) ∧
    (∀ (t : Tree), ∀ id < t.size, (∀ l ∈ t.leafLabels id, IsToken l) →
      sourceTokens (Node.source (t.subtree id)) = (t.leafLabels id).filter (!·.isEmpty)) ∧
    ∀ (t u : Tree), ∀ a < t.size, ∀ b < u.size, (∀ l ∈ t.leafLabels a, IsToken l) →
      (∀ l ∈ u.leafLabels b, IsToken l) → Node.source (t.subtree a) = Node.source (u.subtree b) →
      (t.leafLabels a).filter (!·.isEmpty) = (u.leafLabels b).filter (!·.isEmpty) := by
  have htree : ∀ (t : Tree), ∀ id < t.size, (∀ l ∈ t.leafLabels id, IsToken l) →
      sourceTokens (Node.source (t.subtree id)) = (t.leafLabels id).filter (!·.isEmpty) := by
    intro t id hid h
    rw [Node.source, Tree.leafLabels_subtree hid]
    exact sourceTokens_line h
  refine ⟨fun tokens h => sourceTokens_line h, htree, ?_⟩
  intro t u a ha b hb ht hu hline
  rw [← htree t a ha ht, hline, htree u b hb hu]

/-- A call with an empty token in it. -/
def callTokens : List Text :=
  ["console", ".", "log", "(", "a", "", ",", "b", ")", ";"]

/-- The call with all its tokens below the root. -/
def flatCall : Tree :=
  .ofNode (.node ⟨"call", ""⟩ (callTokens.map fun l => .node ⟨"token", l⟩ []))

/-- The same call with a node for what is called, and without the empty token. -/
def nestedCall : Tree :=
  let token (l : Text) : Node := .node ⟨"token", l⟩ []
  .ofNode (.node ⟨"call", ""⟩ (.node ⟨"member", ""⟩ (["console", ".", "log"].map token) ::
    ["(", "a", ",", "b", ")", ";"].map token))

theorem sourceTokens_renderTokens_call :
    (∀ t ∈ callTokens, IsToken t) ∧ (∀ l ∈ flatCall.leafLabels Tree.root, IsToken l) ∧
    (∀ l ∈ nestedCall.leafLabels Tree.root, IsToken l) ∧
    sourceTokens (renderTokens callTokens) = callTokens.filter (!·.isEmpty) ∧
    sourceTokens (Node.source (nestedCall.subtree Tree.root)) =
      (nestedCall.leafLabels Tree.root).filter (!·.isEmpty) ∧
    Node.source (flatCall.subtree Tree.root) = Node.source (nestedCall.subtree Tree.root) ∧
    (flatCall.leafLabels Tree.root).filter (!·.isEmpty) =
      (nestedCall.leafLabels Tree.root).filter (!·.isEmpty) := by
  have htokens : ∀ t ∈ callTokens, IsToken t := by decide
  have hflat : ∀ l ∈ flatCall.leafLabels Tree.root, IsToken l := by decide +kernel
  have hnested : ∀ l ∈ nestedCall.leafLabels Tree.root, IsToken l := by decide +kernel
  have hline : Node.source (flatCall.subtree Tree.root) =
      Node.source (nestedCall.subtree Tree.root) := by decide +kernel
  obtain ⟨htokensBack, htree, hsame⟩ := sourceTokens_renderTokens
  exact ⟨htokens, hflat, hnested, htokensBack callTokens htokens,
    htree nestedCall _ (by decide) hnested, hline,
    hsame flatCall nestedCall _ (by decide) _ (by decide) hflat hnested hline⟩

end TreeMerge
