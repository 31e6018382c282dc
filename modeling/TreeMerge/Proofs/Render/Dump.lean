import Mathlib.Data.List.Infix
import TreeMerge.Proofs.Matching.Digests
import TreeMerge.Proofs.Render.Tokens
import TreeMerge.Render.Dump

/-!
# A dump determines its tree

A line of a dump gives away the depth of its node by the spaces in front, and kind and label by the
first colon with a space behind it. Depths in pre-order give away the shape: what follows a subtree
stands no deeper than its root.

* `Content.Legible` : a node that can be told from its line;
* `Content.line`, `Content.line_inj`, `dumpLine_inj` : lines;
* `Node.outline` : the nodes of a subtree with their depths;
* `Node.splitOn_dump` : the lines of a dump are those of the outline;
* `Node.outline_append_inj` : an outline determines its subtree and what follows it;
* `isomorphic_of_dump_eq` : subtrees of equal dumps are identical.
-/

namespace TreeMerge

open Text (unit)

/-! ## Lines -/

namespace Content

/-- A node that can be told from its line: no line feed breaks the line, the kind does not start
like indentation, and the first colon with a space behind it ends the kind. -/
structure Legible (c : Content) : Prop where
  kind_oneLine : unit '\n' ∉ c.kind.units
  label_oneLine : unit '\n' ∉ c.label.units
  kind_head : c.kind.units.head? ≠ some (unit ' ')
  kind_colon : ¬ [unit ':', unit ' '] <:+: c.kind.units

instance (c : Content) : Decidable c.Legible :=
  decidable_of_iff (unit '\n' ∉ c.kind.units ∧ unit '\n' ∉ c.label.units ∧
      c.kind.units.head? ≠ some (unit ' ') ∧ ¬ [unit ':', unit ' '] <:+: c.kind.units)
    ⟨fun h => ⟨h.1, h.2.1, h.2.2.1, h.2.2.2⟩, fun h => ⟨h.1, h.2, h.3, h.4⟩⟩

/-- The line of a node without its indentation. -/
def line (c : Content) : List UInt16 :=
  if c.label = "" then c.kind.units else c.kind.units ++ unit ':' :: unit ' ' :: c.label.units

/-- The first colon with a space behind it is where two texts part. -/
theorem colon_append_inj {k l x y : List UInt16} (hk : ¬ [unit ':', unit ' '] <:+: k)
    (hl : ¬ [unit ':', unit ' '] <:+: l)
    (h : k ++ unit ':' :: unit ' ' :: x = l ++ unit ':' :: unit ' ' :: y) : k = l ∧ x = y := by
  have hne : unit ':' ≠ unit ' ' := by decide
  induction k generalizing l with
  | nil =>
    match l with
    | [] => simpa using h
    | [a] => exact absurd (List.cons.inj (List.cons.inj h).2).1.symm hne
    | a :: b :: l =>
      obtain ⟨rfl, rfl, -⟩ : unit ':' = a ∧ unit ' ' = b ∧
          x = l ++ unit ':' :: unit ' ' :: y := by simpa using h
      exact absurd ⟨[], l, rfl⟩ hl
  | cons a k ih =>
    match l with
    | [] =>
      match k with
      | [] => exact absurd (List.cons.inj (List.cons.inj h).2).1 hne
      | b :: k =>
        obtain ⟨rfl, rfl, -⟩ : a = unit ':' ∧ b = unit ' ' ∧
            k ++ unit ':' :: unit ' ' :: x = y := by simpa using h
        exact absurd ⟨[], k, rfl⟩ hk
    | b :: l =>
      rw [List.cons_append, List.cons_append, List.cons.injEq] at h
      have hkl := ih (fun hin => hk (List.infix_cons hin)) (fun hin => hl (List.infix_cons hin)) h.2
      exact ⟨by rw [h.1, hkl.1], hkl.2⟩

variable {a b c : Content}

theorem Legible.head?_line (h : c.Legible) : c.line.head? ≠ some (unit ' ') := by
  have hkind := h.kind_head
  unfold line
  split
  · exact hkind
  · cases hk : c.kind.units with
    | nil => exact fun hcolon => absurd (Option.some.inj hcolon) (by decide)
    | cons x k => simpa [hk] using hkind

theorem Legible.not_mem_line (h : c.Legible) : unit '\n' ∉ c.line := by
  unfold line
  split
  · exact h.kind_oneLine
  · have hmarks : unit '\n' ∉ [unit ':', unit ' '] := by decide
    simpa [h.kind_oneLine, h.label_oneLine] using hmarks

/-- **The line of a node determines the node.** -/
theorem line_inj (ha : a.Legible) (hb : b.Legible) (h : a.line = b.line) : a = b := by
  obtain ⟨k, l⟩ := a
  obtain ⟨k', l'⟩ := b
  have hk : ¬ [unit ':', unit ' '] <:+: k.units := ha.kind_colon
  have hk' : ¬ [unit ':', unit ' '] <:+: k'.units := hb.kind_colon
  -- a kind without the colon is no line with one
  have hno : ∀ {k k' l' : List UInt16}, ¬ [unit ':', unit ' '] <:+: k →
      k ≠ k' ++ unit ':' :: unit ' ' :: l' := by
    rintro k k' l' hk rfl
    exact hk ⟨k', l', by simp⟩
  simp only [line] at h
  by_cases hl : l = "" <;> by_cases hl' : l' = ""
  · rw [if_pos hl, if_pos hl'] at h
    rw [Text.ext h, hl, hl']
  · rw [if_pos hl, if_neg hl'] at h
    exact absurd h (hno hk)
  · rw [if_neg hl, if_pos hl'] at h
    exact absurd h.symm (hno hk')
  · rw [if_neg hl, if_neg hl'] at h
    obtain ⟨hkind, hlabel⟩ := colon_append_inj hk hk' h
    rw [Text.ext hkind, Text.ext hlabel]

end Content

theorem units_dumpLine (depth : Nat) (c : Content) :
    (dumpLine depth c).units = List.replicate (2 * depth) (unit ' ') ++ c.line := by
  rw [dumpLine, Content.line]
  split
  · rfl
  · rw [Text.units_append, Text.units_append, Text.units_append, List.append_assoc]
    rfl

/-- **The line of a node in a dump determines its depth and the node.** -/
theorem dumpLine_inj {d e : Nat} {a b : Content} (ha : a.Legible) (hb : b.Legible)
    (h : (dumpLine d a).units = (dumpLine e b).units) : d = e ∧ a = b := by
  rw [units_dumpLine, units_dumpLine] at h
  -- the spaces in front are all indentation
  have hspaces : ∀ {n : Nat} {c : Content}, c.Legible →
      (List.replicate n (unit ' ') ++ c.line).takeWhile (· == unit ' ') =
        List.replicate n (unit ' ') := by
    intro n c hc
    rw [List.takeWhile_append_of_pos (by simp [List.mem_replicate])]
    have hhead := hc.head?_line
    cases hline : c.line with
    | nil => simp
    | cons x us =>
      have hx : x ≠ unit ' ' := by simpa [hline] using hhead
      simp [hx]
  have hlength := congrArg (fun us => (List.takeWhile (· == unit ' ') us).length) h
  simp only [hspaces ha, hspaces hb, List.length_replicate] at hlength
  have hde : d = e := by omega
  rw [hde] at h
  exact ⟨hde, Content.line_inj ha hb (List.append_cancel_left h)⟩

/-! ## Outlines -/

namespace Node

mutual

/-- The nodes of a subtree with their depths, in pre-order. -/
def outline (depth : Nat) : Node → List (Nat × Content)
  | .node c cs => (depth, c) :: outlineAll (depth + 1) cs

/-- The same for sibling subtrees. -/
def outlineAll (depth : Nat) : List Node → List (Nat × Content)
  | [] => []
  | c :: cs => outline depth c ++ outlineAll depth cs

end

mutual

/-- A dump has one line for each node of the outline. -/
theorem dumpLines_eq (depth : Nat) : ∀ n : Node,
    dumpLines depth n = (outline depth n).map fun p => dumpLine p.1 p.2
  | .node c cs => by rw [dumpLines, outline, List.map_cons, dumpLinesAll_eq (depth + 1) cs]

theorem dumpLinesAll_eq (depth : Nat) : ∀ ns : List Node,
    dumpLinesAll depth ns = (outlineAll depth ns).map fun p => dumpLine p.1 p.2
  | [] => rfl
  | c :: cs => by
    rw [dumpLinesAll, outlineAll, List.map_append, dumpLines_eq depth c, dumpLinesAll_eq depth cs]

end

mutual

/-- The outline lists the nodes in pre-order. -/
theorem map_snd_outline (depth : Nat) : ∀ n : Node, (outline depth n).map Prod.snd = n.preorder
  | .node c cs => by
    rw [outline, List.map_cons, map_snd_outlineAll (depth + 1) cs, Rose.preorder, Rose.subtrees]
    rfl

theorem map_snd_outlineAll (depth : Nat) : ∀ ns : List Node,
    (outlineAll depth ns).map Prod.snd = (Rose.subtreesAll ns).map Rose.value
  | [] => rfl
  | c :: cs => by
    rw [outlineAll, List.map_append, map_snd_outline depth c, map_snd_outlineAll depth cs,
      Rose.subtreesAll, List.map_append, Rose.preorder]

end

mutual

/-- **An outline determines its subtree** and what follows it, where nothing that follows stands
deeper than the root at its start. -/
theorem outline_append_inj {depth : Nat} : ∀ {n k : Node} {rest rest' : List (Nat × Content)},
    (∀ p ∈ rest.head?, p.1 ≤ depth) → (∀ p ∈ rest'.head?, p.1 ≤ depth) →
    outline depth n ++ rest = outline depth k ++ rest' → n = k ∧ rest = rest'
  | .node c cs, .node d ds, rest, rest', hrest, hrest', h => by
    rw [outline, outline, List.cons_append, List.cons_append, List.cons.injEq, Prod.mk.injEq] at h
    obtain ⟨⟨-, hc⟩, hcs⟩ := h
    obtain ⟨hcs, hrests⟩ := outlineAll_append_inj
      (fun p hp => Nat.lt_succ_of_le (hrest p hp)) (fun p hp => Nat.lt_succ_of_le (hrest' p hp)) hcs
    exact ⟨by rw [hc, hcs], hrests⟩

theorem outlineAll_append_inj {depth : Nat} : ∀ {ns ks : List Node}
    {rest rest' : List (Nat × Content)},
    (∀ p ∈ rest.head?, p.1 < depth) → (∀ p ∈ rest'.head?, p.1 < depth) →
    outlineAll depth ns ++ rest = outlineAll depth ks ++ rest' → ns = ks ∧ rest = rest'
  | [], [], _, _, _, _, h => ⟨rfl, h⟩
  | [], .node d ds :: ks, rest, rest', hrest, _, h => by
    -- a further sibling would stand where only shallower nodes may
    obtain rfl : rest = outlineAll depth (.node d ds :: ks) ++ rest' := h
    exact absurd (hrest (depth, d) rfl) (Nat.lt_irrefl depth)
  | .node c cs :: ns, [], rest, rest', _, hrest', h => by
    obtain rfl : outlineAll depth (.node c cs :: ns) ++ rest = rest' := h
    exact absurd (hrest' (depth, c) rfl) (Nat.lt_irrefl depth)
  | c :: ns, d :: ks, rest, rest', hrest, hrest', h => by
    have hnext : ∀ (ms : List Node) {r : List (Nat × Content)}, (∀ p ∈ r.head?, p.1 < depth) →
        ∀ p ∈ (outlineAll depth ms ++ r).head?, p.1 ≤ depth := by
      intro ms r hr p hp
      match ms with
      | [] => exact Nat.le_of_lt (hr p hp)
      | .node e es :: ms =>
        have hpe : (depth, e) = p := by simpa [outlineAll, outline] using hp
        exact Nat.le_of_eq (congrArg Prod.fst hpe.symm)
    rw [outlineAll, outlineAll, List.append_assoc, List.append_assoc] at h
    obtain ⟨hcd, hcs⟩ := outline_append_inj (hnext ns hrest) (hnext ks hrest') h
    obtain ⟨hns, hrests⟩ := outlineAll_append_inj hrest hrest' hcs
    exact ⟨by rw [hcd, hns], hrests⟩

end

/-! ## Dumps -/

variable {n k : Node}

theorem legible_of_mem_outline (h : ∀ c ∈ n.preorder, c.Legible) {depth : Nat}
    {p : Nat × Content} (hp : p ∈ outline depth n) : p.2.Legible := by
  apply h
  rw [← map_snd_outline depth]
  exact List.mem_map_of_mem hp

/-- Cutting a dump at its line feeds gives the lines of the outline. -/
theorem splitOn_dump (h : ∀ c ∈ n.preorder, c.Legible) :
    n.dump.units.splitOn (unit '\n') = (outline 0 n).map fun p => (dumpLine p.1 p.2).units := by
  have hne : (outline 0 n).map (fun p => (dumpLine p.1 p.2).units) ≠ [] := by
    obtain ⟨c, cs⟩ := n
    simp [outline]
  have hline : ∀ l ∈ (outline 0 n).map fun p => (dumpLine p.1 p.2).units, unit '\n' ∉ l := by
    intro l hl
    obtain ⟨p, hp, rfl⟩ := List.mem_map.1 hl
    rw [units_dumpLine, List.mem_append, not_or]
    refine ⟨fun hin => ?_, (legible_of_mem_outline h hp).not_mem_line⟩
    exact absurd (List.eq_of_mem_replicate hin) (by decide)
  rw [dump, Text.intercalate, dumpLines_eq, List.map_map]
  exact List.splitOn_intercalate (unit '\n') hline hne

theorem map_dumpLine_inj {ps qs : List (Nat × Content)} (hp : ∀ p ∈ ps, p.2.Legible)
    (hq : ∀ q ∈ qs, q.2.Legible) (h : (ps.map fun p => (dumpLine p.1 p.2).units) =
      qs.map fun q => (dumpLine q.1 q.2).units) : ps = qs := by
  induction ps generalizing qs with
  | nil => exact (List.map_eq_nil_iff.1 h.symm).symm
  | cons p ps ih =>
    cases qs with
    | nil => simp at h
    | cons q qs =>
      rw [List.map_cons, List.map_cons, List.cons.injEq] at h
      rw [List.forall_mem_cons] at hp hq
      obtain ⟨hdepth, hcontent⟩ := dumpLine_inj hp.1 hq.1 h.1
      rw [ih hp.2 hq.2 h.2, Prod.ext hdepth hcontent]

/-- **A dump determines its tree**, if all its nodes can be told from their lines. -/
theorem dump_inj (hn : ∀ c ∈ n.preorder, c.Legible) (hk : ∀ c ∈ k.preorder, c.Legible)
    (h : n.dump = k.dump) : n = k := by
  have hlines := splitOn_dump hn
  rw [h, splitOn_dump hk] at hlines
  have houtline : outline 0 n = outline 0 k :=
    (map_dumpLine_inj (fun _ => legible_of_mem_outline hk) (fun _ => legible_of_mem_outline hn)
      hlines).symm
  have hnil : ∀ p ∈ ([] : List (Nat × Content)).head?, p.1 ≤ 0 := by simp
  exact (outline_append_inj hnil hnil (by rw [houtline])).1

end Node

theorem Tree.mem_preorder_subtree {t : Tree} {id : Nat} (h : id < t.size) {c : Content} :
    c ∈ (t.subtree id).preorder ↔ ∃ x ∈ t.preOrder id, t.content x = c := by
  rw [Rose.preorder, ← t.map_subtree_preOrder h, List.map_map, List.mem_map]
  rfl

/-- **Subtrees of equal dumps are identical**: so are their descriptions. It is enough that kinds
and labels have no line feed in them, and that no kind starts with a space or has a colon with a
space behind it. -/
theorem isomorphic_of_dump_eq (t u : Tree) : ∀ a < t.size, ∀ b < u.size,
    (∀ x ∈ t.preOrder a, (t.content x).Legible) → (∀ y ∈ u.preOrder b, (u.content y).Legible) →
    Node.dump (t.subtree a) = Node.dump (u.subtree b) →
    t.isomorphic a u b = true ∧ (t.subtree a).toSpec = (u.subtree b).toSpec := by
  intro a ha b hb ht hu h
  have hlegible : ∀ {v : Tree} {id : Nat}, id < v.size →
      (∀ x ∈ v.preOrder id, (v.content x).Legible) →
      ∀ c ∈ (v.subtree id).preorder, c.Legible := by
    intro v id hid hv c hc
    obtain ⟨x, hx, rfl⟩ := (Tree.mem_preorder_subtree hid).1 hc
    exact hv x hx
  have hsub := Node.dump_inj (hlegible ha ht) (hlegible hb hu) h
  exact ⟨(Tree.isomorphic_iff ha hb).2 hsub, congrArg Node.toSpec hsub⟩

/-- Kinds that end in a colon, labels that start with one or hold one. -/
def colonTree : Tree :=
  .ofNode (.node ⟨"object:", ""⟩ [.node ⟨"pair:", ": x"⟩ [.node ⟨"key", "a: b"⟩ []],
    .node ⟨"pair:", " "⟩ [], .node ⟨"pair", ""⟩ []])

/-- The same below a root. -/
def nestedColonTree : Tree :=
  .ofNode (.node ⟨"program", ""⟩ [colonTree.node])

theorem isomorphic_of_dump_eq_colons :
    (∀ x ∈ nestedColonTree.preOrder 1, (nestedColonTree.content x).Legible) ∧
    (∀ y ∈ colonTree.preOrder Tree.root, (colonTree.content y).Legible) ∧
    Node.dump (nestedColonTree.subtree 1) = Node.dump (colonTree.subtree Tree.root) ∧
    nestedColonTree.isomorphic 1 colonTree Tree.root = true ∧
    (nestedColonTree.subtree 1).toSpec = (colonTree.subtree Tree.root).toSpec := by
  have hnested : ∀ x ∈ nestedColonTree.preOrder 1, (nestedColonTree.content x).Legible := by
    decide +kernel
  have hcolon : ∀ y ∈ colonTree.preOrder Tree.root, (colonTree.content y).Legible := by
    decide +kernel
  have hdump : Node.dump (nestedColonTree.subtree 1) = Node.dump (colonTree.subtree Tree.root) := by
    decide +kernel
  exact ⟨hnested, hcolon, hdump, isomorphic_of_dump_eq nestedColonTree colonTree 1 (by decide)
    Tree.root (by decide) hnested hcolon hdump⟩

/-- A colon with a space behind it in a kind looks like the end of the kind. -/
example : Node.dump (.node ⟨"a: b", ""⟩ []) = Node.dump (.node ⟨"a", "b"⟩ []) := by
  decide +kernel

end TreeMerge
