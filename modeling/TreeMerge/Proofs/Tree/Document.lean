import TreeMerge.Proofs.Json.ReadBack
import TreeMerge.Proofs.Text.Encoded
import TreeMerge.Proofs.Tree.Layout
import TreeMerge.Render.Fence
import TreeMerge.Tree.Format

/-!
# Tree documents are read back

The document of a tree is the text of an object with at most three members, so it reads back as the
tree, whether or not it was trimmed and a line feed was put behind it. It is kept by bytes, since a
surrogate that stands alone is written as an escape.

* `Node.members` : what the object of a node holds;
* `Node.plain_toJson`, `Spec.ofJson?_toJson` : the object of a tree, by induction on the tree;
* `Text.trimUnits_of_ends`, `Tree.stripFences_document` : a document is neither blank nor fenced;
* `Json.encodeUnits_write`, `Tree.encoded_document` : bytes keep a document;
* `Tree.ofDocument?_document` : reading a document, with blank space behind it.
-/

namespace TreeMerge

open Text (unit)

/-! ## Objects of nodes -/

/-- The members of the object of a node: its kind, its label unless it is empty, and its children if
it has any. -/
def Node.members (c : Content) (cs : List Node) : List (Text × Json) :=
  ("type", .str c.kind) ::
    (Json.member "label" (if c.label = "" then none else some (.str c.label)) ++
      Json.member "children" (if cs = [] then none else some (.arr (cs.map Node.toJson))))

theorem Spec.toJsonAll_toSpecAll (ns : List Node) :
    Spec.toJsonAll (Node.toSpecAll ns) = ns.map Node.toJson := by
  induction ns with
  | nil => rfl
  | cons n ns ih =>
    rw [Node.toSpecAll, Spec.toJsonAll, ih]
    rfl

theorem Node.toJson_node (c : Content) (cs : List Node) :
    Node.toJson (.node c cs) = .obj (Node.members c cs) := by
  rw [Node.toJson, Node.toSpec, Spec.toJson, Spec.toJsonAll_toSpecAll, Node.members]
  by_cases hl : c.label = "" <;> cases cs <;> simp [hl, Node.toSpecAll]

namespace Node

variable (c : Content) (cs : List Node)

theorem get?_members_type : Table.get? (members c cs) "type" = some (.str c.kind) := by
  rw [members, Table.get?_cons, if_pos rfl]

theorem get?_members_label : Table.get? (members c cs) "label" =
    if c.label = "" then none else some (.str c.label) := by
  by_cases hl : c.label = "" <;> by_cases hc : cs = [] <;> simp [members, hl, hc, Table.get?_cons]

theorem childrenOf?_members : Spec.childrenOf? (members c cs) =
    if cs = [] then .ok none else (Spec.itemsOf? 0 (cs.map toJson)).map some := by
  by_cases hl : c.label = "" <;> by_cases hc : cs = [] <;>
    simp [members, hl, hc, Spec.childrenOf?, Spec.listOf?]

/-- The keys of a node object, as far as they are used. -/
theorem keys_members : ((members c cs).map Prod.fst).Sublist Spec.keys := by
  by_cases hl : c.label = "" <;> by_cases hc : cs = [] <;> simp [members, hl, hc, Spec.keys]

theorem unknownKeys_members : Check.unknownKeys Spec.keys (members c cs) = [] := by
  by_cases hl : c.label = "" <;> by_cases hc : cs = [] <;>
    simp [members, hl, hc, Check.unknownKeys, Spec.keys]

/-- The keys of a node object are distinct, and none is an array index. -/
theorem keepsOrder_members : Json.KeepsOrder (members c cs) := by
  have hkeys : Spec.keys.Nodup ∧ ∀ key ∈ Spec.keys, Json.indexOf? key = none := by decide
  refine ⟨(keys_members c cs).nodup hkeys.1, fun m hm => hkeys.2 m.1 ?_⟩
  exact (keys_members c cs).subset (List.mem_map_of_mem hm)

end Node

mutual

theorem Node.plain_toJson : ∀ n : Node, (Node.toJson n).Plain
  | .node c cs => by
    have hcs := Node.plainAll_toJson cs
    rw [Node.toJson_node]
    refine ⟨Node.keepsOrder_members c cs, ?_⟩
    by_cases hl : c.label = "" <;> by_cases hc : cs = [] <;>
      simp [Node.members, hl, hc, Json.PlainMembers, Json.Plain, hcs]

theorem Node.plainAll_toJson : ∀ ns : List Node, Json.PlainAll (ns.map Node.toJson)
  | [] => trivial
  | n :: ns => ⟨Node.plain_toJson n, Node.plainAll_toJson ns⟩

end

theorem Spec.kindOf_str {s : Text} (h : s ≠ "") : Spec.kindOf (some (.str s)) = .ok s := by
  simp [Spec.kindOf, Check.nonEmpty, h]

mutual

/-- The object of a tree describes it, if no kind is empty. -/
theorem Spec.ofJson?_toJson : ∀ n : Node, (∀ m ∈ n.subtrees, Node.kind m ≠ "") →
    Spec.ofJson? (Node.toJson n) = .ok (Node.toSpec n)
  | .node c cs, h => by
    have hkind : c.kind ≠ "" := h _ List.mem_cons_self
    have hcs := Spec.itemsOf?_toJson cs 0 fun m hm => h m (List.mem_cons_of_mem _ hm)
    rw [Node.toJson_node, Spec.ofJson?, Node.get?_members_type, Node.get?_members_label,
      Node.childrenOf?_members, hcs, Node.unknownKeys_members, Spec.kindOf_str hkind, Node.toSpec]
    by_cases hl : c.label = "" <;> cases cs <;> simp only [hl] <;> rfl

theorem Spec.itemsOf?_toJson : ∀ (ns : List Node) (index : Nat),
    (∀ m ∈ Rose.subtreesAll ns, Node.kind m ≠ "") →
    Spec.itemsOf? index (ns.map Node.toJson) = .ok (Node.toSpecAll ns)
  | [], _, _ => rfl
  | n :: ns, index, h => by
    have hn := Spec.ofJson?_toJson n fun m hm => h m (List.mem_append_left _ hm)
    have hns := Spec.itemsOf?_toJson ns (index + 1) fun m hm => h m (List.mem_append_right _ hm)
    rw [List.map_cons, Spec.itemsOf?, hn, hns]
    rfl

end

/-! ## Texts of objects -/

namespace Json

mutual

/-- The text behind a value is not looked at when the value is written. -/
theorem write_append (style : Style) : ∀ (j : Json) (depth : Nat) (rest : List UInt16),
    j.write style depth rest = j.write style depth [] ++ rest
  | .null, _, _ => rfl
  | .bool b, _, _ => by cases b <;> rfl
  | .num n, _, _ => by simp [write]
  | .str s, _, _ => by simp [write]
  | .arr [], _, _ => rfl
  | .arr (x :: xs), depth, rest => by
    rw [write, write, write_append style x, writeItems_append style xs,
      write_append style x _ (writeItems ..), writeItems_append style xs _ (_ ++ [unit ']'])]
    simp
  | .obj [], _, _ => rfl
  | .obj ((key, v) :: ms), depth, rest => by
    rw [write, write, write_append style v, writeMembers_append style ms,
      write_append style v _ (writeMembers ..), writeMembers_append style ms _ (_ ++ [unit '\x7d'])]
    simp

theorem writeItems_append (style : Style) : ∀ (xs : List Json) (depth : Nat) (rest : List UInt16),
    writeItems style depth xs rest = writeItems style depth xs [] ++ rest
  | [], _, _ => rfl
  | x :: xs, depth, rest => by
    rw [writeItems, writeItems, write_append style x, writeItems_append style xs,
      write_append style x _ (writeItems ..)]
    simp

theorem writeMembers_append (style : Style) : ∀ (ms : List (Text × Json)) (depth : Nat)
    (rest : List UInt16), writeMembers style depth ms rest = writeMembers style depth ms [] ++ rest
  | [], _, _ => rfl
  | (key, v) :: ms, depth, rest => by
    rw [writeMembers, writeMembers, write_append style v, writeMembers_append style ms,
      write_append style v _ (writeMembers ..)]
    simp

end

/-- An object is written between braces. -/
theorem exists_write_obj (style : Style) (ms : List (Text × Json)) :
    ∃ body, (Json.obj ms).write style 0 [] = unit '\x7b' :: (body ++ [unit '\x7d']) := by
  cases ms with
  | nil => exact ⟨[], rfl⟩
  | cons m ms =>
    obtain ⟨key, v⟩ := m
    rw [write, write_append style v, writeMembers_append style ms]
    exact ⟨style.lineBreak 1 ++ quote key ++ style.colon ++ v.write style 1 [] ++
      writeMembers style 1 ms [] ++ style.lineBreak 0, by simp⟩

end Json

/-! ## Bytes -/

theorem any_isSurrogate_space {us : List UInt16} (h : us.all Reader.isSpace = true) :
    us.any Text.isSurrogate = false := by
  rw [List.any_eq_false]
  intro u hu
  have hspace := List.all_eq_true.1 h u hu
  simp only [Reader.isSpace, Bool.or_eq_true, beq_iff_eq] at hspace
  rcases hspace with ((rfl | rfl) | rfl) | rfl <;> decide

theorem isSurrogate_hexDigit : ∀ n < 16, Text.isSurrogate (Text.hexDigit n) = false := by
  decide

theorem any_isSurrogate_escapeUnit (u : UInt16) :
    (escapeUnit u).any Text.isSurrogate = false := by
  have hslash : Text.isSurrogate (unit '\\') = false := by decide
  have hletter : Text.isSurrogate (unit 'u') = false := by decide
  have hu : u.toNat < 65536 := u.toNat_lt
  unfold escapeUnit
  split
  · next e he => simp [hslash, (Reader.escapeLetter?_eq_some he).2]
  split
  · simp only [Text.numberEscape, List.any_cons, List.any_nil, Bool.or_eq_false_iff]
    exact ⟨hslash, hletter, isSurrogate_hexDigit _ (by omega), isSurrogate_hexDigit _ (by omega),
      isSurrogate_hexDigit _ (by omega), isSurrogate_hexDigit _ (by omega), trivial⟩
  · next h =>
    simp only [Bool.or_eq_true, not_or, Bool.not_eq_true] at h
    simp [h.2]

theorem encodeUnits_escapeWith (us rest : List UInt16) :
    Text.encodeUnits (Text.escapeWith escapeUnit us ++ rest) =
      Text.escapeWith escapeUnit us ++ Text.encodeUnits rest := by
  fun_induction Text.escapeWith escapeUnit us with
  | case1 => rfl
  | case2 u => exact Text.encodeUnits_append (any_isSurrogate_escapeUnit u) rest
  | case3 u v us hpair ih =>
    rw [Bool.and_eq_true] at hpair
    rw [List.cons_append, List.cons_append, Text.encodeUnits_pair hpair.1 hpair.2, ih,
      List.cons_append, List.cons_append]
  | case4 u v us hpair ih =>
    rw [List.append_assoc, Text.encodeUnits_append (any_isSurrogate_escapeUnit u), ih,
      List.append_assoc]

theorem encodeUnits_quote (t : Text) (rest : List UInt16) :
    Text.encodeUnits (quote t ++ rest) = quote t ++ Text.encodeUnits rest := by
  rw [quote, List.cons_append, Text.encodeUnits_cons rfl, List.append_assoc,
    encodeUnits_escapeWith, List.singleton_append, Text.encodeUnits_cons rfl]
  simp

namespace Json

section

variable {style : Style} (hs : style.Spaced)
include hs

theorem encodeUnits_lineBreak (depth : Nat) (rest : List UInt16) :
    Text.encodeUnits (style.lineBreak depth ++ rest) =
      style.lineBreak depth ++ Text.encodeUnits rest :=
  Text.encodeUnits_append (any_isSurrogate_space (hs.lineBreak depth)) rest

theorem encodeUnits_colon (rest : List UInt16) :
    Text.encodeUnits (style.colon ++ rest) = style.colon ++ Text.encodeUnits rest := by
  obtain ⟨pad, hcolon, hpad⟩ := hs.colon
  rw [hcolon, List.cons_append, Text.encodeUnits_cons rfl,
    Text.encodeUnits_append (any_isSurrogate_space hpad)]
  rfl

mutual

/-- Bytes keep a written value. -/
theorem encodeUnits_write : ∀ (j : Json), j.Plain → ∀ (depth : Nat) (rest : List UInt16),
    Text.encodeUnits (j.write style depth rest) = j.write style depth (Text.encodeUnits rest)
  | .null, _, _, rest => Text.encodeUnits_append rfl rest
  | .bool true, _, _, rest => Text.encodeUnits_append rfl rest
  | .bool false, _, _, rest => Text.encodeUnits_append rfl rest
  | .num _, h, _, _ => h.elim
  | .str s, _, _, rest => encodeUnits_quote s rest
  | .arr [], _, _, rest => by
    rw [write, write, Text.encodeUnits_cons rfl, Text.encodeUnits_cons rfl]
  | .arr (x :: xs), h, depth, rest => by
    rw [write, write, Text.encodeUnits_cons rfl, encodeUnits_lineBreak hs,
      encodeUnits_write x h.1, encodeUnits_writeItems xs h.2, encodeUnits_lineBreak hs,
      Text.encodeUnits_cons rfl]
  | .obj [], _, _, rest => by
    rw [write, write, Text.encodeUnits_cons rfl, Text.encodeUnits_cons rfl]
  | .obj ((key, v) :: ms), h, depth, rest => by
    rw [write, write, Text.encodeUnits_cons rfl, encodeUnits_lineBreak hs, encodeUnits_quote,
      encodeUnits_colon hs, encodeUnits_write v h.2.1, encodeUnits_writeMembers ms h.2.2,
      encodeUnits_lineBreak hs, Text.encodeUnits_cons rfl]

theorem encodeUnits_writeItems : ∀ (xs : List Json), PlainAll xs → ∀ (depth : Nat)
    (rest : List UInt16), Text.encodeUnits (writeItems style depth xs rest) =
      writeItems style depth xs (Text.encodeUnits rest)
  | [], _, _, _ => rfl
  | x :: xs, h, depth, rest => by
    rw [writeItems, writeItems, Text.encodeUnits_cons rfl, encodeUnits_lineBreak hs,
      encodeUnits_write x h.1, encodeUnits_writeItems xs h.2]

theorem encodeUnits_writeMembers : ∀ (ms : List (Text × Json)), PlainMembers ms →
    ∀ (depth : Nat) (rest : List UInt16),
    Text.encodeUnits (writeMembers style depth ms rest) =
      writeMembers style depth ms (Text.encodeUnits rest)
  | [], _, _, _ => rfl
  | (key, v) :: ms, h, depth, rest => by
    rw [writeMembers, writeMembers, Text.encodeUnits_cons rfl, encodeUnits_lineBreak hs,
      encodeUnits_quote, encodeUnits_colon hs, encodeUnits_write v h.1,
      encodeUnits_writeMembers ms h.2]

end

end

end Json

/-! ## Documents -/

/-- A text that starts and ends with other units than blanks is trimmed already. -/
theorem Text.trimUnits_of_ends {u v : UInt16} (hu : isBlank u = false) (hv : isBlank v = false)
    (body : List UInt16) : trimUnits (u :: (body ++ [v])) = u :: (body ++ [v]) := by
  rw [trimUnits, trimLeft, List.dropWhile_cons_of_neg (by simp [hu]), trimRight,
    ← List.cons_append, List.reverse_append, List.reverse_singleton, List.singleton_append,
    List.dropWhile_cons_of_neg (by simp [hv]), List.reverse_cons, List.reverse_reverse]

namespace Tree

theorem units_document (t : Tree) :
    t.document.units = (Node.toJson t.node).write .indented 0 [] :=
  rfl

/-- Bytes keep a document, also with a line feed behind it. -/
theorem encoded_document (t : Tree) : (t.document ++ "\n").encoded = t.document ++ "\n" := by
  refine Text.ext ?_
  have hwrite := Json.encodeUnits_write Style.spaced_indented _ (Node.plain_toJson t.node) 0
    (Text.units "\n")
  rw [Text.encoded, Text.units_append, units_document, ← Json.write_append]
  exact hwrite

theorem exists_document (t : Tree) :
    ∃ body, t.document.units = unit '\x7b' :: (body ++ [unit '\x7d']) := by
  rw [units_document]
  generalize t.node = n
  obtain ⟨c, cs⟩ := n
  rw [Node.toJson_node]
  exact Json.exists_write_obj _ _

/-- There is no fence around a document, and no blank space. -/
theorem stripFences_document (t : Tree) : stripFences t.document = t.document := by
  obtain ⟨body, hbody⟩ := t.exists_document
  have htrim : Text.trimUnits t.document.units = t.document.units := by
    rw [hbody]
    exact Text.trimUnits_of_ends rfl rfl body
  have hfence : Text.after? fence t.document.units = none := by
    rw [hbody]
    rfl
  rw [stripFences, stripFenceUnits, htrim]
  simp only [hfence]

/-- Every subtree of the tree as a value is that of a node. -/
theorem exists_subtree_eq {t : Tree} {m : Node} (h : m ∈ t.node.subtrees) :
    ∃ id < t.size, t.subtree id = m := by
  rw [← Node.map_node_layout none 0 0, ← t.laidOut, List.mem_map] at h
  obtain ⟨e, he, hm⟩ := h
  obtain ⟨id, hid⟩ := List.mem_iff_getElem?.1 he
  refine ⟨id, ?_, ?_⟩
  · rw [size, ← Array.length_toList]
    exact (List.getElem?_eq_some_iff.1 hid).1
  · rw [subtree, entry_eq, hid, Option.getD_some, hm]

/-- **A document reads back as its tree**, with any blank space behind it. -/
theorem ofDocument?_document {t : Tree} (h : ∀ id < t.size, t.kind id ≠ "") (pad : Text)
    (hpad : pad.units.all Reader.isSpace = true) :
    ofDocument? (t.document ++ pad) = .ok (some t) := by
  have hkinds : ∀ m ∈ t.node.subtrees, Node.kind m ≠ "" := by
    intro m hm
    obtain ⟨id, hid, hm⟩ := exists_subtree_eq hm
    rw [← hm]
    exact h id hid
  have hparse : Json.parse? (t.document ++ pad) = some (Node.toJson t.node) := by
    refine Json.parse?_of_write Style.spaced_indented (Node.plain_toJson _) hpad ?_
    rw [Text.units_append, units_document, ← Json.write_append]
  have hblank : Text.isBlankText (t.document ++ pad) = false := by
    obtain ⟨body, hbody⟩ := t.exists_document
    rw [Text.isBlankText, Text.units_append, hbody]
    rfl
  rw [ofDocument?, hblank, if_neg Bool.false_ne_true, hparse]
  simp only [Spec.ofJson?_toJson t.node hkinds, Spec.toNode_toSpec, ofNode_node]

end Tree

end TreeMerge
