import TreeMerge.Fault
import TreeMerge.Proofs.Json.Acceptance
import TreeMerge.Proofs.Matching.Links
import TreeMerge.Proofs.Tree.Normal
import TreeMerge.Tree.Format

/-!
# Which texts are tree documents

A value describes a tree by what it says and not by the order in which it is checked: of a repeated
key the last value counts. Reading accepts the JSON texts whose values describe trees, and no
others.

* `Describes` : the tree that a value describes;
* `Spec.ofJson?_obj`, `Spec.itemsOf?_cons` : what the checks of objects and arrays ask for;
* `readAsDescribed` : reading a value gives what it describes, by recursion on the value;
* `Tree.document_grammar` : which texts are read, and as what.
-/

namespace TreeMerge

open Json (settled settledAll)

/-! ## What describes a tree -/

def Json.lastOf (ms : List (Text × Json)) (key : Text) : Option Json :=
  Table.get? ms.reverse key

/-- An object that says of a node what it has to say: no keys but those of nodes, a kind that is not
empty, and a text for the label, if one is given. -/
structure Names (ms : List (Text × Json)) (kind : Text) (label : Option Text) : Prop where
  known : ∀ m ∈ ms, m.1 = "type" ∨ m.1 = "label" ∨ m.1 = "children"
  kindGiven : Json.lastOf ms "type" = some (.str kind)
  nonempty : kind ≠ ""
  labelGiven : Json.lastOf ms "label" = label.map .str

mutual

/-- The tree that a value describes. -/
inductive Describes : Json → Spec → Prop
  | leaf {ms : List (Text × Json)} {kind : Text} {label : Option Text}
      (names : Names ms kind label) (unlisted : Json.lastOf ms "children" = none) :
      Describes (.obj ms) (.node ⟨kind, label, false⟩ [])
  | inner {ms : List (Text × Json)} {kind : Text} {label : Option Text} {xs : List Json}
      {specs : List Spec} (names : Names ms kind label)
      (listed : Json.lastOf ms "children" = some (.arr xs)) (children : DescribesAll xs specs) :
      Describes (.obj ms) (.node ⟨kind, label, true⟩ specs)

/-- The trees that the items of an array describe. -/
inductive DescribesAll : List Json → List Spec → Prop
  | nil : DescribesAll [] []
  | cons {x : Json} {xs : List Json} {spec : Spec} {specs : List Spec}
      (first : Describes x spec) (rest : DescribesAll xs specs) :
      DescribesAll (x :: xs) (spec :: specs)

end

/-! ## Checks -/

theorem Except.exists_of_map_eq_ok {ε α β : Type} {x : Except ε α} {f : α → β} {b : β}
    (h : x.map f = .ok b) : ∃ a, x = .ok a ∧ f a = b := by
  cases x with
  | error e => cases h
  | ok a => exact ⟨a, rfl, Except.ok.inj h⟩

namespace Spec

theorem kindOf_eq_ok {j : Option Json} {kind : Text} :
    kindOf j = .ok kind ↔ j = some (.str kind) ∧ kind ≠ "" := by
  constructor
  · intro h
    unfold kindOf at h
    split at h
    · next s hs =>
      obtain rfl := Except.ok.inj h
      refine ⟨rfl, ?_⟩
      rintro rfl
      cases hs
    · cases h
    · cases h
  · rintro ⟨rfl, hne⟩
    simp [kindOf, Check.nonEmpty, hne]

theorem labelOf_eq_ok {j : Option Json} {label : Option Text} :
    labelOf j = .ok label ↔ j = label.map .str := by
  cases j with
  | none => cases label <;> simp [labelOf]
  | some j => cases label <;> cases j <;> simp [labelOf]

theorem under_eq_ok {α : Type} {key : Text} {r : Except Issue α} {a : α} :
    under key r = .ok a ↔ r = .ok a := by
  cases r <;> simp [under, Except.mapError]

theorem childrenOf?_eq (ms : List (Text × Json)) : childrenOf? ms =
    match Table.get? ms "children" with
    | none => .ok none
    | some v => (listOf? v).map some := by
  induction ms with
  | nil => rfl
  | cons m ms ih =>
    obtain ⟨key, v⟩ := m
    rw [childrenOf?, Table.get?_cons, ih]
    by_cases hkey : key = "children"
    · rw [if_pos hkey, if_pos hkey.symm]
    · rw [if_neg hkey, if_neg (Ne.symm hkey)]

end Spec

theorem Check.unknownKeys_eq_nil {names : List Text} {ms : List (Text × Json)} :
    unknownKeys names ms = [] ↔ ∀ key ∈ ms.map Prod.fst, key ∈ names := by
  unfold unknownKeys
  split
  · next h =>
    rw [List.filter_eq_nil_iff] at h
    simpa using h
  · next h =>
    simp only [List.cons_ne_nil, false_iff]
    intro hall
    apply h
    rw [List.filter_eq_nil_iff]
    simpa using hall

namespace Spec

theorem ofJson?_obj {ms : List (Text × Json)} {spec : Spec} : ofJson? (.obj ms) = .ok spec ↔
    ∃ kind label children, Table.get? ms "type" = some (.str kind) ∧ kind ≠ "" ∧
      Table.get? ms "label" = label.map .str ∧ childrenOf? ms = .ok children ∧
      (∀ key ∈ ms.map Prod.fst, key ∈ keys) ∧
      spec = .node ⟨kind, label, children.isSome⟩ (children.getD []) := by
  rw [ofJson?]
  constructor
  · intro h
    obtain ⟨kind, hkind, h⟩ := Except.exists_of_bind_eq_ok h
    obtain ⟨label, hlabel, h⟩ := Except.exists_of_bind_eq_ok h
    obtain ⟨children, hchildren, h⟩ := Except.exists_of_bind_eq_ok h
    obtain ⟨htype, hne⟩ := kindOf_eq_ok.1 (under_eq_ok.1 hkind)
    refine ⟨kind, label, children, htype, hne, labelOf_eq_ok.1 (under_eq_ok.1 hlabel),
      under_eq_ok.1 hchildren, ?_⟩
    split at h
    · cases h
    · next hknown => exact ⟨Check.unknownKeys_eq_nil.1 hknown, (Except.ok.inj h).symm⟩
  · rintro ⟨kind, label, children, htype, hne, hlabel, hchildren, hknown, rfl⟩
    rw [bind_of_eq_ok (under_eq_ok.2 (kindOf_eq_ok.2 ⟨htype, hne⟩)),
      bind_of_eq_ok (under_eq_ok.2 (labelOf_eq_ok.2 hlabel)),
      bind_of_eq_ok (under_eq_ok.2 hchildren)]
    simp only [Check.unknownKeys_eq_nil.2 hknown]

theorem itemsOf?_cons {index : Nat} {x : Json} {xs : List Json} {specs : List Spec} :
    itemsOf? index (x :: xs) = .ok specs ↔
      ∃ spec rest, ofJson? x = .ok spec ∧ itemsOf? (index + 1) xs = .ok rest ∧
        specs = spec :: rest := by
  rw [itemsOf?]
  constructor
  · intro h
    obtain ⟨spec, hspec, h⟩ := Except.exists_of_bind_eq_ok h
    obtain ⟨rest, hrest, h⟩ := Except.exists_of_bind_eq_ok h
    exact ⟨spec, rest, under_eq_ok.1 hspec, hrest, (Except.ok.inj h).symm⟩
  · rintro ⟨spec, rest, hspec, hrest, rfl⟩
    rw [bind_of_eq_ok (under_eq_ok.2 hspec), bind_of_eq_ok hrest]

end Spec

/-! ## Reading is describing -/

/-- Reading the settled value gives what the value describes, as a node and as a list of nodes. -/
structure ReadAsDescribed (raw : Json) : Prop where
  node : ∀ {spec}, Spec.ofJson? raw.settled = .ok spec ↔ Describes raw spec
  list : ∀ {specs}, Spec.listOf? raw.settled = .ok specs ↔
    ∃ xs, raw = .arr xs ∧ DescribesAll xs specs

theorem readAsDescribed_scalar {raw : Json} (hsettled : raw.settled = raw)
    (hobj : ∀ ms, raw ≠ .obj ms) (harr : ∀ xs, raw ≠ .arr xs) : ReadAsDescribed raw := by
  constructor
  · intro spec
    rw [hsettled]
    constructor
    · intro h
      cases raw <;> first | cases h | exact absurd rfl (hobj _)
    · intro h
      cases h <;> exact absurd rfl (hobj _)
  · intro specs
    rw [hsettled]
    constructor
    · intro h
      cases raw <;> first | cases h | exact absurd rfl (harr _)
    · rintro ⟨xs, rfl, -⟩
      exact absurd rfl (harr xs)

theorem readAsDescribed_array {xs : List Json} (ih : ∀ {index specs},
    Spec.itemsOf? index (settledAll xs) = .ok specs ↔ DescribesAll xs specs) :
    ReadAsDescribed (.arr xs) := by
  constructor
  · intro spec
    rw [settled]
    constructor
    · intro h
      cases h
    · intro h
      cases h
  · intro specs
    rw [settled, Spec.listOf?, ih]
    simp

theorem Json.mem_of_lastOf {ms : List (Text × Json)} {key : Text} {v : Json}
    (h : lastOf ms key = some v) : (key, v) ∈ ms :=
  List.mem_reverse.1 (Table.mem_of_get? h)

theorem Json.map_settled_eq {j : Option Json} {s : Option Text} :
    j.map settled = s.map .str ↔ j = s.map .str := by
  cases j with
  | none => cases s <;> simp
  | some j => cases s <;> cases j <;> simp [settled, ofMembers]

/-- What an object has to be is the same before and after it is settled. -/
theorem names_iff {ms : List (Text × Json)} {kind : Text} {label : Option Text} :
    Names ms kind label ↔
      Table.get? (settled (.obj ms)).members "type" = some (.str kind) ∧ kind ≠ "" ∧
      Table.get? (settled (.obj ms)).members "label" = label.map .str ∧
      ∀ key ∈ (settled (.obj ms)).members.map Prod.fst, key ∈ Spec.keys := by
  have hkind : (Json.lastOf ms "type").map settled = some (.str kind) ↔
      Json.lastOf ms "type" = some (.str kind) := Json.map_settled_eq (s := some kind)
  have hlabel : (Json.lastOf ms "label").map settled = label.map .str ↔
      Json.lastOf ms "label" = label.map .str := Json.map_settled_eq
  have hkeys : (∀ key ∈ (settled (.obj ms)).members.map Prod.fst, key ∈ Spec.keys) ↔
      ∀ m ∈ ms, m.1 = "type" ∨ m.1 = "label" ∨ m.1 = "children" := by
    simp only [Json.mem_keys_settled, List.forall_mem_map, Spec.keys, List.mem_cons,
      List.not_mem_nil, or_false]
  rw [Json.get?_members_settled, Json.get?_members_settled, hkeys]
  constructor
  · rintro ⟨hknown, hk, hne, hl⟩
    exact ⟨hkind.2 hk, hne, hlabel.2 hl, hknown⟩
  · rintro ⟨hk, hne, hl, hknown⟩
    exact ⟨hknown, hkind.1 hk, hne, hlabel.1 hl⟩

theorem readAsDescribed_object {ms : List (Text × Json)}
    (ih : ∀ m ∈ ms, ReadAsDescribed m.2) : ReadAsDescribed (.obj ms) := by
  have hchildren : Table.get? (settled (.obj ms)).members "children" =
      (Json.lastOf ms "children").map settled := Json.get?_members_settled ms "children"
  constructor
  · intro spec
    -- settling has put the members in another order and kept the last of each key only
    show Spec.ofJson? (.obj (settled (.obj ms)).members) = .ok spec ↔ _
    rw [Spec.ofJson?_obj]
    constructor
    · rintro ⟨kind, label, children, hkind, hne, hlabel, hread, hknown, rfl⟩
      have names : Names ms kind label := names_iff.2 ⟨hkind, hne, hlabel, hknown⟩
      rw [Spec.childrenOf?_eq, hchildren] at hread
      cases hlast : Json.lastOf ms "children" with
      | none =>
        rw [hlast] at hread
        obtain rfl := Except.ok.inj hread
        exact .leaf names hlast
      | some v =>
        rw [hlast] at hread
        obtain ⟨specs, hlist, rfl⟩ := Except.exists_of_map_eq_ok hread
        obtain ⟨xs, rfl, hall⟩ := (ih _ (Json.mem_of_lastOf hlast)).list.1 hlist
        exact .inner names hlast hall
    · rintro (⟨names, hlast⟩ | ⟨names, hlast, hall⟩)
      · obtain ⟨hkind, hne, hlabel, hknown⟩ := names_iff.1 names
        refine ⟨_, _, none, hkind, hne, hlabel, ?_, hknown, rfl⟩
        rw [Spec.childrenOf?_eq, hchildren, hlast]
        rfl
      · obtain ⟨hkind, hne, hlabel, hknown⟩ := names_iff.1 names
        refine ⟨_, _, some _, hkind, hne, hlabel, ?_, hknown, rfl⟩
        have hlist := (ih _ (Json.mem_of_lastOf hlast)).list.2 ⟨_, rfl, hall⟩
        rw [Spec.childrenOf?_eq, hchildren, hlast]
        show (Spec.listOf? _).map some = _
        rw [hlist]
        rfl
  · intro specs
    constructor
    · intro h
      cases h
    · rintro ⟨xs, h, -⟩
      cases h

mutual

/-- **Reading a value gives what the value describes.** -/
theorem readAsDescribed : ∀ raw : Json, ReadAsDescribed raw
  | .null => readAsDescribed_scalar rfl nofun nofun
  | .bool _ => readAsDescribed_scalar rfl nofun nofun
  | .num _ => readAsDescribed_scalar rfl nofun nofun
  | .str _ => readAsDescribed_scalar rfl nofun nofun
  | .arr xs => readAsDescribed_array fun {_ _} => itemsAsDescribed xs
  | .obj ms => readAsDescribed_object (membersAsDescribed ms)

-- for every index, since an item is refused with its place in the array
theorem itemsAsDescribed : ∀ (xs : List Json) {index : Nat} {specs : List Spec},
    Spec.itemsOf? index (settledAll xs) = .ok specs ↔ DescribesAll xs specs
  | [], index, specs => by
    constructor
    · intro h
      obtain rfl := Except.ok.inj h
      exact .nil
    · rintro ⟨⟩
      rfl
  | x :: xs, index, specs => by
    rw [settledAll, Spec.itemsOf?_cons]
    constructor
    · rintro ⟨spec, rest, hspec, hrest, rfl⟩
      exact .cons ((readAsDescribed x).node.1 hspec) ((itemsAsDescribed xs).1 hrest)
    · intro h
      cases h with
      | cons first rest =>
        exact ⟨_, _, (readAsDescribed x).node.2 first, (itemsAsDescribed xs).2 rest, rfl⟩

theorem membersAsDescribed : ∀ (ms : List (Text × Json)), ∀ m ∈ ms, ReadAsDescribed m.2
  | (_, v) :: ms, m, hm => by
    rcases List.mem_cons.1 hm with rfl | hm
    · exact readAsDescribed v
    · exact membersAsDescribed ms m hm

end

/-! ## Documents -/

/-- A JSON text is not blank, whatever counts as blank elsewhere. -/
theorem Grammar.IsText.not_blank {text : Text} {raw : Json} (h : IsText text.units raw) :
    Text.isBlankText text = false := by
  rw [← Bool.not_eq_true, Text.isBlankText, List.all_eq_true]
  intro hall
  generalize text.units = cs at h hall
  cases h with
  | padded before value after =>
    obtain ⟨c, ds, rfl, hc, -⟩ := value.exists_cons
    have hblank := hall c (by simp)
    rw [hc] at hblank
    cases hblank

/-- A tree is that of a description if it is described by what is left of the description without
empty labels and empty lists of children. -/
theorem Tree.eq_ofNode_toNode_iff {t : Tree} {spec : Spec} :
    t = .ofNode (Spec.toNode spec) ↔ Node.toSpec t.node = spec.normal := by
  constructor
  · rintro rfl
    rw [node_ofNode, Node.toSpec_toNode]
  · intro h
    apply ext_node
    rw [node_ofNode, ← Spec.toNode_toSpec t.node, h, ← Node.toSpec_toNode, Spec.toNode_toSpec]

namespace Tree

/-- A document that is not blank is read as JSON and then as a tree. -/
theorem ofDocument?_of_not_blank {text : Text} (h : Text.isBlankText text = false) :
    ofDocument? text =
      match Json.parse? text with
      | none => .error .notJson
      | some j =>
        match Spec.ofJson? j with
        | .error issue => .error (.invalid issue)
        | .ok spec => .ok (some (.ofNode (Spec.toNode spec))) := by
  have hread : ¬Text.isBlankText text = true := by simp [h]
  unfold ofDocument?
  exact if_neg hread

theorem ofDocument?_eq_none_iff {text : Text} :
    ofDocument? text = .ok none ↔ Text.isBlankText text = true := by
  cases hblank : Text.isBlankText text with
  | true => simp [ofDocument?, hblank]
  | false =>
    rw [ofDocument?_of_not_blank hblank]
    split
    · simp
    · split <;> simp

theorem ofDocument?_of_describes {text : Text} {raw : Json} {spec : Spec}
    (htext : Grammar.IsText text.units raw) (hspec : Describes raw spec) :
    ofDocument? text = .ok (some (.ofNode (Spec.toNode spec))) := by
  rw [ofDocument?_of_not_blank htext.not_blank, Json.parse?_iff.2 ⟨raw, htext, rfl⟩]
  simp only [(readAsDescribed raw).node.2 hspec]

theorem ofDocument?_eq_some_iff {text : Text} {t : Tree} :
    ofDocument? text = .ok (some t) ↔ ∃ raw spec, Grammar.IsText text.units raw ∧
      Describes raw spec ∧ Node.toSpec t.node = spec.normal := by
  constructor
  · intro h
    have hblank : Text.isBlankText text = false := by
      rw [← Bool.not_eq_true, ← ofDocument?_eq_none_iff, h]
      simp
    rw [ofDocument?_of_not_blank hblank] at h
    split at h
    · cases h
    · next j hparse =>
      obtain ⟨raw, htext, rfl⟩ := Json.parse?_iff.1 hparse
      split at h
      · cases h
      · next spec hspec =>
        have htree : t = .ofNode (Spec.toNode spec) := (Option.some.inj (Except.ok.inj h)).symm
        exact ⟨raw, spec, htext, (readAsDescribed raw).node.1 hspec, eq_ofNode_toNode_iff.1 htree⟩
  · rintro ⟨raw, spec, htext, hspec, htree⟩
    rw [ofDocument?_of_describes htext hspec, eq_ofNode_toNode_iff.2 htree]

theorem ofDocument?_eq_notJson_iff {text : Text} :
    ofDocument? text = .error .notJson ↔
      Text.isBlankText text = false ∧ ¬∃ raw, Grammar.IsText text.units raw := by
  have hparse : Json.parse? text = none ↔ ¬∃ raw, Grammar.IsText text.units raw := by
    rw [Option.eq_none_iff_forall_ne_some]
    simp only [ne_eq, Json.parse?_iff]
    constructor
    · rintro h ⟨raw, htext⟩
      exact h _ ⟨raw, htext, rfl⟩
    · rintro h j ⟨raw, htext, -⟩
      exact h ⟨raw, htext⟩
  rw [← hparse]
  cases hblank : Text.isBlankText text with
  | true => simp [ofDocument?, hblank]
  | false =>
    rw [ofDocument?_of_not_blank hblank]
    split
    · next h => simp [h]
    · next j h =>
      split <;> simp [h]

/-- A text whose value describes no tree. -/
theorem ofDocument?_eq_invalid_iff {text : Text} :
    (∃ issue, ofDocument? text = .error (.invalid issue)) ↔
      (∃ raw, Grammar.IsText text.units raw) ∧
        ¬∃ raw spec, Grammar.IsText text.units raw ∧ Describes raw spec := by
  constructor
  · rintro ⟨issue, h⟩
    constructor
    · by_contra hnone
      have hblank : Text.isBlankText text = false := by
        rw [← Bool.not_eq_true, ← ofDocument?_eq_none_iff, h]
        simp
      rw [ofDocument?_eq_notJson_iff.2 ⟨hblank, hnone⟩] at h
      cases h
    · rintro ⟨raw, spec, htext, hspec⟩
      rw [ofDocument?_of_describes htext hspec] at h
      cases h
  · rintro ⟨⟨raw, htext⟩, hnone⟩
    rw [ofDocument?_of_not_blank htext.not_blank, Json.parse?_iff.2 ⟨raw, htext, rfl⟩]
    simp only
    split
    · next issue _ => exact ⟨issue, rfl⟩
    · next spec hspec =>
      exact absurd ⟨raw, spec, htext, (readAsDescribed raw).node.1 hspec⟩ hnone

theorem ofDocument?_eq_error_iff {text : Text} : (∃ cause, ofDocument? text = .error cause) ↔
    Text.isBlankText text = false ∧
      ¬∃ raw spec, Grammar.IsText text.units raw ∧ Describes raw spec := by
  constructor
  · rintro ⟨cause, h⟩
    constructor
    · rw [← Bool.not_eq_true, ← ofDocument?_eq_none_iff, h]
      simp
    · rintro ⟨raw, spec, htext, hspec⟩
      rw [ofDocument?_of_describes htext hspec] at h
      cases h
  · rintro ⟨hblank, hnone⟩
    by_cases hjson : ∃ raw, Grammar.IsText text.units raw
    · obtain ⟨issue, h⟩ := ofDocument?_eq_invalid_iff.2 ⟨hjson, hnone⟩
      exact ⟨_, h⟩
    · exact ⟨_, ofDocument?_eq_notJson_iff.2 ⟨hblank, hjson⟩⟩

/-- **Which texts are tree documents.** A blank text is no tree. Any other text is a tree exactly
when it is JSON text whose value describes one, and the tree is described by what is left of that
description without empty labels and empty lists of children. All other texts are refused as
malformed documents: those that are no JSON text, and those whose value describes no tree. -/
theorem document_grammar (text : Text) :
    (ofDocument? text = .ok none ↔ Text.isBlankText text = true) ∧
    (∀ t, ofDocument? text = .ok (some t) ↔ ∃ raw spec, Grammar.IsText text.units raw ∧
      Describes raw spec ∧ Node.toSpec t.node = spec.normal) ∧
    ((∃ cause, ofDocument? text = .error cause ∧
        (Fault.treeFormat none cause).refusal? = some "TreeFormatError") ↔
      Text.isBlankText text = false ∧
        ¬∃ raw spec, Grammar.IsText text.units raw ∧ Describes raw spec) ∧
    (ofDocument? text = .error .notJson ↔
      Text.isBlankText text = false ∧ ¬∃ raw, Grammar.IsText text.units raw) ∧
    ((∃ issue, ofDocument? text = .error (.invalid issue)) ↔
      (∃ raw, Grammar.IsText text.units raw) ∧
        ¬∃ raw spec, Grammar.IsText text.units raw ∧ Describes raw spec) := by
  refine ⟨ofDocument?_eq_none_iff, fun _ => ofDocument?_eq_some_iff, ?_,
    ofDocument?_eq_notJson_iff, ofDocument?_eq_invalid_iff⟩
  rw [← ofDocument?_eq_error_iff]
  exact exists_congr fun cause => and_iff_left rfl

/-- A surrogate that stands alone is kept. -/
example : (ofDocument? "\x7b\"type\": \"\\ud800\"\x7d").toOption.join.map (kind · root) =
    some ⟨[0xD800]⟩ := by
  decide +kernel

end Tree

end TreeMerge
