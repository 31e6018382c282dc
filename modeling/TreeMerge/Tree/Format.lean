import TreeMerge.Json.Reader
import TreeMerge.Json.Writer
import TreeMerge.Text.Blank
import TreeMerge.Tree.Basic

/-!
# Trees as JSON documents

A node is an object with a non-empty string `type`, an optional string `label`, an optional array
`children` of nodes, and no other keys. A document that holds nothing but blanks is no tree.

* `Spec.toJson`, `Node.toJson`, `Tree.document` : writing;
* `Spec.ofJson?`, `Tree.ofDocument?` : reading.
-/

namespace TreeMerge

/-! ## Writing -/

mutual

/-- The object of a described tree, with the keys that the description gives. -/
def Spec.toJson : Spec → Json
  | .node d cs =>
    .obj (("type", .str d.kind) :: (Json.member "label" (d.label.map .str) ++
      Json.member "children"
        (if d.listsChildren || !cs.isEmpty then some (.arr (Spec.toJsonAll cs)) else none)))

/-- The objects of a list of described trees. -/
def Spec.toJsonAll : List Spec → List Json
  | [] => []
  | c :: cs => Spec.toJson c :: Spec.toJsonAll cs

end

/-- The object of a tree, without empty labels and empty lists of children. -/
def Node.toJson (n : Node) : Json :=
  Spec.toJson (Node.toSpec n)

/-- The document of a tree, one item a line. -/
def Tree.document (t : Tree) : Text :=
  (Node.toJson t.node).pretty

/-! ## Reading -/

namespace Spec

/-- The kind: a string that is not empty. -/
def kindOf (j : Option Json) : Except Issue Text :=
  match Check.nonEmpty j, j with
  | [], some (.str s) => .ok s
  | [], _ => .error (.here .required)
  | issue :: _, _ => .error issue

/-- The label: a string, if it is given. -/
def labelOf : Option Json → Except Issue (Option Text)
  | none => .ok none
  | some (.str s) => .ok (some s)
  | some j => .error (.here (.wrongKind "string" j.kind))

/-- Report a fault of the value under `key`. -/
def under {α : Type} (key : Text) (r : Except Issue α) : Except Issue α :=
  r.mapError (Issue.under key)

/-- The keys of a node object. -/
def keys : List Text :=
  ["type", "label", "children"]

mutual

/-- The described tree of a node object, or the first thing that is wrong with it: `type` is looked
at first, then `label`, then `children` one after the other, then unknown keys. -/
def ofJson? : Json → Except Issue Spec
  | .obj ms => do
    let kind ← under "type" (kindOf (Table.get? ms "type"))
    let label ← under "label" (labelOf (Table.get? ms "label"))
    let children ← under "children" (childrenOf? ms)
    match Check.unknownKeys keys ms with
    | issue :: _ => .error issue
    | [] => .ok (.node ⟨kind, label, children.isSome⟩ (children.getD []))
  | j => .error (.here (.wrongKind "object" j.kind))

/-- The described children of a node object, if it lists any. -/
def childrenOf? : List (Text × Json) → Except Issue (Option (List Spec))
  | [] => .ok none
  | (key, v) :: ms => if key = "children" then (listOf? v).map some else childrenOf? ms

/-- An array of nodes. -/
def listOf? : Json → Except Issue (List Spec)
  | .arr xs => itemsOf? 0 xs
  | j => .error (.here (.wrongKind "array" j.kind))

/-- The nodes of an array from position `index` on. -/
def itemsOf? (index : Nat) : List Json → Except Issue (List Spec)
  | [] => .ok []
  | x :: xs => do
    let c ← under (Nat.repr index) (ofJson? x)
    let cs ← itemsOf? (index + 1) xs
    .ok (c :: cs)

end

end Spec

/-- The tree of a document: `none` for a blank one, a fault for one that is malformed. -/
def Tree.ofDocument? (text : Text) : Except FormatFault (Option Tree) :=
  if Text.isBlankText text then .ok none
  else
    match Json.parse? text with
    | none => .error .notJson
    | some j =>
      match Spec.ofJson? j with
      | .error issue => .error (.invalid issue)
      | .ok spec => .ok (some (.ofNode (Spec.toNode spec)))

end TreeMerge
