import TreeMerge.Log
import TreeMerge.Merge.Options
import TreeMerge.Merge.Report

/-!
# New subtrees

What one side added is found by matching it against the merged tree: the topmost nodes without a
counterpart come with all below them. A new subtree goes to the merged counterpart of its nearest
ancestor that the baseline knows.

* `topmostUnmatched` : the roots of the new subtrees;
* `duplicates` : new subtrees that the other side added as well;
* `findAnchor?` : where a new subtree goes;
* `Arrival` : a new subtree with its anchor, and what a policy makes of it.
-/

namespace TreeMerge

variable {ν : Type} [DecidableEq ν] [NodeName ν]

/-- The nodes without a counterpart whose parent has one, or that have no parent, in pre-order. -/
def topmostUnmatched (t : Tree) (m : Mapping ν) : List Nat :=
  t.ids.filter fun id =>
    !m.hasSrc (NodeName.ofId id) &&
      match t.parent? id with
      | none => true
      | some p => m.hasSrc (NodeName.ofId p)

/-- For every item of `ms` in turn, the first twin in `ps` that no earlier item has taken. -/
def duplicates (isTwin : Nat → Nat → Bool) (ms ps : List Nat) : List Nat :=
  ms.foldl (fun taken m =>
    match ps.find? fun p => !taken.contains p && isTwin m p with
    | some p => taken ++ [p]
    | none => taken) []

/-- The merged counterpart of the nearest ancestor that existed in the baseline. -/
def findAnchor? {β γ : Type} [DecidableEq β] (t : Tree) (toBaseline : Table ν β)
    (baselineToMerged : Table β γ) (id : Nat) : Option γ :=
  ((t.ancestors id).findSome? fun a => toBaseline.get? (NodeName.ofId a)).bind
    baselineToMerged.get?

/-- A new subtree and the merged node it belongs under. -/
structure Arrival where
  origin : Side
  node : Node
  anchor : Option Nat

namespace Arrival

/-- The new subtree with root `id` of a side. -/
def ofNode (origin : Side) (t : Tree) (toBaseline : Table ν Nat)
    (baselineToMerged : Table Nat Nat) (id : Nat) : Arrival where
  origin := origin
  node := t.subtree id
  anchor := findAnchor? t toBaseline baselineToMerged id

/-- The record of a new subtree. -/
def summary (a : Arrival) : NewSubtree where
  origin := a.origin
  kind := Node.kind a.node
  label := Node.label a.node
  size := a.node.size

/-- The node that the subtree is appended to, if the policy lets it in. -/
def target? (policy : Policy) (a : Arrival) : Option Nat :=
  match a.anchor, policy with
  | some id, _ => some id
  | none, .attachRoot => some Tree.root
  | none, _ => none

/-- The record of an insertion into a tree, if the policy lets the subtree in. -/
def insertion? (policy : Policy) (merged : Tree) (a : Arrival) : Except Fault (Option Insertion) :=
  match a.target? policy with
  | none => .ok none
  | some id => do
    let anchor ← merged.locate id
    return some
      { a.summary with anchorKind := merged.kind anchor, attachedToRoot := a.anchor.isNone }

/-- The warning about a subtree without an anchor. -/
def warning (policy : Policy) (a : Arrival) : LogEntry where
  level := .warn
  message := "New subtree has no baseline-matched ancestor"
  data := some (.obj (a.summary.members ++ [(("policy" : Text), .str policy.name)]))

end Arrival

/-- The subtrees to append to a node, in the order of arrival. -/
def appendedTo (policy : Policy) (arrivals : List Arrival) (id : Nat) : List Node :=
  (arrivals.filter fun a => a.target? policy == some id).map Arrival.node

end TreeMerge
