import TreeMerge.Tree.Basic

/-!
# Deciding one baseline position

A baseline node and its counterparts, if any, in the two derived versions decide which version's
content stands at that position:

1. both sides equal the baseline: the baseline;
2. only the patched side changed: the patched node, or the baseline if it is gone;
3. only the modified side changed: the modified node, or the baseline if it is gone;
4. both made the same change: the modified node;
5. both changed differently: the baseline.

* `Ref` : a node of a tree;
* `identical` : structural identity of nodes that may be missing;
* `Triple`, `Triple.decide` : the rule.
-/

namespace TreeMerge

/-- A node addressed by a name, together with its tree. -/
structure Ref (ν : Type) where
  tree : Tree
  id : ν

namespace Ref

variable {ν : Type} [NodeName ν]

/-- The number of the node, or the fault that there is none. -/
def checked (r : Ref ν) : Except Fault Nat :=
  r.tree.locate r.id

/-- Kind and label; nothing where there is no node. -/
def content (r : Ref ν) : Content :=
  match r.checked with
  | .ok id => r.tree.content id
  | .error _ => ⟨"", ""⟩

end Ref

variable {ν : Type} [NodeName ν]

/-- Structural identity; two missing nodes are identical, a missing one and a present one are
not. -/
def identical {μ : Type} [NodeName μ] : Option (Ref μ) → Option (Ref ν) → Except Fault Bool
  | none, none => .ok true
  | some a, some b => do
    let i ← a.checked
    let j ← b.checked
    return a.tree.isomorphic i b.tree j
  | _, _ => .ok false

/-- A baseline node with its counterparts. -/
structure Triple (ν : Type) where
  baseline : Ref Nat
  modified : Option (Ref ν)
  patched : Option (Ref ν)

/-- Which version's content stands at a position, and why. -/
structure Decision where
  source : Version
  rule : Rule
  content : Content

namespace Triple

/-- The content of a node, chosen by a rule. -/
def choose (source : Version) (node : Ref ν) (rule : Rule) : Except Fault Decision := do
  let id ← node.checked
  return ⟨source, rule, node.tree.content id⟩

/-- Decide a position. -/
def decide (t : Triple ν) : Except Fault Decision := do
  let modifiedSame ← identical (some t.baseline) t.modified
  let patchedSame ← identical (some t.baseline) t.patched
  match modifiedSame, patchedSame with
  | true, true => choose .baseline t.baseline .unchanged
  | true, false =>
    match t.patched with
    | some p => choose .patched p .patchedOnly
    | none => choose .baseline t.baseline .patchedOnly
  | false, true =>
    match t.modified with
    | some m => choose .modified m .modifiedOnly
    | none => choose .baseline t.baseline .modifiedOnly
  | false, false =>
    match t.modified with
    | none => choose .baseline t.baseline .diverged
    | some m => do
      if ← identical (some m) t.patched then choose .modified m .convergent
      else choose .baseline t.baseline .diverged

/-- The content that the decision puts at the position; the baseline's where it fails. -/
def settled (t : Triple ν) : Content :=
  match t.decide with
  | .ok d => d.content
  | .error _ => t.baseline.content

/-- The record of a disagreement. -/
def conflict (t : Triple ν) : Conflict where
  baseline := t.baseline.content
  modified := t.modified.map Ref.content
  patched := t.patched.map Ref.content

end Triple

/-- Decide positions one after the other, up to the first that fails. -/
def decideAll : List (Triple ν) → List (Triple ν × Decision) × Option Fault
  | [] => ([], none)
  | t :: ts =>
    match t.decide with
    | .error e => ([], some e)
    | .ok d =>
      let (made, fault) := decideAll ts
      ((t, d) :: made, fault)

end TreeMerge
