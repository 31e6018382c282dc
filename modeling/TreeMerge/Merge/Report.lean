import TreeMerge.Json.Basic
import TreeMerge.Node
import TreeMerge.Version

/-!
# What a merge reports

* `Rule`, `Tally` : the rules that decide a baseline position, and how often each was used;
* `Conflict` : a position where both sides changed differently;
* `NewSubtree`, `Insertion` : a subtree that one side added, and where it went;
* `Report`, `Report.toJson` : all of it, and its document form.
-/

namespace TreeMerge

/-- The rule that decided a baseline position. -/
inductive Rule where
  | unchanged
  | patchedOnly
  | modifiedOnly
  | convergent
  | diverged
  deriving DecidableEq, Repr

/-- The name of a rule. -/
def Rule.name : Rule → Text
  | .unchanged => "unchanged"
  | .patchedOnly => "patched-only"
  | .modifiedOnly => "modified-only"
  | .convergent => "convergent"
  | .diverged => "diverged"

/-- How often each rule was used. -/
structure Tally where
  unchanged : Nat := 0
  patchedOnly : Nat := 0
  modifiedOnly : Nat := 0
  convergent : Nat := 0
  diverged : Nat := 0
  deriving DecidableEq, Repr

namespace Tally

/-- Count one more use of a rule. -/
def add (t : Tally) : Rule → Tally
  | .unchanged => { t with unchanged := t.unchanged + 1 }
  | .patchedOnly => { t with patchedOnly := t.patchedOnly + 1 }
  | .modifiedOnly => { t with modifiedOnly := t.modifiedOnly + 1 }
  | .convergent => { t with convergent := t.convergent + 1 }
  | .diverged => { t with diverged := t.diverged + 1 }

/-- The number of uses of all rules. -/
def total (t : Tally) : Nat :=
  t.unchanged + t.patchedOnly + t.modifiedOnly + t.convergent + t.diverged

theorem total_add (t : Tally) (r : Rule) : (t.add r).total = t.total + 1 := by
  cases r <;> simp only [add, total] <;> omega

end Tally

/-- A baseline position where the two sides disagree; the baseline was kept. -/
structure Conflict where
  baseline : Content
  modified : Option Content
  patched : Option Content
  deriving DecidableEq, Repr

/-- A subtree that one side added. -/
structure NewSubtree where
  origin : Side
  kind : Text
  label : Text
  /-- The number of its nodes. -/
  size : Nat
  deriving DecidableEq, Repr

/-- A subtree that was appended to a node of the merged tree. -/
structure Insertion extends NewSubtree where
  /-- The kind of the node it was appended to. -/
  anchorKind : Text
  /-- Whether it went to the root for want of an anchor. -/
  attachedToRoot : Bool
  deriving DecidableEq, Repr

/-- The account of one merge. -/
structure Report where
  decisions : Tally := {}
  conflicts : List Conflict := []
  /-- Baseline nodes without a counterpart on either side. -/
  dropped : Nat := 0
  inserted : List Insertion := []
  /-- Subtrees added alike on both sides and inserted once. -/
  deduplicated : Nat := 0
  unanchored : List NewSubtree := []
  deriving DecidableEq, Repr

/-! ## Document form -/

/-- Kind and label. -/
def Content.toJson (c : Content) : Json :=
  .obj [("type", .str c.kind), ("label", .str c.label)]

/-- One count for each rule. -/
def Tally.toJson (t : Tally) : Json :=
  .obj [
    (Rule.unchanged.name, .nat t.unchanged),
    (Rule.patchedOnly.name, .nat t.patchedOnly),
    (Rule.modifiedOnly.name, .nat t.modifiedOnly),
    (Rule.convergent.name, .nat t.convergent),
    (Rule.diverged.name, .nat t.diverged)]

/-- The three contents, `null` for a missing counterpart. -/
def Conflict.toJson (c : Conflict) : Json :=
  .obj [
    ("baseline", c.baseline.toJson),
    ("modified", .ofOption (c.modified.map Content.toJson)),
    ("patched", .ofOption (c.patched.map Content.toJson))]

/-- The members that describe a new subtree. -/
def NewSubtree.members (n : NewSubtree) : List (Text × Json) :=
  [("origin", .str n.origin.name), ("type", .str n.kind), ("label", .str n.label),
    ("size", .nat n.size)]

/-- A new subtree. -/
def NewSubtree.toJson (n : NewSubtree) : Json :=
  .obj n.members

/-- An insertion. -/
def Insertion.toJson (i : Insertion) : Json :=
  .obj (i.toNewSubtree.members ++
    [(("anchorType" : Text), .str i.anchorKind), ("attachedToRoot", .bool i.attachedToRoot)])

/-- A report. -/
def Report.toJson (r : Report) : Json :=
  .obj [
    ("decisions", r.decisions.toJson),
    ("conflicts", .arr (r.conflicts.map Conflict.toJson)),
    ("dropped", .nat r.dropped),
    ("inserted", .arr (r.inserted.map Insertion.toJson)),
    ("deduplicated", .nat r.deduplicated),
    ("unanchored", .arr (r.unanchored.map NewSubtree.toJson))]

end TreeMerge
