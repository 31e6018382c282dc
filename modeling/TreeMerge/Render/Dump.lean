import TreeMerge.Tree.Basic

/-!
# Indented dump of a tree

One line a node: its kind, followed by a colon and the label if there is one, indented by two
spaces for every level of depth.

* `dumpLine`, `dumpLines` : the lines;
* `Node.dump` : the lines joined by line feeds.
-/

namespace TreeMerge

/-- The line of one node. -/
def dumpLine (depth : Nat) (c : Content) : Text :=
  ⟨List.replicate (2 * depth) ' '⟩ ++ (if c.label = "" then c.kind else c.kind ++ ": " ++ c.label)

mutual

/-- The lines of a subtree at a depth. -/
def dumpLines (depth : Nat) : Node → List Text
  | .node c cs => dumpLine depth c :: dumpLinesAll (depth + 1) cs

/-- The lines of sibling subtrees. -/
def dumpLinesAll (depth : Nat) : List Node → List Text
  | [] => []
  | c :: cs => dumpLines depth c ++ dumpLinesAll depth cs

end

/-- The dump of a tree. -/
def Node.dump (n : Node) : Text :=
  Text.intercalate "\n" (dumpLines 0 n)

end TreeMerge
