import TreeMerge.Number.Decimal
import TreeMerge.Number.Sum
import TreeMerge.Text.Basic

/-!
# Tools for diffs

Unified diffs are read and applied by a tool that is linked in from outside. It may find a diff
malformed, and a patch may not apply to a text.

* `Hunk`, `Hunk.header`, `Hunk.place` : what a tool tells of a change;
* `DiffTool` : a reader and an applier.
-/

namespace TreeMerge

/-- A change of consecutive lines, with the start and the number of the old and of the new lines.
Each line stands behind a unit that says what becomes of it. What is no number is missing. -/
structure Hunk where
  oldStart : Option Number
  oldCount : Option Number
  newStart : Option Number
  newCount : Option Number
  lines : List Text

namespace Hunk

/-- The header; a number that is missing prints as `NaN`. -/
def header (h : Hunk) : Text :=
  let text (n : Option Number) : String := (n.map Number.text).getD "NaN"
  "@@ -" ++ text h.oldStart ++ "," ++ text h.oldCount ++ " +" ++ text h.newStart ++ "," ++
    text h.newCount ++ " @@"

/-- The lines of a text from the place of the hunk on; there are none where the header gives no
place. -/
def place (h : Hunk) (lines : List Text) : List Text :=
  match Number.sum? [h.oldStart, some (.ofInt (-1))] with
  | some (.finite q) => lines.drop q.floor.toNat
  | some (.infinite true) => lines
  | some (.infinite false) | none => []

end Hunk

/-- A reader of diffs, which gives a patch for every file or says why a diff is malformed, and the
way to apply a patch to a text, which it may not fit. -/
structure DiffTool where
  Patch : Type
  hunks : Patch → List Hunk
  read : (diff : Text) → Except Text (List Patch)
  apply : (source : Text) → Patch → Option Text

end TreeMerge
