import TreeMerge.Json.Schema
import TreeMerge.Merge.Report

/-!
# Faults

Every way in which a merge can fail, as a cause, and its wording in one place.

* `FormatFault` : why a text is no tree document;
* `Reason` : why a parser or a renderer failed;
* `Fault`, `Fault.message` : the causes and their wording;
* `Fault.refusal?` : the name under which a refused merge is reported.
-/

namespace TreeMerge

/-- Why a text is no tree document. -/
inductive FormatFault where
  | notJson
  | invalid (issue : Issue)

/-- The wording of a format fault. Where malformed JSON breaks off is not recorded. -/
def FormatFault.message : FormatFault → Text
  | .notJson => "Invalid JSON: *"
  | .invalid issue =>
    let place : Text := if issue.path.isEmpty then "(root)" else issue.location
    "Invalid tree at " ++ place ++ ": " ++ issue.message

/-- Why a parser or a renderer failed, as far as it can be put into words. -/
abbrev Reason := Option Text

/-- The causes of failure. -/
inductive Fault where
  /-- A name that is no node's in the tree with `size` nodes. -/
  | notInTree (name : Text) (size : Nat)
  /-- A link from a source node that has a counterpart already. -/
  | sourceTaken (src dst : Text)
  /-- A link to a destination node that has a counterpart already. -/
  | destinationTaken (dst src : Text)
  /-- A merge without all three trees. -/
  | unavailable (versions : List Version)
  /-- New subtrees without an anchor where that is an error. -/
  | unanchored (nodes : List NewSubtree)
  /-- A renderer that failed. -/
  | rendering (reason : Text)
  /-- A text that is no tree document, with the version it was read for. -/
  | treeFormat (version : Option Version) (cause : FormatFault)
  /-- A value that has to be put into words and cannot: a language that is asked for, or the reason
  why a parser or a renderer failed. -/
  | wordless
  /-- An output format that has no renderer. -/
  | noRenderer
  /-- What is given in the place of a text, `none` when nothing is. It is known as `name` where it
  is first put to `use`. -/
  | noText (name use : Text) (given : Option Json)

namespace Fault

/-- The wording of a fault. -/
def message : Fault → Text
  | .notInTree name size =>
    "Node " ++ name ++ " does not belong to this tree (size " ++ Nat.repr size ++ ")"
  | .sourceTaken src dst => "Source node " ++ src ++ " is already mapped to " ++ dst
  | .destinationTaken dst src =>
    "Destination node " ++ dst ++ " is already mapped from " ++ src
  | .unavailable versions =>
    "Cannot merge: no " ++ Text.intercalate ", " (versions.map Version.name) ++ " tree available"
  | .unanchored nodes =>
    Nat.repr nodes.length ++ " new subtree(s) have no baseline-matched ancestor to attach to"
  | .rendering reason => "Rendering the merged tree failed: " ++ reason
  | .treeFormat none cause => cause.message
  | .treeFormat (some version) cause => version.name ++ ": " ++ cause.message
  | .wordless => "Cannot convert object to primitive value"
  | .noRenderer => "Cannot read properties of undefined (reading 'render')"
  | .noText _ use none => "Cannot read properties of undefined (reading " ++ quoted use ++ ")"
  | .noText _ use (some .null) => "Cannot read properties of null (reading " ++ quoted use ++ ")"
  | .noText name use (some _) => name ++ "." ++ use ++ " is not a function"

/-- The name of a refused merge; `none` for a fault that is no refusal. -/
def refusal? : Fault → Option Text
  | .unavailable _ => some "UnavailableTreeError"
  | .unanchored _ => some "UnanchoredInsertionError"
  | .rendering _ => some "RenderError"
  | .treeFormat _ _ => some "TreeFormatError"
  | _ => none

end Fault

end TreeMerge
