import TreeMerge.Merge.Session
import TreeMerge.Render.Format

/-!
# Merging

* `mergeTrees` : the structural merge of three trees;
* `performMerge` : the same for trees that may be missing, followed by rendering.

Both give their result, or the fault, together with the log.
-/

namespace TreeMerge

variable {ν : Type} [DecidableEq ν] [NodeName ν]

/-- A merged tree with its report. -/
structure MergeResult where
  tree : Tree
  report : Report

/-- The log entry of a finished merge. -/
def completionEntry (tree : Tree) (r : Report) : Log :=
  .info "Merge complete" [
    ("nodes", .nat tree.size),
    ("conflicts", .nat r.conflicts.length),
    ("dropped", .nat r.dropped),
    ("inserted", .nat r.inserted.length),
    ("deduplicated", .nat r.deduplicated),
    ("unanchored", .nat r.unanchored.length)]

/-- Merge three trees: correspondence, skeleton, insertion. -/
def mergeTrees (versions : Versions) (matcher : Matcher ν) (policy : Policy) :
    Except Fault MergeResult × Log :=
  match (Session.start versions matcher policy).correspond with
  | (.error e, s) => (.error e, s.log)
  | (.ok (), s) =>
    match s.build with
    | (.error e, s) => (.error e, s.log)
    | (.ok merged, s) =>
      match s.insert merged with
      | (.error e, s) => (.error e, s.log)
      | (.ok tree, s) => (.ok ⟨tree, s.report⟩, s.log ++ completionEntry tree s.report)

/-- The trees of a merge, each of which may be missing. -/
structure MergeInputs where
  baseline : Option Tree
  modified : Option Tree
  patched : Option Tree

/-- The versions that are missing. -/
def MergeInputs.missing (i : MergeInputs) : List Version :=
  (if i.baseline.isNone then [.baseline] else []) ++
    (if i.modified.isNone then [.modified] else []) ++
    (if i.patched.isNone then [.patched] else [])

/-- A merged tree with its report and its text. -/
structure MergeOutcome extends MergeResult where
  /-- What the renderer made of the tree, as it is. -/
  text : Text

/-- Merge and render. Without all three trees there is nothing to merge. -/
def performMerge (inputs : MergeInputs) (renderer : Renderer) (matcher : Matcher ν)
    (policy : Policy) : Except Fault MergeOutcome × Log :=
  match inputs.baseline, inputs.modified, inputs.patched with
  | some baseline, some modified, some patched =>
    match mergeTrees ⟨baseline, modified, patched⟩ matcher policy with
    | (.error e, log) => (.error e, log)
    | (.ok result, log) =>
      match renderer result.tree with
      | .error (some reason) => (.error (.rendering reason), log)
      | .error none => (.error .wordless, log)
      | .ok text => (.ok { result with text }, log)
  | _, _, _ => (.error (.unavailable inputs.missing), [])

end TreeMerge
