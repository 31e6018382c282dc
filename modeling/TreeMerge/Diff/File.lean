import TreeMerge.Diff.Patch
import TreeMerge.Text.Path

/-!
# Patching a file

* `patchFile` : the patched text of a file, by a diff that stands in another file.
-/

namespace TreeMerge

/-- A warning when a diff announces another file than the one it is applied to. -/
def targetWarning (path patchPath diff : Text) : Log :=
  match diffTarget? diff with
  | none => []
  | some target =>
    if Path.baseName target = Path.baseName path then []
    else
      .warn "Patch targets a different file" [
        ("patch", .str patchPath), ("target", .str target), ("baseline", .str path)]

/-- The patched text of the file under `path`. A diff that announces another file is applied all the
same, with a warning. -/
def patchFile (tool : DiffTool) (path text patchPath diff : Text) : Option Text × Log :=
  let warning := targetWarning path patchPath diff
  match applyPatch tool text diff with
  | (some patched, log) => (some patched, warning ++ log)
  | (none, log) =>
    (none, warning ++ log ++
      .error "Could not apply patch to baseline"
        [("patch", .str patchPath), ("baseline", .str path)])

end TreeMerge
