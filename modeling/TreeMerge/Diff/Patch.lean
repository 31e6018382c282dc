import TreeMerge.Diff.LineEnds
import TreeMerge.Diff.Tool
import TreeMerge.Log
import TreeMerge.Text.Blank

/-!
# Patching a text

A diff over one file turns the baseline text into the patched text, by a tool that reads and applies
diffs. Both texts are normalized first, so the kind of line ends does not matter.

* `diffTarget?` : the file that a diff says it writes;
* `applyPatch` : the patched text, or the log of why there is none.
-/

namespace TreeMerge

/-! ## Target -/

/-- The path that a line announces: what follows `+++ ` up to the next blank, without a leading
`b/`. -/
def targetAt? (us : List UInt16) : Option Text :=
  match Text.after? (Text.units "+++ ") us with
  | none => none
  | some rest =>
    let path := rest.takeWhile fun u => !Text.isBlank u
    match Text.after? (Text.units "b/") path, path with
    | _, [] => none
    | some (u :: more), _ => some ⟨u :: more⟩
    | _, path => some ⟨path⟩

/-- The units after which a new line starts. -/
def startsLine (u : UInt16) : Bool :=
  u == '\n' || u == '\r' || u == 0x2028 || u == 0x2029

/-- The first path announced at the start of a line; `fresh` says whether one starts here. -/
def findTarget? (fresh : Bool) : List UInt16 → Option Text
  | [] => none
  | u :: us =>
    match if fresh then targetAt? (u :: us) else none with
    | some path => some path
    | none => findTarget? (startsLine u) us

/-- The file that a diff writes, `none` when it announces none or deletes one. -/
def diffTarget? (diff : Text) : Option Text :=
  match findTarget? true diff.units with
  | some path => if path = "/dev/null" then none else some path
  | none => none

/-! ## Application -/

/-- What a hunk expects and what the text has in its place. -/
structure Mismatch where
  hunk : Text
  expected : List Text
  actual : List Text

namespace Mismatch

/-- A line that a hunk expects, without the unit before it. -/
def expected? (line : Text) : Option Text :=
  match line.units with
  | u :: us => if u = ' ' ∨ u = '-' then some ⟨us⟩ else none
  | [] => none

/-- Compare the lines that a hunk names with the lines at its place. -/
def ofHunk (lines : List Text) (h : Hunk) : Mismatch :=
  let expected := h.lines.filterMap expected?
  { hunk := h.header, expected, actual := (h.place lines).take expected.length }

/-- Whether an expected line is not there. -/
def differs (m : Mismatch) : Bool :=
  (m.expected.zipIdx).any fun (line, i) => m.actual[i]? != some line

/-- The log entry of a mismatch. -/
def entry (m : Mismatch) : Log :=
  .error "Patch does not apply" [
    ("hunk", .str m.hunk),
    ("expected", .arr (m.expected.map .str)),
    ("actual", .arr (m.actual.map .str))]

end Mismatch

/-- The log of a patch that does not apply: the first hunk that differs from the text at its place,
or else the first one. -/
def mismatchLog (source : Text) (hunks : List Hunk) : Log :=
  let found := hunks.map (Mismatch.ofHunk (Text.splitLines source))
  match (found.find? Mismatch.differs).or found.head? with
  | some m => m.entry
  | none => []

/-- Apply a diff over one file to a text. -/
def applyPatch (tool : DiffTool) (baseline diff : Text) : Option Text × Log :=
  let source := normalizeLineEnds baseline
  match tool.read (normalizeLineEnds diff) with
  | .error reason => (none, .error "Malformed patch" [("error", .str reason)])
  | .ok [patch] =>
    let hunks := tool.hunks patch
    if hunks.isEmpty then (none, .plain .error "Patch has no hunks")
    else
      match tool.apply source patch with
      | some text => (some text, [])
      | none => (none, mismatchLog source hunks)
  | .ok patches =>
    (none, .error "Expected a single-file patch" [("files", .nat patches.length)])

end TreeMerge
