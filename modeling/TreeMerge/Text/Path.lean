import TreeMerge.Text.Cut

/-!
# File paths

Paths are written with slashes; a path that starts with one is absolute.

* `segments`, `simplify` : the parts of a path, and the same without detours;
* `normalize`, `join`, `resolve` : paths without detours;
* `baseName`, `extension`, `ancestors` : the last part of a path, what follows its last point, and
  the directories above it.
-/

namespace TreeMerge.Path

/-- Whether a path starts at the root. -/
def isAbsolute (path : Text) : Bool :=
  path.units.head? == some '/'

/-- The parts of a path between slashes, empty ones left out. -/
def segments (path : Text) : List Text :=
  ((Text.splitWhere (· == Text.unit '/') path.units).filter fun s => !s.isEmpty).map Text.mk

/-- Walk along the parts of a path; `walked` lists the parts kept so far, last one first. A point
stays where it is, two points go back over the part before. At the root there is nothing to go back
over, and a relative path keeps the points that lead above its start. -/
def simplify (absolute : Bool) (walked : List Text) : List Text → List Text
  | [] => walked.reverse
  | s :: rest =>
    if s = "." then simplify absolute walked rest
    else if s = ".." then
      match walked with
      | [] => simplify absolute (if absolute then [] else [".."]) rest
      | w :: ws => simplify absolute (if w = ".." then ".." :: w :: ws else ws) rest
    else simplify absolute (s :: walked) rest

/-- The path without detours and without a slash at its end. -/
def normalize (path : Text) : Text :=
  let body := Text.intercalate "/" (simplify (isAbsolute path) [] (segments path))
  if isAbsolute path then "/" ++ body
  else if body.isEmpty then "."
  else body

/-- A path below a directory; the empty path stands for no directory at all. -/
def join (dir name : Text) : Text :=
  normalize (if dir.isEmpty then name else dir ++ "/" ++ name)

/-- A path as seen from a directory: an absolute one does not depend on it. -/
def resolve (dir path : Text) : Text :=
  if isAbsolute path then normalize path else normalize (dir ++ "/" ++ path)

/-- The last part of a path. -/
def baseName (path : Text) : Text :=
  (segments path).getLast?.getD ""

/-- The units from the last point on; none if the only point comes first. -/
def fromLastPoint (name : List UInt16) : List UInt16 :=
  let tail := name.reverse.takeWhile (· != Text.unit '.')
  if tail.length + 1 < name.length then name.drop (name.length - tail.length - 1) else []

/-- What the last part of a path has from its last point on. A point at its start does not count,
nor do the two points of the directory above. -/
def extension (path : Text) : Text :=
  let name := baseName path
  if name = ".." then "" else ⟨fromLastPoint name.units⟩

/-- The directories above a path, the nearest one first. -/
def ancestors (path : Text) : List Text :=
  let parts := segments path
  let lead : Text := if isAbsolute path then "/" else ""
  ((List.range parts.length).map fun k => lead ++ Text.intercalate "/" (parts.take k)).reverse

example : extension "a/b.test.ts/" = ".ts" := by decide +kernel
example : extension ".hidden" = "" := by decide +kernel
example : extension "x." = "." := by decide +kernel
example : extension "..." = "." := by decide +kernel
example : normalize "./sub/../sub//blank.ts" = "sub/blank.ts" := by decide +kernel
example : normalize "/../../a" = "/a" := by decide +kernel
example : normalize "../../a/.." = "../.." := by decide +kernel

end TreeMerge.Path
