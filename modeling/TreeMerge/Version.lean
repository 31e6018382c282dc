import TreeMerge.Text.Basic

/-!
# The versions of a file

* `Version` : the common ancestor and the two versions derived from it;
* `Side` : one of the two derived versions.
-/

namespace TreeMerge

/-- The three versions that a merge reads. -/
inductive Version where
  | baseline
  | modified
  | patched
  deriving DecidableEq, Repr

/-- The name of a version. -/
def Version.name : Version → Text
  | .baseline => "baseline"
  | .modified => "modified"
  | .patched => "patched"

/-- The two versions derived from the baseline. -/
inductive Side where
  | modified
  | patched
  deriving DecidableEq, Repr

/-- The name of a side. -/
def Side.name : Side → Text
  | .modified => "modified"
  | .patched => "patched"

end TreeMerge
