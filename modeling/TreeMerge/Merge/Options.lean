import TreeMerge.Matching.Matcher

/-!
# Options of a merge

* `Policy` : what happens to a new subtree that has no anchor;
* `MergeOptions` : the options of a merge;
* `MatcherChoice`, `MergeChoice` : options some of which are left open;
* `MergeChoice.resolve` : open options take their defaults.
-/

namespace TreeMerge

/-- What happens to a new subtree whose whole ancestor chain is new as well. -/
inductive Policy where
  /-- It is left out and reported. -/
  | skip
  /-- It is appended to the root and reported. -/
  | attachRoot
  /-- The merge fails. -/
  | error
  deriving DecidableEq, Repr

namespace Policy

/-- The name of a policy. -/
def name : Policy → Text
  | .skip => "skip"
  | .attachRoot => "attach-root"
  | .error => "error"

/-- All policies, in the order in which they are offered. -/
def all : List Policy :=
  [.skip, .attachRoot, .error]

/-- The names of all policies. -/
def names : List Text :=
  all.map name

/-- The policy with a given name. -/
def ofName? (s : Text) : Option Policy :=
  all.find? fun p => p.name == s

end Policy

/-- The options of a merge. -/
structure MergeOptions where
  onUnanchored : Policy := .skip
  matcher : MatcherOptions := {}

/-- Thresholds of the greedy matcher, each of which may be left open. -/
structure MatcherChoice where
  minHeight : Option Rat := none
  minDice : Option Rat := none
  deriving DecidableEq

/-- Options of a merge, each of which may be left open. -/
structure MergeChoice where
  onUnanchored : Option Policy := none
  matcher : Option MatcherChoice := none

/-- Fill in the default thresholds. -/
def MatcherChoice.resolve (c : MatcherChoice) : MatcherOptions :=
  let defaults : MatcherOptions := {}
  { minHeight := c.minHeight.getD defaults.minHeight, minDice := c.minDice.getD defaults.minDice }

/-- Fill in the default options. -/
def MergeChoice.resolve (c : MergeChoice) : MergeOptions :=
  let defaults : MergeOptions := {}
  { onUnanchored := c.onUnanchored.getD defaults.onUnanchored
    matcher := (c.matcher.getD {}).resolve }

end TreeMerge
