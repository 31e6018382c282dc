import TreeMerge.Matching.BottomUp

/-!
# Matchers

A matcher finds the correspondence of two trees. A merge asks it several times; the number of
questions asked before is part of each question, so that a list of prepared answers is a matcher
too.

* `MatcherOptions` : the two thresholds of the greedy matcher;
* `greedyMatch` : the greedy correspondence of two trees;
* `Matcher`, `Matcher.greedy`, `Matcher.rational`, `Matcher.prepared`.
-/

namespace TreeMerge

/-- The thresholds of the greedy matcher. -/
structure MatcherOptions where
  /-- The least height of subtrees that are matched as wholes; a leaf has height 1. -/
  minHeight : Rat := 2
  /-- The least score that links two inner nodes. -/
  minDice : Rat := 1 / 2
  deriving DecidableEq

/-- The greedy correspondence: identical subtrees from the top down, then inner nodes from the
bottom up. -/
def greedyMatch (round : Rounding) (options : MatcherOptions) (src dst : Tree) :
    Except Fault (Mapping Nat) := do
  bottomUp round options.minDice src dst (← topDown round options.minHeight src dst)

/-- Finds the correspondence of two trees by names of their nodes; `asked` counts the questions
asked before. -/
structure Matcher (ν : Type) where
  run : (asked : Nat) → (src dst : Tree) → Except Fault (Mapping ν)

namespace Matcher

/-- The greedy matcher, with its fractions rounded to double precision. -/
def greedy (options : MatcherOptions) : Matcher Nat where
  run := fun _ src dst => greedyMatch roundBinary64 options src dst

/-- The greedy matcher with exact fractions. -/
def rational (options : MatcherOptions) : Matcher Nat where
  run := fun _ src dst => greedyMatch id options src dst

/-- A matcher that links the pairs of its `k`-th list when asked for the `k`-th time, and none when
the lists are used up. -/
def prepared {ν : Type} [DecidableEq ν] [NodeName ν] (answers : List (List (ν × ν))) :
    Matcher ν where
  run := fun asked _ _ => Mapping.empty.linkAll (answers[asked]?.getD [])

end Matcher

end TreeMerge
