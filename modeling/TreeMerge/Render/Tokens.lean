import TreeMerge.Node

/-!
# Tokens as one line of source

Tokens are joined by single spaces, except that none stands before `; , ( ) [ ] .` and none after
`( [ .`. Empty tokens are passed over.

* `joinTokens` : the units of a line;
* `renderTokens`, `Node.source` : the line of a list of tokens, of the leaves of a tree.
-/

namespace TreeMerge

/-- Tokens that close up to the token before them. -/
def closesBefore : List Text := [";", ",", "(", ")", "[", "]", "."]

/-- Tokens that the next token closes up to. -/
def closesAfter : List Text := ["(", "[", "."]

/-- Whether a space stands between the token `prev` and the token `next`. -/
def spaced (prev next : Text) : Bool :=
  !closesBefore.contains next && !closesAfter.contains prev

/-- The units of a line after the token `prev`, if there was one. -/
def joinTokens (prev : Option Text) : List Text → List UInt16
  | [] => []
  | t :: ts =>
    if t = "" then joinTokens prev ts
    else
      let gap := (prev.map fun p => spaced p t).getD false
      (if gap then [(' ' : UInt16)] else []) ++ t.units ++ joinTokens (some t) ts

/-- The line of a list of tokens. -/
def renderTokens (tokens : List Text) : Text :=
  ⟨joinTokens none tokens⟩

/-- The line of the leaf labels of a tree. -/
def Node.source (n : Node) : Text :=
  renderTokens (Node.leafLabels n)

end TreeMerge
