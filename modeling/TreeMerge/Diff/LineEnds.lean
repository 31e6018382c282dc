import TreeMerge.Text.Basic

/-!
# Line ends

* `unifyLineEnds` : carriage returns, alone or before a line feed, become line feeds;
* `normalizeLineEnds` : the same, with a line feed at the end of the text.
-/

namespace TreeMerge

/-- Every carriage return, with the line feed after it if there is one, becomes a line feed. -/
def unifyLineEnds : List UInt16 → List UInt16
  | [] => []
  | u :: us =>
    if u = '\r' then
      match us with
      | [] => ['\n']
      | v :: vs => '\n' :: if v = '\n' then unifyLineEnds vs else unifyLineEnds (v :: vs)
    else u :: unifyLineEnds us

/-- The text with a line feed at its end. -/
def closeLine (us : List UInt16) : List UInt16 :=
  if us.getLast? = some '\n' then us else us ++ [Text.unit '\n']

/-- The units of a text with line feeds only, the last line closed. -/
def normalizeUnits (us : List UInt16) : List UInt16 :=
  closeLine (unifyLineEnds us)

/-- A text with line feeds only, the last line closed. -/
def normalizeLineEnds (t : Text) : Text :=
  ⟨normalizeUnits t.units⟩

end TreeMerge
