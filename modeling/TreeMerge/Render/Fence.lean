import TreeMerge.Text.Blank

/-!
# Code fences

A fence is three backticks, an optional info word, blanks up to the end of the line, the code, and
three backticks.

* `fence`, `isInfoUnit` : its parts;
* `stripFences` : the code inside a fence, trimmed.
-/

namespace TreeMerge

/-- Three backticks. -/
def fence : List UInt16 :=
  Text.units "```"

/-- The units of an info word: ASCII letters and digits, underscore, plus and minus. -/
def isInfoUnit (u : UInt16) : Bool :=
  Text.isDigit u || ('A' ≤ u && u ≤ 'Z') || ('a' ≤ u && u ≤ 'z') || u == '_' || u == '+' || u == '-'

/-- The spaces and tabs that may follow an info word. -/
def isPadding (u : UInt16) : Bool :=
  u == ' ' || u == '\t'

/-- A text without one leading line feed. -/
def dropNewline : List UInt16 → List UInt16
  | [] => []
  | u :: us => if u = '\n' then us else u :: us

/-- What follows an opening fence after its backticks: info word, padding and line feed are passed
over. -/
def afterInfo (us : List UInt16) : List UInt16 :=
  dropNewline ((us.dropWhile isInfoUnit).dropWhile isPadding)

/-- The units inside a fence, or all of them if there is none, without surrounding blanks. -/
def stripFenceUnits (us : List UInt16) : List UInt16 :=
  let body := Text.trimUnits us
  match Text.after? fence body with
  | none => body
  | some rest =>
    let code := afterInfo rest
    Text.trimUnits ((Text.beforeEnd? fence code).getD code)

/-- The code inside a fence; a text without a fence is only trimmed. -/
def stripFences (t : Text) : Text :=
  ⟨stripFenceUnits t.units⟩

end TreeMerge
