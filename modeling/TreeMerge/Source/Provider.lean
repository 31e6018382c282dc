import TreeMerge.Table
import TreeMerge.Text.Basic

/-!
# Loaded modules

A parser is loaded as a module. A module can serve as one when it exports a function `parse` and an
object `Lang`.

* `Exported` : what matters of an exported value;
* `servesAsParser` : whether a module can serve as a parser.
-/

namespace TreeMerge

/-- What matters of an exported value. -/
inductive Exported where
  | function
  | object
  | other
  deriving DecidableEq, Repr

/-- Whether a module with these exports can serve as a parser. -/
def servesAsParser (members : Table Text Exported) : Bool :=
  members.get? "parse" == some .function && members.get? "Lang" == some .object

end TreeMerge
