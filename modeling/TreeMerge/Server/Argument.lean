import TreeMerge.Diff.Patch
import TreeMerge.Source.Versions

/-!
# Arguments that nobody has checked

Where a text is expected, something else may be given, or nothing. What then happens is settled
where the text is first put to use.

* `Argument` : what is given;
* `Argument.text` : the text of an argument, or the fault of its first use;
* `Argument.language` : the language that an argument asks for;
* `Argument.parse`, `Argument.parseUnlessNull` : the tree of an argument;
* `Argument.patch` : a diff applied to a text.
-/

namespace TreeMerge

/-- What is given in the place of a text; `none` when nothing is. -/
abbrev Argument := Option Json

namespace Argument

/-- The text of an argument, which is known as `name` where it is first put to `use`. -/
def text (name use : Text) : Argument → Except Fault Text
  | some (.str s) => .ok s
  | a => .error (.noText name use a)

/-- The language that an argument asks for; nothing is looked up by a name of its own. -/
def language : Argument → AskedLanguage
  | none => .ofKey "undefined"
  | some j => .ofJson j

/-- The tree of a source text. -/
def parse (parser : Parser) (language source : Argument) : Except Fault (Option Tree) × Log :=
  match source.text "source" "trim" with
  | .error f => (.error f, [])
  | .ok s => parseSource parser language.language s

/-- The tree of a source text that may be known to be missing. -/
def parseUnlessNull (parser : Parser) (language : Argument) :
    Argument → Except Fault (Option Tree) × Log
  | some .null => (.ok none, [])
  | source => parse parser language source

/-- The text that a diff makes of a baseline. Without a text there is no baseline; a diff that is no
text is malformed. -/
def patch (tool : DiffTool) (baseline diff : Argument) : Except Fault (Option Text × Log) := do
  let baseline ← baseline.text "text" "replace"
  match diff.text "text" "replace" with
  | .ok diff => return applyPatch tool baseline diff
  | .error f => return (none, .error "Malformed patch" [("error", .str f.message)])

/-- A source text in a language with a key is parsed as it is. -/
theorem parse_str (parser : Parser) (language source : Text) :
    parse parser (some (.str language)) (some (.str source)) =
      parseSource parser language source := by
  simp [parse, text, Argument.language, AskedLanguage.ofJson_str]

/-- A diff is applied to a baseline as it is. -/
theorem patch_str (tool : DiffTool) (baseline diff : Text) :
    patch tool (some (.str baseline)) (some (.str diff)) = .ok (applyPatch tool baseline diff) :=
  rfl

end Argument

end TreeMerge
