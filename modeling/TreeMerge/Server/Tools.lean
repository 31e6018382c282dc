import TreeMerge.Render.Fence
import TreeMerge.Server.Argument

/-!
# Tools

A tool gets source text as arguments and answers with text; it reads and writes no files. Its
arguments need not be checked. A failure of a merge is an answer too; only a fault that no tool
foresees is none.

* `ToolResult` : an answer;
* `MergeCall`, `MergeCall.answer` : the merge tool;
* `ParseCall`, `ParseCall.answer` : the parse tool.
-/

namespace TreeMerge

/-- The answer of a tool. -/
structure ToolResult where
  text : Text
  isError : Bool := false

/-- An error as an answer, with further members. -/
def ToolResult.failure (message : Text) (extra : List (Text × Json)) : ToolResult where
  text := (Json.obj (("error", .str message) :: extra)).compact
  isError := true

/-- The answer without a parser. -/
def ToolResult.noParser : ToolResult :=
  .failure "@ast-grep/napi is not available" []

/-- The answer to a fault: its wording, and its name if it is a refusal. -/
def ToolResult.ofFault (f : Fault) : ToolResult :=
  .failure f.message (Json.member "errorType" (f.refusal?.map .str))

/-! ## Merging -/

/-- The arguments of the merge tool. -/
structure MergeCall where
  baseline : Argument
  modified : Argument
  patched : Argument := none
  patch : Argument := none
  language : Argument
  /-- The output format; missing when one was asked for that does not exist. -/
  format : Option OutputFormat := some .source
  onUnanchored : Option Policy := none

namespace MergeCall

/-- The answer to a merge that was made. -/
def answerOf : Except Fault MergeOutcome → ToolResult
  | .error f => .ofFault f
  | .ok outcome =>
    { text := (Json.obj [
        ("text", .str (stripFences outcome.text)), ("report", outcome.report.toJson)]).pretty }

/-- The trees of the three versions, parsed one after the other; `null` is no patched version. -/
def trees (c : MergeCall) (parser : Parser) (patched : Argument) :
    Except Fault MergeInputs × Log :=
  MergeInputs.inTurn (Argument.parse parser c.language c.baseline)
    (Argument.parse parser c.language c.modified)
    (Argument.parseUnlessNull parser c.language patched)

/-- The answer once it is known what the patched version is. -/
def answerWith (c : MergeCall) (parser : Parser) (patched : Argument) :
    Except Fault ToolResult × Log :=
  match c.trees parser patched with
  | (.error f, log) => (.error f, log)
  | (.ok inputs, log) =>
    let options := ({ onUnanchored := c.onUnanchored } : MergeChoice).resolve
    let (result, mergeLog) := performMerge inputs (OutputFormat.rendererOf c.format)
      (.greedy options.matcher) options.onUnanchored
    (.ok (answerOf result), log ++ mergeLog)

/-- The answer of the merge tool. The patched version is given as it is or by a diff, not in both
ways. -/
def answer (c : MergeCall) (parser : Parser) (diffs : DiffTool) : Except Fault ToolResult × Log :=
  match c.patched, c.patch with
  | some _, some _ => (.ok (.failure "Pass either patched or patch, not both" []), [])
  | none, none => (.ok (.failure "Missing patched version: pass patched or patch" []), [])
  | some patched, none => c.answerWith parser (some patched)
  | none, some diff =>
    match Argument.patch diffs c.baseline (some diff) with
    | .error f => (.error f, [])
    | .ok (patched, patchLog) =>
      let (result, log) := c.answerWith parser (some (.ofText? patched))
      (result, patchLog ++ log)

end MergeCall

/-! ## Parsing -/

/-- The arguments of the parse tool. -/
structure ParseCall where
  source : Argument
  language : Argument
  /-- The output format; missing when one was asked for that does not exist. -/
  format : Option OutputFormat := some .tree

namespace ParseCall

/-- The answer when the source has no tree; it names the language. -/
def refused (c : ParseCall) : Except Fault ToolResult :=
  match c.language.language.key? with
  | some key => .ok (.failure ("Could not parse source as " ++ key) [])
  | none => .error .wordless

/-- The answer when the source has a tree. -/
def rendered (c : ParseCall) (tree : Tree) : Except Fault ToolResult :=
  match c.format with
  | some f => .ok { text := f.render tree }
  | none => .error .noRenderer

/-- The answer of the parse tool. -/
def answer (c : ParseCall) (parser : Parser) : Except Fault ToolResult × Log :=
  match Argument.parse parser c.language c.source with
  | (.error f, log) => (.error f, log)
  | (.ok none, log) => (c.refused, log)
  | (.ok (some tree), log) => (c.rendered tree, log)

end ParseCall

end TreeMerge
