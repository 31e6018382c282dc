import TreeMerge.Command.Merge

/-!
# The parse command

* `ParseRequest` : what a parse command is asked;
* `ParseRequest.tree` : the tree of the file, with the format to print it in;
* `runParse` : the command, which prints that tree.
-/

namespace TreeMerge

/-- What a parse command is asked. -/
structure ParseRequest where
  file : Text
  language : Option Text := none
  format : Option Text := none

namespace ParseRequest

/-- The output format, which the configuration does not change. -/
def outputFormat (r : ParseRequest) : Except Refusal OutputFormat :=
  named OutputFormat.ofName? (.unknownFormat · false) .tree r.format

/-- The format and the language, or why they are refused. -/
def settle (r : ParseRequest) (c : Config) (path : Text) :
    Except Refusal (OutputFormat × Text) := do
  let format ← r.outputFormat
  match given (Language.detect? path r.language c.language) with
  | some language => .ok (format, language)
  | none => .error (.unknownLanguage r.file)

/-- The tree of the file, with the format to print it in. -/
def tree (r : ParseRequest) (s : Surroundings) : Step (OutputFormat × Tree) := do
  let config ← Step.config s.directory
  let (format, language) ← Step.settled (r.settle config (s.resolve r.file))
  let source ← Step.file (s.resolve r.file)
  match s.parser with
  | none => Step.refuse (.noParser false)
  | some parser =>
    match ← Step.ofMerge (parseSource parser language source) with
    | none => Step.refuse (.notParsed r.file)
    | some tree => return (format, tree)

/-- The steps of a parse command. -/
def steps (r : ParseRequest) (s : Surroundings) : Step Tree := do
  let (format, tree) ← r.tree s
  Step.print (format.render tree ++ "\n")
  return tree

end ParseRequest

/-- Run a parse command. -/
def runParse (w : Workspace) (r : ParseRequest) : CommandRun Tree :=
  (r.steps w.toSurroundings).on w.disk

end TreeMerge
