import TreeMerge.Command.Step
import TreeMerge.Diff.File
import TreeMerge.Render.Fence
import TreeMerge.Source.Language
import TreeMerge.Source.Versions

/-!
# The merge command

The command settles its options, reads its files, merges, and then writes and prints.

* `MergeRequest` : what a merge command is asked;
* `named`, `MergeRequest.settle` : its options;
* `MergeRequest.texts`, `MergeRequest.trees`, `MergeRequest.outcome` : reading and merging;
* `MergeRequest.store`, `MergeRequest.answer`, `MergeRequest.deliver` : writing and printing;
* `runMerge` : the command.
-/

namespace TreeMerge

/-- What a merge command is asked. Open options take their values from the configuration. -/
structure MergeRequest where
  baseline : Text
  modified : Text
  patched : Option Text := none
  patch : Option Text := none
  language : Option Text := none
  format : Option Text := none
  inputFormat : Option Text := none
  output : Option Text := none
  onUnanchored : Option Text := none
  json : Bool := false

/-- The options of a merge command after the configuration was taken into account. -/
structure MergeSettings where
  format : OutputFormat
  policy : Policy
  matcher : MatcherOptions
  /-- The language of the files; `none` when they are tree documents. -/
  language : Option Text

/-- A path that is given; an empty one is not. -/
def given (path : Option Text) : Option Text :=
  path.filter fun p => !p.isEmpty

/-! ## Settling options -/

/-- An option that is asked for by a name, with what holds where it is not. -/
def named {α : Type} (ofName? : Text → Option α) (refusal : Text → Refusal) (otherwise : α) :
    (asked : Option Text) → Except Refusal α
  | none => .ok otherwise
  | some name =>
    match ofName? name with
    | some a => .ok a
    | none => .error (refusal name)

namespace MergeRequest

/-- The output format. -/
def outputFormat (r : MergeRequest) (c : Config) : Except Refusal OutputFormat :=
  named OutputFormat.ofName? (.unknownFormat · true) (c.format.getD .source) r.format

/-- The input format. -/
def readFormat (r : MergeRequest) (c : Config) : Except Refusal InputFormat :=
  named InputFormat.ofName? .unknownInputFormat (c.inputFormat.getD .source) r.inputFormat

/-- What happens to new subtrees without an anchor. -/
def policy (r : MergeRequest) (c : Config) : Except Refusal Policy :=
  named Policy.ofName? .unknownPolicy (c.onUnanchored.getD .skip) r.onUnanchored

/-- The language of the files; tree documents have none. -/
def sourceLanguage (r : MergeRequest) (c : Config) (path : Text) :
    InputFormat → Except Refusal (Option Text)
  | .json => .ok none
  | .source =>
    match given (Language.detect? path r.language c.language) with
    | some l => .ok (some l)
    | none => .error (.unknownLanguage r.baseline)

/-- Settle the options, or refuse at the first one that is wrong; `path` is that of the baseline. -/
def settle (r : MergeRequest) (c : Config) (path : Text) : Except Refusal MergeSettings := do
  let format ← r.outputFormat c
  let inputFormat ← r.readFormat c
  let policy ← r.policy c
  if (given r.patched).isSome && (given r.patch).isSome then .error .patchedTwice
  let language ← r.sourceLanguage c path inputFormat
  .ok { format, policy, language, matcher := (c.matcher.getD {}).resolve }

/-! ## Reading and merging -/

/-- The patched text: a file of its own, or the baseline changed by a diff. -/
def patchedText (r : MergeRequest) (s : Surroundings) (baseline : Text) :
    Step (Option Text) :=
  match given r.patched, given r.patch with
  | some path, _ => do
    let text ← Step.file (s.resolve path)
    return some text
  | none, some path => do
    let diff ← Step.file (s.resolve path)
    Step.logged (patchFile s.diffs (s.resolve r.baseline) baseline (s.resolve path) diff)
  | none, none => Step.refuse .patchedMissing

/-- The texts of the three versions. -/
def texts (r : MergeRequest) (s : Surroundings) : Step VersionTexts := do
  let baseline ← Step.file (s.resolve r.baseline)
  let modified ← Step.file (s.resolve r.modified)
  let patched ← r.patchedText s baseline
  return { baseline, modified, patched }

/-- The trees of the three versions: parsed, or read as tree documents. -/
def trees (s : Surroundings) (language : Option Text) (texts : VersionTexts) :
    Step MergeInputs :=
  match language, s.parser with
  | none, _ => Step.ofMerge (texts.readTrees, [])
  | some _, none => Step.refuse (.noParser true)
  | some language, some parser => Step.ofMerge (texts.parse parser language)

/-- The merged tree with its report and its text. -/
def outcome (r : MergeRequest) (s : Surroundings) : Step MergeOutcome := do
  let config ← Step.config s.directory
  let settings ← Step.settled (r.settle config (s.resolve r.baseline))
  let texts ← r.texts s
  let inputs ← trees s settings.language texts
  Step.ofMerge
    (performMerge inputs settings.format.renderer (.greedy settings.matcher) settings.policy)

/-! ## Writing and printing -/

/-- Write the text to the output file, if there is one. -/
def store (r : MergeRequest) (s : Surroundings) (text : Text) : Step Unit :=
  match given r.output with
  | none => return
  | some path => do
    Step.write (s.resolve path) (text ++ "\n")
    Step.say (.info "Wrote merged output" [("path", .str path)])

/-- The JSON that is printed when it is asked for: the report, with the text or with where it
went. -/
def payload (r : MergeRequest) (text : Text) (report : Report) : Text :=
  let target :=
    match given r.output with
    | some path => ("output", Json.str path)
    | none => ("text", Json.str text)
  (Json.obj [("success", .bool true), target, ("report", report.toJson)]).pretty ++ "\n"

/-- Print the JSON if it is asked for, and otherwise the text, unless it went to a file. -/
def answer (r : MergeRequest) (text : Text) (report : Report) : Step Unit :=
  if r.json then Step.print (r.payload text report)
  else
    match given r.output with
    | none => Step.print (text ++ "\n")
    | some _ => return

/-- A warning when there are conflicts. -/
def conflictWarning (report : Report) : Log :=
  match report.conflicts.length with
  | 0 => []
  | n => .plain .warn (Nat.repr n ++ " conflicting change(s) kept at their baseline version")

/-- Write the text to the output file, if there is one, and print what is asked for. -/
def deliver (r : MergeRequest) (s : Surroundings) (outcome : MergeOutcome) : Step Unit := do
  let text := stripFences outcome.text
  r.store s text
  r.answer text outcome.report
  Step.say (conflictWarning outcome.report)

/-- The steps of a merge command. -/
def steps (r : MergeRequest) (s : Surroundings) : Step MergeOutcome := do
  let outcome ← r.outcome s
  r.deliver s outcome
  return outcome

end MergeRequest

/-- Run a merge command. -/
def runMerge (w : Workspace) (r : MergeRequest) : CommandRun MergeOutcome :=
  (r.steps w.toSurroundings).on w.disk

end TreeMerge
