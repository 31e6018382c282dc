import TreeMerge.Command.Disk
import TreeMerge.Command.Notice
import TreeMerge.Fault
import TreeMerge.Merge.Options
import TreeMerge.Render.Format

/-!
# Refused commands

* `Refusal` : why a command is refused;
* `Refusal.notice` : what it says then, and the exit code;
* `CommandError` : a refusal, or a fault that no command foresees.
-/

namespace TreeMerge

/-- Why a command is refused. -/
inductive Refusal where
  /-- An output format that is not offered; `listed` asks for the names of those that are. -/
  | unknownFormat (name : Text) (listed : Bool)
  | unknownInputFormat (name : Text)
  | unknownPolicy (name : Text)
  /-- Both a patched file and a diff. -/
  | patchedTwice
  /-- Neither a patched file nor a diff. -/
  | patchedMissing
  | unknownLanguage (file : Text)
  | fileNotFound (path : Text)
  /-- No parser could be loaded; `advised` asks for a way to get one. -/
  | noParser (advised : Bool)
  | notParsed (file : Text)
  /-- A merge that was refused under a name. -/
  | mergeRefused (name : Text) (fault : Fault)

namespace Refusal

/-- The exit code for wrong arguments. -/
def usage : Number := .ofNat 2

/-- The exit code for a merge that was refused. -/
def refusedMerge : Number := .ofNat 3

/-- The line that lists the names one may choose from. -/
def choices (names : List Text) : List Text :=
  ["Expected one of: " ++ Text.intercalate ", " names]

/-- What a refused command says. -/
def notice (json : Bool) : Refusal → Notice
  | .unknownFormat name listed =>
    { json, message := "Unknown format: " ++ name, exitCode := usage
      humanDetails := if listed then some (choices OutputFormat.names) else none }
  | .unknownInputFormat name =>
    { json, message := "Unknown input format: " ++ name, exitCode := usage
      humanDetails := some (choices InputFormat.names) }
  | .unknownPolicy name =>
    { json, message := "Unknown unanchored policy: " ++ name, exitCode := usage
      humanDetails := some (choices Policy.names) }
  | .patchedTwice =>
    { json, message := "Pass either a patched file or --patch, not both", exitCode := usage }
  | .patchedMissing =>
    { json, message := "Missing patched version", exitCode := usage
      humanMessage := some "Missing patched version. Pass a patched file or --patch <diff>" }
  | .unknownLanguage file =>
    { json, message := "Cannot detect the language of " ++ file, exitCode := usage
      humanDetails := some ["Pass --lang <key>, e.g. --lang TypeScript"] }
  | .fileNotFound path => { json, message := "File not found: " ++ path }
  | .noParser advised =>
    { json, message := "@ast-grep/napi is not available"
      humanDetails :=
        if advised then some ["Install it with: npm install @ast-grep/napi"] else none }
  | .notParsed file => { json, message := "Could not parse " ++ file }
  | .mergeRefused name fault =>
    { json, message := fault.message, exitCode := refusedMerge
      extra := some [("errorType", .str name)] }

end Refusal

/-- Why a command fails. -/
inductive CommandError where
  | refused (cause : Refusal)
  | disk (fault : DiskFault)
  | fault (fault : Fault)

/-- A fault of a merge: a refusal, if it has the name of one. -/
def CommandError.ofFault (f : Fault) : CommandError :=
  match f.refusal? with
  | some name => .refused (.mergeRefused name f)
  | none => .fault f

end TreeMerge
