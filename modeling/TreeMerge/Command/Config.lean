import TreeMerge.Command.Disk
import TreeMerge.Json.Reader
import TreeMerge.Json.Schema
import TreeMerge.Log
import TreeMerge.Merge.Options
import TreeMerge.Render.Format

/-!
# Project configuration

A configuration is a JSON document with defaults for the options of a merge; no key is required and
no other keys are allowed.

* `Config`, `Config.toJson` : the settings;
* `Config.schema`, `Config.ofJson?` : what a document may hold, and its settings;
* `Config.directory`, `Config.path` : where the document is looked for;
* `Config.load` : the settings of a project; a document that is no configuration is ignored.
-/

namespace TreeMerge

/-- Defaults for the options of a merge. -/
structure Config where
  format : Option OutputFormat := none
  inputFormat : Option InputFormat := none
  onUnanchored : Option Policy := none
  /-- The language of files whose extension is not known. -/
  language : Option Text := none
  matcher : Option MatcherChoice := none

/-- The thresholds that are set. -/
def MatcherChoice.toJson (m : MatcherChoice) : Json :=
  .obj (Json.member "minHeight" (m.minHeight.map fun q => .num (.finite q)) ++
    Json.member "minDice" (m.minDice.map fun q => .num (.finite q)))

namespace Config

/-- The settings, in their fixed order. -/
def toJson (c : Config) : Json :=
  .obj (Json.member "format" (c.format.map fun f => .str f.name) ++
    Json.member "inputFormat" (c.inputFormat.map fun f => .str f.name) ++
    Json.member "onUnanchored" (c.onUnanchored.map fun p => .str p.name) ++
    Json.member "lang" (c.language.map .str) ++
    Json.member "matcher" (c.matcher.map MatcherChoice.toJson))

/-! ## Documents -/

/-- What a configuration document may hold. -/
def schema : Check :=
  .strictObject [
    ("format", .optional (.oneOf OutputFormat.names)),
    ("inputFormat", .optional (.oneOf InputFormat.names)),
    ("onUnanchored", .optional (.oneOf Policy.names)),
    ("lang", .optional .nonEmpty),
    ("matcher", .optional (.strictObject [
      ("minHeight", .optional (.number [Check.integer, Check.atLeast 1])),
      ("minDice", .optional (.number [Check.atLeast 0, Check.atMost 1]))]))]

/-- A number among the thresholds. -/
def threshold? (j : Json) (key : Text) : Option Rat :=
  (j.get? key).bind fun v => v.num?.bind Number.toRat?

/-- A name among the settings. -/
def name? (j : Json) (key : Text) : Option Text :=
  (j.get? key).bind Json.str?

/-- The settings of a document that fits the schema. -/
def ofChecked (j : Json) : Config where
  format := (name? j "format").bind OutputFormat.ofName?
  inputFormat := (name? j "inputFormat").bind InputFormat.ofName?
  onUnanchored := (name? j "onUnanchored").bind Policy.ofName?
  language := name? j "lang"
  matcher := (j.get? "matcher").map fun m =>
    { minHeight := threshold? m "minHeight", minDice := threshold? m "minDice" }

/-- The settings of a document, or the first thing that is wrong with it. -/
def ofJson? (j : Json) : Except Issue Config :=
  match schema (some j) with
  | issue :: _ => .error issue
  | [] => .ok (ofChecked j)

/-! ## Loading -/

/-- The directory of the configuration of a project. -/
def directory (root : Text) : Text :=
  Path.join root ".treeweave"

/-- The path of the configuration of a project. -/
def path (root : Text) : Text :=
  Path.join (directory root) "config.json"

/-- A document that is no JSON is ignored with a warning; where it breaks off is not recorded. -/
def malformed (path : Text) : Config × Log :=
  ({}, .warn "Ignoring malformed config" [("path", .str path), ("error", .str "*")])

/-- A document that does not fit the schema is ignored with a warning. -/
def invalid (path : Text) (issue : Issue) : Config × Log :=
  ({}, .warn "Ignoring invalid config" [
    ("path", .str path), ("key", .str issue.location), ("error", .str issue.message)])

/-- The settings of the document `text`, which stands under `path`. -/
def ofText (path text : Text) : Config × Log :=
  match Json.parse? text with
  | none => malformed path
  | some j =>
    match ofJson? j with
    | .error issue => invalid path issue
    | .ok config => (config, [])

/-- The settings of a project; without a document there are none. -/
def load (disk : Disk) (root : Text) : Config × Log :=
  match disk.read (path root) with
  | .error _ => malformed (path root)
  | .ok none => ({}, [])
  | .ok (some text) => ofText (path root) text

end Config

end TreeMerge
