import TreeMerge.Command.Config
import TreeMerge.Command.Refusal
import TreeMerge.Diff.Tool
import TreeMerge.Source.Parser

/-!
# Steps of a command

A command goes on step by step. Every step may log, print, read and write files, and fail; what was
done before a failure stays done.

* `Surroundings`, `Workspace` : where a command runs;
* `Progress`, `Step` : what a command has done so far, and its steps;
* `Step.say`, `Step.print`, `Step.write` : the effects;
* `Step.refuse`, `Step.settled`, `Step.ofMerge`, `Step.file`, `Step.config` : what else a step does;
* `CommandRun`, `Step.after`, `Step.on` : running steps.
-/

namespace TreeMerge

/-- What a command finds besides its files: its directory, the parser, if there is one, and the tool
for diffs. -/
structure Surroundings where
  directory : Text
  parser : Option Parser
  diffs : DiffTool

/-- A path as seen from the directory of a command. -/
def Surroundings.resolve (s : Surroundings) (path : Text) : Text :=
  Path.resolve s.directory path

/-- Where a command runs, with the files it sees. -/
structure Workspace extends Surroundings where
  disk : Disk

/-- What a command has done so far: its log, what it printed, and the files as they stand. -/
structure Progress where
  log : Log := []
  printed : List Text := []
  disk : Disk

/-- A step of a command. -/
abbrev Step (α : Type) := EStateM CommandError Progress α

/-- What a command did, with its result. -/
structure CommandRun (α : Type) extends Progress where
  result : Except CommandError α

namespace Step

/-! ## Effects -/

/-- Log some entries. -/
def say (entries : Log) : Step Unit :=
  modify fun p => { p with log := p.log ++ entries }

/-- Print a text. -/
def print (text : Text) : Step Unit :=
  modify fun p => { p with printed := p.printed ++ [text] }

/-- Take the disk as it is after writing, if that succeeded. -/
def stored : Except DiskFault Disk → Step Unit
  | .error e => throw (.disk e)
  | .ok disk => modify fun p => { p with disk }

/-- Write a file. -/
def write (path text : Text) : Step Unit := do
  stored ((← get).disk.write path text)

/-! ## Results -/

/-- Refuse. -/
def refuse {α : Type} (cause : Refusal) : Step α :=
  throw (.refused cause)

/-- What was settled, or why it is refused. -/
def settled {α : Type} : Except Refusal α → Step α
  | .ok a => return a
  | .error cause => refuse cause

/-- A value with the log of how it was found. -/
def logged {α : Type} (r : α × Log) : Step α := do
  say r.2
  return r.1

/-- What a merge gave, with its log. -/
def ofMerge {α : Type} (r : Except Fault α × Log) : Step α := do
  say r.2
  match r.1 with
  | .ok a => return a
  | .error f => throw (.ofFault f)

/-- The text that was read under a path; there has to be one. -/
def found (path : Text) : Except DiskFault (Option Text) → Step Text
  | .error e => throw (.disk e)
  | .ok none => refuse (.fileNotFound path)
  | .ok (some text) => return text

/-- The text of a file that has to be there. -/
def file (path : Text) : Step Text := do
  found path ((← get).disk.read path)

/-- The configuration of a project. -/
def config (root : Text) : Step Config := do
  logged (Config.load (← get).disk root)

/-! ## Running -/

/-- Go on with a step. -/
def after {α : Type} (x : Step α) (p : Progress) : CommandRun α :=
  match x.run p with
  | .ok a p => { p with result := .ok a }
  | .error e p => { p with result := .error e }

/-- Begin with a step, on a disk. -/
def on {α : Type} (x : Step α) (disk : Disk) : CommandRun α :=
  x.after { disk }

end Step

end TreeMerge
