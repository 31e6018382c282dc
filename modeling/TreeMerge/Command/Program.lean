import TreeMerge.Command.Arguments
import TreeMerge.Command.Parse
import TreeMerge.Command.Suggestion

/-!
# The program

* `Command` : the commands with their arguments and options;
* `UsageError` : what can be wrong with arguments, and its wording;
* `Invocation`, `readArguments` : what the program is asked;
* `runProgram` : what it writes, its exit code, and the files it leaves.
-/

namespace TreeMerge

/-! ## Commands -/

/-- The commands of the program. -/
inductive Command where
  /-- Merge two versions of a file against their baseline. -/
  | merge
  /-- Print the syntax tree of a file. -/
  | parse
  deriving DecidableEq, Repr

namespace Command

/-- All commands, in the order in which they are offered. -/
def all : List Command :=
  [.merge, .parse]

/-- The name of a command. -/
def name : Command → Text
  | .merge => "merge"
  | .parse => "parse"

/-- The command with a given name. -/
def ofName? (s : Text) : Option Command :=
  all.find? fun c => c.name == s

/-- The arguments that a command requires. -/
def required : Command → List Text
  | .merge => ["baseline", "modified"]
  | .parse => ["file"]

/-- The arguments that a command may also take. -/
def optional : Command → List Text
  | .merge => ["patched"]
  | .parse => []

/-- The option that names a language. -/
def languageFlag : Flag := { long := "--lang", value := some "key" }

/-- The option that names an output format. -/
def formatFlag : Flag := { long := "--format", value := some "format" }

/-- The options that govern the log. -/
def logFlags : List Flag :=
  [{ long := "--verbose", short := some "-v" }, { long := "--quiet", short := some "-q" }]

/-- The options of a command. -/
def flags : Command → List Flag
  | .merge => [
      { long := "--patch", value := some "file" },
      languageFlag,
      formatFlag,
      { long := "--input-format", value := some "format" },
      { long := "--output", short := some "-o", value := some "file" },
      { long := "--on-unanchored", value := some "policy" },
      { long := "--json" }] ++ logFlags
  | .parse => [languageFlag, formatFlag] ++ logFlags

end Command

/-- The options of the program itself. -/
def programFlags : List Flag :=
  [{ long := "--version", short := some "-V" }]

/-- The version of the program. -/
def programVersion : Text :=
  "0.1.0"

/-- The names of an option that asks for help. -/
def helpNames : List Text :=
  ["-h", "--help"]

/-- How the program is used. -/
def usageText : Text :=
  linesText ("Usage: treeweave [options] [command]" :: Command.all.flatMap fun c =>
    ("  " ++ c.name ++ " [options]" ++ Text.join (c.required.map fun a => " <" ++ a ++ ">") ++
      Text.join (c.optional.map fun a => " [" ++ a ++ "]")) ::
      c.flags.map fun f => "    " ++ f.text)

/-! ## Reading arguments -/

/-- What can be wrong with arguments. -/
inductive UsageError where
  /-- A command that does not exist. -/
  | unknownCommand (name : Text)
  /-- An option that does not exist; `offered` are the long names of those that do. -/
  | unknownOption (word : Text) (offered : List Text)
  | missingArgument (name : Text)
  | missingValue (f : Flag)

/-- The wording of an error. -/
def UsageError.message : UsageError → Text
  | .unknownCommand name =>
    "error: unknown command '" ++ name ++ "'" ++
      suggestion name (Command.all.map Command.name ++ [Text.ofString "help"])
  | .unknownOption word offered =>
    "error: unknown option '" ++ word ++ "'" ++
      (if (Text.after? (Text.units "--") word.units).isSome then suggestion word offered else "")
  | .missingArgument name => "error: missing required argument '" ++ name ++ "'"
  | .missingValue f => "error: option '" ++ f.text ++ "' argument missing"

/-- What the program is asked. -/
inductive Invocation where
  | version
  /-- Say how the program is used; `asked` tells whether that is what was wanted. -/
  | help (asked : Bool)
  | merge (request : MergeRequest) (verbosity : Verbosity)
  | parse (request : ParseRequest) (verbosity : Verbosity)

/-- Whether help is asked for. -/
def asksHelp (words : List Text) : Bool :=
  words.any fun w => helpNames.contains w

/-- The long names of options, with those that every command knows. -/
def offeredNames (flags : List Flag) : List Text :=
  flags.map Flag.long ++ [Text.ofString "--help", "--version"]

/-- How much of the log is shown. -/
def Scan.verbosity (s : Scan) : Verbosity where
  verbose := s.has "--verbose"
  quiet := s.has "--quiet"

/-- What a command is asked: `args` are its operands, `s` its options. JSON output keeps the log
quiet. -/
def Command.request (args : List Text) (s : Scan) : Command → Invocation
  | .merge =>
    let json := s.has "--json"
    .merge
      { baseline := args[0]?.getD ""
        modified := args[1]?.getD ""
        patched := args[2]?
        patch := s.value? "--patch"
        language := s.value? "--lang"
        format := s.value? "--format"
        inputFormat := s.value? "--input-format"
        output := s.value? "--output"
        onUnanchored := s.value? "--on-unanchored"
        json }
      { s.verbosity with quiet := s.verbosity.quiet || json }
  | .parse =>
    .parse
      { file := args[0]?.getD "", language := s.value? "--lang", format := s.value? "--format" }
      s.verbosity

/-- Read the arguments of a command: first its options, then whether help is asked for, then what is
unknown, then what is missing. Operands beyond those it takes are ignored. -/
def Command.read (c : Command) (operands others : List Text) :
    Except UsageError Invocation :=
  match scan c.flags others with
  | .error f => .error (.missingValue f)
  | .ok s =>
    let args := operands ++ s.operands
    if asksHelp s.others then .ok (.help true)
    else
      match s.others, c.required[args.length]? with
      | word :: _, _ => .error (.unknownOption word (offeredNames c.flags))
      | [], some name => .error (.missingArgument name)
      | [], none => .ok (c.request args s)

/-- Read the arguments of the program. -/
def readArguments (args : List Text) : Except UsageError Invocation :=
  match scan programFlags args with
  | .error f => .error (.missingValue f)
  | .ok s =>
    if s.has "--version" then .ok .version
    else
      match s.operands with
      | name :: operands =>
        match Command.ofName? name with
        | some c => c.read operands s.others
        | none =>
          if name = "help" || asksHelp s.others then .ok (.help true)
          else .error (.unknownCommand name)
      | [] =>
        match s.others with
        | [] => .ok (.help false)
        | word :: _ =>
          if asksHelp s.others then .ok (.help true)
          else .error (.unknownOption word (offeredNames []))

/-- The files that the program may read or write, as seen from a directory. -/
def Invocation.paths (directory : Text) : Invocation → List Text
  | .version | .help _ => []
  | .merge r _ =>
    Config.path directory :: ([some r.baseline, some r.modified, given r.patched, given r.patch,
      given r.output].filterMap id).map (Path.resolve directory)
  | .parse r _ => [Config.path directory, Path.resolve directory r.file]

/-! ## Running -/

/-- What the program does: its output, its exit code, and the files it leaves. -/
structure ProgramRun where
  streams : Streams
  exitCode : Number
  disk : Disk

/-- What a failed command says. A fault that no command foresees is told to people only. -/
def CommandError.notice (json : Bool) : CommandError → Notice
  | .refused cause => cause.notice json
  | .disk f => { message := f.message }
  | .fault f => { message := f.message }

/-- The output of a command: its log and what it printed, and its notice if it failed. -/
def CommandRun.toProgramRun {α : Type} (run : CommandRun α) (v : Verbosity) (json : Bool) :
    ProgramRun :=
  let printed := Text.join run.printed
  let logged := linesText (consoleLines v false run.log)
  match run.result with
  | .ok _ =>
    { streams := { out := printed, err := logged }, exitCode := .ofNat 0, disk := run.disk }
  | .error e =>
    let notice := e.notice json
    let said := notice.render false
    { streams := { out := printed ++ said.out, err := logged ++ said.err }
      exitCode := notice.exitCode
      disk := run.disk }

/-- Run the program with its arguments. -/
def runProgram (w : Workspace) (args : List Text) : ProgramRun :=
  match readArguments args with
  | .error e =>
    { streams := { err := linesText [e.message] }, exitCode := .ofNat 1, disk := w.disk }
  | .ok .version =>
    { streams := { out := linesText [programVersion] }, exitCode := .ofNat 0, disk := w.disk }
  | .ok (.help true) => { streams := { out := usageText }, exitCode := .ofNat 0, disk := w.disk }
  | .ok (.help false) => { streams := { err := usageText }, exitCode := .ofNat 1, disk := w.disk }
  | .ok (.merge request v) => (runMerge w request).toProgramRun v request.json
  | .ok (.parse request v) => (runParse w request).toProgramRun v false

end TreeMerge
