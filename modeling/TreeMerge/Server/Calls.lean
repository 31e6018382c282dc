import TreeMerge.Json.Schema
import TreeMerge.Server.Tools

/-!
# Calls to a server

A server offers the tools by name and checks the arguments of every call. A tool may also be called
with arguments that nobody has checked.

* `ToolCall`, `ToolCall.answer` : a call to one of the tools;
* `Tool`, `Tool.schema`, `Tool.read` : the tools, their arguments, and the call that arguments make;
* `Tool.answer` : the answer of a tool to arguments;
* `Server`, `Server.call` : a server, and its answer to a call.
-/

namespace TreeMerge

/-- A call to one of the tools. -/
inductive ToolCall where
  | merge (call : MergeCall)
  | parse (call : ParseCall)

/-- The answer to a call. -/
def ToolCall.answer (parser : Parser) (diffs : DiffTool) : ToolCall → Except Fault ToolResult × Log
  | .merge call => call.answer parser diffs
  | .parse call => call.answer parser

/-- The tools that are offered. -/
inductive Tool where
  | merge
  | parse
  deriving DecidableEq, Repr

namespace Tool

/-- The name of a tool. -/
def name : Tool → Text
  | .merge => "treeweave_merge"
  | .parse => "treeweave_parse"

/-- All tools, in the order of their names. -/
def all : List Tool :=
  [.merge, .parse]

/-- The tool with a given name. -/
def ofName? (s : Text) : Option Tool :=
  all.find? fun t => t.name == s

/-- The arguments of a tool; others are ignored. -/
def schema : Tool → Check
  | .merge => .openObject [
      ("baseline", .string),
      ("modified", .string),
      ("patched", .optional .string),
      ("patch", .optional .string),
      ("language", .nonEmpty),
      ("format", .optional (.oneOf OutputFormat.names)),
      ("onUnanchored", .optional (.oneOf Policy.names))]
  | .parse => .openObject [
      ("source", .string),
      ("language", .nonEmpty),
      ("format", .optional (.oneOf OutputFormat.names))]

/-- The output format, `usual` where none is asked for. -/
def format? (args : Json) (usual : OutputFormat) : Option OutputFormat :=
  match args.get? "format" with
  | none | some .null => some usual
  | some j => j.str?.bind OutputFormat.ofName?

/-- The policy, if one is asked for that exists. -/
def policy? (args : Json) : Option Policy :=
  (args.get? "onUnanchored").bind fun j => j.str?.bind Policy.ofName?

/-- The call that arguments make. -/
def read (args : Json) : Tool → ToolCall
  | .merge => .merge
      { baseline := args.get? "baseline", modified := args.get? "modified"
        patched := args.get? "patched", patch := args.get? "patch"
        language := args.get? "language", format := format? args .source
        onUnanchored := policy? args }
  | .parse => .parse
      { source := args.get? "source", language := args.get? "language"
        format := format? args .tree }

/-- The answer of a tool to arguments; without a parser they are not even read. -/
def answer (parser : Option Parser) (diffs : DiffTool) (args : Json) (t : Tool) :
    Except Fault ToolResult × Log :=
  match parser with
  | none => (.ok .noParser, [])
  | some p => (t.read args).answer p diffs

end Tool

/-- A server: the parser it has loaded, if any, and its tool for diffs. -/
structure Server where
  parser : Option Parser
  diffs : DiffTool

namespace Server

/-- The log of the start of a server. -/
def startLog (s : Server) : Log :=
  .debug "Server created" [("parser", .bool s.parser.isSome)]

/-- The names of the tools. -/
def tools : List Text :=
  Tool.all.map Tool.name

/-- The answer to a call that the protocol itself refuses. -/
def invalidParams (message : Text) : ToolResult where
  text := "MCP error -32602: " ++ message
  isError := true

/-- The answer to arguments that do not fit the schema of a tool. -/
def invalidArguments (tool : Tool) (issues : List Issue) : ToolResult :=
  invalidParams ("Input validation error: Invalid arguments for tool " ++ tool.name ++ ": " ++
    Text.intercalate "\n" (issues.map fun i => i.message ++ " at " ++ i.location))

/-- What becomes of a fault that no tool foresees. -/
def answerOf : Except Fault ToolResult → ToolResult
  | .ok r => r
  | .error f => { text := f.message, isError := true }

/-- The arguments of a call; a call without any has an empty object of them. -/
def argumentsOf : Option Json → Json
  | none | some .null => .obj []
  | some args => args

/-- The answer to a call of the named tool; a reserved name is no tool, but the table of tools
answers to it. -/
def call (s : Server) (name : Text) (args : Option Json) : ToolResult × Log :=
  match Tool.ofName? name with
  | none =>
    let state := if isReserved name then "disabled" else "not found"
    (invalidParams ("Tool " ++ name ++ " " ++ state), [])
  | some tool =>
    let args := argumentsOf args
    match tool.schema (some args) with
    | [] =>
      let (r, log) := tool.answer s.parser s.diffs args
      (answerOf r, log)
    | issues => (invalidArguments tool issues, [])

end Server

end TreeMerge
