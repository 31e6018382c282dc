import TreeMerge.Render.Dump
import TreeMerge.Render.Tokens
import TreeMerge.Tree.Format

/-!
# Input and output formats

* `InputFormat`, `OutputFormat` : the formats, with their names;
* `Renderer` : a function from trees to text that may fail;
* `OutputFormat.render` : the text of a tree in a format;
* `OutputFormat.renderer`, `OutputFormat.rendererOf` : the renderer of a format.
-/

namespace TreeMerge

/-- How input is read: as source text, or as a tree document. -/
inductive InputFormat where
  | source
  | json
  deriving DecidableEq, Repr

namespace InputFormat

/-- The name of a format. -/
def name : InputFormat → Text
  | .source => "source"
  | .json => "json"

/-- All formats, in the order in which they are offered. -/
def all : List InputFormat :=
  [.source, .json]

/-- The names of all formats. -/
def names : List Text :=
  all.map name

/-- The format with a given name. -/
def ofName? (s : Text) : Option InputFormat :=
  all.find? fun f => f.name == s

end InputFormat

/-- How a tree is written: as a line of source, as a dump, or as a tree document. -/
inductive OutputFormat where
  | source
  | tree
  | json
  deriving DecidableEq, Repr

namespace OutputFormat

/-- The name of a format. -/
def name : OutputFormat → Text
  | .source => "source"
  | .tree => "tree"
  | .json => "json"

/-- All formats, in the order in which they are offered. -/
def all : List OutputFormat :=
  [.source, .tree, .json]

/-- The names of all formats. -/
def names : List Text :=
  all.map name

/-- The format with a given name. -/
def ofName? (s : Text) : Option OutputFormat :=
  all.find? fun f => f.name == s

/-- The text of a tree in a format. -/
def render (f : OutputFormat) (t : Tree) : Text :=
  match f with
  | .source => Node.source t.node
  | .tree => Node.dump t.node
  | .json => t.document

end OutputFormat

/-- Turns a tree into text, or says why it cannot. -/
abbrev Renderer := Tree → Except Reason Text

/-- The renderer of a format, which never fails. -/
def OutputFormat.renderer (f : OutputFormat) : Renderer :=
  fun t => .ok (f.render t)

/-- The renderer of a format that was asked for; one that does not exist fails on every tree. -/
def OutputFormat.rendererOf : Option OutputFormat → Renderer
  | some f => f.renderer
  | none => fun _ => .error (some Fault.noRenderer.message)

end TreeMerge
