import TreeMerge.Log
import TreeMerge.Reserved
import TreeMerge.Source.Language
import TreeMerge.Text.Blank
import TreeMerge.Tree.Basic

/-!
# Parsers

A parser offers languages by their keys and turns source text into a node.

* `Parsed` : what a parser finds, where every node has its text;
* `Parsed.toNode` : the node of a find: only leaves keep their text, as label;
* `Parser`, `Parser.unlinked` : parsers;
* `parseSource` : the tree of a text, or the log of why there is none.
-/

namespace TreeMerge

/-- Syntax as a parser finds it: kinds, texts and children. -/
abbrev Parsed := Rose Content

namespace Parsed

mutual

/-- The node of a find: a leaf is labelled with its text, an inner node has no label. -/
def toNode : Parsed → Node
  | .node c [] => .node c []
  | .node c (p :: ps) => .node ⟨c.kind, ""⟩ (toNode p :: toNodes ps)

/-- The nodes of a list of finds. -/
def toNodes : List Parsed → List Node
  | [] => []
  | p :: ps => toNode p :: toNodes ps

end

end Parsed

/-- A parser: the keys of its languages, and how it reads a text in one of them. It may fail, with a
reason. -/
structure Parser where
  languages : List Text
  parse : (language source : Text) → Except Reason Parsed

namespace Parser

/-- The languages of the command line. Grammars are supplied by a parser that is linked in from
outside; without one, every text in these languages is refused with a reason. -/
def unlinked : Parser where
  languages := ["Html", "JavaScript", "Tsx", "Css", "TypeScript"]
  parse := fun _ _ => .error (some "No grammar is linked")

/-- Whether a parser takes texts in a language: one of its own, or a reserved name, which its table
of languages answers to as well. -/
def offers (p : Parser) (language : Text) : Bool :=
  p.languages.contains language || isReserved language

end Parser

/-- The tree of a source text. Blank text, a language that the parser does not offer and a parser
that fails give none; a language without a key and a parser that fails without words are a fault. -/
def parseSource (parser : Parser) (language : AskedLanguage) (source : Text) :
    Except Fault (Option Tree) × Log :=
  if Text.isBlankText source then (.ok none, .plain .warn "Skipping parse: source is empty")
  else
    match language.key? with
    | none => (.error .wordless, [])
    | some key =>
      if !parser.offers key then
        (.ok none, .plain .error ("Language " ++ key ++ " is not available in @ast-grep/napi"))
      else
        match parser.parse key source with
        | .error none => (.error .wordless, [])
        | .error (some reason) =>
          (.ok none, .error "Parse failed" [("lang", language.asked), ("error", .str reason)])
        | .ok found => (.ok (some (.ofNode found.toNode)), [])

end TreeMerge
