import TreeMerge.Merge.Perform
import TreeMerge.Source.Parser

/-!
# Reading the versions of a file

* `MergeInputs.inTurn` : trees that are parsed one after the other;
* `VersionTexts` : the texts of the three versions;
* `VersionTexts.parse` : their trees, by a parser;
* `VersionTexts.readTrees` : their trees, from tree documents.
-/

namespace TreeMerge

/-- The trees of versions that are parsed one after the other, each with its log. A fault ends it
all, and what would come after it leaves no log. -/
def MergeInputs.inTurn (baseline modified patched : Except Fault (Option Tree) × Log) :
    Except Fault MergeInputs × Log :=
  match baseline, modified, patched with
  | (.error f, log₁), _, _ => (.error f, log₁)
  | (.ok _, log₁), (.error f, log₂), _ => (.error f, log₁ ++ log₂)
  | (.ok _, log₁), (.ok _, log₂), (.error f, log₃) => (.error f, log₁ ++ log₂ ++ log₃)
  | (.ok b, log₁), (.ok m, log₂), (.ok p, log₃) => (.ok ⟨b, m, p⟩, log₁ ++ log₂ ++ log₃)

/-- The texts of the three versions; the patched one is missing when a patch did not apply. -/
structure VersionTexts where
  baseline : Text
  modified : Text
  patched : Option Text

namespace VersionTexts

/-- Parse the texts one after the other. A text that does not parse leaves its tree missing. -/
def parse (t : VersionTexts) (parser : Parser) (language : AskedLanguage) :
    Except Fault MergeInputs × Log :=
  MergeInputs.inTurn (parseSource parser language t.baseline)
    (parseSource parser language t.modified)
    (match t.patched with
    | none => (.ok none, [])
    | some text => parseSource parser language text)

/-- The tree document of one version. -/
def readTree (version : Version) (text : Text) : Except Fault (Option Tree) :=
  (Tree.ofDocument? text).mapError (.treeFormat (some version))

/-- Read the texts as tree documents, one after the other. A blank one leaves its tree missing, a
malformed one is a fault. -/
def readTrees (t : VersionTexts) : Except Fault MergeInputs := do
  let baseline ← readTree .baseline t.baseline
  let modified ← readTree .modified t.modified
  let patched ←
    match t.patched with
    | none => .ok none
    | some text => readTree .patched text
  .ok ⟨baseline, modified, patched⟩

end VersionTexts

end TreeMerge
