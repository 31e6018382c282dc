import TreeMerge.Diff.Tool
import TreeMerge.Text.Blank

/-!
# Changes of a unified diff

One way to read unified diffs.

* `ChangeLine`, `Change` : the lines of a change and where it belongs;
* `Change.hunk` : a change as the hunk that others see;
* `findRanges?` : the line ranges of a hunk header;
* `readBody` : the lines of a change;
* `readFiles` : the changes of every file that a diff touches.

Lines end at line feeds, vertical tabs, form feeds and next-line characters; carriage returns are
gone from a normalized text. The numbers of a header have double precision, so that a very large
one is rounded, or infinite.
-/

namespace TreeMerge.Unified

/-! ## Lines -/

/-- The units that end a line. -/
def isLineBreak (u : UInt16) : Bool :=
  u == '\n' || u == 0x0B || u == 0x0C || u == 0x85

/-- The pieces of a text between line breaks, the last one possibly empty. -/
def linesOf (us : List UInt16) : List (List UInt16) :=
  Text.splitWhere isLineBreak us

/-- The line breaks of a text; the `k`-th one ends the `k`-th line. -/
def breaksOf (us : List UInt16) : List UInt16 :=
  us.filter isLineBreak

/-- A line of a diff with the unit that ends it; the last line has none. -/
structure DiffLine where
  text : List UInt16
  ending : Option UInt16

/-- The lines of a diff. -/
def diffLines (us : List UInt16) : List DiffLine :=
  let ends := breaksOf us
  (linesOf us).mapIdx fun k line => ⟨line, ends[k]?⟩

/-! ## Changes -/

/-- What the first unit of a line says. -/
inductive Mark where
  /-- A space: the line is there before and after. -/
  | context
  /-- An empty line, which counts as an empty context line. -/
  | empty
  | removed
  | added
  /-- A backslash: a remark on the line before. -/
  | remark
  deriving DecidableEq, Repr

/-- A line of a change. -/
structure ChangeLine where
  mark : Mark
  /-- The line without its first unit. -/
  content : Text
  /-- The unit that ended the line in the diff. -/
  ending : UInt16

namespace ChangeLine

/-- Lines that the text must have before the change. -/
def isOld (l : ChangeLine) : Bool :=
  l.mark == .context || l.mark == .empty || l.mark == .removed

/-- Lines that the text has after the change. -/
def isNew (l : ChangeLine) : Bool :=
  l.mark == .context || l.mark == .empty || l.mark == .added

/-- The line as it stands in the diff. -/
def text (l : ChangeLine) : Text :=
  match l.mark with
  | .context => " " ++ l.content
  | .empty => ""
  | .removed => "-" ++ l.content
  | .added => "+" ++ l.content
  | .remark => "\\" ++ l.content

end ChangeLine

/-- A change of consecutive lines. A start is missing when the header does not give it. -/
structure Change where
  oldStart : Option Number
  oldCount : Number
  newStart : Option Number
  newCount : Number
  lines : List ChangeLine

/-- The change as a hunk. -/
def Change.hunk (c : Change) : Hunk where
  oldStart := c.oldStart
  oldCount := some c.oldCount
  newStart := c.newStart
  newCount := some c.newCount
  lines := c.lines.map ChangeLine.text

/-! ## Reading headers -/

/-- The two line ranges of a header. -/
structure Ranges where
  oldStart : Option Number := none
  oldCount : Number := .ofNat 1
  newStart : Option Number := none
  newCount : Number := .ofNat 1

/-- A non-empty run of decimal digits as a number. -/
def readNumber? (us : List UInt16) : Option (Number × List UInt16) :=
  match us.takeWhile Text.isDigit with
  | [] => none
  | ds => some (.ofDecimal false (Text.digitsValue ds) 0, us.dropWhile Text.isDigit)

/-- The count after a start: 1 where it is left out. -/
def readCount (us : List UInt16) : Number × List UInt16 :=
  ((Text.after? (Text.units ",") us).bind readNumber?).getD (.ofNat 1, us)

/-- The ranges at the start of a text. -/
def rangesAt? (us : List UInt16) : Option Ranges := do
  let us ← Text.after? (Text.units "@@ -") us
  let (oldStart, us) ← readNumber? us
  let (oldCount, us) := readCount us
  let us ← Text.after? (Text.units " +") us
  let (newStart, us) ← readNumber? us
  let (newCount, us) := readCount us
  let _ ← Text.after? (Text.units " @@") us
  return ⟨some oldStart, oldCount, some newStart, newCount⟩

/-- The first ranges in a text. -/
def findRanges? : List UInt16 → Option Ranges
  | [] => none
  | u :: us =>
    match rangesAt? (u :: us) with
    | some r => some r
    | none => findRanges? us

/-! ## Reading changes -/

/-- Whether a line and the two after it open the next file. -/
def opensFile : List DiffLine → Bool
  | a :: b :: c :: _ =>
    (Text.units "--- ").isPrefixOf a.text && (Text.units "+++ ").isPrefixOf b.text &&
      (Text.units "@@").isPrefixOf c.text
  | _ => false

/-- A line of a change. An empty line is one unless it is the last of the diff. -/
def changeLine? (l : DiffLine) (isLast : Bool) : Option ChangeLine :=
  let ending := l.ending.getD '\n'
  match l.text with
  | [] => if isLast then none else some ⟨.empty, "", ending⟩
  | u :: us =>
    let content : Text := ⟨us⟩
    if u = '+' then some ⟨.added, content, ending⟩
    else if u = '-' then some ⟨.removed, content, ending⟩
    else if u = ' ' then some ⟨.context, content, ending⟩
    else if u = '\\' then some ⟨.remark, content, ending⟩
    else none

/-- The lines of a change and what follows it. -/
def readBody : List DiffLine → List ChangeLine × List DiffLine
  | [] => ([], [])
  | l :: ls =>
    if opensFile (l :: ls) then ([], l :: ls)
    else
      match changeLine? l ls.isEmpty with
      | none => ([], l :: ls)
      | some h =>
        let (hs, rest) := readBody ls
        (h :: hs, rest)

/-- The change of a header and its lines. With a count of zero the header's start is one lower than
the place of the change; a count of one may stand for no line at all. -/
def Change.ofParts (r : Ranges) (lines : List ChangeLine) : Change :=
  let start (given : Option Number) (count : Number) : Option Number :=
    if count = .ofNat 0 then Number.sum? [given, some (.ofNat 1)] else given
  let settled (count : Number) (isCounted : ChangeLine → Bool) : Number :=
    if count = .ofNat 1 && !lines.any isCounted then .ofNat 0 else count
  { oldStart := start r.oldStart r.oldCount
    oldCount := settled r.oldCount ChangeLine.isOld
    newStart := start r.newStart r.newCount
    newCount := settled r.newCount ChangeLine.isNew
    lines }

/-! ## Reading files -/

/-- Whether a line starts with one of the words, followed by a blank. -/
def startsWithWord (words : List Text) (l : DiffLine) : Bool :=
  words.any fun w =>
    match Text.after? w.units l.text with
    | some (u :: _) => Text.isBlank u
    | _ => false

/-- A line that ends the preamble of a file. -/
def endsPreamble : DiffLine → Bool :=
  startsWithWord ["---", "+++", "@@"]

/-- A line that names a file. -/
def namesFile : DiffLine → Bool :=
  startsWithWord ["---", "+++"]

/-- A line that starts the next file. -/
def startsFile : DiffLine → Bool :=
  startsWithWord ["Index:", "diff", "---", "+++"]

/-- Pass over one line that names a file. -/
def dropName : List DiffLine → List DiffLine
  | l :: ls => if namesFile l then ls else l :: ls
  | [] => []

/-- The changes up to the next file, and what follows them. Every step passes over a line. -/
def readChanges : (fuel : Nat) → List DiffLine → List Change × List DiffLine
  | 0, ls => ([], ls)
  | _ + 1, [] => ([], [])
  | fuel + 1, l :: ls =>
    if startsFile l then ([], l :: ls)
    else if (Text.units "@@").isPrefixOf l.text then
      let (body, rest) := readBody ls
      let (changes, rest) := readChanges fuel rest
      (.ofParts ((findRanges? l.text).getD {}) body :: changes, rest)
    else readChanges fuel ls

/-- The changes of every file. Every file passes over a line. -/
def readFilesFrom : (fuel : Nat) → List DiffLine → List (List Change)
  | 0, _ => []
  | _ + 1, [] => []
  | fuel + 1, ls =>
    let named := dropName (dropName (ls.dropWhile fun l => !endsPreamble l))
    let (changes, rest) := readChanges named.length named
    changes :: readFilesFrom fuel rest

/-- The changes of every file that a diff touches; a diff always has at least one file. -/
def readFiles (us : List UInt16) : List (List Change) :=
  let ls := diffLines us
  readFilesFrom ls.length ls

end TreeMerge.Unified
