import TreeMerge.Unified.Changes

/-!
# Applying changes

Each change is tried at the place its header gives, shifted as the changes before it were, then at
growing distances after and before that place. Its old lines must be there exactly. When all changes
have a place they are applied in order.

* `Position` : a place in a text;
* `fits` : whether the old lines of a change stand at a position;
* `shifts` : the shifts that are tried, nearest first;
* `placeChanges` : a shift for every change;
* `Editing`, `applyLines`, `applyPlaced` : changing the text;
* `applyChanges` : the changed text;
* `tool` : the reader and the applier together.

Only a change without old lines fits at a missing position, and its lines go to the front of the
text.
-/

namespace TreeMerge.Unified

/-! ## Finding places -/

/-- A place in a text, counted in lines from its start. It may lie outside the text, and it is
missing where the header of a change gives none. -/
abbrev Position := Option Number

/-- The position some lines further on. -/
def Position.shift (pos : Position) (lines : Int) : Position :=
  Number.sum? [pos, some (.ofInt lines)]

/-- The line at a position, if there is one. -/
def lineAt? (lines : List Text) (pos : Position) : Option Text :=
  (pos.bind Number.toNat?).bind fun i => lines[i]?

/-- Whether the old lines of a change stand in the text from a position on. -/
def fits (lines : List Text) : List ChangeLine → Position → Bool
  | [], _ => true
  | l :: ls, pos =>
    if l.isOld then lineAt? lines pos == some l.content && fits lines ls (pos.shift 1)
    else fits lines ls pos

/-- How many lines the place `b` lies after the place `a`; none if one of them is no line number. -/
def reach (a b : Position) : Nat :=
  match a.bind Number.toInt?, b.bind Number.toInt? with
  | some i, some j => (j - i).toNat
  | _, _ => 0

/-- The shifts that are tried from a position in a text of `length` lines: none, then one line
after, one before, two after and so on, as far as `last` allows after it and `first` before it.
Distances that lead from outside the text to outside the text are passed over. -/
def shifts (length : Nat) (start first last : Position) : List Int :=
  let ahead := reach start last
  let back := reach first start
  let near := max 1 (max (reach start (some (.ofNat 0))) (reach (some (.ofInt (length - 1))) start))
  0 :: (List.range' near (max ahead back + 1 - near)).flatMap fun (k : Nat) =>
    (if k ≤ ahead then [(k : Int)] else []) ++ (if k ≤ back then [-(k : Int)] else [])

/-- Where a change is tried first: `shift` is that of the changes before it. -/
def Change.start (h : Change) (shift : Int) : Position :=
  Number.sum? [some (.ofInt shift), h.oldStart, some (.ofInt (-1))]

/-- The last place of a change in a text of `length` lines, by the count of its header. -/
def Change.last (h : Change) (length : Nat) : Position :=
  Number.sum? [some (.ofNat length), some h.oldCount.neg]

/-- The first line that a change leaves free, by the count of its header. -/
def Change.free (h : Change) (shift : Int) : Position :=
  Number.sum? [some (.ofInt shift), h.oldStart, some h.oldCount]

/-- A shift for every change: `shift` is that of the changes before, `first` the first line they
leave free. -/
def placeChanges (lines : List Text) (shift : Int) (first : Position) :
    List Change → Option (List (Change × Int))
  | [] => some []
  | h :: hs =>
    let start := h.start shift
    let tried := shifts lines.length start first (h.last lines.length)
    match tried.find? fun d => fits lines h.lines (start.shift d) with
    | none => none
    | some d => (placeChanges lines (shift + d) (h.free (shift + d)) hs).map ((h, shift + d) :: ·)

/-! ## Changing text -/

/-- The index that a position means in a list: a missing one is the front, a negative one counts
from the end, and one past the end is the end. -/
def indexAt (length : Nat) : Position → Nat
  | none | some (.infinite true) => 0
  | some (.infinite false) => length
  | some (.finite q) => if q < 0 then (length + q.floor).toNat else min q.floor.toNat length

/-- Insert an item at a position. -/
def insertAt {α : Type} (pos : Position) (x : α) (xs : List α) : List α :=
  let i := indexAt xs.length pos
  xs.take i ++ x :: xs.drop i

/-- Remove the item at a position, if there is one. -/
def removeAt {α : Type} (pos : Position) (xs : List α) : List α :=
  xs.eraseIdx (indexAt xs.length pos)

/-- A text that is being changed. -/
structure Editing where
  lines : List Text
  breaks : List UInt16
  /-- A remark says that the new text does not end its last line. -/
  openEnd : Bool := false
  /-- A remark says that the old text did not end its last line. -/
  closedEnd : Bool := false

/-- Apply the lines of a change from a position on; `before` is the mark of the line before. -/
def applyLines : List ChangeLine → Position → Option Mark → Editing → Editing
  | [], _, _, e => e
  | l :: ls, pos, before, e =>
    let next := pos.shift 1
    match l.mark with
    | .context | .empty => applyLines ls next l.mark e
    | .removed =>
      applyLines ls pos l.mark
        { e with lines := removeAt pos e.lines, breaks := removeAt pos e.breaks }
    | .added =>
      applyLines ls next l.mark
        { e with lines := insertAt pos l.content e.lines, breaks := insertAt pos l.ending e.breaks }
    | .remark =>
      applyLines ls pos l.mark
        { e with
          openEnd := e.openEnd || before == some .added
          closedEnd := e.closedEnd || before == some .removed }

/-- Apply placed changes in order; `drift` is how many lines those before have added, by the counts
of their headers. -/
def applyPlaced : List (Change × Int) → (drift : Option Number) → Editing → Editing
  | [], _, e => e
  | (h, shift) :: hs, drift, e =>
    let pos := Number.sum? [h.oldStart, some (.ofInt shift), drift, some (.ofInt (-1))]
    let growth := Number.sum? [some h.newCount, some h.oldCount.neg]
    applyPlaced hs (Number.sum? [drift, growth]) (applyLines h.lines pos none e)

/-- Settle the end of the text: empty last lines go, or an empty last line is added. -/
def Editing.close (e : Editing) : Editing :=
  if e.openEnd then
    let empties := (e.lines.reverse.takeWhile Text.isEmpty).length
    { e with
      lines := e.lines.take (e.lines.length - empties)
      breaks := e.breaks.take (e.breaks.length - empties) }
  else if e.closedEnd then
    { e with
      lines := e.lines ++ [Text.ofString ""]
      breaks := e.breaks ++ [Text.unit '\n'] }
  else e

/-- Lines joined by their breaks; a line that lacks its break is followed by a fixed word. -/
def joinLines : List Text → List UInt16 → Text
  | [], _ => ""
  | [l], _ => l
  | l :: ls, [] => l ++ "undefined" ++ joinLines ls []
  | l :: ls, b :: bs => l ++ ⟨[b]⟩ ++ joinLines ls bs

/-- The changed text, `none` when a change has no place. -/
def applyChanges (source : List UInt16) (changes : List Change) : Option Text :=
  let lines := (linesOf source).map Text.mk
  (placeChanges lines 0 (some (.ofNat 0)) changes).map fun placed =>
    let e := (applyPlaced placed (some (.ofNat 0)) { lines, breaks := breaksOf source }).close
    joinLines e.lines e.breaks

/-- Every diff can be read. -/
def tool : DiffTool where
  Patch := List Change
  hunks := fun changes => changes.map Change.hunk
  read := fun diff => .ok (readFiles diff.units)
  apply := fun source changes => applyChanges source.units changes

end TreeMerge.Unified
