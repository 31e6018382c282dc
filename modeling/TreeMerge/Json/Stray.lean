import TreeMerge.Json.Reader
import TreeMerge.Json.Schema

/-!
# Stray units

JSON text consists of tokens: punctuation, string literals, numbers and the words `true`, `false`
and `null`. Where a token has to begin and none does, there is a stray unit, and the text is no JSON
text.

* `Reader.token?` : what follows the token at the head of a text;
* `Stray`, `Stray.find?` : the first stray unit, with what stands before and after it;
* `Stray.message` : its wording;
* `Json.complaint` : the wording of why a text is no JSON text.
-/

namespace TreeMerge

/-- The units that are tokens by themselves. -/
def Reader.punctuation : List UInt16 :=
  ['[', ']', '\x7b', '\x7d', ',', ':']

/-- What follows the token at the head of a text, if there is one. -/
def Reader.token? : List UInt16 → Option (List UInt16)
  | [] => none
  | u :: us =>
    if punctuation.contains u then some us
    else if u = '"' then (text us).map Prod.snd
    else if u = 't' then Text.after? (Text.units "rue") us
    else if u = 'f' then Text.after? (Text.units "alse") us
    else if u = 'n' then Text.after? (Text.units "ull") us
    else (number (u :: us)).map Prod.snd

/-- A stray unit in a text. -/
structure Stray where
  /-- The units before it. -/
  before : List UInt16
  /-- The units from it on. -/
  after : List UInt16
  /-- Whether it stands behind a minus sign, where digits have to be. -/
  negative : Bool

namespace Stray

/-- The units from the first stray one on, and whether it stands behind a minus sign; passes over
`fuel` tokens at most. -/
def search : Nat → List UInt16 → Option (List UInt16 × Bool)
  | 0, _ => none
  | fuel + 1, us =>
    match Reader.skip us with
    | [] => none
    | u :: us =>
      match Reader.token? (u :: us) with
      | some rest => search fuel rest
      | none => if u = '-' then some (us, true) else some (u :: us, false)

/-- The first stray unit of a text. -/
def find? (t : Text) : Option Stray :=
  (search (t.units.length + 1) t.units).map fun (after, negative) =>
    { before := t.units.take (t.units.length - after.length), after, negative }

/-- How many units are shown on either side. -/
def margin : Nat := 10

/-- Where it stands: the position, and the line with the column, which are counted from one. -/
def place (s : Stray) : Text :=
  let line := s.before.count (Text.unit '\n') + 1
  let column := (s.before.reverse.takeWhile fun u => u != Text.unit '\n').length + 1
  "position " ++ Nat.repr s.before.length ++ " (line " ++ Nat.repr line ++ " column " ++
    Nat.repr column ++ ")"

/-- What stands around it, between quotation marks, with dots where a long text goes on. -/
def context (s : Stray) : Text :=
  let long := 2 * margin < s.before.length + s.after.length
  let cutBefore := long && margin ≤ s.before.length
  let cutAfter := long && (s.before.length < margin || margin < s.after.length)
  let before := if cutBefore then s.before.drop (s.before.length - margin) else s.before
  let after := if cutAfter then s.after.take margin else s.after
  (if cutBefore then "..." else "") ++ "\"" ++ ⟨before ++ after⟩ ++ "\"" ++
    (if cutAfter then "..." else "")

/-- The wording of a stray unit. -/
def message (s : Stray) : Text :=
  if s.negative then "No number after minus sign in JSON at " ++ s.place
  else "Unexpected token " ++ quoted ⟨s.after.take 1⟩ ++ ", " ++ s.context ++ " is not valid JSON"

end Stray

/-- Why a text is no JSON text: a stray unit, or else that it breaks off. -/
def Json.complaint (t : Text) : Text :=
  match Stray.find? t with
  | some stray => stray.message
  | none => "Unexpected end of JSON input"

end TreeMerge
