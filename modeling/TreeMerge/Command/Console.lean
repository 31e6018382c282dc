import TreeMerge.Json.Writer
import TreeMerge.Log
import TreeMerge.Text.Cut

/-!
# Terminal lines

* `Color`, `paint` : coloured text;
* `Verbosity`, `consoleLines` : the lines of a log on a terminal;
* `serverLines` : the lines of a log on the error stream of a server.
-/

namespace TreeMerge

/-! ## Colours -/

/-- The colours of terminal lines. -/
inductive Color where
  | gray
  | blue
  | yellow
  | red
  deriving DecidableEq, Repr

namespace Color

/-- The number of a colour in an escape sequence. -/
def code : Color → Text
  | .gray => "90"
  | .blue => "34"
  | .yellow => "33"
  | .red => "31"

/-- An escape sequence that sets a colour by its number. -/
def sequence (code : Text) : List UInt16 :=
  0x1B :: '[' :: (code.units ++ [Text.unit 'm'])

/-- Switches a colour on. -/
def start (c : Color) : List UInt16 :=
  sequence c.code

/-- Goes back to the default colour. -/
def stop : List UInt16 :=
  sequence "39"

/-- Leave the colour before every line end and take it up again after it. -/
def aroundLineEnds (c : Color) : List UInt16 → List UInt16
  | [] => []
  | u :: us =>
    if u = '\n' then stop ++ u :: (c.start ++ c.aroundLineEnds us)
    else if u = '\r' then
      match us with
      | [] => [u]
      | v :: vs =>
        if v = '\n' then stop ++ u :: v :: (c.start ++ c.aroundLineEnds vs)
        else u :: c.aroundLineEnds (v :: vs)
    else u :: c.aroundLineEnds us

end Color

/-- Text in a colour, if colours are on. Where the text itself goes back to the default colour, the
colour is taken up again. -/
def paint (on : Bool) (c : Color) (text : Text) : Text :=
  if on then
    let body := Text.replaceAll Color.stop (Color.stop ++ c.start) text.units
    ⟨c.start ++ c.aroundLineEnds body ++ Color.stop⟩
  else text

/-! ## Logs -/

/-- How much of a log is shown. -/
structure Verbosity where
  verbose : Bool := false
  quiet : Bool := false

/-- The colour of a level. -/
def Level.color : Level → Color
  | .debug => .gray
  | .info => .blue
  | .warn => .yellow
  | .error => .red

namespace Verbosity

/-- Whether entries of a level are shown: warnings and errors always are. -/
def shows (v : Verbosity) : Level → Bool
  | .debug => v.verbose && !v.quiet
  | .info => !v.quiet
  | .warn | .error => true

/-- Whether entries of a level show their data. -/
def showsData (v : Verbosity) : Level → Bool
  | .info => v.verbose
  | _ => true

end Verbosity

/-- The data of an entry behind a space; data that stands for nothing is left out. -/
def LogEntry.dataText (e : LogEntry) : Text :=
  match e.data with
  | some data => if data.isVoid then "" else " " ++ data.compact
  | none => ""

/-- The line of an entry on a terminal. -/
def LogEntry.consoleLine (v : Verbosity) (color : Bool) (e : LogEntry) : Text :=
  paint color e.level.color
    ("[" ++ e.level.name ++ "] " ++ e.message ++ (if v.showsData e.level then e.dataText else ""))

/-- The lines of a log on a terminal. -/
def consoleLines (v : Verbosity) (color : Bool) (log : Log) : List Text :=
  (log.filter fun e => v.shows e.level).map (LogEntry.consoleLine v color)

/-- The line of an entry on the error stream of a server. -/
def LogEntry.serverLine (e : LogEntry) : Text :=
  "[treeweave-mcp] " ++ e.level.name ++ " " ++ e.message ++ e.dataText

/-- The lines of a log on the error stream of a server; debug and info entries need `verbose`. -/
def serverLines (verbose : Bool) (log : Log) : List Text :=
  (log.filter fun e => verbose || e.level == .warn || e.level == .error).map LogEntry.serverLine

end TreeMerge
