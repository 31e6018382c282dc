import TreeMerge.Command.Console

/-!
# Notices of failed commands

* `Notice` : what a failed command has to say, to people and to programs;
* `Notice.render` : the texts of the two output streams.
-/

namespace TreeMerge

/-- What a failed command has to say. -/
structure Notice where
  message : Text
  /-- Report to a program, as JSON. -/
  json : Bool := false
  exitCode : Number := .ofNat 1
  /-- Further members of the JSON report. -/
  extra : Option (List (Text × Json)) := none
  /-- What people read instead of `message`. -/
  humanMessage : Option Text := none
  /-- Further lines for people. -/
  humanDetails : Option (List Text) := none

/-- Text for the two output streams. -/
structure Streams where
  out : Text := ""
  err : Text := ""

/-- Lines, each with its line end. -/
def linesText (lines : List Text) : Text :=
  Text.join (lines.map (· ++ "\n"))

namespace Notice

/-- The JSON report. -/
def report (n : Notice) : Json :=
  .ofMembers (("success", .bool false) :: ("error", .str n.message) :: n.extra.getD [])

/-- The line that says to people what went wrong. -/
def headline (color : Bool) (message : Text) : Text :=
  paint color .red ("✗ " ++ message)

/-- The texts of the output streams: a JSON report goes to the first one, lines for people go to the
second one. -/
def render (n : Notice) (color : Bool) : Streams :=
  if n.json then { out := linesText [n.report.compact] }
  else
    { err := linesText
        (headline color (n.humanMessage.getD n.message) :: n.humanDetails.getD []) }

end Notice

end TreeMerge
