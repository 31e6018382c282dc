import TreeMerge.Json.Basic

/-!
# Log entries

The library never writes a log; it lists the entries that belong in one, in order.

* `Level`, `LogEntry`, `Log` : the entries;
* `Log.debug`, `Log.info`, `Log.warn`, `Log.error` : one-entry logs.
-/

namespace TreeMerge

/-- How important an entry is. -/
inductive Level where
  | debug
  | info
  | warn
  | error
  deriving DecidableEq, Repr

/-- The name of a level. -/
def Level.name : Level → Text
  | .debug => "debug"
  | .info => "info"
  | .warn => "warn"
  | .error => "error"

/-- A message, with the members of its data object if it has one. -/
structure LogEntry where
  level : Level
  message : Text
  data : Option Json := none

/-- Entries in the order in which they were made. -/
abbrev Log := List LogEntry

namespace Log

/-- A debug entry with data. -/
def debug (message : Text) (data : List (Text × Json)) : Log :=
  [⟨.debug, message, some (.obj data)⟩]

/-- An info entry with data. -/
def info (message : Text) (data : List (Text × Json)) : Log :=
  [⟨.info, message, some (.obj data)⟩]

/-- A warning with data. -/
def warn (message : Text) (data : List (Text × Json)) : Log :=
  [⟨.warn, message, some (.obj data)⟩]

/-- An error entry with data. -/
def error (message : Text) (data : List (Text × Json)) : Log :=
  [⟨.error, message, some (.obj data)⟩]

/-- An entry without data. -/
def plain (level : Level) (message : Text) : Log :=
  [⟨level, message, none⟩]

end Log

end TreeMerge
