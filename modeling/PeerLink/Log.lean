/-!
# Log lines

## Main definitions

* `LogLine`: a line and how grave it is.
-/

namespace PeerLink

/-- How grave a log line is. -/
inductive LogLevel where
  | info
  | warn
  | error
  deriving DecidableEq, Repr

/-- The word for a level. -/
def LogLevel.name : LogLevel → String
  | info => "info"
  | warn => "warn"
  | error => "error"

/-- A line of the log. -/
structure LogLine where
  level : LogLevel
  text : String
  deriving DecidableEq, Repr

namespace LogLine

/-- A line that tells what happens. -/
def info (text : String) : LogLine := ⟨.info, text⟩

/-- A line that tells of something unusual. -/
def warn (text : String) : LogLine := ⟨.warn, text⟩

/-- A line that tells of a fault. -/
def error (text : String) : LogLine := ⟨.error, text⟩

end LogLine

end PeerLink
