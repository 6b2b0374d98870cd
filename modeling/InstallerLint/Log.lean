import InstallerLint.Json.Basic
import InstallerLint.Text.Order
import InstallerLint.Text.Quoted

/-!
# Log entries

What a run has to say besides its results.  An entry has a level, a message and named fields.
-/

namespace InstallerLint

/-- How important an entry is. -/
inductive LogLevel where
  | panic
  | fatal
  | error
  /-- Something is not as it should be. -/
  | warning
  | info
  /-- For those who look for defects. -/
  | debug
  | trace
  deriving DecidableEq, Repr, Inhabited

namespace LogLevel

/-- The rank of a level; the most important has the least. -/
def rank : LogLevel → Nat
  | panic => 0
  | fatal => 1
  | error => 2
  | warning => 3
  | info => 4
  | debug => 5
  | trace => 6

/-- The name of a level. -/
def name : LogLevel → String
  | panic => "panic"
  | fatal => "fatal"
  | error => "error"
  | warning => "warning"
  | info => "info"
  | debug => "debug"
  | trace => "trace"

/-- The level of a name in any case; a warning also has a short name. -/
def parse? (s : String) : Option LogLevel :=
  let s := Case.lower s
  if s = "warn" then some warning
  else [panic, fatal, error, warning, info, debug, trace].find? (·.name = s)

/-- The message about a name that no level has. -/
def unknownMessage (s : String) : String :=
  "log level: not a valid logrus Level: " ++ Quoted.quote s

/-- Whether an entry is shown when a level is asked for. -/
def shows (wanted entry : LogLevel) : Bool := entry.rank ≤ wanted.rank

end LogLevel

/-- An entry. -/
structure LogEntry where
  level : LogLevel
  message : String
  fields : List (String × String) := []
  deriving DecidableEq, Repr, Inhabited

namespace LogEntry

/-- Characters that need no quotes. -/
def isPlain (c : Char) : Bool :=
  c.isAlphanum || ['-', '.', '_', '/', '@', '^', '+'].contains c

/-- A value, in quotes where it needs them. -/
def valueText (s : String) : String := if s.toList.all isPlain then s else Quoted.quote s

/-- One field in words. -/
def fieldText (p : String × String) : String := p.1 ++ "=" ++ valueText p.2

/-- An entry as one line: level, message, then the fields by name. -/
def line (e : LogEntry) : String :=
  " ".intercalate (([("level", e.level.name), ("msg", e.message)]
    ++ Order.sortBy Prod.fst e.fields).map fieldText) ++ "\n"

/-- Level and message in saved form. -/
def toJson (e : LogEntry) : Json :=
  .obj [("level", .str e.level.name), ("message", .str e.message)]

/-- A warning. -/
def warn (message : String) (fields : List (String × String)) : LogEntry :=
  ⟨.warning, message, fields⟩

end LogEntry

end InstallerLint
