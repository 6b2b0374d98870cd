import InstallerLint.Text.Blank
import InstallerLint.Text.Case
import InstallerLint.Text.Quoted

/-!
# Severities and categories

The five levels of a finding in ascending order, and the six intents a rule can have.  A
finding that nobody has graded yet carries the level `unset`, below all others; it has no name
and cannot be saved.
-/

namespace InstallerLint

/-- How serious a finding is. -/
inductive Severity where
  | unset
  /-- For information only. -/
  | info
  | low
  | medium
  | high
  | blocker
  deriving DecidableEq, Repr, Inhabited

namespace Severity

/-- The rank of a level. -/
def level : Severity → Nat
  | unset => 0
  | info => 1
  | low => 2
  | medium => 3
  | high => 4
  | blocker => 5

/-- The graded levels in ascending order. -/
def graded : List Severity := [info, low, medium, high, blocker]

/-- The level of a rank. -/
def ofLevel? (n : Int) : Option Severity := graded.find? fun s => (s.level : Int) = n

/-- The name of a graded level. -/
def name? : Severity → Option String
  | unset => none
  | info => some "info"
  | low => some "low"
  | medium => some "medium"
  | high => some "high"
  | blocker => some "blocker"

/-- How any rank is shown: by its name, or as a number. -/
def levelText (n : Int) : String :=
  match (ofLevel? n).bind name? with
  | some name => name
  | none => "severity(" ++ toString n ++ ")"

/-- How a level is shown. -/
def text (s : Severity) : String := levelText s.level

/-- At least as serious. -/
def atLeast (s bound : Severity) : Bool := bound.level ≤ s.level

/-- A name that is no level. -/
structure Unknown where
  name : String
  deriving DecidableEq, Repr

/-- The wording of the error. -/
def Unknown.message (e : Unknown) : String := "unknown severity " ++ Quoted.quote e.name

/-- The names and older aliases of the levels. -/
def aliases : List (String × Severity) := [
  ("info", info), ("hint", info), ("note", info),
  ("low", low), ("minor", low),
  ("medium", medium), ("warning", medium), ("major", medium),
  ("high", high), ("error", high),
  ("blocker", blocker), ("critical", blocker)]

/-- Reads a level's name or alias, in any case and with blanks around it. -/
def parse (s : String) : Except Unknown Severity :=
  match aliases.lookup (Case.lower (Blank.trim s)) with
  | some level => .ok level
  | none => .error ⟨s⟩

/-- The level of a name, if it is one. -/
def parse? (s : String) : Option Severity := (parse s).toOption

end Severity

namespace Intent

/-- The known categories of rules. -/
def all : List String :=
  ["validation", "best-practice", "security", "dead-code", "performance", "maintainability"]

/-- Whether a category is known. -/
def isKnown (c : String) : Bool := all.contains c

end Intent

end InstallerLint
