import InstallerLint.Diagnostic.Severity
import InstallerLint.Json.Basic
import InstallerLint.Numbers
import InstallerLint.Text.Order

/-!
# Diagnostics

A diagnostic is one finding: the rule that raised it, where it stands, what it says, and
possibly a remedy.  A result holds the diagnostics of one file.

**Order.**  Diagnostics are listed by file, line, column and rule; equal keys keep the order in
which they were found.
-/

namespace InstallerLint

/-- A span of one file, counted from one. -/
structure Location where
  file : String
  /-- First line. -/
  line : Int
  /-- First column. -/
  col : Int
  /-- Last line. -/
  endLine : Int
  /-- Column just past the end. -/
  endCol : Int
  deriving DecidableEq, Repr, Inhabited

/-- A name with a value. -/
structure Attribute where
  name : String
  value : String
  deriving DecidableEq, Repr, Inhabited

/-- The edit a remedy performs; which fields count depends on the kind. -/
structure FixAction where
  kind : String
  name : String
  /-- Its value, or the new text. -/
  value : String
  element : String
  /-- The attributes of an added element. -/
  attributes : List Attribute
  /-- Where an added element goes. -/
  position : String
  deriving DecidableEq, Repr, Inhabited

/-- A remedy. -/
structure Fix where
  /-- What it does, in words. -/
  description : String
  action : FixAction
  deriving DecidableEq, Repr, Inhabited

/-- A second location that belongs to a finding. -/
structure Related where
  location : Location
  message : String
  deriving DecidableEq, Repr, Inhabited

/-- One finding. -/
structure Diagnostic where
  ruleId : String
  severity : Severity
  /-- Its category, possibly empty. -/
  category : String
  message : String
  /-- Where. -/
  location : Location
  /-- Advice, possibly empty. -/
  help : String
  fix : Option Fix
  related : List Related
  tags : List String
  effortMinutes : Int
  docUrl : String
  deriving DecidableEq, Repr, Inhabited

/-- The findings of one file. -/
structure FileResult where
  file : String
  diagnostics : List Diagnostic
  /-- How many findings comments in the file turned off. -/
  suppressed : Nat
  /-- Whether the result was read from the cache. -/
  fromCache : Bool
  deriving DecidableEq, Repr, Inhabited

namespace Location

/-- File, line and column. -/
def text (l : Location) : String :=
  l.file ++ ":" ++ toString l.line ++ ":" ++ toString l.col

/-- Comparison by file, line and column. -/
def compareKeys (a b : Location) : List Ordering :=
  [compare a.file b.file, compare a.line b.line, compare a.col b.col]

end Location

namespace Diagnostic

/-- The order in which diagnostics are listed. -/
def le (a b : Diagnostic) : Bool :=
  Order.lexLe (a.location.compareKeys b.location ++ [compare a.ruleId b.ruleId])

/-- Diagnostics in their listed order. -/
def sort (ds : List Diagnostic) : List Diagnostic := ds.mergeSort le

/-- How many diagnostics a predicate holds of. -/
def count (p : Diagnostic → Bool) (ds : List Diagnostic) : Nat := (ds.filter p).length

/-- The diagnostics per level, for the levels that occur, by name. -/
def countBySeverity (ds : List Diagnostic) : List (String × Nat) :=
  (Order.distinct (ds.map (·.severity.text))).map fun name =>
    (name, count (fun d => d.severity.text = name) ds)

end Diagnostic

namespace FileResult

/-- A result without findings. -/
def empty (file : String) : FileResult := ⟨file, [], 0, false⟩

/-- Whether a finding reaches a level. -/
def atLeast (r : FileResult) (bound : Severity) : Bool :=
  r.diagnostics.any (·.severity.atLeast bound)

/-- Results by file. -/
def sort (rs : List FileResult) : List FileResult := Order.sortBy (·.file) rs

/-- The findings of all results. -/
def total (rs : List FileResult) : Nat := Numbers.total (rs.map (·.diagnostics.length))

/-- Whether every finding has a level. -/
def isGraded (r : FileResult) : Bool := r.diagnostics.all (·.severity ≠ .unset)

/-- Keeps the findings that pass a test, and counts the others. -/
def keep (p : Diagnostic → Bool) (rs : List FileResult) : List FileResult × Nat :=
  let kept := rs.map fun r => { r with diagnostics := r.diagnostics.filter p }
  (kept, total rs - total kept)

end FileResult

end InstallerLint
