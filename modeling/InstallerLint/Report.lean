import InstallerLint.Diagnostic.Fingerprint
import InstallerLint.Diagnostic.Json
import InstallerLint.Json.Writer
import InstallerLint.Numbers
import InstallerLint.Tally
import InstallerLint.Text.Find

/-!
# Reports

Results for people, as text, or for other programs, as JSON.  Files are seen from the project.
-/

namespace InstallerLint

/-- The forms of reports. -/
inductive ReportFormat where
  | text
  | json
  deriving DecidableEq, Repr, Inhabited

namespace ReportFormat

/-- The name of a form. -/
def name : ReportFormat → String
  | text => "text"
  | json => "json"

/-- The form of an exact name; without a name it is text. -/
def ofName? : String → Option ReportFormat
  | "text" | "" => some text
  | "json" => some json
  | _ => none

/-- Reads the name of a form, in any case and with blanks around it. -/
def parse? (s : String) : Option ReportFormat :=
  match Case.lower (Blank.trim s) with
  | "text" => some text
  | "json" => some json
  | _ => none

/-- What is said of a name that is no form. -/
def unknownMessage (s : String) : String := "report: unknown format " ++ Quoted.quote s

/-- What is said of a name that is no form, with the names of forms. -/
def wantedMessage (s : String) : String := unknownMessage s ++ " (want text or json)"

end ReportFormat

/-- How a report is written. -/
structure ReportOptions where
  /-- The directory that files are seen from. -/
  base : String := ""
  /-- How many findings were filtered out. -/
  filtered : Int := 0
  color : Bool := false
  preview : Diagnostic → String := fun _ => ""

namespace Report

/-- The colour of a level. -/
def colorOf : Severity → String
  | .unset => ""
  | .info => "\x1b[36m"
  | .low => "\x1b[34m"
  | .medium => "\x1b[33m"
  | .high => "\x1b[31m"
  | .blocker => "\x1b[1;31m"

/-- A level in words. -/
def levelText (color : Bool) (s : Severity) : String :=
  if color then colorOf s ++ s.text ++ "\x1b[0m" else s.text

/-- The totals of results. -/
structure Summary where
  files : Nat
  withIssues : Nat
  diagnostics : Nat
  suppressed : Nat
  filtered : Int
  bySeverity : Tally
  deriving Repr

/-- Adds up results. -/
def Summary.of (rs : List FileResult) (filtered : Int) : Summary where
  files := rs.length
  withIssues := (rs.filter fun r => !r.diagnostics.isEmpty).length
  diagnostics := FileResult.total rs
  suppressed := Numbers.total (rs.map (·.suppressed))
  filtered := filtered
  bySeverity := Tally.ofNames ((rs.flatMap (·.diagnostics)).map (·.severity.text))

/-- The saved form of the totals. -/
def Summary.toJson (s : Summary) : Json := .obj <|
  [("files", .nat s.files), ("files_with_issues", .nat s.withIssues),
    ("diagnostics", .nat s.diagnostics), ("suppressed", .nat s.suppressed)]
  ++ (if s.filtered = 0 then [] else [("filtered", .int s.filtered)])
  ++ [("by_severity", s.bySeverity.toJson)]

/-- A place seen from a directory. -/
def seenFrom (base : String) (l : Location) : Location :=
  { l with file := Diagnostic.relativeFile l.file base }

/-- A finding seen from a directory. -/
def diagnosticFrom (base : String) (d : Diagnostic) : Diagnostic :=
  { d with
    location := seenFrom base d.location
    related := d.related.map fun r => { r with location := seenFrom base r.location } }

/-- A result seen from a directory. -/
def resultFrom (base : String) (r : FileResult) : FileResult :=
  { r with
    file := Diagnostic.relativeFile r.file base
    diagnostics := r.diagnostics.map (diagnosticFrom base) }

/-- A report for programs. -/
def asJson (rs : List FileResult) (o : ReportOptions) : Json := .obj [
  ("summary", (Summary.of rs o.filtered).toJson),
  ("results", .arr (rs.map fun r => (resultFrom o.base r).toJson))]

/-- The lines of a finding, without the last line break. -/
def findingText (o : ReportOptions) (d : Diagnostic) : String :=
  let seen := diagnosticFrom o.base d
  let preview := String.ofList (Blank.dropEndWhile (· = '\n') (o.preview d).toList)
  seen.location.file ++ ":" ++ toString d.location.line ++ ":" ++ toString d.location.col ++ ": "
    ++ levelText o.color d.severity ++ " [" ++ d.ruleId ++ "] " ++ d.message
    ++ (if d.help = "" then "" else "\n    help: " ++ d.help)
    ++ String.join (seen.related.map fun r =>
      "\n    note: " ++ r.message ++ " at " ++ r.location.file ++ ":" ++ toString r.location.line)
    ++ (if preview = "" then "" else "\n" ++ preview)

/-- The totals in words, without the last line break. -/
def summaryText (s : Summary) : String :=
  toString s.diagnostics ++ " issue(s) in " ++ toString s.withIssues ++ " of " ++ toString s.files
    ++ " file(s)"
    ++ (if s.suppressed = 0 then "" else ", " ++ toString s.suppressed ++ " suppressed")
    ++ (if s.filtered = 0 then "" else ", " ++ toString s.filtered ++ " filtered")
    ++ String.join (Severity.graded.reverse.map fun level =>
      match s.bySeverity.lookup level.text with
      | some n => "\n  " ++ level.text ++ ": " ++ toString n
      | none => "")

/-- A text without blanks at the ends of its lines. -/
def trimLines (s : String) : String :=
  "\n".intercalate ((Find.pieces '\n' s).map fun l =>
    String.ofList (Blank.dropEndWhile (fun c => c = ' ' || c = '\t') l.toList))

/-- A report for people. -/
def asText (rs : List FileResult) (o : ReportOptions) : String :=
  trimLines <|
    String.join ((rs.flatMap (·.diagnostics)).map fun d => findingText o d ++ "\n")
      ++ summaryText (Summary.of rs o.filtered) ++ "\n"

/-- Whether every finding can be written for programs. -/
def isGraded (rs : List FileResult) : Bool := rs.all (·.isGraded)

/-- A report. -/
def render (f : ReportFormat) (rs : List FileResult) (o : ReportOptions) : String :=
  match f with
  | .text => asText rs o
  | .json => Json.document (asJson rs o)

end Report

end InstallerLint
