import InstallerLint.Diagnostic.Fingerprint
import InstallerLint.Glob
import InstallerLint.Rule.Engine

/-!
# Project settings

What a project says about its analysis: which rules run and at which level, which files are left
out, and where the cache and the baseline are.

**Selection.**  Patterns over rule ids turn rules on and off; a pattern that turns a rule off
wins.  Without any pattern that turns rules on, each rule decides for itself.

**Places.**  Relative paths count from the directory of the file that the settings came from, or
from the working directory when there is no such file.
-/

namespace InstallerLint

/-- Which rules run and how. -/
structure RuleSettings where
  /-- Patterns of the rules that run; none means that each rule decides. -/
  enabled : List String := []
  /-- Patterns of the rules that do not run. -/
  disabled : List String := []
  /-- Levels by rule id, as written. -/
  severity : List (String × String) := []
  /-- The categories that run; none means all. -/
  categories : List String := []
  files : List String := []
  deriving DecidableEq, Repr, Inhabited

/-- All settings of a project. -/
structure Config where
  rules : RuleSettings := {}
  /-- The least level, as written. -/
  minSeverity : String := "info"
  /-- Patterns of the files that are left out. -/
  exclude : List String := []
  /-- How many findings of a file are kept; zero means all. -/
  maxDiagnostics : Int := 0
  /-- Whether results are kept between runs. -/
  cacheEnabled : Bool := true
  /-- Where they are kept. -/
  cacheDir : String := ".wixanalyzer-cache"
  /-- How many files are analysed at once; zero means as many as there are processors. -/
  workers : Int := 0
  baseline : String := ""
  /-- The file that the settings came from; empty when there is none. -/
  path : String := ""
  workDir : String := "/"
  deriving DecidableEq, Repr, Inhabited

namespace Config

/-- The directory that relative paths count from. -/
def root (c : Config) : String := if c.path = "" then c.workDir else Path.dir c.path

/-- A path of the settings. -/
def place (c : Config) (p : String) : String :=
  if p = "" || Path.isAbs p then p else Path.join [c.root, p]

/-- Whether some pattern is the id or matches it. -/
def anyMatches (patterns : List String) (id : String) : Bool :=
  patterns.any fun p => p = id || Glob.isMatch p id

/-- Whether a rule runs, given what it says itself. -/
def runs (c : Config) (id : String) (byDefault : Bool) : Bool :=
  if anyMatches c.rules.disabled id then false
  else if c.rules.enabled.isEmpty then byDefault
  else anyMatches c.rules.enabled id

/-- The least level that counts; what cannot be read means all. -/
def minLevel (c : Config) : Severity := (Severity.parse? c.minSeverity).getD .info

/-- The level set for a rule, by its id or its id in small letters. -/
def levelOf? (c : Config) (id : String) : Option Severity :=
  match c.rules.severity.lookup id with
  | some name => Severity.parse? name
  | none => (c.rules.severity.lookup (Case.lower id)).bind Severity.parse?

/-- Whether a category runs. -/
def hasCategory (c : Config) (category : String) : Bool :=
  c.rules.categories.isEmpty || c.rules.categories.contains category

/-- The settings as a selection of rules, given what the rules say themselves. -/
def selection (c : Config) (byDefault : String → Bool) : Selection where
  minSeverity := c.minLevel
  enabled := some fun id => c.runs id (byDefault id)
  categories := c.rules.categories
  severityOverride := c.levelOf?

/-- The directory of the cache. -/
def cachePlace (c : Config) : String := c.place c.cacheDir

/-- The baseline file; empty when there is none. -/
def baselinePlace (c : Config) : String := c.place c.baseline

/-- The files with more rules. -/
def ruleFiles (c : Config) : List String := c.rules.files.map c.place

/-- A file as the patterns see it. -/
def patternPath (c : Config) (file : String) : String :=
  let rel := Diagnostic.relativeFile file c.root
  match rel.toList with
  | '/' :: rest => String.ofList rest
  | _ => rel

/-- Whether a file is left out. -/
def excludes (c : Config) (file : String) : Bool :=
  !c.exclude.isEmpty && Glob.matchesAny c.exclude (c.patternPath file)

end Config

/-!
## Well-formed settings

Settings are checked as a whole, and every problem is reported.
-/

/-- What can be wrong with settings. -/
inductive ConfigProblem where
  /-- The least level is not known. -/
  | minSeverity (name : String)
  /-- The level of a rule is not known. -/
  | severity (id name : String)
  | category (name : String)
  | pattern (setting pattern : String)
  | negative (setting : String) (value : Int)
  deriving DecidableEq, Repr

/-- The wording of a problem. -/
def ConfigProblem.message : ConfigProblem → String
  | minSeverity name => "min_severity: " ++ Severity.Unknown.message ⟨name⟩
  | severity id name => "rules.severity[" ++ id ++ "]: " ++ Severity.Unknown.message ⟨name⟩
  | category name => "rules.categories: unknown category " ++ Quoted.quote name
  | pattern setting p => setting ++ ": malformed pattern " ++ Quoted.quote p
  | negative setting n => setting ++ " must be >= 0, got " ++ toString n

namespace Config

/-- The patterns of a setting that cannot be read. -/
def badPatterns (setting : String) (ps : List String) : List ConfigProblem :=
  (ps.filter fun p => !Glob.isValid p).map (.pattern setting)

/-- The setting, if it is negative. -/
def negatives (setting : String) (n : Int) : List ConfigProblem :=
  if n < 0 then [.negative setting n] else []

/-- All problems of the settings. -/
def problems (c : Config) : List ConfigProblem :=
  (if c.minSeverity ≠ "" && (Severity.parse? c.minSeverity).isNone then [.minSeverity c.minSeverity]
    else [])
  ++ ((Order.sortBy Prod.fst c.rules.severity).filter fun p => (Severity.parse? p.2).isNone).map
    (fun p => .severity p.1 p.2)
  ++ (c.rules.categories.filter fun n => !Intent.isKnown n).map .category
  ++ badPatterns "rules.enabled" c.rules.enabled
  ++ badPatterns "rules.disabled" c.rules.disabled
  ++ badPatterns "exclude" c.exclude
  ++ negatives "max_diagnostics" c.maxDiagnostics
  ++ negatives "workers" c.workers

/-- How settings are named in messages. -/
def label (c : Config) : String := if c.path = "" then "config" else c.path

/-- All problems in words, one a line; empty when there is none. -/
def problemText (c : Config) : String :=
  "\n".intercalate (c.problems.map fun p => c.label ++ ": " ++ p.message)

end Config

end InstallerLint
