import InstallerLint.Analysis.Check
import InstallerLint.Condition.Json
import InstallerLint.Config.Basic
import InstallerLint.Json.Writer
import InstallerLint.Suppression

/-!
# The analyser

Rules and checks bound to the settings of a project.  A document is asked the rules and then the
checks; findings that a comment switches off go, and the rest is sorted and cut to the limit.

**Digest.**  The payload names everything that shapes the output of an analyser besides the
document and the symbols: the rules that run with their levels and conditions, the checks that
run with their levels, and the limit.  A rule without a level cannot be written down, and then the
digest is empty.
-/

namespace InstallerLint

/-- Rules and checks bound to settings. -/
structure Analyzer where
  engine : Engine
  /-- The checks that run, with their levels. -/
  checks : List (Check × Severity)
  /-- How many findings of a file are kept; zero means all. -/
  maxDiagnostics : Int

namespace Analyzer

/-- Whether a rule says itself that it runs; of several with one id the last speaks. -/
def byDefault (rules : List Rule) (id : String) : Bool :=
  ((rules.reverse.find? (·.id = id)).map (·.isEnabled)).getD false

/-- The level of a check under some settings, if it runs. -/
def checkLevel? (cfg : Config) (c : Check) : Option Severity :=
  if cfg.runs c.id true && cfg.hasCategory c.category then
    let level := (cfg.levelOf? c.id).getD c.severity
    if level.atLeast cfg.minLevel then some level else none
  else none

/-- Binds rules and checks to settings. -/
def new (rules : List Rule) (cfg : Config) : Analyzer where
  engine := Engine.new rules (cfg.selection (byDefault rules))
  checks := Check.all.filterMap fun c => (checkLevel? cfg c).map fun level => (c, level)
  maxDiagnostics := cfg.maxDiagnostics

/-- Whether a check runs. -/
def hasCheck (a : Analyzer) (c : Check) : Bool := (a.checks.lookup c).isSome

/-- What the checks find. -/
def checkFindings (a : Analyzer) (d : Document) (r : Resolver) : List Diagnostic :=
  a.checks.flatMap fun (c, level) => c.run level d r

/-- Everything found in a document, in the order of asking, with statistics of the rules. -/
def findings (a : Analyzer) (d : Document) (r : Resolver) (m : Memo) :
    List Diagnostic × Stats × Memo :=
  let (ds, stats, m) := a.engine.evaluate d m
  (ds ++ a.checkFindings d r, stats, m)

/-- The result for a document. -/
def analyze (a : Analyzer) (d : Document) (r : Resolver) (m : Memo) : FileResult × Stats × Memo :=
  let (ds, stats, m) := a.findings d r m
  let (kept, off) := (Suppression.Set.ofSource d.source).split ds
  let kept := Selection.cap a.maxDiagnostics (Diagnostic.sort kept)
  (⟨d.path, kept, off.length, false⟩, stats.recount kept, m)

/-- The result for a file that is no document. -/
def parseFailure (a : Analyzer) (path : String) (e : ParseError) : FileResult :=
  ⟨path, ((a.checks.lookup .malformed).map fun level => Check.malformedAt level path e).toList, 0,
    false⟩

/-- What shapes the output besides the document and the symbols. -/
def payload (a : Analyzer) : Json := .obj [
  ("Rules", .arr (a.engine.active.map (·.toJson))),
  ("Conditions", .arr (a.engine.active.map (·.condition.toJson))),
  ("Checks", .strs (a.checks.map fun (c, level) => c.id ++ "=" ++ toString level.level)),
  ("Max", .int a.maxDiagnostics)]

/-- The payload as it is hashed. -/
def payloadBytes (a : Analyzer) : Bytes := Bytes.ofString (a.payload.compact true)

/-- Whether all rules that run have a level. -/
def isGraded (a : Analyzer) : Bool := a.engine.active.all (·.severity ≠ .unset)

/-- Tells selections of rules and checks apart. -/
def digest (a : Analyzer) : String :=
  if a.isGraded then Hash.xxh64 a.payloadBytes else ""

end Analyzer

end InstallerLint
