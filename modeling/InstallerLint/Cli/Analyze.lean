import InstallerLint.Baseline
import InstallerLint.Cli.Session
import InstallerLint.Project
import InstallerLint.Rule.Fix

/-!
# Analysing from the command line

A project is analysed and the findings are reported, less those that are filtered out: by changed
files, by changed lines, and by a baseline, in this order.
-/

namespace InstallerLint

/-!
## Counters of a run

What a run counts, one line a counter: looks into the cache by how they ended, findings by level,
files that were evaluated and files that are no documents.
-/

namespace Metrics

/-- A line of a counter. -/
def line (name : String) (n : Nat) : String := "wixlint_" ++ name ++ " " ++ toString n

/-- The lines of a counter with a label, one for each value of the label. -/
def labelled (name label : String) (t : Tally) : List String :=
  t.map fun (value, n) => line (name ++ "\x7b" ++ label ++ "=" ++ Quoted.quote value ++ "\x7d") n

/-- The lines of a run, in order.  Times are not kept, so their sum is zero. -/
def lines (r : Project.Run) : List String :=
  let lookups := ((r.cache.map (·.stats.lookups)).getD [])
  let levels := Tally.ofNames ((r.results.flatMap (·.diagnostics)).map (·.severity.text))
  Order.sort (labelled "cache_requests_total" "result" lookups
    ++ labelled "diagnostics_total" "severity" levels
    ++ [line "files_analyzed_total" r.stats.evaluated, line "file_analysis_seconds_count" r.stats.evaluated,
      line "file_analysis_seconds_sum" 0, line "parse_failures_total" r.stats.parseFailures])

end Metrics

/-!
## The command
-/

namespace Cli
namespace Call

/-- The level from which findings make a run fail; none when they never do. -/
def failLevel (c : Call) : Act (Option Severity) :=
  let name := c.flags.text "fail-on"
  if Case.equalFold name "none" then pure none
  else some <$> Act.ofExcept Severity.Unknown.message (Severity.parse name)

/-- Settings with what flags say about the least level and about files of rules. -/
def tuned (c : Call) (cfg : Config) : Act Config := do
  let min := c.flags.text "min-severity"
  if min ≠ "" then
    let _ ← Act.ofExcept Severity.Unknown.message (Severity.parse min)
  let d ← Act.disk
  let more := (c.flags.texts "rules").map d.abs
  return { cfg with
    minSeverity := if min = "" then cfg.minSeverity else min
    rules := { cfg.rules with files := cfg.rules.files ++ more } }

/-- Where changed files are to be learnt from, if they are asked for. -/
def changeSource (c : Call) : Act (Option ChangeSource) := do
  let branch := c.flags.text "changed-since-branch"
  let commits := c.flags.number "changed-head"
  let list := c.flags.text "files-from"
  let listed ← if list = "" then pure [] else do
    let content ← Act.ofExcept DiskError.message ((← Act.disk).read list)
    pure [ChangeSource.listed (ChangeScope.readList content.toText)]
  match (if branch = "" then [] else [ChangeSource.branch branch])
    ++ (if 0 < commits then [ChangeSource.commits commits] else []) ++ listed with
  | [] => return none
  | [s] => return some s
  | _ => Act.fail "--changed-since-branch, --changed-head and --files-from are mutually exclusive"

/-- What counts as changed in a project. -/
def scope (cfg : Config) : ChangeScope := ⟨cfg.root, SourceFile.extensions⟩

/-- The findings in changed files. -/
def keepChanged (c : Call) (cfg : Config) (rs : List FileResult) : Act (List FileResult × Nat) := do
  match ← c.changeSource with
  | none => return (rs, 0)
  | some s =>
    let d ← Act.disk
    let changes ← asking (ChangeScope.detect c.git (scope cfg) d s)
    return changes.limit d.cwd rs

/-- The findings on changed lines. -/
def keepNew (c : Call) (cfg : Config) (rs : List FileResult) : Act (List FileResult × Nat) := do
  let ref := c.flags.text "new-code"
  if ref = "" then return (rs, 0)
  let d ← Act.disk
  let lines ← asking (ChangeScope.linesSince c.git (scope cfg) d.cwd ref)
  return lines.limit d.cwd rs

/-- The baseline: the one that is named, or that of the settings if it is there, or the nearest. -/
def baseline? (c : Call) (cfg : Config) : Act (Option Baseline) := do
  let d ← Act.disk
  let named := c.flags.text "baseline"
  let load (path : String) : Act (Option Baseline) :=
    some <$> Act.ofExcept BaselineError.message (Baseline.load d path)
  if named ≠ "" then load named
  else if cfg.baselinePlace ≠ "" then
    if d.has cfg.baselinePlace then load cfg.baselinePlace else return none
  else
    let found ← Act.ofExcept BaselineError.message (Baseline.findAndLoad d cfg.root)
    return found.map Prod.fst

/-- The findings that a baseline does not accept. -/
def keepUnaccepted (c : Call) (cfg : Config) (rs : List FileResult) : Act (List FileResult × Nat) := do
  if c.flags.isOn "no-baseline" then return (rs, 0)
  match ← c.baseline? cfg with
  | none => return (rs, 0)
  | some b => return b.filter cfg.root rs

/-- What tells two findings apart for their previews. -/
def previewKey (x : Diagnostic) : String × String × Int × Int :=
  (x.ruleId, x.location.file, x.location.line, x.location.col)

/-- The previews of the remedies in a file; none when it cannot be read. -/
def previewsOf (d : Disk) (r : FileResult) : List ((String × String × Int × Int) × String) :=
  match d.read r.file with
  | .error _ => []
  | .ok content =>
    match Document.parse content r.file with
    | .error _ => []
    | .ok doc => (r.diagnostics.filter (·.fix.isSome)).filterMap fun x =>
      match x.preview doc with
      | .ok patch => some (previewKey x, patch.toText)
      | .error _ => none

/-- The previews of all remedies, if they are asked for; of two with one key the last counts. -/
def previews (c : Call) (d : Disk) (rs : List FileResult) : Diagnostic → String :=
  if c.flags.isOn "fix-preview" then
    let all := (rs.flatMap (previewsOf d)).reverse
    fun x => (all.lookup (previewKey x)).getD ""
  else fun _ => ""

/-- Analyses and reports. -/
def runAnalyze (c : Call) : Act Unit := do
  let format ← c.format
  let level ← c.failLevel
  let color ← c.color
  let cfg ← c.tuned (← c.config c.start)
  let files ← c.sources
  let rules ← c.rules cfg
  let cache ← c.cache cfg
  let r ← c.analyze rules cfg cache files
  let (rs, changed) ← c.keepChanged cfg r.results
  let (rs, new) ← c.keepNew cfg rs
  let (rs, accepted) ← c.keepUnaccepted cfg rs
  Act.print (Report.render format rs {
    base := cfg.root
    filtered := changed + new + accepted
    color
    preview := c.previews (← Act.disk) rs })
  if c.flags.isOn "metrics" then
    Act.printError (String.join ((Metrics.lines r).map (· ++ "\n")))
  c.log [⟨.info, "analyze finished", [("files", toString r.stats.files),
    ("cached", toString r.stats.fromCache), ("evaluated", toString r.stats.evaluated),
    ("filtered", toString (changed + new + accepted))]⟩]
  match level with
  | some l => if rs.any (·.atLeast l) then throw .findings
  | none => return

/-- Analyses and writes a baseline of all findings. -/
def runBaselineCreate (c : Call) : Act Unit := do
  let cfg ← c.config c.start
  let files ← c.sources
  let rules ← c.rules cfg
  let cache ← c.cache cfg
  let r ← c.analyze rules cfg cache files
  let d ← Act.disk
  let b := { Baseline.ofResults r.results cfg.root d.now with description := c.flags.text "description" }
  let path := if c.flags.text "output" ≠ "" then c.flags.text "output"
    else if cfg.baselinePlace ≠ "" then cfg.baselinePlace
    else Path.join [cfg.root, Baseline.fileName]
  let saved ← Act.onDisk (b.save path)
  Act.ofExcept BaselineError.message (saved.mapError (.write path))
  Act.print ("baseline with " ++ toString b.issues.length ++ " issue(s) written to " ++ path ++ "\n")

/-- Analyses once, as a watch does at its start. -/
def runWatch (c : Call) : Act Unit := do
  let format ← c.format
  let color ← c.color
  let cfg ← c.config c.start
  let rules ← c.rules cfg
  let cache ← c.cache cfg
  let d ← Act.disk
  let root := d.abs c.start
  match d.lstat root with
  | .error e => Act.fail ("watch: " ++ e.message)
  | .ok _ =>
    let files ← c.sources
    let r ← c.analyze rules cfg cache files
    Act.print (Report.render format r.results { base := cfg.root, color })
    Act.printError ("watching " ++ c.start ++ " (Ctrl-C to stop)\n")

end Call
end Cli
end InstallerLint
