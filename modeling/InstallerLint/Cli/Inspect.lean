import InstallerLint.Cli.Help
import InstallerLint.Cli.Session
import InstallerLint.Dependency.Extract
import InstallerLint.Dependency.Report

/-!
# Looking at a project from the command line

Dependencies, baselines, the cache and rules, without a report of findings.
-/

namespace InstallerLint

/-!
## Tables in plain text

Columns stand under each other: every cell but the last of a row is padded to the width of its
column and a gap.
-/

namespace Table

/-- The widths of the columns, without the last cell of each row. -/
def widths (rows : List (List String)) : List Nat :=
  let columns := (rows.map (·.length - 1)).foldl max 0
  (List.range columns).map fun i =>
    (rows.map fun r => if i + 1 < r.length then ((r[i]?).map String.length).getD 0 else 0).foldl max 0

/-- A row, given the widths of the columns. -/
def row (gap : Nat) : List Nat → List String → String
  | _, [] => "\n"
  | _, [last] => last ++ "\n"
  | [], cell :: rest => cell ++ row gap [] rest
  | w :: ws, cell :: rest =>
    cell ++ String.ofList (List.replicate (w + gap - cell.length) ' ') ++ row gap ws rest

/-- A table. -/
def render (gap : Nat) (rows : List (List String)) : String :=
  let ws := widths rows
  String.join (rows.map (row gap ws))

end Table

/-!
## The commands
-/

namespace Cli
namespace Call

/-- A line of a baseline's numbers. -/
def ruleLine (p : String × Nat) : String :=
  "  " ++ padded 24 p.1 ++ " " ++ toString p.2 ++ "\n"

/-- Sums up a baseline: the one that is named, or the nearest. -/
def runBaselineStats (c : Call) : Act Unit := do
  let d ← Act.disk
  let found ← Act.ofExcept BaselineError.message (match c.args with
    | path :: _ => (Baseline.load d path).map fun b => some (b, path)
    | [] => Baseline.findAndLoad d ".")
  match found with
  | none => Act.fail ("no " ++ Baseline.fileName ++ " found")
  | some (b, path) =>
    Act.print (path ++ ": " ++ toString b.issues.length ++ " issue(s), " ++ toString b.byRule.length
      ++ " rule(s), " ++ toString b.byFile.length ++ " file(s)\n")
    Act.print (String.join (b.byRule.map ruleLine))

/-- A dependency in words. -/
def dependencyLine (d : Dependency) : String :=
  let notes := [d.type.name] ++ (if d.bundled then ["bundled"] else [])
    ++ (if d.downloadUrl = "" then [] else [d.downloadUrl])
  "  - " ++ d.name ++ (if d.version = "" then "" else " " ++ d.version) ++ " ("
    ++ ", ".intercalate notes ++ ")\n"

/-- A report of dependencies in words. -/
def dependencyText (r : DependencyReport) : String :=
  r.project ++ ": " ++ toString r.total ++ " dependencies (" ++ toString r.bundled ++ " bundled, "
  ++ toString r.external ++ " external)\n"
  ++ String.join (r.byType.map fun (t, n) => "  " ++ padded 16 t ++ " " ++ toString n ++ "\n")
  ++ String.join (r.dependencies.map dependencyLine)
  ++ (if r.order.isEmpty then "" else "install order: " ++ " -> ".intercalate r.order ++ "\n")
  ++ String.join (r.cycles.map fun cycle => DependencyGraph.cycleMessage cycle ++ "\n")
  ++ String.join (r.extensions.map fun e => "extension " ++ e.name ++ ": " ++ e.description ++ " ("
      ++ e.package ++ ")\n")

/-- The dependencies of files, less those that settings leave out. -/
def dependencies (c : Call) (cfg : Config) : DependencyGraph → List String → Act DependencyGraph
  | g, [] => return g
  | g, file :: rest => do
    if cfg.excludes file then c.dependencies cfg g rest
    else
      let content ← Act.ofExcept DiskError.message ((← Act.disk).read file)
      match Document.parse content file with
      | .error e =>
        c.log [.warn "deps: skipping malformed file" [("file", file), ("error", e.message)]]
        c.dependencies cfg g rest
      | .ok doc => c.dependencies cfg (g.merge (DependencyGraph.extract doc)) rest

/-- Reports dependencies. -/
def runDeps (c : Call) : Act Unit := do
  let format ← c.format
  let cfg ← c.config c.start
  let files ← c.sources
  let g ← c.dependencies cfg {} files
  let report := DependencyReport.of (Path.base ((← Act.disk).abs c.start)) g
  Act.print (match format with
    | .json => Json.document report.toJson
    | _ => dependencyText report)
  if c.flags.isOn "check" && !report.cycles.isEmpty then throw .findings

/-- Opens the cache, which must be usable. -/
def openCache (c : Call) : Act Cache := do
  let cfg ← c.config "."
  let opened ← Act.through (Cache.open_ cfg.cachePlace toolVersion)
  c.log opened.log
  Act.ofExcept CacheError.message opened.result

/-- Works on the cache and saves it. -/
def changeCache {α : Type} (cache : Cache) (f : Cache → Disk → Except CacheError α × Cache × Disk) :
    Act α := do
  let (r, cache) ← Act.through fun d => let (r, c, d) := f cache d; ((r, c), d)
  let a ← Act.ofExcept CacheError.message r
  let (saved, _) ← Act.through fun d => let (r, c, d) := cache.save d; ((r, c), d)
  Act.ofExcept CacheError.message saved
  return a

/-- Tells about the cache. -/
def runCacheStats (c : Call) : Act Unit := do
  let cache ← c.openCache
  Act.print ("cache: " ++ cache.dir ++ "\nentries: " ++ toString cache.size ++ "\ntool version: "
    ++ toolVersion ++ "\n")

/-- Empties the cache. -/
def runCacheClear (c : Call) : Act Unit := do
  let cache ← c.openCache
  changeCache cache Cache.clear
  Act.print ("cleared " ++ toString cache.size ++ " entries\n")

/-- Drops old entries of the cache. -/
def runCacheCleanup (c : Call) : Act Unit := do
  let n ← changeCache (← c.openCache) Cache.cleanup
  Act.print ("removed " ++ toString n ++ " stale entries\n")

/-- A rule or a check in a list. -/
structure RuleRow where
  id : String
  severity : String
  category : String
  element : String
  name : String
  enabled : Bool
  isCheck : Bool := false

/-- The saved form of a row. -/
def RuleRow.toJson (r : RuleRow) : Json := .obj <|
  [("id", .str r.id), ("severity", .str r.severity), ("category", .str r.category),
    ("element", .str r.element), ("name", .str r.name), ("enabled", .bool r.enabled)]
  ++ (if r.isCheck then [("builtin_check", .bool true)] else [])

/-- The cells of a row. -/
def RuleRow.cells (r : RuleRow) : List String :=
  [r.id, r.severity, r.category, r.element, if r.enabled then "true" else "false", r.name]

/-- The rows of rules and checks under settings. -/
def ruleRows (rules : List Rule) (cfg : Config) : List RuleRow :=
  let a := Analyzer.new rules cfg
  let active := a.engine.active.map (·.id)
  rules.map (fun r => ⟨r.id, r.severity.text, r.category, r.element, r.name, active.contains r.id, false⟩)
    ++ Check.all.map (fun k => ⟨k.id, k.severity.text, k.category, Rule.anyElement, k.name, a.hasCheck k, true⟩)

/-- Lists rules and checks. -/
def runRulesList (c : Call) : Act Unit := do
  let format ← c.format
  let cfg ← c.config "."
  let rows := ruleRows (← c.rules cfg) cfg
  Act.print (match format with
    | .json => Json.document (.arr (rows.map (·.toJson)))
    | _ => Table.render 2 (["ID", "SEVERITY", "CATEGORY", "ELEMENT", "ENABLED", "NAME"] :: rows.map (·.cells)))

/-- Checks files of rules; the first that is wrong ends it. -/
def runRulesCheck (c : Call) : Act Unit :=
  c.args.forM fun path => do
    let l ← Act.ofExcept LoadError.message
      (Project.loadFile (← Act.disk) path (c.flags.isOn "strict"))
    c.log (Project.warningsOf path l)
    Act.print (path ++ ": " ++ toString l.set.rules.length ++ " rule(s) ok\n")

/-- Tells the version. -/
def runVersion (c : Call) : Act Unit :=
  let info : BuildInfo := { version := toolVersion, compiler := "lean4", platform := "any" }
  Act.print (if c.flags.isOn "json" then Json.document info.toJson
    else toolName ++ " " ++ info.text ++ "\n")

/-- Shows the help of the command that arguments name. -/
def runHelp (c : Call) : Act Unit :=
  Act.print (match Command.find c.args with
    | .ok (k, _) => k.helpText
    | .error _ => Command.unknownTopic c.args)

end Call
end Cli
end InstallerLint
