import InstallerLint.Change.Basic
import InstallerLint.Cli.Flag
import InstallerLint.Config.Load
import InstallerLint.Log
import InstallerLint.Project
import InstallerLint.Report
import InstallerLint.Text.Timestamp

/-!
# A run of the tool

A run works on the disk and writes to two outputs.  It ends well, with findings, or with a failure
that is told.

**Outside programs.**  The version control program is a parameter: it takes words, may change the
disk, and replies.
-/

namespace InstallerLint
namespace Cli

/-- What a run works on. -/
structure Session where
  disk : Disk
  /-- What was written for the user. -/
  out : String := ""
  err : String := ""

/-- Why a run ends early. -/
inductive Stop where
  | findings
  | failed (message : String)
  deriving DecidableEq, Repr

/-- A step of a run. -/
abbrev Act := ExceptT Stop (StateM Session)

/-- What a task is called with. -/
structure Call where
  env : Environment
  git : List String → StateM Disk GitReply
  level : LogLevel := .warning
  flags : FlagValues := []
  args : List String := []

namespace Act

/-- Writes for the user. -/
def print (s : String) : Act Unit := modify fun x => { x with out := x.out ++ s }

/-- Writes besides. -/
def printError (s : String) : Act Unit := modify fun x => { x with err := x.err ++ s }

/-- Ends with a failure. -/
def fail {α : Type} (message : String) : Act α := throw (.failed message)

/-- A value, or a failure in words. -/
def ofExcept {ε α : Type} (message : ε → String) : Except ε α → Act α
  | .ok a => pure a
  | .error e => fail (message e)

/-- The disk. -/
def disk : Act Disk := do return (← get).disk

/-- Puts another disk in place. -/
def setDisk (d : Disk) : Act Unit := modify fun x => { x with disk := d }

/-- Works on the disk. -/
def onDisk {α : Type} (act : DiskM α) : Act (Except DiskError α) := do
  match act (← disk) with
  | .ok a d =>
    setDisk d
    return .ok a
  | .error e d =>
    setDisk d
    return .error e

/-- Works on the disk with an operation that returns it. -/
def through {α : Type} (f : Disk → α × Disk) : Act α := do
  let (a, d) := f (← disk)
  setDisk d
  return a

end Act

namespace Call

/-- An entry as a line of JSON, with the time. -/
def jsonLine (now : Int) (e : LogEntry) : String :=
  (Json.obj (Order.sortBy Prod.fst (e.fields.map (fun (k, v) => (k, Json.str v))
    ++ [("level", .str e.level.name), ("msg", .str e.message), ("time", .str (Timestamp.text now))]))).compact
      true ++ "\n"

/-- Writes the entries that the level of the log shows. -/
def log (c : Call) (entries : List LogEntry) : Act Unit := do
  let now := (← Act.disk).now
  let text := if c.flags.isOn "log-json" then jsonLine now else LogEntry.line
  Act.printError (String.join ((entries.filter fun e => c.level.shows e.level).map text))

/-- The paths that a task works on: its arguments, or the working directory. -/
def paths (c : Call) : List String := if c.args.isEmpty then ["."] else c.args

/-- Where settings are looked for. -/
def start (c : Call) : String := c.args.head?.getD "."

/-- The settings: those of the file that is named, or the nearest. -/
def config (c : Call) (start : String) : Act Config := do
  let d ← Act.disk
  let path := c.flags.text "config"
  let cfg ← Act.ofExcept ConfigError.message
    (if path = "" then Config.findAndLoad d c.env start else Config.load d c.env path)
  let workers := c.flags.number "workers"
  return { cfg with
    cacheEnabled := cfg.cacheEnabled && !c.flags.isOn "no-cache"
    workers := if 0 < workers then workers else cfg.workers }

/-- The form of a report. -/
def format (c : Call) : Act ReportFormat :=
  let name := c.flags.text "format"
  match ReportFormat.parse? name with
  | some f => pure f
  | none => Act.fail (ReportFormat.wantedMessage name)

/-- Whether levels are coloured; a report that is kept has no colours of its own accord. -/
def color (c : Call) : Act Bool :=
  let mode := c.flags.text "color"
  if mode = "always" then pure true
  else if mode = "never" || mode = "auto" || mode = "" then pure false
  else Act.fail ("--color must be auto, always or never, got " ++ Quoted.quote mode)

/-- The rules that settings ask for. -/
def rules (c : Call) (cfg : Config) : Act (List Rule) := do
  let (entries, r) := Project.rulesOf (← Act.disk) cfg
  c.log entries
  Act.ofExcept LoadError.message r

/-- The cache that settings ask for; one that cannot be opened is not used. -/
def cache (c : Call) (cfg : Config) : Act (Option Cache) := do
  if !cfg.cacheEnabled then return none
  let opened ← Act.through (Cache.open_ cfg.cachePlace toolVersion)
  c.log opened.log
  match opened.result with
  | .ok cache => return some cache
  | .error e =>
    c.log [.warn "cache disabled" [("dir", cfg.cachePlace), ("error", e.message)]]
    return none

/-- The files under a path: a directory is searched, a file is taken as it is. -/
def filesUnder (d : Disk) (path : String) : Except DiskError (List String) := do
  let e ← d.stat path
  if e.isDir then
    return (Walk.collect d path { extensions := SourceFile.extensions, useIgnoreFile := true, hash := false }).map
      (·.path)
  else return [d.abs path]

/-- The files under paths, each once, in order. -/
def sources (c : Call) : Act (List String) := do
  let d ← Act.disk
  let found ← Act.ofExcept DiskError.message (c.paths.mapM (filesUnder d))
  return Order.dedup found.flatten

/-- Analyses files. -/
def analyze (c : Call) (rules : List Rule) (cfg : Config) (cache : Option Cache)
    (files : List String) : Act Project.Run := do
  let r := Project.run rules cfg cache files (← Act.disk) false
  Act.setDisk r.disk
  c.log r.log
  return r

/-- Asks the version control program. -/
def asking {α : Type} (act : ExceptT ChangeError (StateM Disk) α) : Act α := do
  let r ← Act.through act.run
  Act.ofExcept ChangeError.message r

end Call

end Cli
end InstallerLint
