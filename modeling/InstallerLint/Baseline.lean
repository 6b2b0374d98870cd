import InstallerLint.Diagnostic.Fingerprint
import InstallerLint.Diagnostic.Json
import InstallerLint.Disk.Write
import InstallerLint.Json.Reader
import InstallerLint.Tally
import InstallerLint.Text.Timestamp
import InstallerLint.Version

/-!
# Baselines

A baseline is a list of accepted findings, so that later runs report only new ones.  A finding
is accepted when its fingerprint is in the list.
-/

namespace InstallerLint

/-- One accepted finding. -/
structure BaselineEntry where
  fingerprint : String
  ruleId : String
  /-- The file, seen from the project. -/
  file : String
  line : Int
  messageHash : String
  deriving DecidableEq, Repr, Inhabited

/-- A list of accepted findings. -/
structure Baseline where
  version : Int := 0
  /-- When it was made. -/
  created : String := ""
  /-- The version of the tool that made it. -/
  toolVersion : String := ""
  description : String := ""
  issues : List BaselineEntry := []
  deriving DecidableEq, Repr, Inhabited

namespace BaselineEntry

/-- The entry of a finding, with its file seen from a directory. -/
def of (d : Diagnostic) (base : String) : BaselineEntry where
  fingerprint := d.fingerprint base
  ruleId := d.ruleId
  file := Diagnostic.relativeFile d.location.file base
  line := d.location.line
  messageHash := Diagnostic.messageHash d.message

/-- Entries by file, line and rule. -/
def le (a b : BaselineEntry) : Bool :=
  Order.lexLe [compare a.file b.file, compare a.line b.line, compare a.ruleId b.ruleId]

/-- The saved form. -/
def toJson (e : BaselineEntry) : Json := .obj [
  ("fingerprint", .str e.fingerprint), ("rule_id", .str e.ruleId), ("file", .str e.file),
  ("line", .int e.line), ("message_hash", .str e.messageHash)]

/-- Reads the saved form. -/
def ofJson (j : Json) : Option BaselineEntry := do
  guard j.isRecord
  return ⟨← j.textField "fingerprint", ← j.textField "rule_id", ← j.textField "file",
    ← j.intField "line", ← j.textField "message_hash"⟩

end BaselineEntry

/-- Why a baseline cannot be read or written. -/
inductive BaselineError where
  | read (path : String) (cause : DiskError)
  | write (path : String) (cause : DiskError)
  | parse (path : String) (cause : String)
  /-- The file has a newer form. -/
  | unsupported (version : Int)
  deriving DecidableEq, Repr

namespace Baseline

/-- The newest form that can be read. -/
def formatVersion : Int := 1

/-- The name of baseline files. -/
def fileName : String := ".wixanalyzer-baseline.json"

end Baseline

namespace BaselineError

/-- The kind of an error. -/
def kind : BaselineError → String
  | read .. => "read"
  | write .. => "write"
  | parse .. => "parse"
  | unsupported _ => "unsupported-version"

/-- The part of the wording that belongs to this tool. -/
def about : BaselineError → String
  | unsupported version => "unsupported baseline version: " ++ toString version
      ++ " (max supported: " ++ toString Baseline.formatVersion ++ ")"
  | e@(read path _) | e@(write path _) | e@(parse path _) =>
    "failed to " ++ e.kind ++ " baseline '" ++ path ++ "': "

/-- The part that tells the cause. -/
def cause : BaselineError → String
  | read _ c | write _ c => c.message
  | parse _ c => c
  | unsupported _ => ""

/-- The wording. -/
def message (e : BaselineError) : String := e.about ++ e.cause

end BaselineError

namespace Baseline

/-- The baseline of some results, with files seen from a directory. -/
def ofResults (rs : List FileResult) (base : String) (now : Int) : Baseline where
  version := formatVersion
  created := Timestamp.text now
  toolVersion := InstallerLint.toolVersion
  issues := ((rs.flatMap (·.diagnostics)).map (BaselineEntry.of · base)).mergeSort BaselineEntry.le

/-- Whether a finding is accepted. -/
def accepts (b : Baseline) (d : Diagnostic) (base : String) : Bool :=
  b.issues.any (·.fingerprint = d.fingerprint base)

/-- The findings that are not accepted, and how many are. -/
def filter (b : Baseline) (base : String) (rs : List FileResult) : List FileResult × Nat :=
  FileResult.keep (fun d => !b.accepts d base) rs

/-- How many accepted findings each rule has. -/
def byRule (b : Baseline) : Tally := Tally.ofNames (b.issues.map (·.ruleId))

/-- How many accepted findings each file has. -/
def byFile (b : Baseline) : Tally := Tally.ofNames (b.issues.map (·.file))

/-- The accepted findings in numbers. -/
def statsJson (b : Baseline) : Json := .obj [
  ("total_issues", .nat b.issues.length), ("unique_rules", .nat b.byRule.length),
  ("unique_files", .nat b.byFile.length), ("by_rule", b.byRule.toJson), ("by_file", b.byFile.toJson)]

/-- A baseline with its path and its numbers, without the time it was made. -/
def summary (b : Baseline) (path : String) : Json := .obj [("path", .str path),
  ("version", .int b.version), ("tool_version", .str b.toolVersion),
  ("description", .str b.description), ("issues", .arr (b.issues.map (·.toJson))),
  ("stats", b.statsJson)]

/-- The saved form; an empty list is written as none. -/
def toJson (b : Baseline) : Json := .obj <|
  [("version", .int b.version), ("created", .str b.created), ("tool_version", .str b.toolVersion)]
  ++ Json.optStr "description" b.description
  ++ [("issues", if b.issues.isEmpty then .null else .arr (b.issues.map (·.toJson)))]

/-- Reads the saved form. -/
def ofJson (j : Json) : Option Baseline := do
  guard j.isRecord
  return ⟨← j.intField "version", ← j.textField "created", ← j.textField "tool_version",
    ← j.textField "description", ← j.listField "issues" BaselineEntry.ofJson⟩

/-- Reads a baseline. -/
def parse (path : String) (content : Bytes) : Except BaselineError Baseline :=
  match Json.parseBytes content with
  | .error e => .error (.parse path e.message)
  | .ok j =>
    match ofJson j with
    | none => .error (.parse path "json: cannot unmarshal value")
    | some b => if b.version > formatVersion then .error (.unsupported b.version) else .ok b

/-- Reads the baseline in a file. -/
def load (d : Disk) (path : String) : Except BaselineError Baseline :=
  match d.read path with
  | .error e => .error (.read path e)
  | .ok content => parse path content

/-- What a directory has: a baseline file, or something that hinders looking. -/
def look (d : Disk) (dir : String) : Option (Except BaselineError String) :=
  let path := Path.join [dir, fileName]
  match d.stat path with
  | .ok _ => some (.ok path)
  | .error e => if e.isNotFound then none else some (.error (.read path e))

/-- The nearest baseline of a directory and those above it, with its path. -/
def findAndLoad (d : Disk) (dir : String) : Except BaselineError (Option (Baseline × String)) :=
  match Disk.nearest (look d) (d.abs dir) with
  | none => .ok none
  | some (.error e) => .error e
  | some (.ok path) => (load d path).map fun b => some (b, path)

/-- Writes a baseline to a file. -/
def save (b : Baseline) (path : String) : DiskM Unit := DiskM.writeJson path b.toJson

end Baseline

end InstallerLint
