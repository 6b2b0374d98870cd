import InstallerLint.Config.Basic
import InstallerLint.Json.Basic

/-!
# The saved form of settings

Settings as a JSON value.  What a value leaves out is as it is by default.
-/

namespace InstallerLint

namespace Config

/-- A list of texts; other items count as empty. -/
def textsOf (j : Json) : List String := j.items.map fun x => (x.str?).getD ""

/-- Texts under names. -/
def textMapOf (j : Json) : List (String × String) :=
  j.members.map fun (k, v) => (k, (v.str?).getD "")

/-- The settings of rules. -/
def rulesOfJson (j : Json) : RuleSettings :=
  ⟨textsOf (j.get "enabled"), textsOf (j.get "disabled"), textMapOf (j.get "severity"),
    textsOf (j.get "categories"), textsOf (j.get "files")⟩

/-- Reads the saved form over given settings. -/
def ofJson (j : Json) (old : Config) : Config :=
  let cache := j.get "cache"
  { old with
    rules := rulesOfJson (j.get "rules")
    minSeverity := ((j.get "min_severity").str?).getD old.minSeverity
    exclude := textsOf (j.get "exclude")
    maxDiagnostics := ((j.get "max_diagnostics").int?).getD old.maxDiagnostics
    cacheEnabled := ((cache.get "enabled").bool?).getD old.cacheEnabled
    cacheDir := ((cache.get "dir").str?).getD old.cacheDir
    workers := ((j.get "workers").int?).getD old.workers
    baseline := ((j.get "baseline").str?).getD old.baseline }

/-- All settings in one level. -/
def flatJson (c : Config) : Json := .obj [("min_severity", .str c.minSeverity),
  ("exclude", .strs c.exclude), ("max_diagnostics", .int c.maxDiagnostics),
  ("workers", .int c.workers), ("baseline", .str c.baseline),
  ("cache_enabled", .bool c.cacheEnabled), ("cache_dir", .str c.cacheDir),
  ("enabled", .strs c.rules.enabled), ("disabled", .strs c.rules.disabled),
  ("severity", .obj (c.rules.severity.map fun (id, name) => (id, .str name))),
  ("rule_categories", .strs c.rules.categories), ("files", .strs c.rules.files)]

/-- What settings come to: the least level, the categories and the places. -/
def resolvedJson (c : Config) : Json := .obj [("min_level", .str c.minLevel.text),
  ("categories", .strs (Order.distinct c.rules.categories)), ("cache_dir", .str c.cachePlace),
  ("baseline_path", .str c.baselinePlace), ("rule_files", .strs c.ruleFiles),
  ("root", .str c.root), ("path", .str c.path)]

end Config

end InstallerLint
