import InstallerLint.Config.Basic
import InstallerLint.Config.Decode
import InstallerLint.Config.Toml
import InstallerLint.Disk.Basic
import InstallerLint.Text.EnvFile

/-!
# Loading settings

Settings come from three layers: variables of the environment, then a settings file, then what is
set by default.  The first layer that has something for a key decides.

**Variables.**  The variable of a key has the tool's mark before the key in large letters.  Only
keys that the file or the defaults have are asked for.  Files of variables beside the settings
file add variables that are not yet set.
-/

namespace InstallerLint

/-- Why settings cannot be loaded. -/
inductive ConfigError where
  /-- The file cannot be looked for. -/
  | lost (cause : DiskError)
  /-- A file of variables cannot be opened. -/
  | envUnreadable (path : String) (cause : DiskError)
  /-- A file of variables cannot be read. -/
  | envForm (path cause : String)
  /-- The ending of the file is not known. -/
  | unknownKind (path kind : String)
  | unreadable (path : String) (cause : DiskError)
  | form (path cause : String)
  /-- Values have types that do not fit. -/
  | types (problems : List String)
  /-- The settings are not well formed. -/
  | invalid (problems : String)
  deriving DecidableEq, Repr

namespace ConfigError

/-- The wording without the cause. -/
def about : ConfigError → String
  | envUnreadable path _ | envForm path _ => "failed to load env file " ++ path ++ ": "
  | unknownKind path _ | unreadable path _ | form path _ => "failed to read config " ++ path ++ ": "
  | types _ => "failed to unmarshal config: "
  | lost _ | invalid _ => ""

/-- The wording of the cause. -/
def cause : ConfigError → String
  | lost e | envUnreadable _ e | unreadable _ e => e.message
  | envForm _ c => c
  | unknownKind _ kind => "Unsupported Config Type " ++ Quoted.quote kind
  | form _ c => "While parsing config: " ++ c
  | types problems => toString problems.length ++ " error(s) decoding:\n\n"
      ++ "\n".intercalate (Order.sort (problems.map ("* " ++ ·)))
  | invalid problems => problems

/-- The wording. -/
def message (e : ConfigError) : String := e.about ++ e.cause

end ConfigError

/-- Variables with their values; of two with one name the first counts. -/
abbrev Environment := List (String × String)

namespace Config

/-- The mark of the tool's variables. -/
def envMark : String := "WIXLINT_"

/-- The variable of a key. -/
def envName (key : String) : String := Find.replaceAll (Case.upper (envMark ++ key)) "." "_"

/-- The value that the environment has for a key; an empty one does not count. -/
def envValue? (env : Environment) (key : String) : Option String :=
  (env.lookup (envName key)).filter (· ≠ "")

/-- What is set by default. -/
def standing : Setting :=
  let c : Config := {}
  .group [("min_severity", .text c.minSeverity),
    ("cache", .group [("enabled", .bool c.cacheEnabled), ("dir", .text c.cacheDir)]),
    ("workers", .int 0), ("max_diagnostics", .int 0), ("baseline", .text "")]

/-- The keys of the groups around a key. -/
def around (key : String) : List String :=
  let path := Find.pieces '.' key
  ((List.range path.length).drop 1).map fun i => ".".intercalate (path.take i)

/-- The keys that the file or the defaults have. -/
def keys (file : Setting) : List String :=
  file.keys ++ standing.keys.filter fun k => !((around k).any file.keys.contains)

/-- What the layers have for a key. -/
def valueOf (env : Environment) (file : Setting) (key : String) : Option Setting :=
  let path := Find.pieces '.' key
  match envValue? env key with
  | some v => some (.text v)
  | none =>
    if (around key).any fun k => (envValue? env k).isSome then none
    else
      match file.search path.length path with
      | some v => some v
      | none =>
        if file.blocks path then none
        else (standing.along path).filter (!·.isNull)

/-- The values of all layers. -/
def layered (env : Environment) (file : Setting) : Setting :=
  .group ((keys file).foldl (fun ms k => match valueOf env file k with
    | some v => Setting.place (Find.pieces '.' k) v ms
    | none => ms) [])

/-- Adds the variables of a file, if it is there, behind those that are set. -/
def addEnvFile (d : Disk) (env : Environment) (path : String) : Except ConfigError Environment :=
  if !d.has path then .ok env
  else
    match d.read path with
    | .error e => .error (.envUnreadable path e)
    | .ok content =>
      match EnvFile.parse content with
      | .error e => .error (.envForm path e)
      | .ok vars => .ok (env ++ vars)

/-- The names of the files of variables, the first of which counts more. -/
def envFiles : List String := [".env.local", ".env"]

/-- The values in a settings file. -/
def readFile (d : Disk) (path : String) : Except ConfigError Setting :=
  let kind := Find.stripFront (Path.ext path) "."
  let read (parse : Bytes → Except String Setting) : Except ConfigError Setting :=
    match d.read path with
    | .error e => .error (.unreadable path e)
    | .ok content => ((parse content).map Setting.small).mapError (.form path)
  if kind = "json" then read Setting.readJson
  else if kind = "yaml" || kind = "yml" then read Setting.readYaml
  else if kind = "toml" then read Setting.readToml
  else .error (.unknownKind path kind)

/-- The environment with the files of variables beside a settings file, and the values in the file;
without a file there are none. -/
def sources (d : Disk) (env : Environment) (path : String) :
    Except ConfigError (Environment × Setting) := do
  if path = "" then return (env, .group [])
  else
    let env ← envFiles.foldlM (fun env name => addEnvFile d env (Path.join [Path.dir path, name])) env
    return (env, ← readFile d path)

/-- Loads the settings of a file, or those of the environment alone when no file is given. -/
def load (d : Disk) (env : Environment) (path : String) : Except ConfigError Config := do
  let (env, file) ← sources d env path
  let (c, problems) := decode { workDir := d.cwd } (layered env file)
  if !problems.isEmpty then throw (.types problems)
  let c := { c with path }
  if !c.problems.isEmpty then throw (.invalid c.problemText)
  return c

/-- The names of settings files, in the order they are looked for. -/
def fileNames : List String := [".wixanalyzer.json", ".wixanalyzer.yaml", ".wixanalyzer.yml"]

/-- The settings file in a directory, or why it cannot be told. -/
def look (d : Disk) (dir : String) : Option (Except DiskError String) :=
  fileNames.findSome? fun name =>
    let path := Path.join [dir, name]
    match d.stat path with
    | .ok e => if e.isDir then none else some (.ok path)
    | .error e => if e.isNotFound then none else some (.error e)

/-- The nearest settings file of a file or directory; empty when there is none. -/
def find (d : Disk) (start : String) : Except ConfigError String :=
  let path := d.abs start
  let isFile := match d.stat path with
    | .ok e => !e.isDir
    | .error _ => false
  match Disk.nearest (look d) (if isFile then Path.dir path else path) with
  | none => .ok ""
  | some (.ok p) => .ok p
  | some (.error e) => .error (.lost e)

/-- Loads the nearest settings of a file or directory. -/
def findAndLoad (d : Disk) (env : Environment) (start : String) : Except ConfigError Config := do
  load d env (← find d start)

end Config

end InstallerLint
