import InstallerLint.Diagnostic.Json
import InstallerLint.Hash.Sha256
import InstallerLint.Hash.Xxh3
import InstallerLint.Json.Reader
import InstallerLint.Json.Writer

/-!
# What a cache remembers

An entry says for which content, tool version and context the result of a file was found, and in
which file the result is stored.  The index holds the entries of all files.
-/

namespace InstallerLint

/-- What is known of the result of one file. -/
structure CacheEntry where
  contentHash : String := ""
  /-- When the result was found, in seconds. -/
  analyzedAt : Int := 0
  toolVersion : String := ""
  resultFile : String := ""
  /-- What else the result depends on. -/
  context : String := ""
  deriving DecidableEq, Repr, Inhabited

/-- The entries of all files, each path once. -/
structure CacheIndex where
  version : Int := 0
  /-- When it was made, in seconds. -/
  createdAt : Int := 0
  entries : List (String × CacheEntry) := []
  deriving DecidableEq, Repr, Inhabited

namespace CacheEntry

/-- The hash of a content. -/
def hashOf (source : Bytes) : String := Hash.sha256 source

/-- The low half of the short hash of a path. -/
def pathMark (path : String) : String :=
  String.ofList ((Hash.xxh64 (Bytes.ofString path)).toList.drop 8)

/-- The file for the result of a path and a content. -/
def fileFor (path hash : String) : String :=
  String.ofList (hash.toList.take 16) ++ "-" ++ pathMark path ++ ".json"

/-- The saved form. -/
def toJson (e : CacheEntry) : Json := .obj <|
  [("content_hash", .str e.contentHash), ("analyzed_at", .int e.analyzedAt),
    ("tool_version", .str e.toolVersion), ("result_file", .str e.resultFile)]
  ++ Json.optStr "context" e.context

/-- Reads the saved form. -/
def ofJson (j : Json) : Option CacheEntry := do
  guard j.isRecord
  return ⟨← j.textField "content_hash", ← j.intField "analyzed_at", ← j.textField "tool_version",
    ← j.textField "result_file", ← j.textField "context"⟩

end CacheEntry

namespace CacheIndex

/-- The form that is written. -/
def formatVersion : Int := 1

/-- An index without entries. -/
def fresh (now : Int) : CacheIndex := ⟨formatVersion, now, []⟩

/-- The entry of a path. -/
def find? (ix : CacheIndex) (path : String) : Option CacheEntry := ix.entries.lookup path

/-- The index without the entry of a path. -/
def erase (ix : CacheIndex) (path : String) : CacheIndex :=
  { ix with entries := ix.entries.filter (·.1 ≠ path) }

/-- The index with another entry of a path. -/
def insert (ix : CacheIndex) (path : String) (e : CacheEntry) : CacheIndex :=
  { ix with entries := (path, e) :: ix.entries.filter (·.1 ≠ path) }

/-- The files with results that the entries name. -/
def resultFiles (ix : CacheIndex) : List String := ix.entries.map (·.2.resultFile)

/-- The saved form, with entries by path. -/
def toJson (ix : CacheIndex) : Json := .obj [("version", .int ix.version),
  ("created_at", .int ix.createdAt),
  ("entries", .obj ((Order.sortBy Prod.fst ix.entries).map fun (p, e) => (p, e.toJson)))]

/-- The version and the entries by path, without times. -/
def summary (ix : CacheIndex) : Json := .obj [("version", .int ix.version),
  ("entries", .obj ((Order.sortBy Prod.fst ix.entries).map fun (p, e) => (p, .obj [
    ("content_hash", .str e.contentHash), ("tool_version", .str e.toolVersion),
    ("result_file", .str e.resultFile), ("context", .str e.context)])))]

/-- Reads entries; of two with one path the last counts. -/
def entriesOf : List (String × Json) → Option (List (String × CacheEntry))
  | [] => some []
  | (path, j) :: rest => do
    let e ← CacheEntry.ofJson j
    let more ← entriesOf rest
    return if (more.lookup path).isSome then more else (path, e) :: more

/-- Reads the saved form. -/
def ofJson (j : Json) : Option CacheIndex := do
  guard j.isRecord
  let version ← j.intField "version"
  let created ← j.intField "created_at"
  match j.field? "entries" with
  | none => return ⟨version, created, []⟩
  | some (.obj ms) => return ⟨version, created, ← entriesOf ms⟩
  | some _ => none

/-- The text of the saved form. -/
def render (ix : CacheIndex) : Bytes := Bytes.ofString (ix.toJson.indented 0)

/-- Reads the text of the saved form, or tells why that cannot be done. -/
def parse (s : Bytes) : Except String CacheIndex :=
  match Json.parseBytes s with
  | .error e => .error e.message
  | .ok j =>
    match ofJson j with
    | some ix => .ok ix
    | none => .error "json: cannot unmarshal value"

end CacheIndex

end InstallerLint
