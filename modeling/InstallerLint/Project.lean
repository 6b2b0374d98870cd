import InstallerLint.Analysis.Analyzer
import InstallerLint.Cache.Basic
import InstallerLint.Rule.Builtin
import InstallerLint.Rule.Load
import InstallerLint.Version

/-!
# Analysing a project

The files of a project are analysed together, so that references are resolved across them.

**Two phases.**  First every file is read and its symbols are indexed, in the order of the paths.
Then every document is analysed against the finished index, or its stored result is used again.
A file that is no document has its parse failure as its only finding.  Results come in the order
of the paths.
-/

namespace InstallerLint

/-- A run in numbers. -/
structure ProjectStats where
  files : Nat := 0
  /-- Files that the settings leave out. -/
  excluded : Nat := 0
  unreadable : Nat := 0
  parseFailures : Nat := 0
  fromCache : Nat := 0
  evaluated : Nat := 0
  diagnostics : Nat := 0
  rules : Stats := {}
  cache : CacheStats := {}
  deriving Repr, Inhabited

/-- The saved form; times are not kept. -/
def ProjectStats.toJson (s : ProjectStats) : Json := .obj [("files", .nat s.files),
  ("excluded", .nat s.excluded), ("unreadable", .nat s.unreadable),
  ("parse_failures", .nat s.parseFailures), ("from_cache", .nat s.fromCache),
  ("evaluated", .nat s.evaluated), ("diagnostics", .nat s.diagnostics), ("rules", s.rules.toJson),
  ("cache", s.cache.toJson), ("duration_ns", .nat 0)]

/-- Rules that are put together from several sources, and where the rule of each id stands. -/
structure RuleTable where
  /-- The rules in order. -/
  rules : List Rule
  /-- The place of each id; of several entries for an id the first counts. -/
  places : List (String × Nat)

namespace RuleTable

/-- The table of some rules. -/
def ofRules (rules : List Rule) : RuleTable :=
  ⟨rules, (rules.zipIdx.map fun (r, i) => (r.id, i)).reverse⟩

/-- Takes in a rule: it comes in the place of the one with its id, or else behind all others. -/
def add (t : RuleTable) (r : Rule) : RuleTable :=
  match t.places.lookup r.id with
  | some i => { t with rules := t.rules.set i r }
  | none => ⟨t.rules ++ [r], (r.id, t.rules.length) :: t.places⟩

/-- Takes in rules one after the other. -/
def addAll (t : RuleTable) (more : List Rule) : RuleTable := more.foldl add t

end RuleTable

namespace Project

/-- The files once each, in order; two spellings of one path are one file. -/
def distinctFiles (files : List String) : List String :=
  Order.sort (go [] files)
where
  /-- The files whose clean paths were not seen. -/
  go (seen : List String) : List String → List String
    | [] => []
    | f :: fs =>
      if seen.contains (Path.clean f) then go seen fs else f :: go (Path.clean f :: seen) fs

/-- What reading a file gives. -/
inductive ReadFile where
  | excluded
  | unreadable (path : String) (cause : DiskError)
  | malformed (path : String) (cause : ParseError)
  | document (d : Document)

/-- Reads a file. -/
def readFile (disk : Disk) (cfg : Config) (path : String) : ReadFile :=
  if cfg.excludes path then .excluded
  else
    match disk.read path with
    | .error e => .unreadable path e
    | .ok source =>
      match Document.parse source path with
      | .error e => .malformed path e
      | .ok d => .document d

namespace ReadFile

/-- The document, if there is one. -/
def document? : ReadFile → Option Document
  | document d => some d
  | _ => none

/-- The result of a file that is no document. -/
def failure? (a : Analyzer) : ReadFile → Option FileResult
  | malformed path e => some (a.parseFailure path e)
  | _ => none

/-- What is logged. -/
def logged? : ReadFile → Option LogEntry
  | unreadable path e => some (.warn "analysis: skipping unreadable file"
      [("file", path), ("error", "index " ++ path ++ ": " ++ e.message)])
  | malformed path e =>
    some (.warn "analysis: parse failed" [("file", path), ("error", e.message)])
  | _ => none

/-- Whether it is left out. -/
def isExcluded : ReadFile → Bool
  | excluded => true
  | _ => false

/-- Whether it cannot be read. -/
def isUnreadable : ReadFile → Bool
  | unreadable .. => true
  | _ => false

end ReadFile

/-- The symbols of documents and the standard directories. -/
def indexOf (docs : List Document) : SymbolIndex :=
  (docs.foldl SymbolIndex.addDocument {}).addStandardDirectories

/-- What stored results depend on: the selection of rules and the symbols. -/
def contextKey (a : Analyzer) (ix : SymbolIndex) : String :=
  Hash.xxh64 (Bytes.ofString (a.digest ++ "|" ++ ix.digest))

/-- What a run works with and adds to. -/
structure State where
  /-- The cache, if one is used. -/
  cache : Option Cache
  disk : Disk
  memo : Memo := []
  results : List FileResult := []
  fromCache : Nat := 0
  evaluated : Nat := 0
  rules : Stats := {}
  log : List LogEntry := []

/-- Looks for a stored result. -/
def stored (s : State) (d : Document) : Option FileResult × State :=
  match s.cache with
  | none => (none, s)
  | some c =>
    let (r, c, disk) := c.get d.path d.source s.disk
    (r, { s with cache := some c, disk })

/-- Stores a result. -/
def store (s : State) (d : Document) (r : FileResult) : State :=
  match s.cache with
  | none => s
  | some c =>
    let (res, c, disk) := c.put d.path d.source r s.disk
    { s with
      cache := some c
      disk
      log := s.log ++ (match res with
        | .ok () => []
        | .error e => [.warn "analysis: cache write failed" [("file", d.path), ("error", e.message)]]) }

/-- Takes the stored result of a document or analyses it. -/
def step (a : Analyzer) (ix : SymbolIndex) (s : State) (d : Document) : State :=
  match stored s d with
  | (some r, s) => { s with results := s.results ++ [r], fromCache := s.fromCache + 1 }
  | (none, s) =>
    let (r, stats, memo) := a.analyze d ix.resolver s.memo
    store { s with
      memo
      results := s.results ++ [r]
      evaluated := s.evaluated + 1
      rules := s.rules.merge stats } d r

/-- Saves the cache at the end of a run. -/
def finish (s : State) : State :=
  match s.cache with
  | none => s
  | some c =>
    let (res, c, disk) := c.save s.disk
    { s with
      cache := some c
      disk
      log := s.log ++ (match res with
        | .ok () => []
        | .error e => [.warn "analysis: cache save failed" [("dir", c.dir), ("error", e.message)]]) }

/-- What a run gives. -/
structure Run where
  results : List FileResult
  stats : ProjectStats
  index : SymbolIndex
  cache : Option Cache
  disk : Disk
  log : List LogEntry

/-- The last entry of a run. -/
def doneEntry (s : ProjectStats) : LogEntry := ⟨.info, "analysis: done", [
  ("files", toString s.files), ("evaluated", toString s.evaluated),
  ("cached", toString s.fromCache), ("diagnostics", toString s.diagnostics)]⟩

/-- Analyses files with rules and settings; a run that is cancelled reads all files and then
stops. -/
def run (rules : List Rule) (cfg : Config) (cache : Option Cache) (files : List String)
    (disk : Disk) (cancelled : Bool) : Run :=
  let a := Analyzer.new rules cfg
  let reads := (distinctFiles files).map (readFile disk cfg)
  let docs := reads.filterMap (·.document?)
  let ix := indexOf docs
  let start : State := {
    cache := cache.map (·.setContext (contextKey a ix))
    disk
    log := reads.filterMap (·.logged?) }
  let s := finish (if cancelled then start else docs.foldl (step a ix) start)
  let results := FileResult.sort (reads.filterMap (·.failure? a) ++ s.results)
  let stats : ProjectStats := {
    files := (reads.filter fun r => !r.isExcluded).length
    excluded := (reads.filter (·.isExcluded)).length
    unreadable := (reads.filter (·.isUnreadable)).length
    parseFailures := (reads.filterMap (·.failure? a)).length
    fromCache := s.fromCache
    evaluated := s.evaluated
    diagnostics := FileResult.total results
    rules := s.rules
    cache := (s.cache.map (·.stats)).getD {} }
  ⟨results, stats, ix, s.cache, s.disk, s.log ++ (if cancelled then [] else [doneEntry stats])⟩

/-- Reads a file of rules. -/
def loadFile (disk : Disk) (path : String) (strict : Bool) : Except LoadError Loaded :=
  match disk.read path with
  | .error e => .error (.unreadable path e.message)
  | .ok content => RuleSet.load content strict path

/-- The log entries of rules that were read. -/
def warningsOf (source : String) (l : Loaded) : List LogEntry :=
  l.warnings.map fun w => .warn w [("source", source)]

/-- The rules of a table and those of files, with what there is to say. -/
def loadRules (disk : Disk) :
    RuleTable → List String → List LogEntry × Except LoadError (List Rule)
  | t, [] => ([], .ok t.rules)
  | t, path :: rest =>
    match loadFile disk path false with
    | .error e => ([], .error e)
    | .ok l =>
      let (log, r) := loadRules disk (t.addAll l.set.rules) rest
      (warningsOf path l ++ log, r)

/-- The rules that settings ask for. -/
def rulesOf (disk : Disk) (cfg : Config) : List LogEntry × Except LoadError (List Rule) :=
  loadRules disk (.ofRules RuleSet.standard.rules) cfg.ruleFiles

/-- Analyses files with the rules and the cache that settings ask for.  A cache that cannot be
opened is not used. -/
def analyze (cfg : Config) (files : List String) (disk : Disk) : List LogEntry × Except LoadError Run :=
  match rulesOf disk cfg with
  | (log, .error e) => (log, .error e)
  | (log, .ok rules) =>
    if !cfg.cacheEnabled then
      let r := run rules cfg none files disk false
      (log ++ r.log, .ok r)
    else
      let (opened, disk) := Cache.open_ cfg.cachePlace toolVersion disk
      let (cache, more) := match opened.result with
        | .ok c => (some c, [])
        | .error e => (none, [.warn "analysis: cache unavailable" [("error", e.message)]])
      let r := run rules cfg cache files disk false
      (log ++ opened.log ++ more ++ r.log, .ok r)

end Project

end InstallerLint
