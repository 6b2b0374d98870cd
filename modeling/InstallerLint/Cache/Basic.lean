import InstallerLint.Cache.Entry
import InstallerLint.Disk.Write
import InstallerLint.Log
import InstallerLint.Tally

/-!
# The cache of results

Results are kept between runs, so that only files that changed are analysed again.  A result is
used again only if the content of the file, the version of the tool and the context are those it
was found with, and if it can be read.

**On disk.**  The index is one file; every result is a file of its own in a directory beside it.
The index in memory is written by `save`, and only if it changed.

**Paths** are texts.  Names of files that are not UTF-8, which the index and the results could not
hold as they are, are not among them.
-/

namespace InstallerLint

/-- Why the cache cannot be used. -/
structure CacheError where
  /-- Whether reading, writing or encoding failed. -/
  kind : String
  path : String
  cause : String
  deriving DecidableEq, Repr

namespace CacheError

/-- The wording without the cause. -/
def about (e : CacheError) : String := "cache " ++ e.kind ++ " " ++ e.path ++ ": "

/-- The wording. -/
def message (e : CacheError) : String := e.about ++ e.cause

end CacheError

/-- How a look into the cache ends. -/
inductive Lookup where
  | hit
  | miss
  /-- The entry is for something else. -/
  | stale
  | corrupt
  deriving DecidableEq, Repr, Inhabited

/-- The name of an end. -/
def Lookup.name : Lookup → String
  | hit => "hit"
  | miss => "miss"
  | stale => "stale"
  | corrupt => "corrupt"

/-- What happened since a cache was opened. -/
structure CacheStats where
  hits : Nat := 0
  misses : Nat := 0
  analyzed : Nat := 0
  skipped : Nat := 0
  bytesSaved : Nat := 0
  /-- The looks by how they ended. -/
  lookups : Tally := []
  deriving DecidableEq, Repr, Inhabited

namespace CacheStats

/-- The saved form. -/
def toJson (s : CacheStats) : Json := .obj [("hits", .nat s.hits), ("misses", .nat s.misses),
  ("analyzed", .nat s.analyzed), ("skipped", .nat s.skipped), ("bytes_saved", .nat s.bytesSaved)]

/-- A quotient of natural numbers, rounded to the nearest, and to an even one from the middle. -/
def roundDiv (num den : Nat) : Nat :=
  let q := num / den
  let r := num % den
  if den < 2 * r || (den = 2 * r && q % 2 = 1) then q + 1 else q

/-- The part of the looks that were hits, with six decimals. -/
def hitRate (s : CacheStats) : String :=
  let total := s.hits + s.misses
  let millionths := if total = 0 then 0 else roundDiv (s.hits * 1000000) total
  let places := toString (millionths % 1000000)
  toString (millionths / 1000000) ++ "."
    ++ String.ofList (List.replicate (6 - places.length) '0') ++ places

/-- Counts a look that was no hit. -/
def addMiss (s : CacheStats) (end_ : Lookup) : CacheStats :=
  { s with misses := s.misses + 1, lookups := s.lookups.add end_.name 1 }

/-- Counts a hit on a file of some size. -/
def addHit (s : CacheStats) (size : Nat) : CacheStats :=
  { s with
    hits := s.hits + 1
    skipped := s.skipped + 1
    bytesSaved := s.bytesSaved + size
    lookups := s.lookups.add Lookup.hit.name 1 }

end CacheStats

/-- An open cache. -/
structure Cache where
  dir : String
  toolVersion : String
  context : String := ""
  index : CacheIndex
  /-- Whether the entries differ from those on disk. -/
  dirty : Bool := false
  stats : CacheStats := {}
  deriving Repr, Inhabited

namespace Cache

/-- How long an entry is kept, in seconds. -/
def maxAge : Int := 7 * 24 * 3600

/-- The file of the index in a directory. -/
def indexPath (dir : String) : String := Path.join [dir, "index.json"]

/-- The directory of the results in a directory. -/
def resultsPath (dir : String) : String := Path.join [dir, "results"]

/-- The file of a result. -/
def blobPath (dir name : String) : String := Path.join [resultsPath dir, name]

/-- The kind of errors that come from the disk. -/
def ioKind : String := "io"

/-- An operation on the disk, with errors about a path. -/
def onDisk {α : Type} (path : String) (act : DiskM α) (d : Disk) : Except CacheError α × Disk :=
  match act d with
  | .ok a d => (.ok a, d)
  | .error e d => (.error ⟨ioKind, path, e.message⟩, d)

/-- Empties the directory of the results. -/
def resetResults (dir : String) (d : Disk) : Except CacheError Unit × Disk :=
  onDisk (resultsPath dir) (do
    DiskM.removeAll (resultsPath dir)
    DiskM.makeDirs (resultsPath dir)) d

/-- How opening ends: with a cache or an error, and with log entries. -/
structure Opened where
  /-- The cache, or why there is none. -/
  result : Except CacheError Cache
  log : List LogEntry := []

/-- A cache that starts again without entries. -/
def restart (c : Cache) (log : List LogEntry) (d : Disk) : Opened × Disk :=
  match resetResults c.dir d with
  | (.ok (), d) => (⟨.ok { c with dirty := true }, log⟩, d)
  | (.error e, d) => (⟨.error e, log⟩, d)

/-- A cache with the entries that its file holds. -/
def openWith (c : Cache) (content : Bytes) (d : Disk) : Opened × Disk :=
  let path := indexPath c.dir
  match CacheIndex.parse content with
  | .error cause =>
    c.restart [.warn "cache: unreadable index, starting empty"
      [("path", path), ("error", CacheError.message ⟨"parse", path, cause⟩)]] d
  | .ok ix =>
    if ix.version = CacheIndex.formatVersion then (⟨.ok { c with index := ix }, []⟩, d)
    else c.restart [⟨.info, "cache: format version changed, starting empty", [("path", path),
      ("found", toString ix.version), ("want", toString CacheIndex.formatVersion)]⟩] d

/-- Opens the cache in a directory, which is made if there is none. -/
def open_ (dir toolVersion : String) (d : Disk) : Opened × Disk :=
  match onDisk (resultsPath dir) (DiskM.makeDirs (resultsPath dir)) d with
  | (.error e, d) => (⟨.error e, []⟩, d)
  | (.ok (), d) =>
    let c : Cache := { dir, toolVersion, index := CacheIndex.fresh d.now }
    match DiskM.read (indexPath dir) d with
    | .ok content d => c.openWith content d
    | .error e d =>
      if e.isNotFound then (⟨.ok c, []⟩, d)
      else (⟨.error ⟨ioKind, indexPath dir, e.message⟩, []⟩, d)

/-- The number of entries. -/
def size (c : Cache) : Nat := c.index.entries.length

/-- Sets what results depend on. -/
def setContext (c : Cache) (key : String) : Cache := { c with context := key }

/-- Whether an entry is for a content under the present version and context. -/
def isCurrent (c : Cache) (e : CacheEntry) (hash : String) : Bool :=
  e.contentHash = hash && e.toolVersion = c.toolVersion && e.context = c.context

/-- Whether there is no entry for a file with a content. -/
def needsAnalysis (c : Cache) (path : String) (source : Bytes) : Bool :=
  !((c.index.find? path).any fun e => c.isCurrent e (CacheEntry.hashOf source))

/-- A stored result, if it can be read and belongs to a file. -/
def readBlob (path : String) (content : Bytes) : Option FileResult := do
  let j ← (Json.parseBytes content).toOption
  let r ← FileResult.ofJson j
  guard (r.file = path)
  return { r with fromCache := true }

/-- A cache that drops a result it cannot read. -/
def dropCorrupt (c : Cache) (path : String) : Cache :=
  { c with index := c.index.erase path, dirty := true, stats := c.stats.addMiss .corrupt }

/-- Looks for the result of a file with a content. -/
def get (c : Cache) (path : String) (source : Bytes) (d : Disk) :
    Option FileResult × Cache × Disk :=
  match c.index.find? path with
  | none => (none, { c with stats := c.stats.addMiss .miss }, d)
  | some e =>
    if !c.isCurrent e (CacheEntry.hashOf source) then
      (none, { c with stats := c.stats.addMiss .stale }, d)
    else
      match DiskM.read (blobPath c.dir e.resultFile) d with
      | .error _ d => (none, c.dropCorrupt path, d)
      | .ok content d =>
        match readBlob path content with
        | none => (none, c.dropCorrupt path, d)
        | some r => (some r, { c with stats := c.stats.addHit source.length }, d)

/-- Takes away a stored result if it is there. -/
def removeBlob (path : String) (d : Disk) : Except CacheError Unit × Disk :=
  match DiskM.remove path d with
  | .ok _ d => (.ok (), d)
  | .error e d => (if e.isNotFound then .ok () else .error ⟨ioKind, path, e.message⟩, d)

/-- Takes away stored results that no entry names; the first failure is reported. -/
def removeUnshared (dir : String) (used : List String) :
    List String → Disk → Except CacheError Unit × Disk
  | [], d => (.ok (), d)
  | f :: fs, d =>
    if used.contains f then removeUnshared dir used fs d
    else
      let (r, d) := removeBlob (blobPath dir f) d
      let (rest, d) := removeUnshared dir used fs d
      match r with
      | .ok () => (rest, d)
      | .error e => (.error e, d)

/-- The entry for a result found now. -/
def entryFor (c : Cache) (path : String) (source : Bytes) (now : Int) : CacheEntry :=
  let hash := CacheEntry.hashOf source
  ⟨hash, now, c.toolVersion, CacheEntry.fileFor path hash, c.context⟩

/-- The stored form of a result. -/
def blobOf (r : FileResult) : Bytes := Bytes.ofString (r.toJson.compact true)

/-- The cache with a new entry. -/
def record (c : Cache) (path : String) (e : CacheEntry) : Cache :=
  { c with
    index := c.index.insert path e
    dirty := true
    stats := { c.stats with analyzed := c.stats.analyzed + 1 } }

/-- The stored results that a new entry leaves without use. -/
def replaced (c : Cache) (path : String) (e : CacheEntry) : List String :=
  ((c.index.find? path).toList.map (·.resultFile)).filter (· ≠ e.resultFile)

/-- Stores the result of a file with a content. -/
def put (c : Cache) (path : String) (source : Bytes) (r : FileResult) (d : Disk) :
    Except CacheError Unit × Cache × Disk :=
  if !r.isGraded then (.error ⟨"serialize", path, "json: invalid severity"⟩, c, d)
  else
    let e := c.entryFor path source d.now
    match onDisk (blobPath c.dir e.resultFile)
        (DiskM.writeWhole (resultsPath c.dir) e.resultFile (blobOf r)) d with
    | (.error err, d) => (.error err, c, d)
    | (.ok (), d) =>
      let c' := c.record path e
      let (res, d) := removeUnshared c.dir c'.index.resultFiles (c.replaced path e) d
      (res, c', d)

/-- Writes the index if it changed. -/
def save (c : Cache) (d : Disk) : Except CacheError Unit × Cache × Disk :=
  if !c.dirty then (.ok (), c, d)
  else
    match onDisk (indexPath c.dir) (DiskM.writeWhole c.dir "index.json" c.index.render) d with
    | (.ok (), d) => (.ok (), { c with dirty := false }, d)
    | (.error e, d) => (.error e, c, d)

/-- Drops all entries and results. -/
def clear (c : Cache) (d : Disk) : Except CacheError Unit × Cache × Disk :=
  let (r, d') := resetResults c.dir d
  (r, { c with index := CacheIndex.fresh d.now, dirty := true }, d')

/-- Whether an entry is too old. -/
def isOld (now : Int) (e : CacheEntry) : Bool := e.analyzedAt < now - maxAge

/-- Drops old entries with their results, and tells how many. -/
def cleanup (c : Cache) (d : Disk) : Except CacheError Nat × Cache × Disk :=
  let old := c.index.entries.filter fun p => isOld d.now p.2
  let kept := c.index.entries.filter fun p => !isOld d.now p.2
  let c' := { c with
    index := { c.index with entries := kept }
    dirty := c.dirty || !old.isEmpty }
  let (r, d) := removeUnshared c.dir c'.index.resultFiles (old.map (·.2.resultFile)) d
  (r.map fun _ => old.length, c', d)

/-- Forgets a file. -/
def invalidate (c : Cache) (path : String) (d : Disk) : Cache × Disk :=
  match c.index.find? path with
  | none => (c, d)
  | some e =>
    let c' := { c with index := c.index.erase path, dirty := true }
    (c', (removeUnshared c.dir c'.index.resultFiles [e.resultFile] d).2)

end Cache

end InstallerLint
