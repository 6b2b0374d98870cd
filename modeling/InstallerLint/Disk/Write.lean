import InstallerLint.Disk.Basic
import InstallerLint.Json.Writer

/-!
# Writing to a disk

Every operation can fail, either because of what the disk holds or because the disk itself
breaks: then nothing changes.

**Whole files.**  `writeWhole` writes to a new file beside the target and gives it the name of
the target at the end, so that a reader sees the old content or the new one and nothing between.
-/

namespace InstallerLint

/-- Operations that can change a disk and can fail. -/
abbrev DiskM := EStateM DiskError Disk

namespace DiskM

/-- Refuses when the disk breaks at this operation. -/
def attempt (operation path : String) : DiskM Unit := fun d =>
  match d.failures with
  | true :: rest => .error ⟨operation, path, .broken⟩ { d with failures := rest }
  | false :: rest => .ok () { d with failures := rest }
  | [] => .ok () d

/-- A result of looking at the disk. -/
def ofExcept {α : Type} : Except DiskError α → DiskM α
  | .ok a => pure a
  | .error e => throw e

/-- The way to a path whose last name need not exist. -/
def wayTo (operation path : String) : DiskM (List String) := do
  ofExcept (Disk.explain operation path ((← get).way false path))

/-- Sets what stands at a way. -/
def setEntry (way : List String) (e : Entry) : DiskM Unit :=
  modify fun d => { d with root := d.root.put way e }

/-- Reads a file. -/
def read (path : String) : DiskM Bytes := do
  attempt "open" path
  ofExcept ((← get).read path)

/-- Makes one directory unless it is there; a link that leads nowhere keeps its name. -/
def makeDir (path : String) : DiskM Unit := do
  match (← get).find true path with
  | .ok e => if e.isDir then pure () else throw ⟨"mkdir", path, .notDirectory⟩
  | .error .notFound =>
    attempt "mkdir" path
    let w ← wayTo "mkdir" path
    if ((← get).root.get? w).isSome then throw ⟨"mkdir", path, .nameTaken⟩
    setEntry w (.dir [])
  | .error r => throw ⟨"mkdir", path, r⟩

/-- The paths that lead to a path, the shortest first. -/
def stages (path : String) : List String :=
  let ps := Path.cleanParts path
  (List.range ps.length).map fun n => Path.ofParts (Path.isAbs path) (ps.take (n + 1))

/-- Makes directories one after the other. -/
def makeEach : List String → DiskM Unit
  | [] => pure ()
  | p :: ps => do
    makeDir p
    makeEach ps

/-- Makes a directory and all above it. -/
def makeDirs (path : String) : DiskM Unit := makeEach (stages path)

/-- Gives a file a content; a directory is not written to. -/
def write (path : String) (content : Bytes) : DiskM Unit := do
  attempt "write" path
  let d ← get
  match d.way true path with
  | .error r => throw ⟨"open", path, r⟩
  | .ok w =>
    match d.root.get? w with
    | some (.dir _) => throw ⟨"open", path, .isDirectory⟩
    | _ => setEntry w (.file content d.now)

/-- A name that no file in a directory has. -/
def freshName (stem : String) (taken : List String) : (fuel number : Nat) → String
  | 0, number => stem ++ toString number
  | fuel + 1, number =>
    let name := stem ++ toString number
    if taken.contains name then freshName stem taken fuel (number + 1) else name

/-- Makes a new empty file in a directory and returns its path. -/
def createTemp (dir stem : String) : DiskM String := do
  let d ← get
  let name := freshName stem (d.names dir) ((d.names dir).length + 1) 1
  let path := Path.join [dir, name]
  attempt "open" path
  match d.find true dir with
  | .error r => throw ⟨"open", path, r⟩
  | .ok e => if e.isDir then pure () else throw ⟨"open", path, .notDirectory⟩
  setEntry (← wayTo "open" path) (.file [] d.now)
  return path

/-- Gives a file another name; a file of that name goes. -/
def rename (old new : String) : DiskM Unit := do
  let both := old ++ " " ++ new
  attempt "rename" both
  let d ← get
  let source ← ofExcept (Disk.explain "rename" both (d.find false old))
  let from_ ← ofExcept (Disk.explain "rename" both (d.way false old))
  let target ← ofExcept (Disk.explain "rename" both (d.way false new))
  if (d.root.get? target).any Entry.isDir then throw ⟨"rename", both, .nameTaken⟩
  set { d with root := (d.root.erase from_).put target source }

/-- Takes away a file or an empty directory. -/
def remove (path : String) : DiskM Unit := do
  attempt "remove" path
  let d ← get
  let e ← ofExcept (Disk.explain "remove" path (d.find false path))
  let w ← wayTo "remove" path
  if e.entries.isEmpty then set { d with root := d.root.erase w }
  else throw ⟨"remove", path, .notEmpty⟩

/-- Takes away whatever a path leads to. -/
def removeAll (path : String) : DiskM Unit := do
  attempt "unlinkat" path
  let d ← get
  match d.way false path with
  | .ok w => set { d with root := d.root.erase w }
  | .error _ => pure ()

/-- Takes away a file if that is possible. -/
def discard (path : String) : DiskM Unit := do
  try remove path catch _ => pure ()

/-- A step on a new file, which goes when the step fails. -/
def onTemp (temp : String) (step : DiskM Unit) : DiskM Unit := do
  try step
  catch e =>
    discard temp
    throw e

/-- Writes a file as a whole through a new file in the same directory. -/
def writeWhole (dir name : String) (content : Bytes) : DiskM Unit := do
  makeDirs dir
  let temp ← createTemp dir (".tmp-" ++ name ++ "-")
  onTemp temp (write temp content)
  onTemp temp (attempt "sync" temp)
  onTemp temp (attempt "close" temp)
  rename temp (Path.join [dir, name])

/-- Writes a value to a file as a whole. -/
def writeJson (path : String) (j : Json) : DiskM Unit :=
  writeWhole (Path.dir path) (Path.base path) (Bytes.ofString (Json.document j))

end DiskM

end InstallerLint
