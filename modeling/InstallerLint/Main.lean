import InstallerLint.Cli.Run

/-!
# The program

The entry point: a picture of the working directory is taken, the tool runs on it, and what
changed is written back.
-/

namespace InstallerLint
namespace Program

/-- The content of a file or directory. -/
partial def entryOf (e : IO.FS.DirEntry) : IO Entry := do
  let m ← e.path.metadata
  if m.type == .dir then
    let inner ← (← e.path.readDir).toList.mapM fun x => do return (x.fileName, ← entryOf x)
    return .dir inner
  else
    return .file (← IO.FS.readBinFile e.path).toList m.modified.sec

/-- The files of settings and accepted findings that count for all directories below. -/
def outerFiles : List String := Config.fileNames ++ Config.envFiles ++ [Baseline.fileName]

/-- A disk with a file added, if it is there. -/
def withFile (d : Disk) (path : String) : IO Disk := do
  try
    let content := (← IO.FS.readBinFile path).toList
    return { d with root := d.root.put (Path.cleanParts path) (.file content 0) }
  catch _ => return d

/-- The directories above a directory. -/
def above (dir : String) : List String :=
  let parts := Path.cleanParts dir
  (List.range parts.length).map fun i => Path.ofParts true (parts.take i)

mutual

/-- The latest change in an entry. -/
def latest : Entry → Int
  | .file _ t => t
  | .dir es => latestIn es
  | .link _ => 0

/-- The latest change in entries. -/
def latestIn : List (String × Entry) → Int
  | [] => 0
  | (_, e) :: rest => max (latest e) (latestIn rest)

end

/-- A picture of the working directory; its clock shows the latest change in it. -/
def picture : IO Disk := do
  let cwd ← IO.currentDir
  let entries ← (← cwd.readDir).toList.mapM fun e => do return (e.fileName, ← entryOf e)
  let path := cwd.toString
  let root : Entry := (Entry.dir []).put (Path.cleanParts path) (.dir entries)
  let d : Disk := { root, cwd := path, now := latestIn entries }
  (above path).foldlM (fun d dir => outerFiles.foldlM (fun d name => withFile d (Path.join [dir, name])) d) d

/-- Writes what differs between two pictures of a place. -/
partial def writeBack (path : String) (old : Option Entry) (new : Entry) : IO Unit :=
  match new with
  | .file content _ =>
    match old with
    | some (.file before _) =>
      if before = content then pure () else IO.FS.writeBinFile path (ByteArray.mk content.toArray)
    | _ => IO.FS.writeBinFile path (ByteArray.mk content.toArray)
  | .dir es => do
    let before := (old.map (·.entries)).getD []
    if !(old.any (·.isDir)) then IO.FS.createDirAll path
    for (name, e) in before do
      if (es.lookup name).isNone then
        if e.isDir then IO.FS.removeDirAll (Path.join [path, name])
        else IO.FS.removeFile (Path.join [path, name])
    for (name, e) in es do
      writeBack (Path.join [path, name]) (before.lookup name) e
  | .link _ => pure ()

/-- The variables of the environment that settings are read from. -/
def environment : IO Environment := do
  let names := (Config.standing.keys ++ ["exclude", "rules.enabled", "rules.disabled",
    "rules.categories", "rules.files"]).map Config.envName
  let found ← names.mapM fun n => do return ((← IO.getEnv n).map fun v => (n, v))
  return found.filterMap id

/-- The reply of a version control program that is not there. -/
def noGit (_ : List String) : StateM Disk GitReply :=
  pure (.failed "" "exec: \"git\": executable file not found in $PATH")

end Program
end InstallerLint

open InstallerLint in
/-- Runs the tool. -/
def main (args : List String) : IO UInt32 := do
  let before ← Program.picture
  let r := Cli.run (← Program.environment) Program.noGit args before
  let at_ (d : Disk) : Option Entry := d.root.get? (Path.cleanParts d.cwd)
  match at_ r.disk with
  | some e => Program.writeBack before.cwd (at_ before) e
  | none => pure ()
  (← IO.getStdout).putStr r.out
  (← IO.getStderr).putStr r.err
  return UInt32.ofNat r.code
