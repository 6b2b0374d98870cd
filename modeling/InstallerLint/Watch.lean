import InstallerLint.Disk.Basic
import InstallerLint.SourceFile
import InstallerLint.Text.Find
import InstallerLint.Text.Order

/-!
# Watching for changes

Events about paths are sifted and collected into batches.  Only sources outside skipped
directories matter.

**Batches.**  A batch has one change for each path.  A path that was created and then written is
still new; otherwise the last event decides.
-/

namespace InstallerLint

/-- What can happen to a path. -/
inductive FileEvent where
  | create
  | write
  | remove
  | rename
  | chmod
  deriving DecidableEq, Repr, Inhabited

/-- The event of a name; a name that is not known stands for a change of permissions. -/
def FileEvent.ofName : String → FileEvent
  | "create" => create
  | "write" => write
  | "remove" => remove
  | "rename" => rename
  | _ => chmod

/-- What a batch says of a path. -/
inductive WatchedChange where
  | written
  | created
  | removed
  deriving DecidableEq, Repr, Inhabited

/-- The name of a change. -/
def WatchedChange.name : WatchedChange → String
  | written => "write"
  | created => "create"
  | removed => "remove"

/-- What events that come together mean. -/
def FileEvent.meaning? (events : List FileEvent) : Option WatchedChange :=
  if events.contains remove || events.contains rename then some .removed
  else if events.contains create then some .created
  else if events.contains write then some .written
  else none

/-- Changes since the last batch, each path once. -/
abbrev Batch := List (String × WatchedChange)

namespace Batch

/-- What a change makes of an earlier one. -/
def combine (earlier later : WatchedChange) : WatchedChange :=
  if earlier = .created && later = .written then .created else later

/-- Adds a change. -/
def add (path : String) (op : WatchedChange) : Batch → Batch
  | [] => [(path, op)]
  | (p, old) :: rest => if p = path then (p, combine old op) :: rest else (p, old) :: add path op rest

/-- The changes by path. -/
def drain (b : Batch) : Batch := Order.sortBy Prod.fst b

/-- The paths that are still there. -/
def paths (b : Batch) : List String := (b.filter (·.2 ≠ .removed)).map Prod.fst

/-- What is asked of a batch. -/
inductive Call where
  | add (path : String) (op : WatchedChange)
  | drain
  deriving DecidableEq, Repr

/-- What a batch hands over for each call that asks for it; then it is empty again. -/
def serve : Batch → List Call → List Batch
  | _, [] => []
  | b, .add path op :: calls => serve (b.add path op) calls
  | b, .drain :: calls => b.drain :: serve [] calls

end Batch

/-- What is watched. -/
structure Watcher where
  root : String
  extensions : List String := SourceFile.extensions
  /-- The names of directories that do not. -/
  skipDirs : List String := SourceFile.skippedDirs
  deriving Repr, Inhabited

namespace Watcher

/-- Whether a path is a source outside skipped directories. -/
def isRelevant (w : Watcher) (path : String) : Bool :=
  SourceFile.hasExtension path w.extensions &&
    match Path.relative? w.root path with
    | none => false
    | some rel => !Find.startsWith rel ".."
      && !(Path.parts (Path.dir rel)).any w.skipDirs.contains

/-- Takes up events about a path and tells whether they matter.  A new directory is not a change
of a source. -/
def handle (w : Watcher) (d : Disk) (path : String) (events : List FileEvent) (b : Batch) :
    Bool × Batch :=
  if events.contains .create && (d.stat path).toOption.any Entry.isDir then (false, b)
  else if !w.isRelevant path then (false, b)
  else
    match FileEvent.meaning? events with
    | none => (false, b)
    | some op => (true, b.add path op)

end Watcher

end InstallerLint
