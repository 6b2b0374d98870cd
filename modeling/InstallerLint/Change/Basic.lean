import InstallerLint.Diagnostic.Basic
import InstallerLint.Diff.Patch
import InstallerLint.Numbers
import InstallerLint.SourceFile
import InstallerLint.Walk.Basic

/-!
# Changed files and lines

What changed since some earlier state: files that were added, modified or deleted, and lines
that were added.  Findings can be limited to either.

**Spelling.**  A path counts from the working directory, so a relative and an absolute path of
one file mean the same file.
-/

namespace InstallerLint

/-- Files that changed. -/
structure ChangeSet where
  added : List String := []
  modified : List String := []
  deleted : List String := []
  /-- The state that was compared with; empty when there is none. -/
  baseRef : String := ""
  deriving DecidableEq, Repr, Inhabited

namespace ChangeSet

/-- The files that can hold findings, in order. -/
def changed (c : ChangeSet) : List String := Order.sort (c.added ++ c.modified)

/-- Whether anything changed. -/
def isSome (c : ChangeSet) : Bool :=
  !(c.added.isEmpty && c.modified.isEmpty && c.deleted.isEmpty)

/-- Whether a file changed. -/
def has (c : ChangeSet) (cwd path : String) : Bool :=
  c.changed.any fun f => Path.resolve cwd f = Path.resolve cwd path

/-- Findings in changed files, and how many others there were. -/
def limit (c : ChangeSet) (cwd : String) (rs : List FileResult) : List FileResult × Nat :=
  FileResult.keep (fun d => c.has cwd d.location.file) rs

/-- Changes in saved form. -/
def toJson (c : ChangeSet) : Json := .obj [("added", .strs c.added),
  ("modified", .strs c.modified), ("deleted", .strs c.deleted), ("base_ref", .str c.baseRef),
  ("changed", .strs c.changed), ("count", .nat c.changed.length), ("has", .bool c.isSome)]

end ChangeSet

/-- Lines that are new, by file. -/
abbrev LineSet := List (String × List Int)

namespace LineSet

/-- The new lines of a file. -/
def linesOf (ls : LineSet) (file : String) : List Int := (ls.lookup file).getD []

/-- Adds lines to those of a file. -/
def add (file : String) (new : List Int) : LineSet → LineSet
  | [] => [(file, new.eraseDups)]
  | (f, old) :: rest =>
    if f = file then (f, (old ++ new).eraseDups) :: rest else (f, old) :: add file new rest

/-- How many lines are new. -/
def size (ls : LineSet) : Nat := Numbers.total (ls.map (·.2.length))

/-- Whether a line is new. -/
def has (ls : LineSet) (cwd file : String) (line : Int) : Bool :=
  (ls.linesOf (Path.resolve cwd file)).contains line

/-- Findings that start on new lines, and how many others there were. -/
def limit (ls : LineSet) (cwd : String) (rs : List FileResult) : List FileResult × Nat :=
  FileResult.keep (fun d => ls.has cwd d.location.file d.location.line) rs

/-- New lines in saved form, in order. -/
def toJson (ls : LineSet) : Json :=
  .obj (ls.map fun (f, new) => (f, .arr ((new.mergeSort fun a b => a ≤ b).map .int)))

end LineSet

/-- Where changes are looked for. -/
structure ChangeScope where
  /-- The directory that paths of changes count from. -/
  dir : String
  /-- The endings of the files that count. -/
  extensions : List String := SourceFile.extensions
  deriving Repr, Inhabited

namespace ChangeScope

/-- A path of a change. -/
def place (s : ChangeScope) (path : String) : String :=
  if Path.isAbs path || s.dir = "" || s.dir = "." then path else Path.join [s.dir, path]

/-- Whether a file counts. -/
def takes (s : ChangeScope) (path : String) : Bool := SourceFile.hasExtension path s.extensions

/-- A line of a status listing: what happened, and the path it leaves. -/
structure StatusLine where
  status : Char
  path : String
  deriving DecidableEq, Repr

/-- Reads a line of fields between tabs; of a renamed or copied file the new path counts. -/
def StatusLine.parse? (line : String) : Option StatusLine :=
  let fields := Find.pieces '\t' (String.ofList (Blank.dropEndWhile (· = '\r') line.toList))
  match fields with
  | status :: path :: more =>
    match status.toList with
    | [] => none
    | c :: _ =>
      match more with
      | [] => some ⟨c, path⟩
      | new :: _ => some ⟨c, if c = 'R' || c = 'C' then new else path⟩
  | _ => none

/-- Adds a line of a status listing. -/
def record (s : ChangeScope) (c : ChangeSet) (l : StatusLine) : ChangeSet :=
  if !s.takes l.path then c
  else
    let path := s.place l.path
    match l.status with
    | 'A' => { c with added := c.added ++ [path] }
    | 'D' => { c with deleted := c.deleted ++ [path] }
    | _ => { c with modified := c.modified ++ [path] }

/-- Reads a status listing. -/
def readStatus (s : ChangeScope) (listing : String) : ChangeSet :=
  ((Find.pieces '\n' listing).filterMap StatusLine.parse?).foldl s.record {}

/-- Reads a list of paths, one a line. -/
def readList (text : String) : List String :=
  ((Find.pieces '\n' text).map Blank.trim).filter (· ≠ "")

/-- The new lines of one file of a patch, if it counts. -/
def patchLines? (s : ChangeScope) (cwd : String) (f : Patch.FileChange) :
    Option (String × List Int) :=
  let name := Find.stripFront f.newName "b/"
  if f.newName ≠ "/dev/null" && s.takes name then
    some (Path.resolve cwd (s.place name), f.hunks.flatMap (·.added))
  else none

/-- The new lines of a patch. -/
def readPatch (s : ChangeScope) (cwd : String) (patch : Bytes) : Except Patch.Error LineSet :=
  if Blank.isAllBlank patch.toText then .ok []
  else do
    let files ← Patch.parse patch
    return (files.filterMap (s.patchLines? cwd)).foldl (fun ls (f, new) => LineSet.add f new ls) []

end ChangeScope

/-!
## Finding changes

Changes come from a version control system, from a list of files, or from the times of the last
changes of files.

**Version control.**  The system is asked through a function that takes the words of a command;
the commands and how their answers are read are given here.
-/

/-- Where changes come from. -/
inductive ChangeSource where
  | all
  /-- What changed since the current state and a branch parted. -/
  | branch (name : String)
  /-- What changed in the last commits. -/
  | commits (count : Int)
  | listed (files : List String)
  | since (time : Int)
  deriving DecidableEq, Repr, Inhabited

/-- What a version control system answers. -/
inductive GitReply where
  | done (output : Bytes)
  /-- The command failed, with what it said and how it ended. -/
  | failed (complaint : String) (reason : String)
  deriving DecidableEq, Repr, Inhabited

/-- Why changes cannot be found. -/
inductive ChangeError where
  | command (name reason : String)
  | patch (reason : Patch.Error)
  deriving DecidableEq, Repr

/-- The wording of an error. -/
def ChangeError.message : ChangeError → String
  | command name reason => "Git error: git " ++ name ++ ": " ++ reason
  | patch e => "Git error: parse diff: " ++ e.message

/-- The output of a command, given its words. -/
def GitReply.output (words : List String) : GitReply → Except ChangeError Bytes
  | done out => .ok out
  | failed complaint reason =>
    let said := Blank.trim complaint
    .error (.command (words.headD "") (if said = "" then reason else said))

namespace ChangeScope

section Commands

variable {m : Type → Type} [Monad m] (git : List String → m GitReply)

/-- Runs a command. -/
def ask (words : List String) : ExceptT ChangeError m Bytes :=
  ExceptT.mk (GitReply.output words <$> git words)

/-- What changed since a state. -/
def changesSince (s : ChangeScope) (base : String) : ExceptT ChangeError m ChangeSet := do
  let out ← ask git ["diff", "--name-status", "--relative", base]
  return { s.readStatus out.toText with baseRef := base }

/-- What changed since the current state and a branch parted. -/
def changesSinceBranch (s : ChangeScope) (branch : String) : ExceptT ChangeError m ChangeSet := do
  let out ← ask git ["merge-base", "HEAD", branch]
  changesSince git s (Blank.trim out.toText)

/-- What changed in the last commits, at least one. -/
def changesInCommits (s : ChangeScope) (count : Int) : ExceptT ChangeError m ChangeSet :=
  changesSince git s ("HEAD~" ++ toString (max count 1))

/-- The lines that are new since a state. -/
def linesSince (s : ChangeScope) (cwd ref : String) : ExceptT ChangeError m LineSet := do
  let out ← ask git ["diff", "-U0", "--relative", "--no-color", ref]
  ExceptT.mk (pure ((s.readPatch cwd out).mapError .patch))

end Commands

/-- The files of a list: those that are there are modified, the others are deleted. -/
def listedChanges (s : ChangeScope) (d : Disk) (files : List String) : ChangeSet :=
  let places := (files.filter s.takes).map s.place
  { modified := places.filter d.has, deleted := places.filter fun p => !d.has p }

/-- The files changed after some time. -/
def changesAfter (s : ChangeScope) (d : Disk) (time : Int) : ChangeSet :=
  let found := Walk.collect d (if s.dir = "" then "." else s.dir) {
    extensions := s.extensions
    skipDirs := some ["target", "node_modules"]
    skipHidden := true
    hash := false }
  { modified := (found.filter (time < ·.modified)).map fun f => s.place f.rel }

/-- The changes that a source tells of. -/
def detect {m : Type → Type} [Monad m] (git : List String → m GitReply) (s : ChangeScope) (d : Disk) :
    ChangeSource → ExceptT ChangeError m ChangeSet
  | .all => pure {}
  | .branch name => changesSinceBranch git s name
  | .commits n => changesInCommits git s n
  | .listed files => pure (s.listedChanges d files)
  | .since time => pure (s.changesAfter d time)

end ChangeScope

end InstallerLint
