import InstallerLint.Disk.Entry

/-!
# Reading a disk

A disk is a tree with a working directory.  Paths are read part by part: a link in the middle of
a path is followed, `..` leaves the directory that was reached, and every part but the last has
to be a directory.
-/

namespace InstallerLint

/-- Why a disk refuses. -/
inductive DiskReason where
  | notFound
  /-- A part of the path is no directory. -/
  | notDirectory
  | isDirectory
  | nameTaken
  | notEmpty
  | tooManyLinks
  | broken
  deriving DecidableEq, Repr

/-- The wording of a reason. -/
def DiskReason.text : DiskReason → String
  | notFound => "no such file or directory"
  | notDirectory => "not a directory"
  | isDirectory => "is a directory"
  | nameTaken => "file exists"
  | notEmpty => "directory not empty"
  | tooManyLinks => "too many levels of symbolic links"
  | broken => "input/output error"

/-- An operation that a disk refuses. -/
structure DiskError where
  operation : String
  /-- The path or paths as given. -/
  path : String
  reason : DiskReason
  deriving DecidableEq, Repr

/-- The wording of an error. -/
def DiskError.message (e : DiskError) : String :=
  e.operation ++ " " ++ e.path ++ ": " ++ e.reason.text

/-- Whether the error says that nothing has the name. -/
def DiskError.isNotFound (e : DiskError) : Bool := e.reason = .notFound

/-- A disk as a program sees it. -/
structure Disk where
  root : Entry := .dir []
  /-- The directory that relative paths count from. -/
  cwd : String := "/"
  /-- The time, in seconds. -/
  now : Int := 0
  /-- Which of the next operations fail because the disk itself does. -/
  failures : List Bool := []
  deriving Inhabited, Repr

namespace Disk

/-- How many links are followed on one way. -/
def linkLimit : Nat := 40

/-- How many steps a way of some length can take. -/
def stepLimit (length : Nat) : Nat := (length + 1) * 256

/-- Whether a part leaves a path where it is. -/
def isIdle (part : String) : Bool := part = "" || part = "."

/-- Follows the parts of a path from a directory; `last` tells whether a link at the end is
followed.  The result is the way without links; its last name need not exist. -/
def follow (root : Entry) (last : Bool) :
    (fuel links : Nat) → (here todo : List String) → Except DiskReason (List String)
  | 0, _, _, _ => .error .tooManyLinks
  | _ + 1, _, here, [] => .ok here
  | fuel + 1, links, here, part :: rest =>
    match root.get? here with
    | none => .error .notFound
    | some (.file ..) => .error .notDirectory
    | some (.link _) => .error .notDirectory
    | some (.dir es) =>
      if isIdle part then follow root last fuel links here rest
      else if part = ".." then follow root last fuel links here.dropLast rest
      else
        match es.lookup part with
        | none => if rest.isEmpty then .ok (here ++ [part]) else .error .notFound
        | some (.link target) =>
          if rest.isEmpty && !last then .ok (here ++ [part])
          else
            match links with
            | 0 => .error .tooManyLinks
            | links + 1 =>
              let start := if Path.isAbs target then [] else here
              follow root last fuel links start (Path.parts target ++ rest)
        | some _ => follow root last fuel links (here ++ [part]) rest

/-- A path counted from the working directory, not yet simplified. -/
def fromCwd (d : Disk) (path : String) : String :=
  if Path.isAbs path then path else d.cwd ++ "/" ++ path

/-- The simplest absolute path for a path. -/
def abs (d : Disk) (path : String) : String := Path.resolve d.cwd path

/-- The way to a path without links. -/
def way (d : Disk) (last : Bool) (path : String) : Except DiskReason (List String) :=
  if path = "" then .error .notFound
  else
    let parts := Path.parts (d.fromCwd path)
    follow d.root last (stepLimit parts.length) linkLimit [] parts

/-- The entry at a path. -/
def find (d : Disk) (last : Bool) (path : String) : Except DiskReason Entry := do
  let w ← d.way last path
  match d.root.get? w with
  | some e => pure e
  | none => throw .notFound

/-- Turns a reason into an error. -/
def explain {α : Type} (operation path : String) (r : Except DiskReason α) : Except DiskError α :=
  r.mapError fun reason => ⟨operation, path, reason⟩

/-- What a path leads to. -/
def stat (d : Disk) (path : String) : Except DiskError Entry := explain "stat" path (d.find true path)

/-- What stands at a path, be it a link. -/
def lstat (d : Disk) (path : String) : Except DiskError Entry :=
  explain "lstat" path (d.find false path)

/-- Whether a path leads to something. -/
def has (d : Disk) (path : String) : Bool := (d.find true path).toOption.isSome

/-- The content of a file. -/
def read (d : Disk) (path : String) : Except DiskError Bytes :=
  match d.find true path with
  | .error r => .error ⟨"open", path, r⟩
  | .ok (.file content _) => .ok content
  | .ok _ => .error ⟨"read", path, .isDirectory⟩

/-- The names in a directory, in order. -/
def names (d : Disk) (path : String) : List String :=
  match d.find true path with
  | .ok e => Order.sort (e.entries.map Prod.fst)
  | .error _ => []

/-- The nearest of a directory and those above it that has something, as `look` says. -/
def upward {α : Type} (look : String → Option α) : (fuel : Nat) → (dir : String) → Option α
  | 0, _ => none
  | fuel + 1, dir =>
    match look dir with
    | some a => some a
    | none => if Path.dir dir = dir then none else upward look fuel (Path.dir dir)

/-- The nearest of a directory and those above it that has something. -/
def nearest {α : Type} (look : String → Option α) (dir : String) : Option α :=
  upward look ((Path.parts dir).length + 2) dir

end Disk

end InstallerLint
