import InstallerLint.Disk.Basic
import InstallerLint.Glob
import InstallerLint.Hash.Sha256
import InstallerLint.Json.Basic
import InstallerLint.SourceFile
import InstallerLint.Walk.Ignore

/-!
# Finding files

Walks a directory and lists the files that pass some filters, in the order of their paths.  A
directory that is skipped is not entered, so nothing below it is found.  Links are never entered;
a link to a file counts as a file if links count.
-/

namespace InstallerLint

/-- Which files are looked for. -/
structure WalkOptions where
  /-- Endings; none means every file. -/
  extensions : List String := []
  /-- Patterns of paths that are left out. -/
  exclude : List String := []
  /-- Names of directories that are not entered. -/
  skipDirs : Option (List String) := none
  /-- Whether directories with a dot at the start of their names are entered. -/
  skipHidden : Bool := false
  /-- Whether the ignore file of the directory counts. -/
  useIgnoreFile : Bool := false
  followLinks : Bool := false
  /-- The largest size; zero or less means any. -/
  maxBytes : Int := 0
  hash : Bool := true
  deriving Repr, Inhabited

/-- A file that was found. -/
structure FoundFile where
  rel : String
  path : String
  size : Nat
  /-- The hash of its content; empty when it was not asked for. -/
  sha256 : String
  ext : String
  /-- The time of its last change. -/
  modified : Int
  deriving Repr, Inhabited

/-- A file in saved form. -/
def FoundFile.toJson (f : FoundFile) : Json := .obj [("rel", .str f.rel), ("abs", .str f.path),
  ("size", .nat f.size), ("sha256", .str f.sha256), ("ext", .str f.ext)]

namespace Walk

/-- A walk on the way. -/
structure Walker where
  disk : Disk
  root : String
  options : WalkOptions
  ignore : List Ignore.Line

namespace Walker

/-- Names in small letters, without empty ones. -/
def nameSet (l : List String) : List String := (l.filter (· ≠ "")).map Case.lower

/-- The directories that are not entered. -/
def skipDirs (w : Walker) : List String :=
  nameSet (w.options.skipDirs.getD SourceFile.skippedDirs)

/-- Whether a directory's name keeps it from being entered. -/
def skipsDir (w : Walker) (name : String) : Bool :=
  w.skipDirs.contains name || (w.options.skipHidden && Find.startsWith name ".")

/-- Whether a path is left out. -/
def leavesOut (w : Walker) (rel : String) : Bool :=
  Ignore.ignores w.ignore rel || Glob.matchesAny w.options.exclude rel

/-- Whether an ending counts. -/
def takes (w : Walker) (ext : String) : Bool :=
  let exts := nameSet w.options.extensions
  exts.isEmpty || exts.contains ext

/-- Whether a size counts. -/
def fits (w : Walker) (size : Nat) : Bool := w.options.maxBytes ≤ 0 || size ≤ w.options.maxBytes

/-- A path below the directory. -/
def below (rel name : String) : String := if rel = "." then name else rel ++ "/" ++ name

/-- The whole path of a path below the directory. -/
def whole (w : Walker) (rel : String) : String := Path.join [w.root, rel]

/-- The file at a path, if its content is known and counts. -/
def hit? (w : Walker) (rel : String) : Entry → Option FoundFile
  | .file content modified =>
    let path := w.whole rel
    let ext := SourceFile.ending path
    if w.takes ext && w.fits content.length then
      some ⟨rel, path, content.length, if w.options.hash then Hash.sha256 content else "", ext, modified⟩
    else none
  | _ => none

/-- The file that a path which is no directory leads to, if it counts. -/
def file? (w : Walker) (rel : String) : Entry → Option FoundFile
  | .link _ =>
    if w.options.followLinks then
      (w.disk.find true (w.whole rel)).toOption.bind (w.hit? rel)
    else none
  | e => w.hit? rel e

mutual

/-- The files at a path. -/
def filesAt (w : Walker) (rel name : String) : Entry → List FoundFile
  | .dir es => if w.skipsDir name || w.leavesOut rel then [] else filesIn w rel es
  | .file c m => if w.leavesOut rel then [] else (w.file? rel (.file c m)).toList
  | .link t => if w.leavesOut rel then [] else (w.file? rel (.link t)).toList

/-- The files in a directory. -/
def filesIn (w : Walker) (rel : String) : List (String × Entry) → List FoundFile
  | [] => []
  | p :: rest => fileOf w rel p ++ filesIn w rel rest

/-- The files at an entry of a directory. -/
def fileOf (w : Walker) (rel : String) : String × Entry → List FoundFile
  | (name, e) => filesAt w (below rel name) name e

end

/-- The files of a walk from its directory, or from a file in its place. -/
def files (w : Walker) : Entry → List FoundFile
  | .dir es => w.filesIn "." es
  | e => (w.file? "." e).toList

end Walker

/-- The files that pass the filters, in the order of their paths. -/
def collect (d : Disk) (root : String) (o : WalkOptions) : List FoundFile :=
  let root := d.abs root
  let ignore :=
    if o.useIgnoreFile then
      ((d.read (Path.join [root, ".gitignore"])).toOption.map Ignore.parse).getD []
    else []
  let w : Walker := ⟨d, root, o, ignore⟩
  match d.find false root with
  | .ok e => Order.sortBy (·.rel) (w.files e)
  | .error _ => []

end Walk

end InstallerLint
