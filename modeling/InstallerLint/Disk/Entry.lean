import InstallerLint.Path
import InstallerLint.Text.Bytes
import InstallerLint.Text.Order

/-!
# What a disk holds

Files, links and directories form a tree.  Names are kept in the order in which they were made;
whoever lists a directory sorts them.
-/

namespace InstallerLint

/-- Something with a name on a disk. -/
inductive Entry where
  /-- A file with its content and the time of its last change. -/
  | file (content : Bytes) (modified : Int)
  | link (target : String)
  | dir (entries : List (String × Entry))
  deriving Inhabited, Repr

namespace Entry

/-- Whether it is a directory. -/
def isDir : Entry → Bool
  | dir _ => true
  | _ => false

/-- Whether it is a file. -/
def isFile : Entry → Bool
  | file .. => true
  | _ => false

/-- What a directory holds. -/
def entries : Entry → List (String × Entry)
  | dir es => es
  | _ => []

/-- The entry of a name. -/
def child? (e : Entry) (name : String) : Option Entry := e.entries.lookup name

/-- The entry at a path, read without following links. -/
def get? : List String → Entry → Option Entry
  | [], e => some e
  | part :: rest, e => (e.child? part).bind (get? rest)

/-- Sets the entry of a name. -/
def setName (name : String) (new : Entry) : List (String × Entry) → List (String × Entry)
  | [] => [(name, new)]
  | (n, e) :: rest => if n = name then (n, new) :: rest else (n, e) :: setName name new rest

/-- Sets the entry at a path whose directories exist. -/
def put : Entry → List String → (new : Entry) → Entry
  | _, [], new => new
  | dir es, part :: rest, new =>
    match rest, es.lookup part with
    | [], _ => dir (setName part new es)
    | _ :: _, some e => dir (setName part (put e rest new) es)
    | _ :: _, none => dir es
  | e, _ :: _, _ => e

/-- Takes away the entry at a path. -/
def erase : List String → Entry → Entry
  | [], e => e
  | [part], dir es => dir (es.filter (·.1 ≠ part))
  | part :: rest, dir es =>
    match es.lookup part with
    | some e => dir (setName part (erase rest e) es)
    | none => dir es
  | _ :: _, e => e

end Entry

end InstallerLint
