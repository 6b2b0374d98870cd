import InstallerLint.Diagnostic.Basic
import InstallerLint.Text.Bytes

/-!
# Documents

A document is a tree of elements in an array.  An element is addressed by its index; it stores
the index of its parent and of its children, and where it stands in the source.

**Reading.**  Every look-up takes any integer; indices outside of the array have an empty kind,
no attributes, no children and no parent.

**Walking.**  `walk` visits elements parents first and siblings in order; a test on each
element says whether to go below it.
-/

namespace InstallerLint

/-- A span of lines and columns. -/
structure SourceRange where
  /-- First line. -/
  startLine : Nat
  /-- First column. -/
  startCol : Nat
  /-- Last line. -/
  endLine : Nat
  /-- Column just past the end. -/
  endCol : Nat
  deriving DecidableEq, Repr, Inhabited

/-- Where the parts of an element stand in the source, as byte offsets. -/
structure Span where
  /-- The `<` of the start tag. -/
  start : Nat
  /-- Just past the start tag. -/
  tagEnd : Nat
  /-- The `<` of the end tag. -/
  innerEnd : Nat
  /-- Just past the element. -/
  stop : Nat
  /-- Whether the start tag closes itself. -/
  selfClosing : Bool
  deriving DecidableEq, Repr, Inhabited

/-- One element. -/
structure Node where
  kind : String
  /-- The attributes in source order. -/
  attrs : List Attribute
  /-- The children in document order. -/
  children : List Nat
  /-- The parent, none for the root. -/
  parent : Option Nat
  range : SourceRange
  /-- The character data directly inside, trimmed. -/
  text : String
  /-- Byte offsets; none for an element that was not read from a source. -/
  span : Option Span
  deriving DecidableEq, Repr, Inhabited

/-- A tree of elements and the text it was read from. -/
structure Document where
  path : String
  source : Bytes
  nodes : Array Node
  deriving Repr, Inhabited

namespace Document

/-- The number of elements. -/
def size (d : Document) : Nat := d.nodes.size

/-- The element with an index. -/
def node? (d : Document) (id : Int) : Option Node :=
  match id with
  | .ofNat n => d.nodes[n]?
  | .negSucc _ => none

/-- The kind of an element. -/
def kind (d : Document) (id : Int) : String := ((d.node? id).map (·.kind)).getD ""

/-- The attributes of an element. -/
def attrs (d : Document) (id : Int) : List Attribute := ((d.node? id).map (·.attrs)).getD []

/-- The first attribute of a name. -/
def findAttr (name : String) (attrs : List Attribute) : Option String :=
  (attrs.find? (·.name = name)).map (·.value)

/-- The value of an attribute. -/
def attr? (d : Document) (id : Int) (name : String) : Option String := findAttr name (d.attrs id)

/-- The value of an attribute, empty when it is missing. -/
def attr (d : Document) (id : Int) (name : String) : String := (d.attr? id name).getD ""

/-- The children of an element. -/
def children (d : Document) (id : Int) : List Nat := ((d.node? id).map (·.children)).getD []

/-- The parent of an element. -/
def parent? (d : Document) (id : Int) : Option Nat := (d.node? id).bind (·.parent)

/-- Lines and columns of an element. -/
def range (d : Document) (id : Int) : SourceRange :=
  ((d.node? id).map (·.range)).getD ⟨0, 0, 0, 0⟩

/-- The character data of an element. -/
def text (d : Document) (id : Int) : String := ((d.node? id).map (·.text)).getD ""

/-- The parents of an element, nearest first; parents stand before their children. -/
def ancestorsOf (d : Document) (id : Nat) : List Nat :=
  match d.parent? id with
  | none => []
  | some p => if p < id then p :: ancestorsOf d p else [p]
termination_by id

/-- The parents of an element, nearest first. -/
def ancestors (d : Document) (id : Int) : List Nat :=
  match id with
  | .ofNat n => d.ancestorsOf n
  | .negSucc _ => []

/-- How deep an element stands; the root has depth zero. -/
def depth (d : Document) (id : Int) : Nat := (d.ancestors id).length

/-- Visits the elements waiting on a stack and what is below them. -/
def visit (d : Document) (enter : Nat → Bool) : (fuel : Nat) → List Nat → List Nat
  | 0, _ => []
  | _ + 1, [] => []
  | fuel + 1, id :: stack =>
    id :: visit d enter fuel (if enter id then d.children id ++ stack else stack)

/-- The elements in document order, without what is below those that `enter` refuses. -/
def walk (d : Document) (enter : Nat → Bool) : List Nat :=
  if d.size = 0 then [] else d.visit enter d.size [0]

/-- All elements in document order. -/
def ids (d : Document) : List Nat := d.walk fun _ => true

/-- All elements below one. -/
def descendants (d : Document) (id : Int) : List Nat :=
  d.visit (fun _ => true) d.size (d.children id)

/-- All elements of a kind in document order. -/
def find (d : Document) (kind : String) : List Nat := d.ids.filter fun id => d.kind id = kind

/-- The place of an element as a location. -/
def location (d : Document) (id : Int) : Location :=
  let r := d.range id
  ⟨d.path, r.startLine, r.startCol, r.endLine, r.endCol⟩

end Document

end InstallerLint
