import InstallerLint.Document.Basic
import InstallerLint.Text.Blank
import InstallerLint.Text.Lines
import InstallerLint.Xml.Token

/-!
# Elements from tokens

Tokens are put together to one tree.  Elements still open wait on a stack; a name space that a
start tag declares holds inside of its element.

**Numbering.**  The tree is laid out in an array in document order: an element, then everything
inside of its first child, and so on.  So an element stands before what it holds, and what it
holds is one block behind it.
-/

namespace InstallerLint

/-- What is known of an element apart from its children. -/
structure ElementHead where
  kind : String
  attrs : List Attribute
  span : Span
  /-- The character data directly inside, trimmed. -/
  text : String
  deriving DecidableEq, Repr, Inhabited

/-- An element with its children. -/
inductive Element where
  | mk (head : ElementHead) (children : List Element)
  deriving Repr, Inhabited

namespace Element

mutual
/-- The number of elements in a tree. -/
def size : Element → Nat
  | .mk _ children => 1 + sizeAll children

/-- The number of elements in several trees. -/
def sizeAll : List Element → Nat
  | [] => 0
  | e :: es => size e + sizeAll es
end

/-- The indices of siblings when the first one gets `next`. -/
def indices (next : Nat) : List Element → List Nat
  | [] => []
  | e :: es => next :: indices (next + e.size) es

mutual
/-- The nodes of a tree whose root gets index `id`. -/
def layout (place : Nat → Position) (parent : Option Nat) (id : Nat) : Element → List Node
  | .mk head children =>
    let first := place head.span.start
    let last := place head.span.stop
    { kind := head.kind
      attrs := head.attrs
      children := indices (id + 1) children
      parent := parent
      range := ⟨first.line, first.col, last.line, last.col⟩
      text := head.text
      span := some head.span } :: layoutAll place id (id + 1) children

/-- The nodes of siblings when the first one gets index `next`. -/
def layoutAll (place : Nat → Position) (parent next : Nat) : List Element → List Node
  | [] => []
  | e :: es => layout place (some parent) next e ++ layoutAll place parent (next + e.size) es
end

end Element

namespace Xml

/-- Name spaces in force: a name in front of a colon and what it stands for. -/
abbrev Scope := List (String × String)

/-- The name that declares name spaces. -/
def declaring : String := "xmlns"

/-- Adds the name spaces that a tag declares. -/
def Scope.declare (scope : Scope) (attrs : List TagAttr) : Scope :=
  attrs.foldl (fun scope a =>
    if a.name.space = declaring then (a.name.part, a.value) :: scope
    else if a.name.space = "" && a.name.part = declaring then ("", a.value) :: scope
    else scope) scope

/-- What the name in front of an attribute's colon stands for. -/
def Scope.resolve (scope : Scope) (name : QName) : String :=
  if name.space = declaring || name.space = "" then name.space
  else if name.space = "xml" then "http://www.w3.org/XML/1998/namespace"
  else (scope.lookup name.space).getD name.space

/-- The name under which an attribute is kept: declarations whole, others by their local part. -/
def Scope.attrName (scope : Scope) (name : QName) : String :=
  let space := scope.resolve name
  if space = declaring then declaring ++ ":" ++ name.part
  else if space = "" && name.part = declaring then declaring
  else name.part

/-- An element that is still open. -/
structure Frame where
  name : QName
  attrs : List Attribute
  start : Nat
  /-- Offset just past the start tag. -/
  tagEnd : Nat
  /-- Finished children, last first. -/
  children : List Element
  text : String
  /-- The name spaces in force inside. -/
  scope : Scope
  deriving Inhabited

/-- Closes an element. -/
def Frame.close (f : Frame) (innerEnd stop : Nat) (selfClosing : Bool) : Element :=
  .mk ⟨f.name.part, f.attrs, ⟨f.start, f.tagEnd, innerEnd, stop, selfClosing⟩,
    Blank.trim f.text⟩ f.children.reverse

/-- Why tokens do not form one tree. -/
inductive TreeFault where
  /-- The markup is faulty; the fault shows just before the rest given by its length. -/
  | markup (fault : Fault) (rest : Nat) (start : Nat)
  | secondRoot (start : Nat)
  /-- Text outside of the root element. -/
  | strayText (start : Nat)
  | noRoot
  deriving Repr

/-- A tree in the making. -/
structure TreeState where
  /-- Open elements, innermost first. -/
  stack : List Frame
  root : Option Element
  deriving Inhabited

/-- Adds a finished element to the innermost open one, or makes it the root. -/
def TreeState.add (s : TreeState) (e : Element) : TreeState :=
  match s.stack with
  | [] => { s with root := some e }
  | f :: stack => { s with stack := { f with children := e :: f.children } :: stack }

/-- Compares an end tag with the innermost open element. -/
def endTagFault? (stack : List Frame) (name : QName) : Option Fault :=
  match stack with
  | [] => some (.unexpectedEndTag name.part)
  | f :: _ =>
    if f.name.part ≠ name.part then some (.mismatchedTag f.name.part name.part)
    else if f.name.space ≠ name.space then
      some (.mismatchedSpace f.name.part f.name.space name.part name.space)
    else none

/-- Takes in one token of a text of the given length. -/
def TreeState.step (length : Nat) (s : TreeState) (l : Lexeme) : Except TreeFault TreeState :=
  match l.token with
  | .startTag name attrs selfClosing =>
    if s.stack.isEmpty && s.root.isSome then .error (.secondRoot l.start)
    else
      let outer : Scope := match s.stack with
        | [] => []
        | f :: _ => f.scope
      let scope := outer.declare attrs
      let kept := attrs.map fun a => (⟨scope.attrName a.name, a.value⟩ : Attribute)
      let frame : Frame := ⟨name, kept, l.start, l.stop, [], "", scope⟩
      .ok (if selfClosing then s.add (frame.close l.stop l.stop true)
        else { s with stack := frame :: s.stack })
  | .endTag name =>
    match endTagFault? s.stack name, s.stack with
    | some fault, _ => .error (.markup fault (length - l.stop) l.start)
    | none, [] => .ok s
    | none, f :: stack => .ok (TreeState.add { s with stack := stack } (f.close l.start l.stop false))
  | .text t =>
    match s.stack with
    | [] => if Blank.isAllBlank t then .ok s else .error (.strayText l.start)
    | f :: stack => .ok { s with stack := { f with text := f.text ++ t } :: stack }
  | .other => .ok s

/-- Takes in all tokens. -/
def TreeState.run (length : Nat) (s : TreeState) : List Lexeme → Except TreeFault TreeState
  | [] => .ok s
  | l :: ls =>
    match s.step length l with
    | .ok s => s.run length ls
    | .error fault => .error fault

/-- Reads a text as one tree. -/
def readTree (source : Bytes) : Except TreeFault Element := do
  let (ls, stopped) := tokens source
  let s ← TreeState.run source.length ⟨[], none⟩ ls
  match stopped with
  | some (stop, start) => throw (.markup stop.fault stop.rest.length start)
  | none =>
    match s.stack, s.root with
    | _ :: _, _ => throw (.markup .unexpectedEnd 0 source.length)
    | [], some e => return e
    | [], none => throw .noRoot

end Xml

end InstallerLint
