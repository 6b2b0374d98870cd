import InstallerLint.Document.Basic

/-!
# Building documents by hand

A tree can be put together step by step, without a source.  Each new element stands on a line
of its own, in the order of creation, so that findings on such trees still have an order.
-/

namespace InstallerLint

/-- Why a building step makes no sense. -/
inductive BuildError where
  | secondRoot
  /-- A parent that does not exist. -/
  | unknownParent
  /-- A name without a value. -/
  | unpairedAttribute
  /-- Text for an element that does not exist. -/
  | unknownNode
  deriving DecidableEq, Repr

/-- The wording of a building error. -/
def BuildError.message : BuildError → String
  | .secondRoot => "document: Builder.Root called twice"
  | .unknownParent => "document: Builder.Add with unknown parent"
  | .unpairedAttribute => "document: attrs must be name/value pairs"
  | .unknownNode => "runtime error"

/-- One building step. -/
inductive BuildStep where
  | root (kind : String) (attrs : List String)
  /-- Adds a child behind the children of an element. -/
  | add (parent : Int) (kind : String) (attrs : List String)
  /-- Sets the character data of an element. -/
  | text (id : Int) (text : String)
  deriving Repr

namespace Document

/-- Names and values in turn, as attributes. -/
def pairUp : List String → Option (List Attribute)
  | [] => some []
  | [_] => none
  | name :: value :: rest => (pairUp rest).map (⟨name, value⟩ :: ·)

/-- The empty tree of a file. -/
def blank (path : String) : Document := ⟨path, [], #[]⟩

/-- Appends an element and enters it at its parent. -/
def append (d : Document) (parent : Option Nat) (kind : String) (attrs : List Attribute) :
    Document :=
  let id := d.size
  let node : Node :=
    ⟨kind, attrs, [], parent, ⟨id + 1, 1, id + 1, 1⟩, "", none⟩
  let nodes := match parent with
    | none => d.nodes
    | some p => d.nodes.modify p fun n => { n with children := n.children ++ [id] }
  { d with nodes := nodes.push node }

/-- Performs one building step. -/
def build (d : Document) : BuildStep → Except BuildError Document
  | .root kind attrs =>
    if 0 < d.size then .error .secondRoot
    else
      match pairUp attrs with
      | none => .error .unpairedAttribute
      | some as => .ok (d.append none kind as)
  | .add parent kind attrs =>
    if (d.node? parent).isNone then .error .unknownParent
    else
      match pairUp attrs with
      | none => .error .unpairedAttribute
      | some as => .ok (d.append (some parent.toNat) kind as)
  | .text id text =>
    if (d.node? id).isNone then .error .unknownNode
    else .ok { d with nodes := d.nodes.modify id.toNat fun n => { n with text := text } }

/-- Performs building steps in order. -/
def buildAll (d : Document) : List BuildStep → Except BuildError Document
  | [] => .ok d
  | s :: steps =>
    match d.build s with
    | .ok d => d.buildAll steps
    | .error e => .error e

end Document

end InstallerLint
