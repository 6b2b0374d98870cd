import InstallerLint.Diff.Unified
import InstallerLint.Document.Edit

/-!
# Remedies

Applies the remedy of a finding to the element it was found at, and shows what it would change.
-/

namespace InstallerLint

/-- Why a remedy cannot be applied. -/
inductive FixError where
  | edit (e : EditError)
  /-- The kind of remedy is not known. -/
  | unknownKind (kind : String)
  /-- No element starts where the finding says. -/
  | noElement
  deriving DecidableEq, Repr

/-- The wording of an error. -/
def FixError.message : FixError → String
  | edit e => e.message
  | unknownKind kind => "rules: unknown fix kind " ++ Quoted.quote kind
  | noElement => "rules: no element at diagnostic location"

namespace Fix

/-- The edit of a remedy at an element. -/
def editAt (f : Fix) (d : Document) (id : Int) : Except FixError Edit :=
  let a := f.action
  match a.kind with
  | "add-attribute" | "replace-attribute" => (d.setAttr id a.name a.value).mapError .edit
  | "remove-attribute" => (d.removeAttr id a.name).mapError .edit
  | "add-element" =>
    (d.insertChild id (Markup.element a.element a.attributes) (a.position = "first")).mapError .edit
  | "remove-element" => (d.remove id).mapError .edit
  | "replace-text" => (d.replaceText id a.value).mapError .edit
  | kind => .error (.unknownKind kind)

/-- The source with the remedy applied at an element. -/
def apply (f : Fix) (d : Document) (id : Int) : Except FixError Bytes :=
  (f.editAt d id).map fun e => e.apply d.source

/-- What the remedy would change, as a patch. -/
def preview (f : Fix) (d : Document) (id : Int) : Except FixError Bytes :=
  (f.apply d id).map fun fixed =>
    (Diff.unified ("a/" ++ d.path) ("b/" ++ d.path) d.source fixed 0 0).1

end Fix

namespace Document

/-- Whether an element starts at a line and column. -/
def startsAt (d : Document) (line col : Int) (id : Nat) : Bool :=
  let r := d.range id
  (r.startLine : Int) = line && (r.startCol : Int) = col

/-- The element whose start tag begins at a line and column; subtrees that start behind the line
are not searched. -/
def nodeAt? (d : Document) (line col : Int) : Option Nat :=
  (d.walk fun id => decide ((d.range (id : Int)).startLine ≤ line)).find? (d.startsAt line col)

end Document

namespace Diagnostic

/-- What the remedy of a finding would change; nothing without a remedy. -/
def preview (x : Diagnostic) (d : Document) : Except FixError Bytes :=
  match x.fix with
  | none => .ok []
  | some f =>
    match d.nodeAt? x.location.line x.location.col with
    | none => .error .noElement
    | some id => f.preview d id

end Diagnostic

end InstallerLint
