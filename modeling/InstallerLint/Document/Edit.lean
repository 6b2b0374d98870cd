import InstallerLint.Document.Basic
import InstallerLint.Text.Quoted
import InstallerLint.Xml.Token

/-!
# Edits of the source

Changes to one element, worked out as a replacement of bytes in the source.  Everything outside
of the replaced range stays as it is.
-/

namespace InstallerLint

/-- A range of bytes and what replaces it. -/
structure Edit where
  /-- First byte. -/
  start : Nat
  /-- Just past the last byte. -/
  stop : Nat
  text : Bytes
  deriving DecidableEq, Repr

/-- Why an element cannot be edited. -/
inductive EditError where
  | unknownNode (id : Int)
  /-- The element was not read from a source. -/
  | noSource
  /-- The attribute to remove is not there. -/
  | attributeMissing (name : String)
  deriving DecidableEq, Repr

/-- The wording of an edit error. -/
def EditError.message : EditError → String
  | .unknownNode id => "document: unknown node " ++ toString id
  | .noSource => "document: node has no source span"
  | .attributeMissing name => "document: attribute " ++ Quoted.quote name ++ " not present"

namespace Edit

/-- The source after an edit. -/
def apply (e : Edit) (source : Bytes) : Bytes :=
  source.take e.start ++ e.text ++ source.drop e.stop

end Edit

namespace Markup

/-- How a character is written in an attribute value. -/
def escapeValueChar (c : Char) : List Char :=
  match c with
  | '&' => "&amp;".toList
  | '<' => "&lt;".toList
  | '"' => "&quot;".toList
  | _ => [c]

/-- How a character is written between tags. -/
def escapeTextChar (c : Char) : List Char :=
  match c with
  | '&' => "&amp;".toList
  | '<' => "&lt;".toList
  | '>' => "&gt;".toList
  | _ => [c]

/-- A value between double quotes. -/
def quotedValue (v : String) : String :=
  "\"" ++ String.ofList (v.toList.flatMap escapeValueChar) ++ "\""

/-- A text as it is written between tags. -/
def escapedText (v : String) : String := String.ofList (v.toList.flatMap escapeTextChar)

/-- An element without content. -/
def element (kind : String) (attrs : List Attribute) : String :=
  "<" ++ kind ++ String.join (attrs.map fun a => " " ++ a.name ++ "=" ++ quotedValue a.value)
    ++ " />"

end Markup

namespace Tag

/-- Blanks around the parts of an attribute. -/
def isBlankByte (b : UInt8) : Bool :=
  b == 0x20 || b == 0x09 || b == 0x0A || b == 0x0C || b == 0x0D

/-- The length of a quoted value at the front, quotes included. -/
def valueLength? : Bytes → Option Nat
  | q :: rest =>
    if q = 0x22 || q = 0x27 then (Xml.cutAt [q] rest).map fun (value, _) => value.length + 2
    else none
  | [] => none

/-- An attribute behind its leading blanks: where its value starts and how long it is. -/
def assignment? (name s : Bytes) : Option (Nat × Nat) := do
  let rest ← Bytes.stripFront? name s
  let afterName := rest.dropWhile isBlankByte
  let afterEquals ← Bytes.stripFront? [0x3D] afterName
  let value := afterEquals.dropWhile isBlankByte
  let n ← valueLength? value
  return (s.length - value.length, n)

/-- An attribute with at least one blank before it at the front of `s`, the most blanks first:
where its value starts and ends. -/
def attributeHere? (name s : Bytes) : Option (Nat × Nat) :=
  let blanks := (s.takeWhile isBlankByte).length
  ((List.range blanks).map (blanks - ·)).findSome? fun k =>
    (assignment? name (s.drop k)).map fun (at_, n) => (k + at_, k + at_ + n)

/-- The first place where an attribute of this name is written: offset of the blanks before it,
offset of its value and offset just past it. -/
def findAttribute (name : Bytes) (offset : Nat) : Bytes → Option (Nat × Nat × Nat)
  | [] => none
  | b :: s =>
    match attributeHere? name (b :: s) with
    | some (value, stop) => some (offset, offset + value, offset + stop)
    | none => findAttribute name (offset + 1) s

/-- The name as written at the front of a tag behind its `<`. -/
def writtenName (s : Bytes) : Bytes :=
  s.takeWhile fun b => !(b == 0x20 || b == 0x09 || b == 0x0D || b == 0x0A || b == 0x2F || b == 0x3E)

end Tag

namespace Document

/-- The byte offsets of an element. -/
def spanOf (d : Document) (id : Int) : Except EditError Span :=
  match d.node? id with
  | none => .error (.unknownNode id)
  | some n =>
    match n.span with
    | none => .error .noSource
    | some s => if d.source.isEmpty then .error .noSource else .ok s

/-- Where the start tag's closing mark begins. -/
def closeOffset (s : Span) : Nat := if s.selfClosing then s.tagEnd - 2 else s.tagEnd - 1

/-- The start tag of an element. -/
def startTag (d : Document) (s : Span) : Bytes := d.source.slice s.start s.tagEnd

/-- Where a new attribute goes: before the closing mark and the blanks in front of it. -/
def insertOffset (d : Document) (s : Span) : Nat :=
  let front := d.source.slice s.start (closeOffset s)
  let blanks := front.reverse.takeWhile fun b => b == 0x20 || b == 0x09
  closeOffset s - blanks.length

/-- The name of an element as its start tag has it. -/
def writtenName (d : Document) (s : Span) : Bytes :=
  Tag.writtenName (d.source.slice (s.start + 1) s.tagEnd)

/-- Sets an attribute: changes its value, or adds it. -/
def setAttr (d : Document) (id : Int) (name value : String) : Except EditError Edit := do
  let s ← d.spanOf id
  let written := Bytes.ofString (Markup.quotedValue value)
  match Tag.findAttribute (Bytes.ofString name) s.start (d.startTag s) with
  | some (_, first, last) => return ⟨first, last, written⟩
  | none =>
    let at_ := d.insertOffset s
    return ⟨at_, at_, Bytes.ofString (" " ++ name ++ "=") ++ written⟩

/-- Removes an attribute and the blanks before it. -/
def removeAttr (d : Document) (id : Int) (name : String) : Except EditError Edit := do
  let s ← d.spanOf id
  match Tag.findAttribute (Bytes.ofString name) s.start (d.startTag s) with
  | some (first, _, last) => return ⟨first, last, []⟩
  | none => throw (.attributeMissing name)

/-- The content of a self-closing element, with the tags it then needs. -/
def opened (d : Document) (s : Span) (content : Bytes) : Edit :=
  ⟨closeOffset s, s.tagEnd,
    Bytes.ofString ">" ++ content ++ Bytes.ofString "</" ++ d.writtenName s ++ Bytes.ofString ">"⟩

/-- Inserts markup as the first or last child. -/
def insertChild (d : Document) (id : Int) (markup : String) (first : Bool) :
    Except EditError Edit := do
  let s ← d.spanOf id
  let content := Bytes.ofString markup
  if s.selfClosing then return d.opened s content
  else if first then return ⟨s.tagEnd, s.tagEnd, content⟩
  else return ⟨s.innerEnd, s.innerEnd, content⟩

/-- Removes an element with everything inside. -/
def remove (d : Document) (id : Int) : Except EditError Edit := do
  let s ← d.spanOf id
  return ⟨s.start, s.stop, []⟩

/-- Replaces everything inside of an element by text. -/
def replaceText (d : Document) (id : Int) (text : String) : Except EditError Edit := do
  let s ← d.spanOf id
  let content := Bytes.ofString (Markup.escapedText text)
  if s.selfClosing then return d.opened s content
  else return ⟨s.tagEnd, s.innerEnd, content⟩

end Document

end InstallerLint
