import InstallerLint.Text.Case
import InstallerLint.Xml.Chars

/-!
# Tokens of markup

One token at a time from the front of a text: tags, character data, and the rest (comments,
processing instructions and declarations), whose content does not matter.

Each reader returns what it read and the bytes behind it, so the source text of a token is what
lies between.
-/

namespace InstallerLint
namespace Xml

/-- An attribute of a tag. -/
structure TagAttr where
  name : QName
  /-- Its value, references replaced. -/
  value : String
  deriving DecidableEq, Repr, Inhabited

/-- A piece of markup. -/
inductive Token where
  /-- A start tag, possibly one that closes itself. -/
  | startTag (name : QName) (attrs : List TagAttr) (selfClosing : Bool)
  | endTag (name : QName)
  | text (s : String)
  /-- A comment, processing instruction or declaration. -/
  | other
  deriving Repr, Inhabited

/-- Reads a name; `none` when no name starts here. -/
def readName (s : Bytes) : Except Stop (Option String × Bytes) := do
  let (name, rest) ← takeName s
  if name = [] then return (none, rest)
  else if isName name then return (some (Bytes.toText name), rest)
  else throw ⟨.invalidName (Bytes.toText name), rest⟩

/-- Reads a name in two parts, or fails with the fault given for a missing one. -/
def readQName (missing : Fault) (s : Bytes) : Except Stop (QName × Bytes) := do
  let (name, rest) ← readName s
  match name.bind QName.ofText? with
  | some q => return (q, rest)
  | none => throw ⟨missing, rest⟩

/-- Reads the value of an attribute behind its equals sign. -/
def readValue (s : Bytes) : Except Stop (String × Bytes) :=
  match skipSpace s with
  | [] => .error ⟨.unexpectedEnd, []⟩
  | q :: rest =>
    if q = 0x22 || q = 0x27 then readText (.value q) rest
    else .error ⟨.valueExpected, rest⟩

/-- Reads one attribute. -/
def readAttr (s : Bytes) : Except Stop (TagAttr × Bytes) := do
  let (name, rest) ← readQName .attrNameExpected s
  match skipSpace rest with
  | [] => throw ⟨.unexpectedEnd, []⟩
  | 0x3D :: rest =>
    let (value, rest) ← readValue rest
    return (⟨name, value⟩, rest)
  | _ :: rest => throw ⟨.equalsExpected, rest⟩

/-- Reads the attributes of a tag up to its end, `fuel` at most; tells whether the tag closes
itself. -/
def readAttrs : (fuel : Nat) → Bytes → Except Stop (List TagAttr × Bool × Bytes)
  | 0, _ => .error ⟨.unexpectedEnd, []⟩
  | fuel + 1, s =>
    match skipSpace s with
    | [] => .error ⟨.unexpectedEnd, []⟩
    | 0x3E :: rest => .ok ([], false, rest)
    | 0x2F :: [] => .error ⟨.unexpectedEnd, []⟩
    | 0x2F :: 0x3E :: rest => .ok ([], true, rest)
    | 0x2F :: _ :: rest => .error ⟨.closeExpected, rest⟩
    | here => do
      let (a, rest) ← readAttr here
      let (attrs, selfClosing, rest) ← readAttrs fuel rest
      return (a :: attrs, selfClosing, rest)

/-- Reads an end tag behind `</`. -/
def readEndTag (s : Bytes) : Except Stop (Token × Bytes) := do
  let (name, rest) ← readQName .endNameExpected s
  match skipSpace rest with
  | [] => throw ⟨.unexpectedEnd, []⟩
  | 0x3E :: rest => return (.endTag name, rest)
  | _ :: rest => throw ⟨.strayInEndTag name.part, rest⟩

/-- Reads a start tag behind `<`; it is no longer than `bound`. -/
def readStartTag (bound : Nat) (s : Bytes) : Except Stop (Token × Bytes) := do
  let (name, rest) ← readQName .startNameExpected s
  let (attrs, selfClosing, rest) ← readAttrs bound rest
  return (.startTag name attrs selfClosing, rest)

/-- What stands before the first `mark`, and what stands behind it. -/
def cutAt (mark : Bytes) : Bytes → Option (Bytes × Bytes)
  | [] => if mark = [] then some ([], []) else none
  | b :: s =>
    match Bytes.stripFront? mark (b :: s) with
    | some rest => some ([], rest)
    | none => (cutAt mark s).map fun (front, rest) => (b :: front, rest)

/-- The quoted setting of a name in a declaration: the first one whose value is quoted. -/
def setting (name : String) : (fuel : Nat) → Bytes → String
  | 0, _ => ""
  | fuel + 1, s =>
    match cutAt (Bytes.ofString (name ++ "=")) s with
    | none => ""
    | some (_, []) => ""
    | some (_, q :: rest) =>
      if q = 0x22 || q = 0x27 then
        match cutAt [q] rest with
        | some (value, _) => Bytes.toText value
        | none => ""
      else setting name fuel rest

/-- Checks the version and the encoding that a declaration names. -/
def declarationFault? (content : Bytes) : Option Fault :=
  let version := setting "version" (content.length + 1) content
  let encoding := setting "encoding" (content.length + 1) content
  if version ≠ "" && version ≠ "1.0" then some (.unsupportedVersion version)
  else if encoding ≠ "" && !Case.equalFold encoding "utf-8" then
    some (.unsupportedEncoding encoding)
  else none

/-- Reads a processing instruction behind `<?`. -/
def readInstruction (s : Bytes) : Except Stop (Token × Bytes) := do
  let (name, rest) ← readName s
  match name with
  | none => throw ⟨.targetExpected, rest⟩
  | some target =>
    match cutAt [0x3F, 0x3E] (skipSpace rest) with
    | none => throw ⟨.unexpectedEnd, []⟩
    | some (content, rest) =>
      match if target = "xml" then declarationFault? content else none with
      | some fault => throw ⟨fault, rest⟩
      | none => return (.other, rest)

/-- Reads a comment behind its opening. -/
def readComment : Bytes → Except Stop (Token × Bytes)
  | [] => .error ⟨.unexpectedEnd, []⟩
  | 0x2D :: 0x2D :: [] => .error ⟨.unexpectedEnd, []⟩
  | 0x2D :: 0x2D :: 0x3E :: rest => .ok (.other, rest)
  | 0x2D :: 0x2D :: _ :: rest => .error ⟨.dashesInComment, rest⟩
  | _ :: rest => readComment rest

/-- Reads the rest of the opening of a character data section. -/
def readSectionName : Bytes → Bytes → Except Stop Bytes
  | [], s => .ok s
  | _ :: _, [] => .error ⟨.unexpectedEnd, []⟩
  | a :: word, b :: s => if a = b then readSectionName word s else .error ⟨.invalidSection, s⟩

/-- Reads a section behind `<![`. -/
def readSection (s : Bytes) : Except Stop (Token × Bytes) := do
  let rest ← readSectionName (Bytes.ofString "CDATA[") s
  let (text, rest) ← readText .cdata rest
  return (.text text, rest)

/-- Reads a declaration behind its first character: angle brackets nest, quotes and comments
hide them. -/
def readDeclaration (quote : Option UInt8) (depth : Nat) :
    (fuel : Nat) → Bytes → Except Stop (Token × Bytes)
  | 0, _ => .error ⟨.unexpectedEnd, []⟩
  | _ + 1, [] => .error ⟨.unexpectedEnd, []⟩
  | fuel + 1, b :: s =>
    if quote = none && b = 0x3E && depth = 0 then .ok (.other, s)
    else if quote = some b then readDeclaration none depth fuel s
    else if quote ≠ none then readDeclaration quote depth fuel s
    else if b = 0x27 || b = 0x22 then readDeclaration (some b) depth fuel s
    else if b = 0x3E then readDeclaration none (depth - 1) fuel s
    else if b = 0x3C then
      match Bytes.stripFront? (Bytes.ofString "!--") s with
      | none => readDeclaration none (depth + 1) fuel s
      | some inner =>
        match cutAt (Bytes.ofString "-->") inner with
        | none => .error ⟨.unexpectedEnd, []⟩
        | some (_, rest) => readDeclaration none depth fuel rest
    else readDeclaration none depth fuel s

/-- Reads what stands behind `<!`; it is no longer than `bound`. -/
def readMarked (bound : Nat) : Bytes → Except Stop (Token × Bytes)
  | [] => .error ⟨.unexpectedEnd, []⟩
  | 0x2D :: [] => .error ⟨.unexpectedEnd, []⟩
  | 0x2D :: 0x2D :: rest => readComment rest
  | 0x2D :: _ :: rest => .error ⟨.invalidComment, rest⟩
  | 0x5B :: rest => readSection rest
  | _ :: rest => readDeclaration none 0 bound rest

/-- Reads one token from the front of a text no longer than `bound`. -/
def readToken (bound : Nat) : Bytes → Except Stop (Token × Bytes)
  | 0x3C :: [] => .error ⟨.unexpectedEnd, []⟩
  | 0x3C :: 0x2F :: rest => readEndTag rest
  | 0x3C :: 0x3F :: rest => readInstruction rest
  | 0x3C :: 0x21 :: rest => readMarked bound rest
  | 0x3C :: rest => readStartTag bound rest
  | s => do
    let (text, rest) ← readText .content s
    return (.text text, rest)

/-- A token with the place of its source text. -/
structure Lexeme where
  token : Token
  /-- Offset of its first byte. -/
  start : Nat
  /-- Offset just past it. -/
  stop : Nat
  deriving Repr, Inhabited

/-- The tokens of a text of the given length, read from the rest `s` on, which has `left` bytes,
and the fault that ended them, with the offset of the token it is in. -/
def lexemes (length : Nat) : (fuel left : Nat) → (s : Bytes) → List Lexeme × Option (Stop × Nat)
  | 0, _, _ => ([], none)
  | _, _, [] => ([], none)
  | fuel + 1, left, s =>
    match readToken left s with
    | .error stop => ([], some (stop, length - left))
    | .ok (token, rest) =>
      let left' := rest.length
      let (more, stop) := lexemes length fuel left' rest
      (⟨token, length - left, length - left'⟩ :: more, stop)

/-- The tokens of a whole text, and the fault that ended them. -/
def tokens (source : Bytes) : List Lexeme × Option (Stop × Nat) :=
  lexemes source.length source.length source.length source

end Xml
end InstallerLint
