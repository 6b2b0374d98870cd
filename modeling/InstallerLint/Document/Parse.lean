import InstallerLint.Document.Element

/-!
# Reading documents

A source text becomes a document, or a parse error with its place.  Where only the line of a
fault is known the column is zero.
-/

namespace InstallerLint

/-- Why a text is no document, and where. -/
structure ParseError where
  file : String
  line : Nat
  /-- The column, zero when only the line is known. -/
  col : Nat
  reason : String
  deriving DecidableEq, Repr

/-- Place and reason in one line. -/
def ParseError.message (e : ParseError) : String :=
  let place := e.file ++ ":" ++ toString e.line
  if 0 < e.col then place ++ ":" ++ toString e.col ++ ": " ++ e.reason
  else place ++ ": " ++ e.reason

namespace Document

/-- One more than the line feeds among the first `n` bytes. -/
def lineAfter (source : Bytes) (n : Nat) : Nat := (source.take n).count 0x0A + 1

/-- The parse error of a fault. -/
def errorOf (source : Bytes) (path : String) (fault : Xml.TreeFault) : ParseError :=
  let place (offset : Nat) (reason : String) : ParseError :=
    let p := (LineIndex.ofSource source).position offset
    ⟨path, p.line, p.col, reason⟩
  match fault with
  | .markup fault rest start =>
    if fault.isDeclared then place start fault.message
    else ⟨path, lineAfter source (source.length - rest), 0, fault.message⟩
  | .secondRoot start => place start "multiple root elements"
  | .strayText start => place start "text outside of root element"
  | .noRoot => place 0 "document has no root element"

/-- The document of a tree. -/
def ofElement (source : Bytes) (path : String) (e : Element) : Document :=
  let index := LineIndex.ofSource source
  ⟨path, source, (e.layout (fun n => index.position n) none 0).toArray⟩

/-- Reads a source text. -/
def parse (source : Bytes) (path : String) : Except ParseError Document :=
  match Xml.readTree source with
  | .ok e => .ok (ofElement source path e)
  | .error fault => .error (errorOf source path fault)

end Document

end InstallerLint
