import InstallerLint.Text.Bytes

/-!
# Lines and positions

A position is a line and a column, both counted from one; columns count characters.

**Index.**  `LineIndex` records where each line starts and answers positions by looking up the
last start that is not behind the offset.
-/

namespace InstallerLint

/-- A place in a text, counted from one. -/
structure Position where
  line : Nat
  col : Nat
  deriving Repr, DecidableEq, Inhabited

/-- A text by its lines. -/
structure LineIndex where
  /-- The size of the text in bytes. -/
  size : Nat
  /-- The offset at which each line starts, increasing, with the text from there on. -/
  starts : List (Nat × Bytes)

namespace LineIndex

/-- The line starts after each line feed, when the text stands at `offset`. -/
def startsAfter (offset : Nat) : Bytes → List (Nat × Bytes)
  | [] => []
  | b :: rest =>
    if b = 0x0A then (offset + 1, rest) :: startsAfter (offset + 1) rest
    else startsAfter (offset + 1) rest

/-- Records all line starts of a text. -/
def ofSource (s : Bytes) : LineIndex := ⟨s.length, (0, s) :: startsAfter 0 s⟩

/-- The number of lines. -/
def lines (i : LineIndex) : Nat := i.starts.length

/-- The line of an offset, where that line starts, and the text from there on: the last start not
behind the offset. -/
def lineOf (offset : Nat) : List (Nat × Bytes) → Nat × Nat × Bytes
  | [] => (1, 0, [])
  | start :: rest =>
    (rest.takeWhile (·.1 ≤ offset)).foldl (fun (n, _) s => (n + 1, s)) (1, start)

/-- The position of a byte offset; offsets outside of the text count as its nearer end. -/
def position (i : LineIndex) (offset : Int) : Position :=
  let place := min offset.toNat i.size
  let (line, start, text) := lineOf place i.starts
  ⟨line, Bytes.countWithin 1 0 (place - start) text⟩

end LineIndex

namespace Lines

/-- Line ends written as CR LF or CR become LF. -/
def normalize : Bytes → Bytes
  | [] => []
  | 0x0D :: 0x0A :: rest => 0x0A :: normalize rest
  | 0x0D :: rest => 0x0A :: normalize rest
  | b :: rest => b :: normalize rest

/-- The bytes of the first `n` characters, `k` bytes of the current one still to come. -/
def takeCharsAfter : Nat → Nat → Bytes → Bytes
  | _, _, [] => []
  | k + 1, n, b :: rest => b :: takeCharsAfter k n rest
  | 0, 0, _ :: _ => []
  | 0, n + 1, b :: rest =>
    match Bytes.headChar? (b :: rest) with
    | some (_, w) => b :: takeCharsAfter (w - 1) n rest
    | none => b :: takeCharsAfter 0 n rest

/-- At most `n` characters from the start. -/
def takeChars (s : Bytes) (n : Int) : Bytes := takeCharsAfter 0 n.toNat s

/-- At most `n` characters from the start of a text. -/
def takeText (s : String) (n : Nat) : String := String.ofList (s.toList.take n)

/-- The lines of a text, each with its line feed; an empty text has none. -/
def split (s : Bytes) : List Bytes :=
  match s with
  | [] => []
  | s => Bytes.splitAfterLF s

end Lines

end InstallerLint
