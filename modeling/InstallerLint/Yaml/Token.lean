import InstallerLint.Yaml.Input

/-!
# Tokens of a YAML text

A token is a mark of structure or a scalar.  Block structure is made explicit: a deeper column
opens a block, and a shallower one closes it.

**Cursor.**  Reading advances a `Cursor`, which knows what is left and where it stands.

**Scalars.**  Inside a scalar, white space is collected in a `Gap` until the text goes on; then
the gap is folded: one line end is a space, further ones stay.
-/

namespace InstallerLint
namespace Yaml

/-- How a scalar is written. -/
inductive ScalarStyle where
  /-- Without quotes. -/
  | plain
  | quoted
  | block
  deriving DecidableEq, Repr

/-- What a token is. -/
inductive TokenKind where
  | streamEnd
  /-- The version a text is written for. -/
  | version (major minor : Nat)
  | tagHandle (handle target : String)
  | documentStart
  | documentEnd
  /-- The start of a list by indentation. -/
  | blockList
  /-- The start of a mapping by indentation. -/
  | blockMapping
  | blockEnd
  | listOpen
  | listClose
  | mappingOpen
  | mappingClose
  | entry
  | comma
  | key
  | value
  | reference (name : String)
  /-- A name for the next value. -/
  | anchor (name : String)
  /-- A tag for the next value. -/
  | tag (handle suffix : String)
  | scalar (style : ScalarStyle) (text : String)
  deriving DecidableEq, Repr

/-- A token and the line it starts on, counted from zero. -/
structure Token where
  kind : TokenKind
  line : Nat
  deriving DecidableEq, Repr

/-- A place in the text. -/
structure Cursor where
  rest : List Char
  /-- Line, from zero. -/
  line : Nat
  /-- Column, from zero. -/
  col : Nat
  index : Nat

namespace Cursor

/-- Reads one character of a line. -/
def skip (c : Cursor) : Cursor :=
  { c with rest := c.rest.tail, col := c.col + 1, index := c.index + 1 }

/-- Reads several characters of a line. -/
def skipN : Nat → Cursor → Cursor
  | 0, c => c
  | n + 1, c => skipN n c.skip

/-- Reads the characters of a line that pass a test. -/
def skipWhile (p : Char → Bool) (c : Cursor) : Cursor :=
  skipN (c.rest.takeWhile p).length c

/-- Reads a line end. -/
def skipLine (c : Cursor) : Cursor :=
  match c.rest with
  | '\r' :: '\n' :: rest => ⟨rest, c.line + 1, 0, c.index + 2⟩
  | _ :: rest => ⟨rest, c.line + 1, 0, c.index + 1⟩
  | [] => c

/-- How a line end counts in a text: as a line feed, or as itself if it is a separator. -/
def lineEnd (c : Cursor) : Char :=
  match c.rest with
  | ch :: _ => if ch.toNat == 0x2028 || ch.toNat == 0x2029 then ch else '\n'
  | [] => '\n'

/-- Reads up to the end of the line. -/
def toLineEnd (c : Cursor) : Cursor := c.skipWhile fun ch => !isBreak ch

end Cursor

/-- White space met inside a scalar. -/
structure Gap where
  /-- Blanks of the line, last first. -/
  blanks : List Char
  broken : Bool
  /-- The first line end; none when it was escaped. -/
  first : Option Char
  /-- Further line ends, last first. -/
  more : List Char

namespace Gap

/-- No white space. -/
def none : Gap := ⟨[], false, .none, []⟩

/-- Whether there is no white space. -/
def isNone (g : Gap) : Bool := g.blanks.isEmpty && !g.broken

/-- Adds a blank; blanks after a line end do not count. -/
def blank (g : Gap) (c : Char) : Gap := if g.broken then g else { g with blanks := c :: g.blanks }

/-- Adds a line end. -/
def lineEnd (g : Gap) (c : Char) : Gap :=
  if g.broken then { g with more := c :: g.more } else ⟨[], true, some c, []⟩

/-- The text that stands for the gap, last character first. -/
def folded (g : Gap) : List Char :=
  if g.broken then
    match g.first with
    | some '\n' => if g.more.isEmpty then [' '] else g.more
    | some c => g.more ++ [c]
    | .none => g.more
  else g.blanks

end Gap

/-- Reads a plain scalar from its first character on. -/
def plainScalar (flow : Bool) (indent : Int) (start : Nat) :
    (fuel : Nat) → Cursor → Gap → List Char → Except Fault (List Char × Cursor × Gap)
  | 0, cur, gap, text => .ok (text, cur, gap)
  | fuel + 1, cur, gap, text =>
    match cur.rest with
    | [] => .ok (text, cur, gap)
    | c :: rest =>
      if isBlank c then
        if gap.broken && (cur.col : Int) < indent && c = '\t' then
          .error (.ofScan start cur.line .plainTab)
        else plainScalar flow indent start fuel cur.skip (gap.blank c) text
      else if isBreak c then
        plainScalar flow indent start fuel cur.skipLine (gap.lineEnd cur.lineEnd) text
      else if !gap.isNone && ((!flow && (cur.col : Int) < indent) || c = '#'
          || (cur.col = 0 && isMarker cur.rest)) then .ok (text, cur, gap)
      else if (c = ':' && isGap rest) || (flow && ",?[]\x7b\x7d".toList.contains c) then
        .ok (text, cur, gap)
      else plainScalar flow indent start fuel cur.skip .none (c :: (gap.folded ++ text))

/-- The meaning of a short escape. -/
def escapeValue? (c : Char) : Option Nat :=
  [('0', 0), ('a', 7), ('b', 8), ('t', 9), ('\t', 9), ('n', 10), ('v', 11), ('f', 12), ('r', 13),
    ('e', 27), (' ', 32), ('"', 34), ('\'', 39), ('\\', 92), ('N', 0x85), ('_', 0xA0),
    ('L', 0x2028), ('P', 0x2029)].lookup c

/-- The number of digits of a long escape. -/
def escapeWidth? (c : Char) : Option Nat := [('x', 2), ('u', 4), ('U', 8)].lookup c

/-- The value of exactly `width` hexadecimal digits. -/
def hexDigits? : (width : Nat) → List Char → (value : Nat) → Option Nat
  | 0, _, value => some value
  | _ + 1, [], _ => none
  | w + 1, c :: rest, value =>
    match hexValue? c with
    | some d => hexDigits? w rest (value * 16 + d)
    | none => none

/-- The character of an escape and how long the escape is, from its backslash on. -/
def readEscape (cs : List Char) : Except Problem (Char × Nat) :=
  match cs with
  | _ :: c :: rest =>
    match escapeValue? c, escapeWidth? c with
    | some n, _ => .ok (Char.ofNat n, 2)
    | none, some width =>
      match hexDigits? width rest 0 with
      | none => .error .escapeDigits
      | some n =>
        if (0xD800 ≤ n && n ≤ 0xDFFF) || 0x10FFFF < n then .error .escapeCode
        else .ok (Char.ofNat n, width + 2)
    | none, none => .error .escapeChar
  | _ => .error .escapeChar

/-- Reads a quoted scalar from behind its opening quote to behind its closing one. -/
def quotedScalar (quote : Char) (start : Nat) :
    (fuel : Nat) → Cursor → Gap → List Char → Except Fault (List Char × Cursor)
  | 0, cur, _, _ => .error (.ofScan start cur.line .quotedEnd)
  | fuel + 1, cur, gap, text =>
    match cur.rest with
    | [] => .error (.ofScan start cur.line .quotedEnd)
    | c :: rest =>
      if isBlank c then quotedScalar quote start fuel cur.skip (gap.blank c) text
      else if isBreak c then quotedScalar quote start fuel cur.skipLine (gap.lineEnd cur.lineEnd) text
      else if cur.col = 0 && isMarker cur.rest then .error (.ofScan start cur.line .quotedMarker)
      else
        let text := gap.folded ++ text
        if c = quote then
          if quote = '\'' && rest.head? = some '\'' then
            quotedScalar quote start fuel cur.skip.skip .none ('\'' :: text)
          else .ok (text, cur.skip)
        else if quote = '"' && c = '\\' then
          match rest with
          | next :: _ =>
            if isBreak next then
              quotedScalar quote start fuel cur.skip.skipLine ⟨[], true, .none, []⟩ text
            else
              match readEscape cur.rest with
              | .error p => .error (.ofScan start cur.line p)
              | .ok (ch, n) => quotedScalar quote start fuel (cur.skipN n) .none (ch :: text)
          | [] => .error (.ofScan start cur.line .escapeChar)
        else quotedScalar quote start fuel cur.skip .none (c :: text)

/-- What a block scalar keeps of the line ends at its end. -/
inductive Chomp where
  /-- None. -/
  | strip
  | clip
  | keep
  deriving DecidableEq

/-- The first line of a block scalar. -/
structure BlockHeader where
  chomp : Chomp
  /-- The indentation that is given, zero for none. -/
  increment : Nat

/-- Reads the indicators after the sign of a block scalar. -/
def blockHeader : List Char → Except Problem (BlockHeader × Nat)
  | c :: rest =>
    if c = '+' || c = '-' then
      let chomp := if c = '+' then Chomp.keep else .strip
      match rest with
      | d :: _ =>
        if d = '0' then .error .indentZero
        else if d.isDigit then .ok (⟨chomp, d.toNat - '0'.toNat⟩, 2)
        else .ok (⟨chomp, 0⟩, 1)
      | [] => .ok (⟨chomp, 0⟩, 1)
    else if c = '0' then .error .indentZero
    else if c.isDigit then
      let increment := c.toNat - '0'.toNat
      match rest with
      | '+' :: _ => .ok (⟨.keep, increment⟩, 2)
      | '-' :: _ => .ok (⟨.strip, increment⟩, 2)
      | _ => .ok (⟨.clip, increment⟩, 1)
    else .ok (⟨.clip, 0⟩, 0)
  | [] => .ok (⟨.clip, 0⟩, 0)

/-- Reads empty lines and indentation inside a block scalar: the line ends, last first, and the
deepest column. -/
def blockBreaks (indent start : Nat) :
    (fuel : Nat) → Cursor → (deepest : Nat) → List Char → Except Fault (List Char × Nat × Cursor)
  | 0, cur, deepest, breaks => .ok (breaks, deepest, cur)
  | fuel + 1, cur, deepest, breaks =>
    match cur.rest with
    | [] => .ok (breaks, max deepest cur.col, cur)
    | c :: _ =>
      let inside := indent = 0 || cur.col < indent
      if inside && c = ' ' then blockBreaks indent start fuel cur.skip deepest breaks
      else if inside && c = '\t' then .error (.ofScan start cur.line .blockTab)
      else if isBreak c then
        blockBreaks indent start fuel cur.skipLine (max deepest cur.col) (cur.lineEnd :: breaks)
      else .ok (breaks, max deepest cur.col, cur)

/-- Reads the lines of a block scalar; `pending` is the last line end and `breaks` the empty
lines after it. -/
def blockLines (literal : Bool) (indent start : Nat) : (fuel : Nat) → Cursor →
    (afterBlank : Bool) → (pending : List Char) → (breaks : List Char) → List Char →
    Except Fault (List Char × List Char × List Char × Cursor)
  | 0, cur, _, pending, breaks, text => .ok (text, pending, breaks, cur)
  | fuel + 1, cur, afterBlank, pending, breaks, text =>
    if cur.col = indent && !cur.rest.isEmpty then
      let startsBlank := cur.rest.head?.any isBlank
      let text :=
        if !literal && !afterBlank && !startsBlank && pending = ['\n'] then
          if breaks.isEmpty then ' ' :: text else text
        else pending ++ text
      let text := breaks ++ text
      let line := cur.rest.takeWhile fun c => !isBreak c
      let text := line.reverse ++ text
      let cur := cur.toLineEnd
      let pending := if cur.rest.isEmpty then [] else [cur.lineEnd]
      match blockBreaks indent start cur.rest.length cur.skipLine 0 [] with
      | .error e => .error e
      | .ok (breaks, _, cur) => blockLines literal indent start fuel cur startsBlank pending breaks text
    else .ok (text, pending, breaks, cur)

/-- Reads a block scalar from its sign on, inside a block of the given indentation. -/
def blockScalar (outer : Int) (cur : Cursor) : Except Fault (List Char × Cursor) :=
  let start := cur.line
  let literal := cur.rest.head? = some '|'
  let cur := cur.skip
  match blockHeader cur.rest with
  | .error p => .error (.ofScan start cur.line p)
  | .ok (header, n) =>
    let cur := (cur.skipN n).skipWhile isBlank
    let cur := if cur.rest.head? = some '#' then cur.toLineEnd else cur
    if !(cur.rest.isEmpty || cur.rest.head?.any isBreak) then
      .error (.ofScan start cur.line .blockEnd)
    else
      let cur := cur.skipLine
      let given := if header.increment = 0 then 0 else (max outer 0).toNat + header.increment
      match blockBreaks given start (cur.rest.length + 1) cur 0 [] with
      | .error e => .error e
      | .ok (breaks, deepest, cur) =>
        let indent := if given = 0 then max (max deepest (outer + 1).toNat) 1 else given
        match blockLines literal indent start (cur.rest.length + 1) cur false [] breaks [] with
        | .error e => .error e
        | .ok (text, pending, breaks, cur) =>
          let text := if header.chomp = .strip then text else pending ++ text
          .ok (if header.chomp = .keep then breaks ++ text else text, cur)

/-- Reads the escaped bytes and characters of a tag. -/
def uriBytes : (fuel : Nat) → List Char → Option (Bytes × List Char)
  | 0, cs => some ([], cs)
  | fuel + 1, cs =>
    match cs with
    | '%' :: a :: b :: rest =>
      match hexValue? a, hexValue? b with
      | some x, some y => (uriBytes fuel rest).map fun (bs, r) => (UInt8.ofNat (x * 16 + y) :: bs, r)
      | _, _ => none
    | '%' :: _ => none
    | c :: rest =>
      if isUri c then (uriBytes fuel rest).map fun (bs, r) => (Bytes.ofString c.toString ++ bs, r)
      else some ([], cs)
    | [] => some ([], [])

/-- Reads the name of a tag after what has been read of it. -/
def tagUri (start : Nat) (known : String) (empty : Bool) (cur : Cursor) :
    Except Fault (String × Cursor) :=
  match uriBytes cur.rest.length cur.rest with
  | none => .error (.ofScan start cur.line .tagEscape)
  | some (bytes, rest) =>
    let read := cur.rest.length - rest.length
    if read = 0 && empty then .error (.ofScan start cur.line .tagUri)
    else .ok (known ++ bytes.toText, cur.skipN read)

/-- Reads the handle of a tag, from its mark on. -/
def tagHandle (cur : Cursor) : String × Cursor :=
  let word := cur.rest.tail.takeWhile isWord
  let cur := cur.skipN (word.length + 1)
  if cur.rest.head? = some '!' then (String.ofList ('!' :: word ++ ['!']), cur.skip)
  else (String.ofList ('!' :: word), cur)

/-- Reads a tag. -/
def readTag (cur : Cursor) : Except Fault (TokenKind × Cursor) := do
  let start := cur.line
  let (kind, cur) ← (
    if cur.rest.tail.head? = some '<' then do
      let (suffix, cur) ← tagUri start "" true cur.skip.skip
      if cur.rest.head? = some '>' then .ok (TokenKind.tag "" suffix, cur.skip)
      else .error (.ofScan start cur.line .tagClose)
    else do
      let (handle, after) := tagHandle cur
      if 1 < handle.length && handle.toList.getLast? = some '!' then
        let (suffix, cur) ← tagUri start "" true after
        .ok (TokenKind.tag handle suffix, cur)
      else
        let (suffix, cur) ← tagUri start (String.ofList handle.toList.tail) false after
        .ok (if suffix = "" then TokenKind.tag "" "!" else TokenKind.tag "!" suffix, cur)
    : Except Fault (TokenKind × Cursor))
  if isGap cur.rest then .ok (kind, cur) else .error (.ofScan start cur.line .tagEnd)

/-- Reads the name of an anchor or alias. -/
def readAnchor (cur : Cursor) : Except Fault (String × Cursor) :=
  let start := cur.line
  let name := cur.rest.tail.takeWhile isWord
  let after := cur.skipN (name.length + 1)
  if name.isEmpty || !(isGap after.rest || after.rest.head?.any ("?:,]\x7d%@\x60".toList.contains ·)) then
    .error (.ofScan start after.line .anchorName)
  else .ok (String.ofList name, after)

/-- Reads the digits of a version number. -/
def versionNumber (start : Nat) (cur : Cursor) : Except Fault (Nat × Cursor) :=
  let digits := cur.rest.takeWhile Char.isDigit
  if digits.isEmpty then .error (.ofScan start cur.line .versionNumber)
  else if 9 < digits.length then .error (.ofScan start cur.line .versionLong)
  else .ok (digits.foldl (fun n c => n * 10 + (c.toNat - '0'.toNat)) 0, cur.skipN digits.length)

/-- Reads a directive line. -/
def readDirective (cur : Cursor) : Except Fault (TokenKind × Cursor) := do
  let start := cur.line
  let name := cur.rest.tail.takeWhile isWord
  let cur := cur.skipN (name.length + 1)
  if name.isEmpty then throw (.ofScan start cur.line .directiveName)
  if !isGap cur.rest then throw (.ofScan start cur.line .directiveChar)
  let (kind, cur) ← (
    if name = "YAML".toList then do
      let (major, cur) ← versionNumber start (cur.skipWhile isBlank)
      if cur.rest.head? ≠ some '.' then throw (.ofScan start cur.line .versionDot)
      let (minor, cur) ← versionNumber start cur.skip
      .ok (TokenKind.version major minor, cur)
    else if name = "TAG".toList then do
      let cur := cur.skipWhile isBlank
      if cur.rest.head? ≠ some '!' then throw (.ofScan start cur.line .tagMark)
      let (handle, cur) := tagHandle cur
      if handle ≠ "!" && (handle.toList.getLast? ≠ some '!') then
        throw (.ofScan start cur.line .tagMark)
      if !cur.rest.head?.any isBlank then throw (.ofScan start cur.line .tagBlank)
      let (target, cur) ← tagUri start "" true (cur.skipWhile isBlank)
      if !isGap cur.rest then throw (.ofScan start cur.line .tagEnd)
      .ok (TokenKind.tagHandle handle target, cur)
    else throw (.ofScan start cur.line .directiveUnknown)
    : Except Fault (TokenKind × Cursor))
  let cur := cur.skipWhile isBlank
  let cur := if cur.rest.head? = some '#' then cur.toLineEnd else cur
  if !(cur.rest.isEmpty || cur.rest.head?.any isBreak) then
    throw (.ofScan start cur.line .directiveEnd)
  .ok (kind, cur.skipLine)

end Yaml
end InstallerLint
