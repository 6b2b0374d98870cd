import InstallerLint.Yaml.Token

/-!
# The token stream

Reads a whole text into tokens.

**Simple keys.**  A key needs no mark of its own: it is recognised by the colon behind it.  So
wherever a key may start, the place is remembered, once per bracket level; the colon then puts a
key token in front of what was read since.  A remembered place lapses at the end of its line, or
after 1024 characters.

**Result.**  The tokens read before the first fault, and the fault.
-/

namespace InstallerLint
namespace Yaml

/-- A place where a key may have started. -/
structure KeyPlace where
  /-- Whether only a key may stand there. -/
  required : Bool
  /-- How many tokens were read before it. -/
  number : Nat
  line : Nat
  col : Nat
  index : Nat

/-- What has been read. -/
structure Reading where
  /-- Where reading stands. -/
  cur : Cursor
  tokens : Array Token
  /-- The column of the current block, minus one outside of all. -/
  indent : Int
  /-- The columns of the blocks around it. -/
  outer : List Int
  /-- The remembered place of each bracket level, innermost first. -/
  keys : List (Option KeyPlace)
  /-- Whether a key may start here. -/
  keyAllowed : Bool

namespace Reading

/-- The longest key. -/
def keyLimit : Nat := 1024

/-- The deepest nesting. -/
def depthLimit : Nat := 10000

/-- The start of a text. -/
def start (cs : List Char) : Reading := ⟨⟨cs, 0, 0, 0⟩, #[], -1, [], [none], true⟩

/-- Whether a bracket is open. -/
def inFlow (r : Reading) : Bool := 1 < r.keys.length

/-- The remembered place of this level. -/
def place? (r : Reading) : Option KeyPlace := r.keys.head?.join

/-- Replaces the remembered place. -/
def setPlace (r : Reading) (p : Option KeyPlace) : Reading := { r with keys := p :: r.keys.tail }

/-- A fault here. -/
def fault (r : Reading) (problem : Problem) : Fault := .ofScan r.cur.line r.cur.line problem

/-- A required key that was not found. -/
def missing (r : Reading) (p : KeyPlace) : Fault := .ofScan p.line r.cur.line .missingColon

/-- Adds a token. -/
def push (r : Reading) (kind : TokenKind) : Reading :=
  { r with tokens := r.tokens.push ⟨kind, r.cur.line⟩ }

/-- Forgets the remembered place. -/
def forget (r : Reading) : Except Fault Reading :=
  match r.place? with
  | some p => if p.required then .error (r.missing p) else .ok (r.setPlace none)
  | none => .ok r

/-- Remembers this place if a key may start here. -/
def remember (r : Reading) : Except Fault Reading :=
  if r.keyAllowed then
    r.forget.map fun r => r.setPlace (some ⟨!r.inFlow && r.indent = r.cur.col, r.tokens.size,
      r.cur.line, r.cur.col, r.cur.index⟩)
  else .ok r

/-- The remembered place if it has not lapsed. -/
def current (r : Reading) : Except Fault (Option KeyPlace) :=
  match r.place? with
  | none => .ok none
  | some p =>
    if p.line < r.cur.line || p.index + keyLimit < r.cur.index then
      if p.required then .error (r.missing p) else .ok none
    else .ok (some p)

/-- Opens a block at a column if it is deeper, its token put before token `number`. -/
def openBlock (r : Reading) (col number : Nat) (line : Nat) (kind : TokenKind) :
    Except Fault Reading :=
  if r.inFlow || (col : Int) ≤ r.indent then .ok r
  else if depthLimit < r.outer.length + 1 then .error (r.fault .tooDeep)
  else .ok { r with
    indent := col, outer := r.indent :: r.outer
    tokens := r.tokens.insertIdxIfInBounds number ⟨kind, line⟩ }

/-- Closes the blocks deeper than a column. -/
def closeBlocks (r : Reading) (col : Int) : Reading :=
  if r.inFlow then r
  else
    let all := r.indent :: r.outer
    let deeper := all.takeWhile (col < ·)
    match all.drop deeper.length with
    | [] => r
    | indent :: outer =>
      { r with
        indent, outer
        tokens := deeper.foldl (fun ts _ => ts.push ⟨.blockEnd, r.cur.line⟩) r.tokens }

/-- Reads comment lines that follow a comment. -/
def commentLines : (fuel : Nat) → Cursor → Cursor
  | 0, cur => cur
  | fuel + 1, cur =>
    let cur := cur.toLineEnd
    let gap := cur.rest.takeWhile fun c => isBlank c || isBreak c
    if (cur.rest.drop gap.length).head? = some '#' then
      let rec pass : Nat → Cursor → Cursor
        | 0, cur => cur
        | n + 1, cur =>
          match cur.rest with
          | c :: _ =>
            if isBreak c then pass n cur.skipLine else if isBlank c then pass n cur.skip else cur
          | [] => cur
      commentLines fuel (pass gap.length cur)
    else cur

/-- Reads white space and comments before a token. -/
def toToken (flow : Bool) : (fuel : Nat) → Cursor → (keyAllowed : Bool) → Cursor × Bool
  | 0, cur, keyAllowed => (cur, keyAllowed)
  | fuel + 1, cur, keyAllowed =>
    let cur := if cur.col = 0 && cur.rest.head? = some '\uFEFF' then cur.skip else cur
    let cur := cur.skipWhile fun c => c = ' ' || ((flow || !keyAllowed) && c = '\t')
    let cur := if cur.rest.head? = some '#' then commentLines cur.rest.length cur else cur
    if cur.rest.head?.any isBreak then toToken flow fuel cur.skipLine (keyAllowed || !flow)
    else (cur, keyAllowed)

/-- Reads one mark of the given width as a token. -/
def mark (r : Reading) (kind : TokenKind) (width : Nat) : Reading :=
  { r.push kind with cur := r.cur.skipN width }

/-- A token that ends all blocks: a directive or a document marker. -/
def boundary (r : Reading) : Except Fault Reading :=
  ((r.closeBlocks (-1)).forget).map fun r => { r with keyAllowed := false }

/-- The end of the text. -/
def finish (r : Reading) : Except Fault Reading :=
  let r := if r.cur.col = 0 then r else { r with cur := { r.cur with col := 0, line := r.cur.line + 1 } }
  r.boundary.map fun r => r.push .streamEnd

/-- Opens a bracket. -/
def openFlow (r : Reading) (kind : TokenKind) : Except Fault Reading := do
  let r ← r.remember
  if depthLimit < r.keys.length then throw (r.fault .tooDeep)
  .ok (({ r with keys := none :: r.keys, keyAllowed := true }).mark kind 1)

/-- Closes a bracket. -/
def closeFlow (r : Reading) (kind : TokenKind) : Except Fault Reading := do
  let r ← r.forget
  let keys := if r.inFlow then r.keys.tail else r.keys
  .ok (({ r with keys, keyAllowed := false }).mark kind 1)

/-- A comma. -/
def comma (r : Reading) : Except Fault Reading :=
  r.forget.map fun r => ({ r with keyAllowed := true }).mark .comma 1

/-- A dash before an entry. -/
def entry (r : Reading) : Except Fault Reading := do
  let r ←
    if r.inFlow then pure r
    else if r.keyAllowed then r.openBlock r.cur.col r.tokens.size r.cur.line .blockList
    else throw (r.fault .entryNotAllowed)
  let r ← r.forget
  .ok (({ r with keyAllowed := true }).mark .entry 1)

/-- A question mark before a key. -/
def explicitKey (r : Reading) : Except Fault Reading := do
  let r ←
    if r.inFlow then pure r
    else if r.keyAllowed then r.openBlock r.cur.col r.tokens.size r.cur.line .blockMapping
    else throw (r.fault .keyNotAllowed)
  let r ← r.forget
  .ok (({ r with keyAllowed := !r.inFlow }).mark .key 1)

/-- A colon before a value. -/
def value (r : Reading) : Except Fault Reading := do
  match ← r.current with
  | some p =>
    let r := { r with tokens := r.tokens.insertIdxIfInBounds p.number ⟨.key, p.line⟩ }
    let r ← r.openBlock p.col p.number p.line .blockMapping
    .ok (({ r.setPlace none with keyAllowed := false }).mark .value 1)
  | none =>
    let r := if r.place?.isSome then r.setPlace none else r
    let r ←
      if r.inFlow then pure r
      else if r.keyAllowed then r.openBlock r.cur.col r.tokens.size r.cur.line .blockMapping
      else throw (r.fault .valueNotAllowed)
    .ok (({ r with keyAllowed := !r.inFlow }).mark .value 1)

/-- A token read from the cursor that a key may consist of. -/
def keyPart (r : Reading) (read : Cursor → Except Fault (TokenKind × Cursor)) :
    Except Fault Reading := do
  let r ← r.remember
  let (kind, cur) ← read r.cur
  .ok { r.push kind with cur, keyAllowed := false }

/-- A quoted scalar. -/
def quoted (quote : Char) (cur : Cursor) : Except Fault (TokenKind × Cursor) :=
  (quotedScalar quote cur.line (cur.rest.length + 1) cur.skip .none []).map
    fun (text, cur) => (.scalar .quoted (String.ofList text.reverse), cur)

/-- A block scalar. -/
def block (r : Reading) : Except Fault Reading := do
  let r ← r.forget
  let (text, cur) ← blockScalar r.indent r.cur
  .ok { r.push (.scalar .block (String.ofList text.reverse)) with cur, keyAllowed := true }

/-- A plain scalar. -/
def plain (r : Reading) : Except Fault Reading := do
  let r ← r.remember
  let (text, cur, gap) ←
    plainScalar r.inFlow (r.indent + 1) r.cur.line (r.cur.rest.length + 1) r.cur .none []
  .ok { r.push (.scalar .plain (String.ofList text.reverse)) with cur, keyAllowed := gap.broken }

/-- Whether a plain scalar can start here. -/
def startsPlain (flow : Bool) : List Char → Bool
  | [] => false
  | c :: rest =>
    !(isBlank c || isBreak c || "-?:,[]\x7b\x7d#&*!|>'\"%@\x60".toList.contains c)
      || (c = '-' && !rest.head?.any isBlank)
      || (!flow && (c = '?' || c = ':') && !isGap rest)

/-- Reads the next token. -/
def next (r : Reading) : Except Fault Reading :=
  let (cur, keyAllowed) := toToken r.inFlow (r.cur.rest.length + 1) r.cur r.keyAllowed
  let r := ({ r with cur, keyAllowed }).closeBlocks cur.col
  match cur.rest with
  | [] => r.finish
  | c :: rest =>
    if cur.col = 0 && c = '%' then do
      let r ← r.boundary
      let (kind, cur) ← readDirective r.cur
      .ok { r.push kind with cur }
    else if cur.col = 0 && isMarker cur.rest then
      r.boundary.map fun r => r.mark (if c = '-' then .documentStart else .documentEnd) 3
    else if c = '[' then r.openFlow .listOpen
    else if c.toNat = 0x7B then r.openFlow .mappingOpen
    else if c = ']' then r.closeFlow .listClose
    else if c.toNat = 0x7D then r.closeFlow .mappingClose
    else if c = ',' then r.comma
    else if c = '-' && isGap rest then r.entry
    else if c = '?' && (r.inFlow || isGap rest) then r.explicitKey
    else if c = ':' && (r.inFlow || isGap rest) then r.value
    else if c = '*' then r.keyPart fun cur => (readAnchor cur).map fun (n, cur) => (.reference n, cur)
    else if c = '&' then r.keyPart fun cur => (readAnchor cur).map fun (n, cur) => (.anchor n, cur)
    else if c = '!' then r.keyPart readTag
    else if (c = '|' || c = '>') && !r.inFlow then r.block
    else if c = '\'' || c = '"' then r.keyPart (quoted c)
    else if startsPlain r.inFlow cur.rest then r.plain
    else .error (r.fault .noToken)

/-- Reads tokens until the end of the text or a fault. -/
def run : (fuel : Nat) → Reading → List Token × Option Fault
  | 0, r => (r.tokens.toList, none)
  | fuel + 1, r =>
    match r.next with
    | .error e => (r.tokens.toList, some e)
    | .ok r' =>
      if r'.tokens.back?.any fun t => t.kind == .streamEnd then (r'.tokens.toList, none)
      else run fuel r'

end Reading

/-- The tokens of a text up to its end or first fault. -/
def tokens (cs : List Char) : List Token × Option Fault :=
  Reading.run (cs.length + 2) (Reading.start cs)

end Yaml
end InstallerLint
