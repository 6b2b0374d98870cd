import InstallerLint.Pattern.Basic
import InstallerLint.Text.Category
import InstallerLint.Text.Script

/-!
# Reading patterns

The written form of patterns: literals, classes, groups with flags, repetitions and escapes,
without references back and without looking around.  A faulty pattern is reported with the part
of it that cannot be read.
-/

namespace InstallerLint

/-- Why a text is no pattern, with the part that shows it. -/
structure PatternError where
  reason : String
  part : String
  deriving DecidableEq, Repr

/-- The wording of a pattern error. -/
def PatternError.message (e : PatternError) : String :=
  "error parsing regexp: " ++ e.reason ++ ": \x60" ++ e.part ++ "\x60"

namespace Pattern

/-- The reasons for which a text is no pattern. -/
inductive Reason where
  /-- A range whose end comes before its start, or an unknown named class. -/
  | charRange
  /-- An escape that stands for nothing. -/
  | escape
  /-- A group name that is none. -/
  | groupName
  | groupKind
  | nestedRepeat
  /-- A count that is too large, or a lower bound above the upper. -/
  | repeatCount
  /-- A class without an end. -/
  | missingBracket
  /-- A group without an end. -/
  | missingParen
  | missingOperand
  | trailingBackslash
  /-- The end of a group that was not opened. -/
  | unexpectedParen
  /-- Groups or repetitions too deep inside of each other. -/
  | tooDeep
  deriving DecidableEq, Repr

/-- The wording of a reason. -/
def Reason.message : Reason → String
  | .charRange => "invalid character class range"
  | .escape => "invalid escape sequence"
  | .groupName => "invalid named capture"
  | .groupKind => "invalid or unsupported Perl syntax"
  | .nestedRepeat => "invalid nested repetition operator"
  | .repeatCount => "invalid repeat count"
  | .missingBracket => "missing closing ]"
  | .missingParen => "missing closing )"
  | .missingOperand => "missing argument to repetition operator"
  | .trailingBackslash => "trailing backslash at end of expression"
  | .unexpectedParen => "unexpected )"
  | .tooDeep => "expression nests too deeply"

/-- An error with the part of the pattern before `rest`. -/
def failBefore (reason : Reason) (whole rest : List Char) : PatternError :=
  ⟨reason.message, String.ofList (whole.take (whole.length - rest.length))⟩

/-- An error with a part of the pattern. -/
def failAt (reason : Reason) (part : List Char) : PatternError :=
  ⟨reason.message, String.ofList part⟩

/-- Settings that groups and flags change. -/
structure Flags where
  fold : Bool
  multiLine : Bool
  dotAll : Bool
  deriving DecidableEq, Repr

/-- The settings at the start. -/
def Flags.start : Flags := ⟨false, false, false⟩

/-- The value of a hexadecimal digit. -/
def unhex? (c : Char) : Option Nat :=
  if c.isDigit || ('a' ≤ c && c ≤ 'f') || ('A' ≤ c && c ≤ 'F') then some (Ranges.hexDigit c)
  else none

/-- Whether a character is an octal digit. -/
def isOctal (c : Char) : Bool := '0' ≤ c && c ≤ '7'

/-- Reads hexadecimal digits up to a closing brace; `none` when they name no character. -/
def bracedHex (value : Nat) (seen : Bool) : List Char → Option Nat × List Char
  | [] => (none, [])
  | c :: cs =>
    if c = '\x7d' then (if seen then some value else none, cs)
    else
      match unhex? c with
      | none => (none, cs)
      | some v =>
        if Ranges.top < value * 16 + v then (none, cs) else bracedHex (value * 16 + v) true cs

/-- Reads the number behind `\x`. -/
def hexEscape : List Char → Option Nat × List Char
  | [] => (none, [])
  | '\x7b' :: cs => bracedHex 0 false cs
  | [_] => (none, [])
  | a :: b :: cs =>
    match unhex? a, unhex? b with
    | some x, some y => (some (x * 16 + y), cs)
    | _, _ => (none, cs)

/-- Reads up to `n` octal digits. -/
def octalDigits : Nat → Nat → List Char → Nat × List Char
  | 0, value, cs => (value, cs)
  | _ + 1, value, [] => (value, [])
  | n + 1, value, c :: cs =>
    if isOctal c then octalDigits n (value * 8 + (c.toNat - '0'.toNat)) cs else (value, c :: cs)

/-- The code behind a backslash and a letter of fixed meaning. -/
def letterEscape? (c : Char) : Option Nat :=
  match c with
  | 'a' => some 7
  | 'f' => some 12
  | 'n' => some 10
  | 'r' => some 13
  | 't' => some 9
  | 'v' => some 11
  | _ => none

/-- Reads an escape of one character; `s` starts with the backslash. -/
def readEscape (s : List Char) : Except PatternError (Nat × List Char) :=
  match s.drop 1 with
  | [] => .error (failAt .trailingBackslash [])
  | c :: t =>
    if c = 'x' then
      match hexEscape t with
      | (some n, rest) => .ok (n, rest)
      | (none, rest) => .error (failBefore .escape s rest)
    else if c = '0' || (isOctal c && t.head?.any isOctal) then
      .ok (octalDigits 2 (c.toNat - '0'.toNat) t)
    else
      match letterEscape? c with
      | some n => .ok (n, t)
      | none =>
        if c.toNat < 0x80 && !c.isAlphanum then .ok (c.toNat, t)
        else .error (failBefore .escape s t)

/-- The classes behind a backslash and a letter. -/
def letterClass? (c : Char) : Option (Ranges × Bool) :=
  let digits : Ranges := [(0x30, 0x39)]
  let spaces : Ranges := [(0x09, 0x0A), (0x0C, 0x0D), (0x20, 0x20)]
  let words : Ranges := [(0x30, 0x39), (0x41, 0x5A), (0x5F, 0x5F), (0x61, 0x7A)]
  match c with
  | 'd' => some (digits, false)
  | 'D' => some (digits, true)
  | 's' => some (spaces, false)
  | 'S' => some (spaces, true)
  | 'w' => some (words, false)
  | 'W' => some (words, true)
  | _ => none

/-- The named ASCII classes. -/
def namedClasses : List (String × Ranges) := [
  ("alnum", [(0x30, 0x39), (0x41, 0x5A), (0x61, 0x7A)]),
  ("alpha", [(0x41, 0x5A), (0x61, 0x7A)]),
  ("ascii", [(0x00, 0x7F)]),
  ("blank", [(0x09, 0x09), (0x20, 0x20)]),
  ("cntrl", [(0x00, 0x1F), (0x7F, 0x7F)]),
  ("digit", [(0x30, 0x39)]),
  ("graph", [(0x21, 0x7E)]),
  ("lower", [(0x61, 0x7A)]),
  ("print", [(0x20, 0x7E)]),
  ("punct", [(0x21, 0x2F), (0x3A, 0x40), (0x5B, 0x60), (0x7B, 0x7E)]),
  ("space", [(0x09, 0x0D), (0x20, 0x20)]),
  ("upper", [(0x41, 0x5A)]),
  ("word", [(0x30, 0x39), (0x41, 0x5A), (0x5F, 0x5F), (0x61, 0x7A)]),
  ("xdigit", [(0x30, 0x39), (0x41, 0x46), (0x61, 0x66)])]

/-- What stands before the first `mark`, and what stands behind it. -/
def cutAt (mark : List Char) : List Char → Option (List Char × List Char)
  | [] => none
  | c :: cs =>
    if mark.isPrefixOf (c :: cs) then some ([], (c :: cs).drop mark.length)
    else (cutAt mark cs).map fun (front, rest) => (c :: front, rest)

/-- Reads a named class at the front of `s`; `none` when it is not one. -/
def readNamedClass (fold : Bool) (s : List Char) :
    Except PatternError (Option (CharItem × List Char)) :=
  if ['[', ':'].isPrefixOf s && 2 < s.length then
    match cutAt [':', ']'] (s.drop 2) with
    | none => .ok none
    | some (name, rest) =>
      let (negated, plain) := match name with
        | '^' :: plain => (true, plain)
        | plain => (false, plain)
      match namedClasses.lookup (String.ofList plain) with
      | some ranges => .ok (some (⟨ranges, fold, negated⟩, rest))
      | none => .error (failBefore .charRange s rest)
  else .ok none

/-- The characters of a category or script. -/
def unicodeClass? (name : String) : Option Ranges :=
  if name = "Any" then some [(0, Ranges.top)]
  else (Category.find? name).orElse fun _ => Script.find? name

/-- Reads a category or script at the front of `s`; `none` when there is none. -/
def readUnicodeClass (fold : Bool) (s : List Char) :
    Except PatternError (Option (CharItem × List Char)) :=
  match s with
  | '\\' :: p :: t =>
    if p = 'p' || p = 'P' then
      let found : Option (List Char × List Char) := match t with
        | '\x7b' :: inner => cutAt ['\x7d'] inner
        | c :: rest => some ([c], rest)
        | [] => some ([], [])
      match found with
      | none => .error (failAt .charRange s)
      | some (name, rest) =>
        let (flipped, plain) := match name with
          | '^' :: plain => (true, plain)
          | plain => (false, plain)
        match unicodeClass? (String.ofList plain) with
        | none => .error (failBefore .charRange s rest)
        | some ranges => .ok (some (⟨ranges, fold, (p = 'P') != flipped⟩, rest))
    else .ok none
  | _ => .ok none

/-- Reads a class behind a backslash at the front of `s`. -/
def readLetterClass (fold : Bool) (s : List Char) : Option (CharItem × List Char) :=
  match s with
  | '\\' :: c :: rest =>
    (letterClass? c).map fun (ranges, negated) => (⟨ranges, fold, negated⟩, rest)
  | _ => none

/-- Reads one character of a class; `whole` is the class for the error. -/
def readClassChar (whole s : List Char) : Except PatternError (Nat × List Char) :=
  match s with
  | [] => .error (failAt .missingBracket whole)
  | '\\' :: _ => readEscape s
  | c :: rest => .ok (c.toNat, rest)

/-- Reads one character or range of a class. -/
def readClassRange (fold : Bool) (whole s : List Char) :
    Except PatternError (CharItem × List Char) := do
  let (lo, t) ← readClassChar whole s
  match t with
  | '-' :: c :: _ =>
    if c = ']' then return (⟨[(lo, lo)], fold, false⟩, t)
    else
      let (hi, t') ← readClassChar whole (t.drop 1)
      if hi < lo then throw (failBefore .charRange s t')
      else return (⟨[(lo, hi)], fold, false⟩, t')
  | _ => return (⟨[(lo, lo)], fold, false⟩, t)

/-- Reads one item of a class. -/
def readClassItem (fold : Bool) (whole s : List Char) :
    Except PatternError (CharItem × List Char) := do
  match ← readNamedClass fold s with
  | some found => return found
  | none =>
    match ← readUnicodeClass fold s with
    | some found => return found
    | none =>
      match readLetterClass fold s with
      | some found => return found
      | none => readClassRange fold whole s

/-- Reads the items of a class up to its end; a bracket may come first. -/
def readClassItems (fold : Bool) (whole : List Char) :
    (fuel : Nat) → (first : Bool) → List Char → Except PatternError (List CharItem × List Char)
  | 0, _, _ => .error (failAt .missingBracket whole)
  | fuel + 1, first, s =>
    match s with
    | ']' :: rest =>
      if first then do
        let (item, s) ← readClassItem fold whole s
        let (items, s) ← readClassItems fold whole fuel false s
        return (item :: items, s)
      else .ok ([], rest)
    | s => do
      let (item, s) ← readClassItem fold whole s
      let (items, s) ← readClassItems fold whole fuel false s
      return (item :: items, s)

/-- Reads a class; `s` starts with the bracket. -/
def readClass (fold : Bool) (s : List Char) : Except PatternError (CharClass × List Char) := do
  let (negated, t) := match s.drop 1 with
    | '^' :: t => (true, t)
    | t => (false, t)
  let (items, rest) ← readClassItems fold s (s.length + 1) true t
  return (⟨items, negated⟩, rest)

/-- Reads a count without leading zeros; numbers that are too large give none. -/
def readCount (s : List Char) : Option (Option Nat × List Char) :=
  match s.span Char.isDigit with
  | ([], _) => none
  | ('0' :: _ :: _, _) => none
  | (ds, rest) =>
    let n := ds.foldl (fun n c => n * 10 + (c.toNat - '0'.toNat)) 0
    some (if n < 1000000000 then some n else none, rest)

/-- Bounds of a repetition in braces: lower, upper, and whether both are acceptable. -/
structure Bounds where
  min : Nat
  max : Option Nat
  sound : Bool

/-- Makes bounds of what was read. -/
def Bounds.of (min : Option Nat) (max : Option (Option Nat)) : Bounds :=
  match min, max with
  | some a, none => ⟨a, none, a ≤ 1000⟩
  | some a, some (some b) => ⟨a, some b, a ≤ 1000 && b ≤ 1000 && a ≤ b⟩
  | _, _ => ⟨0, none, false⟩

/-- Reads bounds in braces; `none` when the brace is a plain character. -/
def readBounds (s : List Char) : Option (Bounds × List Char) := do
  let (min, s) ← readCount (s.drop 1)
  match s with
  | '\x7d' :: rest => return (Bounds.of min (some min), rest)
  | ',' :: '\x7d' :: rest => return (Bounds.of min none, rest)
  | ',' :: s =>
    let (max, s) ← readCount s
    match s with
    | '\x7d' :: rest => return (Bounds.of min (some max), rest)
    | _ => none
  | _ => none

/-- Whether a name may stand for a group. -/
def isGroupName (name : List Char) : Bool := name ≠ [] && name.all isWord

/-- A group that is being read. -/
structure OpenGroup where
  flags : Flags
  captures : Bool
  /-- Finished alternatives of the surrounding group, last first. -/
  alternatives : List Pattern
  /-- Pieces of the surrounding alternative, last first. -/
  pieces : List Pattern

/-- A pattern that is being read. -/
structure Reader where
  whole : List Char
  flags : Flags
  /-- Open groups, innermost first. -/
  groups : List OpenGroup
  /-- Finished alternatives, last first. -/
  alternatives : List Pattern
  /-- Pieces of the current alternative, last first. -/
  pieces : List Pattern
  /-- The text from the last repetition on, when nothing has come behind it. -/
  lastRepeat : List Char

namespace Reader

/-- Adds a piece. -/
def push (r : Reader) (p : Pattern) : Reader :=
  { r with pieces := p :: r.pieces, lastRepeat := [] }

/-- Adds a character. -/
def literal (r : Reader) (code : Nat) : Reader :=
  r.push (.char (CharClass.single code r.flags.fold))

/-- Pieces one after the other; they are given last first. -/
def sequence : List Pattern → Pattern
  | [] => .empty
  | [p] => p
  | p :: ps => .seq (sequence ps) p

/-- Alternatives; they are given last first. -/
def choice : List Pattern → Pattern
  | [] => .empty
  | [p] => p
  | p :: ps => .alt (choice ps) p

/-- The expression of the innermost open group. -/
def current (r : Reader) : Pattern := choice (sequence r.pieces :: r.alternatives)

/-- Starts the next alternative. -/
def bar (r : Reader) : Reader :=
  { r with alternatives := sequence r.pieces :: r.alternatives, pieces := [], lastRepeat := [] }

/-- Opens a group in which the given settings hold. -/
def openGroup (r : Reader) (captures : Bool) (inner : Flags) : Reader :=
  { r with
    flags := inner
    groups := ⟨r.flags, captures, r.alternatives, r.pieces⟩ :: r.groups
    alternatives := []
    pieces := []
    lastRepeat := [] }

/-- Closes the innermost group. -/
def closeGroup (r : Reader) : Except PatternError Reader :=
  match r.groups with
  | [] => .error (failAt .unexpectedParen r.whole)
  | g :: groups =>
    let inner := if g.captures then Pattern.group r.current else r.current
    .ok { r with
      flags := g.flags
      groups := groups
      alternatives := g.alternatives
      pieces := inner :: g.pieces
      lastRepeat := [] }

/-- Repeats the last piece; `before` is the text from the sign on, `after` what follows it. -/
def repeatLast (r : Reader) (min : Nat) (max : Option Nat) (counted : Bool)
    (before after : List Char) : Except PatternError (Reader × List Char) :=
  let after := match after with
    | '?' :: rest => rest
    | rest => rest
  if r.lastRepeat ≠ [] then .error (failBefore .nestedRepeat r.lastRepeat after)
  else
    match r.pieces with
    | [] => .error (failBefore .missingOperand before after)
    | p :: pieces =>
      let repeated := Pattern.rep min max p
      if counted && (2 ≤ min || max.any (2 ≤ ·)) && !repeated.fits 1000 then
        .error (failBefore .repeatCount before after)
      else .ok ({ r with pieces := repeated :: pieces, lastRepeat := before }, after)

end Reader

/-- Reads flags behind `(?`: the new settings, whether a group opens, and the rest; on failure
the rest behind the character that does not fit. -/
def readFlags (flags : Flags) (negative seen : Bool) :
    List Char → Except (List Char) (Flags × Bool × List Char)
  | [] => .error []
  | c :: t =>
    match c with
    | 'i' => readFlags { flags with fold := !negative } negative true t
    | 'm' => readFlags { flags with multiLine := !negative } negative true t
    | 's' => readFlags { flags with dotAll := !negative } negative true t
    | 'U' => readFlags flags negative true t
    | '-' => if negative then .error t else readFlags flags true false t
    | ':' => if negative && !seen then .error t else .ok (flags, true, t)
    | ')' => if negative && !seen then .error t else .ok (flags, false, t)
    | _ => .error t

/-- The name of a named group at the front of `s`: how long its opening is. -/
def namedGroupStart? (s : List Char) : Option Nat :=
  if ['(', '?', 'P', '<'].isPrefixOf s && 4 < s.length then some 4
  else if ['(', '?', '<'].isPrefixOf s && 3 < s.length then some 3
  else none

/-- Reads the opening of a group with a question mark. -/
def readSpecialGroup (r : Reader) (s : List Char) : Except PatternError (Reader × List Char) :=
  match namedGroupStart? s with
  | some skip =>
    match cutAt ['>'] s with
    | none => .error (failAt .groupName s)
    | some (_, rest) =>
      let opening := s.take (s.length - rest.length)
      let name := (opening.drop skip).dropLast
      if isGroupName name then .ok (r.openGroup true r.flags, rest)
      else .error (failAt .groupName opening)
  | none =>
    match readFlags r.flags false false (s.drop 2) with
    | .error rest => .error (failBefore .groupKind s rest)
    | .ok (flags, true, rest) => .ok (r.openGroup false flags, rest)
    | .ok (flags, false, rest) => .ok ({ r with flags := flags, lastRepeat := [] }, rest)

/-- Reads what stands behind a backslash. -/
def readBackslash (r : Reader) (s : List Char) : Except PatternError (Reader × List Char) :=
  match s.drop 1 with
  | 'A' :: t => .ok (r.push (.anchor .beginText), t)
  | 'b' :: t => .ok (r.push (.anchor .wordBoundary), t)
  | 'B' :: t => .ok (r.push (.anchor .noWordBoundary), t)
  | 'C' :: t => .error (failBefore .escape s t)
  | 'Q' :: t =>
    let (quoted, rest) := (cutAt ['\\', 'E'] t).getD (t, [])
    .ok (quoted.foldl (fun r c => r.literal c.toNat) { r with lastRepeat := [] }, rest)
  | 'z' :: t => .ok (r.push (.anchor .endText), t)
  | _ => do
    match ← readUnicodeClass r.flags.fold s with
    | some (item, t) => return (r.push (.char ⟨[item], false⟩), t)
    | none =>
      match readLetterClass r.flags.fold s with
      | some (item, t) => return (r.push (.char ⟨[item], false⟩), t)
      | none =>
        let (code, t) ← readEscape s
        return (r.literal code, t)

/-- Reads one piece; `s` is not empty. -/
def readPiece (r : Reader) (s : List Char) : Except PatternError (Reader × List Char) :=
  match s with
  | [] => .ok (r, [])
  | c :: t =>
    match c with
    | '(' =>
      if t.head? = some '?' then readSpecialGroup r s else .ok (r.openGroup true r.flags, t)
    | '|' => .ok (r.bar, t)
    | ')' => r.closeGroup.map fun r => (r, t)
    | '^' => .ok (r.push (.anchor (if r.flags.multiLine then .beginLine else .beginText)), t)
    | '$' => .ok (r.push (.anchor (if r.flags.multiLine then .endLine else .endText)), t)
    | '.' => .ok (r.push (.char (if r.flags.dotAll then CharClass.any else CharClass.notLF)), t)
    | '[' => do
      let (k, t) ← readClass r.flags.fold s
      return (r.push (.char k), t)
    | '*' => r.repeatLast 0 none false s t
    | '+' => r.repeatLast 1 none false s t
    | '?' => r.repeatLast 0 (some 1) false s t
    | '\x7b' =>
      match readBounds s with
      | none => .ok (r.literal c.toNat, t)
      | some (bounds, after) =>
        if bounds.sound then r.repeatLast bounds.min bounds.max true s after
        else .error (failBefore .repeatCount s after)
    | '\\' => readBackslash r s
    | _ => .ok (r.literal c.toNat, t)

/-- Reads pieces to the end of the text. -/
def readPieces : (fuel : Nat) → Reader → List Char → Except PatternError Reader
  | 0, r, _ => .ok r
  | _ + 1, r, [] => .ok r
  | fuel + 1, r, s =>
    match readPiece r s with
    | .error e => .error e
    | .ok (r, rest) => readPieces fuel r rest

/-- Reads a pattern. -/
def parse (s : String) : Except PatternError Pattern := do
  let whole := s.toList
  let r ← readPieces (whole.length + 1) ⟨whole, .start, [], [], [], []⟩ whole
  if r.groups ≠ [] then throw (failAt .missingParen whole)
  else if 1000 < r.current.height then throw (failAt .tooDeep whole)
  else return r.current

/-- The pattern of a text, if it is one. -/
def parse? (s : String) : Option Pattern := (parse s).toOption

end Pattern

end InstallerLint
