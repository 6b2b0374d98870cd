import InstallerLint.Json.Basic
import InstallerLint.Text.Quoted
import InstallerLint.Text.Bytes

/-!
# Reading JSON

A reader for one JSON value.  It stops at the first character that cannot go on, and says what
it expected there.
-/

namespace InstallerLint
namespace Json

/-- Why a text is not JSON. -/
inductive SyntaxError where
  /-- The text ended inside of a value. -/
  | unexpectedEnd
  /-- A character that cannot stand where it does. -/
  | invalidChar (c : Char) (context : String)
  | tooDeep
  deriving Repr, DecidableEq

/-- A character between single quotes. -/
def quotedChar (c : Char) : String :=
  match c with
  | '\'' => "'\\''"
  | '"' => "'\"'"
  | _ =>
    let byte := match (String.utf8EncodeChar c).head? with
      | some b => Char.ofNat b.toNat
      | none => c
    "'" ++ String.ofList (Quoted.escape byte) ++ "'"

/-- The wording of an error. -/
def SyntaxError.message : SyntaxError → String
  | .unexpectedEnd => "unexpected end of JSON input"
  | .invalidChar c context => "invalid character " ++ quotedChar c ++ " " ++ context
  | .tooDeep => "exceeded max depth"

/-- Blanks between values. -/
def isSpace (c : Char) : Bool := c == ' ' || c == '\t' || c == '\n' || c == '\r'

/-- Drops blanks. -/
def skip (cs : List Char) : List Char := cs.dropWhile isSpace

/-- Whether a character is a hexadecimal digit. -/
def isHex (c : Char) : Bool :=
  c.isDigit || ('a' ≤ c && c ≤ 'f') || ('A' ≤ c && c ≤ 'F')

/-- Reads exactly `n` hexadecimal digits. -/
def readHex : Nat → Nat → List Char → Except SyntaxError (Nat × List Char)
  | 0, value, cs => .ok (value, cs)
  | _ + 1, _, [] => .error .unexpectedEnd
  | n + 1, value, c :: cs =>
    if isHex c then readHex n (value * 16 + Ranges.hexDigit c) cs
    else .error (.invalidChar c "in \\u hexadecimal character escape")

/-- One unit of a text: a finished character, or half of a pair. -/
inductive Unit16 where
  | char (c : Char)
  /-- The first half of a pair. -/
  | high (n : Nat)
  /-- The second half of a pair. -/
  | low (n : Nat)

/-- The unit of a code. -/
def Unit16.ofCode (n : Nat) : Unit16 :=
  if 0xD800 ≤ n && n < 0xDC00 then .high n
  else if 0xDC00 ≤ n && n < 0xE000 then .low n
  else .char (Char.ofNat n)

/-- Joins the halves of pairs; a half on its own becomes U+FFFD. -/
def joinUnits : List Unit16 → List Char
  | [] => []
  | .char c :: rest => c :: joinUnits rest
  | .high h :: .low l :: rest =>
    Char.ofNat (0x10000 + (h - 0xD800) * 0x400 + (l - 0xDC00)) :: joinUnits rest
  | .high _ :: rest => '\uFFFD' :: joinUnits rest
  | .low _ :: rest => '\uFFFD' :: joinUnits rest

/-- The character behind a one-letter escape. -/
def simpleEscape? (c : Char) : Option Char :=
  match c with
  | '"' => some '"'
  | '\\' => some '\\'
  | '/' => some '/'
  | 'b' => some (Char.ofNat 8)
  | 'f' => some (Char.ofNat 12)
  | 'n' => some '\n'
  | 'r' => some '\r'
  | 't' => some '\t'
  | _ => none

/-- Reads the rest of a text after its opening quote; `fuel` bounds its units. -/
def readUnits : (fuel : Nat) → List Char → Except SyntaxError (List Unit16 × List Char)
  | 0, _ => .error .unexpectedEnd
  | _ + 1, [] => .error .unexpectedEnd
  | fuel + 1, c :: cs =>
    if c = '"' then .ok ([], cs)
    else if c = '\\' then
      match cs with
      | [] => .error .unexpectedEnd
      | 'u' :: cs => do
        let (n, cs) ← readHex 4 0 cs
        let (units, cs) ← readUnits fuel cs
        return (Unit16.ofCode n :: units, cs)
      | e :: cs =>
        match simpleEscape? e with
        | some c => do
          let (units, cs) ← readUnits fuel cs
          return (.char c :: units, cs)
        | none => .error (.invalidChar e "in string escape code")
    else if c.toNat < 0x20 then .error (.invalidChar c "in string literal")
    else do
      let (units, cs) ← readUnits fuel cs
      return (.char c :: units, cs)

/-- Reads a text after its opening quote. -/
def readText (cs : List Char) : Except SyntaxError (String × List Char) := do
  let (units, cs) ← readUnits (cs.length + 1) cs
  return (String.ofList (joinUnits units), cs)

/-- Reads the letters of a word such as `true`. -/
def readWord (word : String) : List Char → List Char → Except SyntaxError (List Char)
  | [], cs => .ok cs
  | _ :: _, [] => .error .unexpectedEnd
  | w :: ws, c :: cs =>
    if w = c then readWord word ws cs
    else .error (.invalidChar c
      ("in literal " ++ word ++ " (expecting " ++ quotedChar w ++ ")"))

/-- Reads one or more digits. -/
def readDigits (context : String) (cs : List Char) : Except SyntaxError (List Char × List Char) :=
  match cs.span Char.isDigit with
  | ([], []) => .error .unexpectedEnd
  | ([], c :: _) => .error (.invalidChar c context)
  | found => .ok found

/-- Reads the fraction of a number. -/
def readFraction : List Char → Except SyntaxError (List Char × List Char)
  | '.' :: cs => do
    let (ds, cs) ← readDigits "after decimal point in numeric literal" cs
    return ('.' :: ds, cs)
  | cs => .ok ([], cs)

/-- Reads the exponent of a number. -/
def readExponent (cs : List Char) : Except SyntaxError (List Char × List Char) :=
  match cs with
  | e :: rest =>
    if e = 'e' || e = 'E' then
      match rest with
      | s :: rest' =>
        if s = '+' || s = '-' then do
          let (ds, cs) ← readDigits "in exponent of numeric literal" rest'
          return (e :: s :: ds, cs)
        else do
          let (ds, cs) ← readDigits "in exponent of numeric literal" rest
          return (e :: ds, cs)
      | [] => .error .unexpectedEnd
    else .ok ([], cs)
  | [] => .ok ([], [])

/-- Reads the whole part of a number: a zero, or digits that do not start with one. -/
def readWhole (cs : List Char) : Except SyntaxError (List Char × List Char) :=
  match cs with
  | '0' :: cs => .ok (['0'], cs)
  | cs => readDigits "in numeric literal" cs

/-- Reads a number. -/
def readNumber (cs : List Char) : Except SyntaxError (Json × List Char) := do
  let (sign, cs) := match cs with
    | '-' :: cs => (['-'], cs)
    | cs => ([], cs)
  let (whole, cs) ← readWhole cs
  let (fraction, cs) ← readFraction cs
  let (exponent, cs) ← readExponent cs
  return (.num (String.ofList (sign ++ whole ++ fraction ++ exponent)), cs)

mutual
/-- Reads a value; `fuel` bounds the number of steps. -/
def readValue : (fuel : Nat) → List Char → Except SyntaxError (Json × List Char)
  | 0, _ => .error .tooDeep
  | fuel + 1, cs =>
    match skip cs with
    | [] => .error .unexpectedEnd
    | c :: rest =>
      if c = '"' then do
        let (s, cs) ← readText rest
        return (.str s, cs)
      else if c = '[' then
        match skip rest with
        | ']' :: cs => .ok (.arr [], cs)
        | cs => do
          let (items, cs) ← readItems fuel cs
          return (.arr items, cs)
      else if c = '\x7b' then
        match skip rest with
        | '\x7d' :: cs => .ok (.obj [], cs)
        | cs => do
          let (members, cs) ← readMembers fuel cs
          return (.obj members, cs)
      else if c = 't' then (readWord "true" ['r', 'u', 'e'] rest).map (.bool true, ·)
      else if c = 'f' then (readWord "false" ['a', 'l', 's', 'e'] rest).map (.bool false, ·)
      else if c = 'n' then (readWord "null" ['u', 'l', 'l'] rest).map (.null, ·)
      else if c = '-' || c.isDigit then readNumber (c :: rest)
      else .error (.invalidChar c "looking for beginning of value")

/-- Reads the items of a list up to its closing bracket. -/
def readItems : (fuel : Nat) → List Char → Except SyntaxError (List Json × List Char)
  | 0, _ => .error .tooDeep
  | fuel + 1, cs => do
    let (j, cs) ← readValue fuel cs
    match skip cs with
    | [] => throw .unexpectedEnd
    | ',' :: cs =>
      let (items, cs) ← readItems fuel cs
      return (j :: items, cs)
    | ']' :: cs => return ([j], cs)
    | c :: _ => throw (.invalidChar c "after array element")

/-- Reads the members of an object up to its closing brace. -/
def readMembers : (fuel : Nat) → List Char → Except SyntaxError (List (String × Json) × List Char)
  | 0, _ => .error .tooDeep
  | fuel + 1, cs =>
    match skip cs with
    | [] => .error .unexpectedEnd
    | '"' :: cs => do
      let (name, cs) ← readText cs
      match skip cs with
      | [] => throw .unexpectedEnd
      | ':' :: cs =>
        let (j, cs) ← readValue fuel cs
        match skip cs with
        | [] => throw .unexpectedEnd
        | ',' :: cs =>
          let (members, cs) ← readMembers fuel cs
          return ((name, j) :: members, cs)
        | '\x7d' :: cs => return ([(name, j)], cs)
        | c :: _ => throw (.invalidChar c "after object key:value pair")
      | c :: _ => throw (.invalidChar c "after object key")
    | c :: _ => .error (.invalidChar c "looking for beginning of object key string")
end

/-- Reads a text that holds one value. -/
def parse (cs : List Char) : Except SyntaxError Json := do
  let (j, rest) ← readValue (2 * cs.length + 2) cs
  match skip rest with
  | [] => return j
  | c :: _ => throw (.invalidChar c "after top-level value")

/-- Reads the content of a file. -/
def parseBytes (s : Bytes) : Except SyntaxError Json := parse s.toText.toList

end Json
end InstallerLint
