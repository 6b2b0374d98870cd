import InstallerLint.Text.Blank
import InstallerLint.Text.Bytes
import InstallerLint.Text.Category
import InstallerLint.Text.Find
import InstallerLint.Text.Quoted

/-!
# Files of variables

A file of variables holds statements `NAME=value`, one after the other.

**Values.**  A value without quotes ends with its line, or before a comment that follows a blank.
In double quotes a value may span lines and has escapes; in single quotes it is taken as it is.
Outside single quotes `$NAME` stands for an earlier variable of the same file.
-/

namespace InstallerLint
namespace EnvFile

/-- A blank that ends no line. -/
def isGap (c : Char) : Bool :=
  ['\t', Char.ofNat 11, Char.ofNat 12, '\r', ' ', Char.ofNat 0x85, Char.ofNat 0xA0].contains c

/-- An end of a line. -/
def isEnd (c : Char) : Bool := c = '\n' || c = '\r'

/-- The numbers among characters. -/
def numbers : Ranges := (Category.find? "N").getD []

/-- Whether a byte, read as a character, may stand in a name. -/
def isNameByte (b : UInt8) : Bool :=
  let c := Char.ofNat b.toNat
  isGap c || c = '_' || c = '.' || Category.letter.has c || numbers.has c

/-- The first byte of a character that may not stand in a name. -/
def badByte? (c : Char) : Option UInt8 :=
  (Bytes.ofString (String.singleton c)).find? fun b => !isNameByte b

/-- The name before `=` or `:` and what follows it; none when neither comes.  An error is the byte
that may not stand in a name. -/
def nameEnd : (name : List Char) → List Char → Except UInt8 (Option (List Char × List Char))
  | _, [] => .ok none
  | name, c :: cs =>
    if c = '=' || c = ':' then .ok (some (name.reverse, cs))
    else
      match badByte? c with
      | some b => .error b
      | none => nameEnd (c :: name) cs

/-- What follows blanks and whole comments. -/
def toStatement : (fuel : Nat) → List Char → List Char
  | 0, cs => cs
  | fuel + 1, cs =>
    match cs.dropWhile Blank.isBlank with
    | '#' :: rest => toStatement fuel (rest.dropWhile (· ≠ '\n'))
    | rest => rest

/-- A statement without the word that exports it. -/
def dropExport (cs : List Char) : List Char :=
  match Find.after? "export".toList cs with
  | some (c :: rest) => if isGap c then rest.dropWhile isGap else cs
  | _ => cs

/-- A character of the name of a variable that is referred to. -/
def isReferenceChar (c : Char) : Bool := ('A' ≤ c && c ≤ 'Z') || c.isDigit || c = '_'

/-- Takes one given character off the front. -/
def takeChar (c : Char) (cs : List Char) : List Char × List Char :=
  match cs with
  | d :: rest => if d = c then ([d], rest) else ([], cs)
  | [] => ([], [])

/-- What stands behind a dollar sign: its text, the name in it, and the rest. -/
def reference (cs : List Char) : List Char × List Char × List Char :=
  let (paren, cs) := takeChar '(' cs
  let (opening, cs) := takeChar '\x7b' cs
  let name := cs.takeWhile isReferenceChar
  let (closing, rest) := takeChar '\x7d' (cs.dropWhile isReferenceChar)
  (paren ++ opening ++ name ++ closing, name, rest)

/-- Replaces references by the values of variables; a backslash keeps one as it is. -/
def expand (vars : List (String × String)) : (fuel : Nat) → List Char → List Char
  | 0, cs => cs
  | _, [] => []
  | fuel + 1, '\\' :: '$' :: cs =>
    let (body, _, rest) := reference cs
    '$' :: (body ++ expand vars fuel rest)
  | fuel + 1, '$' :: cs =>
    let (body, name, rest) := reference cs
    let value := if name.isEmpty then '$' :: body
      else ((vars.lookup (String.ofList name)).getD "").toList
    value ++ expand vars fuel rest
  | fuel + 1, c :: cs => c :: expand vars fuel cs

/-- Replaces the escapes of line ends. -/
def unescapeEnds : List Char → List Char
  | '\\' :: 'n' :: cs => '\n' :: unescapeEnds cs
  | '\\' :: 'r' :: cs => '\r' :: unescapeEnds cs
  | '\\' :: '\n' :: cs => '\\' :: '\n' :: unescapeEnds cs
  | '\\' :: c :: cs => '\\' :: c :: unescapeEnds cs
  | c :: cs => c :: unescapeEnds cs
  | [] => []

/-- Removes the backslashes that stand before other characters than a dollar sign. -/
def unescape : List Char → List Char
  | '\\' :: '$' :: cs => '\\' :: '$' :: unescape cs
  | '\\' :: c :: cs => c :: unescape cs
  | c :: cs => c :: unescape cs
  | [] => []

/-- The last place of a comment that follows a blank. -/
def commentStart? (cs : List Char) : Option Nat :=
  ((List.range cs.length).reverse).find? fun i =>
    0 < i && cs[i]? = some '#' && (cs[i - 1]?).any isGap

/-- A value without quotes, and what follows it. -/
def plainValue (vars : List (String × String)) (cs : List Char) : String × List Char :=
  let line := cs.takeWhile fun c => !isEnd c
  let line' := line.take ((commentStart? line).getD line.length)
  let trimmed := Blank.trimBy isGap line'
  (String.ofList (expand vars (trimmed.length + 1) trimmed), cs.drop line.length)

/-- What stands before the closing quote, and what follows it. -/
def closeQuote? (quote : Char) : (last : Char) → List Char → Option (List Char × List Char)
  | _, [] => none
  | last, c :: cs =>
    if c = quote && last ≠ '\\' then some ([], cs)
    else (closeQuote? quote c cs).map fun (inner, rest) => (c :: inner, rest)

/-- A value, and what follows it; an error is its wording. -/
def value (vars : List (String × String)) (cs : List Char) : Except String (String × List Char) :=
  match cs with
  | q :: rest =>
    if q = '"' || q = '\'' then
      match closeQuote? q q rest with
      | none => .error ("unterminated quoted value " ++ String.ofList (cs.takeWhile (· ≠ '\n')))
      | some (inner, rest) =>
        let inner := Blank.trimBy (· = q) inner
        let plain := if q = '"' then
            let text := unescape (unescapeEnds inner)
            expand vars (text.length + 1) text
          else inner
        .ok (String.ofList plain, rest)
    else .ok (plainValue vars cs)
  | [] => .ok ("", [])

/-- One statement: the name, the value and what follows. -/
def statement (vars : List (String × String)) (cs : List Char) :
    Except String ((String × String) × List Char) := do
  let cs := dropExport (cs.dropWhile isGap)
  match nameEnd [] cs with
  | .error b => .error ("unexpected character " ++ Quoted.quote (String.singleton (Char.ofNat b.toNat))
      ++ " in variable name near " ++ Quoted.quote (String.ofList cs))
  | .ok found =>
    if cs.isEmpty then .error "zero length string"
    else
      let (name, rest) := found.getD ([], cs)
      let (v, rest) ← value vars (rest.dropWhile isGap)
      return ((String.ofList (Blank.dropEndWhile Blank.isBlank name), v), rest)

/-- All statements, the last first. -/
def statements : (fuel : Nat) → List (String × String) → List Char →
    Except String (List (String × String))
  | 0, vars, _ => .ok vars
  | fuel + 1, vars, cs =>
    match toStatement cs.length cs with
    | [] => .ok vars
    | cs => do
      let (v, rest) ← statement vars cs
      statements fuel (v :: vars) rest

/-- The variables of a file; of two with one name the one that stands first in the list counts. -/
def parse (source : Bytes) : Except String (List (String × String)) :=
  let text := Find.replaceAll source.toText "\r\n" "\n"
  statements (text.length + 1) [] text.toList

end EnvFile
end InstallerLint
