import InstallerLint.Text.Bytes
import InstallerLint.Yaml.Fault

/-!
# Characters of a YAML text

Decodes the bytes of a text, which may be UTF-8 or marked UTF-16, and names the classes of
characters that the form of a text depends on.
-/

namespace InstallerLint
namespace Yaml

/-- A character that may stand in a text. -/
def isAllowed (c : Char) : Bool :=
  let n := c.toNat
  n == 0x09 || n == 0x0A || n == 0x0D || (0x20 ≤ n && n ≤ 0x7E) || n == 0x85
    || (0xA0 ≤ n && n ≤ 0xD7FF) || (0xE000 ≤ n && n ≤ 0xFFFD) || 0x10000 ≤ n

/-- A space or a tab. -/
def isBlank (c : Char) : Bool := c = ' ' || c = '\t'

/-- A character that ends a line. -/
def isBreak (c : Char) : Bool :=
  c = '\n' || c = '\r' || c.toNat == 0x85 || c.toNat == 0x2028 || c.toNat == 0x2029

/-- A blank, the end of a line or of the text. -/
def isGap : List Char → Bool
  | [] => true
  | c :: _ => isBlank c || isBreak c

/-- A character of anchor names and tag handles. -/
def isWord (c : Char) : Bool := c.isAlphanum || c = '_' || c = '-'

/-- A character of tags. -/
def isUri (c : Char) : Bool := isWord c || ";/?:@&=+$,.!~*'()[]%".toList.contains c

/-- The value of a hexadecimal digit. -/
def hexValue? (c : Char) : Option Nat :=
  if c.isDigit then some (c.toNat - '0'.toNat)
  else if 'a' ≤ c && c ≤ 'f' then some (c.toNat - 'a'.toNat + 10)
  else if 'A' ≤ c && c ≤ 'F' then some (c.toNat - 'A'.toNat + 10)
  else none

/-- Whether a document marker stands at the front: three dashes or dots and a gap. -/
def isMarker : List Char → Bool
  | '-' :: '-' :: '-' :: rest => isGap rest
  | '.' :: '.' :: '.' :: rest => isGap rest
  | _ => false

/-- What is wrong with bytes that start no character. -/
def strayProblem : Bytes → Problem
  | [] => .incompleteChar
  | b :: rest =>
    let width := if 0xC0 ≤ b && b ≤ 0xDF then 2 else if 0xE0 ≤ b && b ≤ 0xEF then 3
      else if 0xF0 ≤ b && b ≤ 0xF7 then 4 else 0
    if width = 0 then .leadingByte
    else if rest.length + 1 < width then .incompleteChar
    else .trailingByte

/-- The characters of UTF-8 bytes, `skip` bytes of the last one still to pass. -/
def utf8 : (skip : Nat) → Bytes → Except Problem (List Char)
  | _, [] => .ok []
  | k + 1, _ :: rest => utf8 k rest
  | 0, b :: rest =>
    match Bytes.headChar? (b :: rest) with
    | none => .error (strayProblem (b :: rest))
    | some (c, n) =>
      if isAllowed c then (utf8 (n - 1) rest).map (c :: ·) else .error .controlChar

/-- The characters of UTF-16 units. -/
def utf16 : List Nat → Except Problem (List Char)
  | [] => .ok []
  | unit :: rest =>
    if 0xD800 ≤ unit && unit < 0xDC00 then
      match rest with
      | low :: rest =>
        if 0xDC00 ≤ low && low < 0xE000 then
          (utf16 rest).map (Char.ofNat (0x10000 + (unit - 0xD800) * 0x400 + (low - 0xDC00)) :: ·)
        else .error .surrogate
      | [] => .error .incompleteChar
    else if 0xDC00 ≤ unit && unit < 0xE000 then .error .surrogate
    else
      let c := Char.ofNat unit
      if isAllowed c then (utf16 rest).map (c :: ·) else .error .controlChar

/-- The units of bytes in pairs; the flag tells whether the low byte comes first. -/
def units (lowFirst : Bool) : Bytes → List Nat
  | a :: b :: rest =>
    (if lowFirst then a.toNat + b.toNat * 256 else a.toNat * 256 + b.toNat) :: units lowFirst rest
  | _ => []

/-- The characters of a text; a mark at its start tells how it is encoded. -/
def decodeChars : Bytes → Except Problem (List Char)
  | 0xFF :: 0xFE :: rest => utf16 (units true rest)
  | 0xFE :: 0xFF :: rest => utf16 (units false rest)
  | 0xEF :: 0xBB :: 0xBF :: rest => utf8 0 rest
  | bytes => utf8 0 bytes

end Yaml
end InstallerLint
