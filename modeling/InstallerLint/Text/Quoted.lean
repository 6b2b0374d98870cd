import InstallerLint.Text.Bytes
import InstallerLint.Text.Category

/-!
# Quoted text

A text between double quotes, in which quotes, backslashes and characters that do not print are
written as escapes.
-/

namespace InstallerLint
namespace Quoted

/-- A hexadecimal digit in lower case. -/
def hexChar (n : Nat) : Char :=
  if n % 16 < 10 then Char.ofNat ('0'.toNat + n % 16) else Char.ofNat ('a'.toNat + n % 16 - 10)

/-- A number in exactly `width` hexadecimal digits. -/
def hexWidth : (width n : Nat) → List Char
  | 0, _ => []
  | w + 1, n => hexWidth w (n / 16) ++ [hexChar n]

/-- How one character is written. -/
def escape (c : Char) : List Char :=
  match c with
  | '"' => ['\\', '"']
  | '\\' => ['\\', '\\']
  | '\n' => ['\\', 'n']
  | '\r' => ['\\', 'r']
  | '\t' => ['\\', 't']
  | _ =>
    if Category.isPrint c then [c]
    else if c.toNat = 7 then ['\\', 'a']
    else if c.toNat = 8 then ['\\', 'b']
    else if c.toNat = 11 then ['\\', 'v']
    else if c.toNat = 12 then ['\\', 'f']
    else if c.toNat < 0x20 || c.toNat = 0x7F then '\\' :: 'x' :: hexWidth 2 c.toNat
    else if c.toNat < 0x10000 then '\\' :: 'u' :: hexWidth 4 c.toNat
    else '\\' :: 'U' :: hexWidth 8 c.toNat

/-- The text between quotes. -/
def quote (s : String) : String :=
  String.ofList ('"' :: (s.toList.flatMap escape ++ ['"']))

end Quoted

/-!
## Reading quoted texts

A quoted text stands between double quotes with escapes, between backticks as it is, or is one
character between apostrophes.  An escape can name a byte, so the meaning is a list of bytes.
-/

namespace Quoted

/-- The value of a digit in some base. -/
def digit? (base : Nat) (c : Char) : Option Nat :=
  let n :=
    if c.isDigit then c.toNat - 48
    else if 'a' ≤ c && c ≤ 'f' then c.toNat - 87
    else if 'A' ≤ c && c ≤ 'F' then c.toNat - 55
    else base
  if n < base then some n else none

/-- Reads a number of exactly `width` digits. -/
def number? (base : Nat) : (width value : Nat) → List Char → Option (Nat × List Char)
  | 0, value, cs => some (value, cs)
  | _ + 1, _, [] => none
  | width + 1, value, c :: cs =>
    (digit? base c).bind fun n => number? base width (value * base + n) cs

/-- The bytes of a character given by its number. -/
def codePoint? (n : Nat) : Option Bytes :=
  if n.isValidChar then some (Bytes.ofString (String.ofList [Char.ofNat n])) else none

/-- Escapes of a single letter. -/
def letterEscapes : List (Char × Nat) := [
  ('a', 7), ('b', 8), ('f', 12), ('n', 10), ('r', 13), ('t', 9), ('v', 11), ('\\', 92)]

/-- What an escape means, after its backslash, inside the given quotes. -/
def escape? (quote : Char) : List Char → Option (Bytes × List Char)
  | [] => none
  | 'x' :: cs => (number? 16 2 0 cs).map fun (n, rest) => ([UInt8.ofNat n], rest)
  | 'u' :: cs => (number? 16 4 0 cs).bind fun (n, rest) => (codePoint? n).map fun b => (b, rest)
  | 'U' :: cs => (number? 16 8 0 cs).bind fun (n, rest) => (codePoint? n).map fun b => (b, rest)
  | c :: cs =>
    match letterEscapes.lookup c with
    | some n => some ([UInt8.ofNat n], cs)
    | none =>
      if c = quote then some (Bytes.ofString (String.ofList [c]), cs)
      else (number? 8 3 0 (c :: cs)).bind fun (n, rest) =>
        if n < 256 then some ([UInt8.ofNat n], rest) else none

/-- Reads up to the closing quote, which ends the text. -/
def inside? (quote : Char) : (fuel : Nat) → List Char → Option (List Bytes)
  | 0, _ => none
  | _ + 1, [] => none
  | fuel + 1, c :: cs =>
    if c = quote then if cs.isEmpty then some [] else none
    else if c = '\n' then none
    else if c = '\\' then
      (escape? quote cs).bind fun (b, rest) => (inside? quote fuel rest).map (b :: ·)
    else (inside? quote fuel cs).map (Bytes.ofString (String.ofList [c]) :: ·)

/-- The meaning of a quoted text; `none` when it is not quoted. -/
def unquote? (s : String) : Option Bytes :=
  match s.toList with
  | '"' :: cs => (inside? '"' (cs.length + 1) cs).map List.flatten
  | '\'' :: cs => (inside? '\'' (cs.length + 1) cs).bind fun l =>
      match l with
      | [b] => some b
      | _ => none
  | '\x60' :: cs =>
    if cs.getLast? = some '\x60' && !(cs.dropLast.contains '\x60') then
      some (Bytes.ofString (String.ofList (cs.dropLast.filter (· ≠ '\r'))))
    else none
  | _ => none

end Quoted
end InstallerLint
