import InstallerLint.Text.Bytes

/-!
# Bytes as text

Three bytes are written as four characters; at the end, one or two bytes are filled up with
equals signs.
-/

namespace InstallerLint
namespace Base64

/-- The value of a character. -/
def value (c : Char) : Nat :=
  if c.isUpper then c.toNat - 65
  else if c.isLower then c.toNat - 71
  else if c.isDigit then c.toNat + 4
  else if c = '+' then 62
  else 63

/-- The bytes of four characters. -/
def group (a b c d : Char) : Bytes :=
  let n := value a * 262144 + value b * 4096 + (if c = '=' then 0 else value c * 64)
    + (if d = '=' then 0 else value d)
  [UInt8.ofNat (n / 65536), UInt8.ofNat (n / 256), UInt8.ofNat n].take
    (if c = '=' then 1 else if d = '=' then 2 else 3)

/-- Reads bytes. -/
def decode : List Char → Bytes
  | a :: b :: c :: d :: rest => group a b c d ++ decode rest
  | _ => []

end Base64
end InstallerLint
