import InstallerLint.Numbers
import InstallerLint.Text.Quoted

/-!
# Words of a byte string

Reading 32-bit and 64-bit words out of bytes, rotations, the full product of two words, and
digests written in hexadecimal.
-/

namespace InstallerLint
namespace Hash

/-- Reads `n` bytes from position `i` on, the lowest byte first. -/
def readLE (a : Array UInt8) (i : Nat) : (n : Nat) → Nat
  | 0 => 0
  | n + 1 => (a.getD i 0).toNat + 256 * readLE a (i + 1) n

/-- The 32-bit word at a position, lowest byte first. -/
def read32 (a : Array UInt8) (i : Nat) : UInt32 := UInt32.ofNat (readLE a i 4)

/-- The 64-bit word at a position, lowest byte first. -/
def read64 (a : Array UInt8) (i : Nat) : UInt64 := UInt64.ofNat (readLE a i 8)

/-- Rotates a 64-bit word to the left. -/
def rotl64 (x : UInt64) (n : UInt64) : UInt64 := (x <<< n) ||| (x >>> (64 - n))

/-- Rotates a 32-bit word to the left. -/
def rotl32 (x : UInt32) (n : UInt32) : UInt32 := (x <<< n) ||| (x >>> (32 - n))

/-- Rotates a 32-bit word to the right. -/
def rotr32 (x : UInt32) (n : UInt32) : UInt32 := (x >>> n) ||| (x <<< (32 - n))

/-- The bytes of a 32-bit word in reverse. -/
def swap32 (x : UInt32) : UInt32 :=
  (x <<< (24 : UInt32)) ||| ((x &&& (0xFF00 : UInt32)) <<< (8 : UInt32))
    ||| ((x >>> (8 : UInt32)) &&& (0xFF00 : UInt32)) ||| (x >>> (24 : UInt32))

/-- The bytes of a 64-bit word in reverse. -/
def swap64 (x : UInt64) : UInt64 :=
  ((swap32 x.toUInt32).toUInt64 <<< 32) ||| (swap32 (x >>> 32).toUInt32).toUInt64

/-- The low and high half of a product. -/
def mul128 (a b : UInt64) : UInt64 × UInt64 :=
  let p := a.toNat * b.toNat
  (UInt64.ofNat (p % Numbers.words), UInt64.ofNat (p / Numbers.words))

/-- The halves of a product, folded into one word. -/
def mulFold (a b : UInt64) : UInt64 :=
  let (lo, hi) := mul128 a b
  lo ^^^ hi

/-- A 64-bit word in sixteen hexadecimal digits. -/
def hex64 (x : UInt64) : String := String.ofList (Quoted.hexWidth 16 x.toNat)

/-- A 32-bit word in eight hexadecimal digits. -/
def hex32 (x : UInt32) : String := String.ofList (Quoted.hexWidth 8 x.toNat)

end Hash
end InstallerLint
