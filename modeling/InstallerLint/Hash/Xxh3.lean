import InstallerLint.Hash.Word
import InstallerLint.Text.Bytes

/-!
# XXH3

The 64-bit and 128-bit XXH3 digests with seed zero.  Short inputs are mixed by their length
class; long ones run through eight lanes in stripes of sixty-four bytes.
-/

namespace InstallerLint
namespace Hash
namespace Xxh3

/-- The default secret. -/
def secret : Array UInt8 := #[
  0xb8, 0xfe, 0x6c, 0x39, 0x23, 0xa4, 0x4b, 0xbe, 0x7c, 0x01, 0x81, 0x2c, 0xf7, 0x21, 0xad, 0x1c,
  0xde, 0xd4, 0x6d, 0xe9, 0x83, 0x90, 0x97, 0xdb, 0x72, 0x40, 0xa4, 0xa4, 0xb7, 0xb3, 0x67, 0x1f,
  0xcb, 0x79, 0xe6, 0x4e, 0xcc, 0xc0, 0xe5, 0x78, 0x82, 0x5a, 0xd0, 0x7d, 0xcc, 0xff, 0x72, 0x21,
  0xb8, 0x08, 0x46, 0x74, 0xf7, 0x43, 0x24, 0x8e, 0xe0, 0x35, 0x90, 0xe6, 0x81, 0x3a, 0x26, 0x4c,
  0x3c, 0x28, 0x52, 0xbb, 0x91, 0xc3, 0x00, 0xcb, 0x88, 0xd0, 0x65, 0x8b, 0x1b, 0x53, 0x2e, 0xa3,
  0x71, 0x64, 0x48, 0x97, 0xa2, 0x0d, 0xf9, 0x4e, 0x38, 0x19, 0xef, 0x46, 0xa9, 0xde, 0xac, 0xd8,
  0xa8, 0xfa, 0x76, 0x3f, 0xe3, 0x9c, 0x34, 0x3f, 0xf9, 0xdc, 0xbb, 0xc7, 0xc7, 0x0b, 0x4f, 0x1d,
  0x8a, 0x51, 0xe0, 0x4b, 0xcd, 0xb4, 0x59, 0x31, 0xc8, 0x9f, 0x7e, 0xc9, 0xd9, 0x78, 0x73, 0x64,
  0xea, 0xc5, 0xac, 0x83, 0x34, 0xd3, 0xeb, 0xc3, 0xc5, 0x81, 0xa0, 0xff, 0xfa, 0x13, 0x63, 0xeb,
  0x17, 0x0d, 0xdd, 0x51, 0xb7, 0xf0, 0xda, 0x49, 0xd3, 0x16, 0x55, 0x26, 0x29, 0xd4, 0x68, 0x9e,
  0x2b, 0x16, 0xbe, 0x58, 0x7d, 0x47, 0xa1, 0xfc, 0x8f, 0xf8, 0xb8, 0xd1, 0x7a, 0xd0, 0x31, 0xce,
  0x45, 0xcb, 0x3a, 0x8f, 0x95, 0x16, 0x04, 0x28, 0xaf, 0xd7, 0xfb, 0xca, 0xbb, 0x4b, 0x40, 0x7e]

/-- First 32-bit prime. -/
def p32a : UInt64 := 0x9E3779B1
/-- Second 32-bit prime. -/
def p32b : UInt64 := 0x85EBCA77
/-- Third 32-bit prime. -/
def p32c : UInt64 := 0xC2B2AE3D
/-- First 64-bit prime. -/
def p64a : UInt64 := 0x9E3779B185EBCA87
/-- Second 64-bit prime. -/
def p64b : UInt64 := 0xC2B2AE3D27D4EB4F
/-- Third 64-bit prime. -/
def p64c : UInt64 := 0x165667B19E3779F9
/-- Fourth 64-bit prime. -/
def p64d : UInt64 := 0x85EBCA77C2B2AE63
/-- Fifth 64-bit prime. -/
def p64e : UInt64 := 0x27D4EB2F165667C5
/-- First mixing constant. -/
def mixA : UInt64 := 0x165667919E3779F9
/-- Second mixing constant. -/
def mixB : UInt64 := 0x9FB21C651E98DF25

/-- A word of the secret. -/
def key64 (i : Nat) : UInt64 := read64 secret i

/-- A half word of the secret. -/
def key32 (i : Nat) : UInt64 := (read32 secret i).toUInt64

/-- A word mixed with itself, shifted to the right. -/
def xorshift (h n : UInt64) : UInt64 := h ^^^ (h >>> n)

/-- Final mixing of the shortest inputs. -/
def avalancheShort (h : UInt64) : UInt64 :=
  let h := xorshift h 33 * p64b
  let h := xorshift h 29 * p64c
  xorshift h 32

/-- Final mixing. -/
def avalanche (h : UInt64) : UInt64 := xorshift (xorshift h 37 * mixA) 32

/-- Mixes sixteen bytes with sixteen bytes of the secret. -/
def mix16 (m : Array UInt8) (i k : Nat) : UInt64 :=
  mulFold (read64 m i ^^^ key64 k) (read64 m (i + 8) ^^^ key64 (k + 8))

/-- One to three bytes as a word. -/
def packed (m : Array UInt8) : UInt64 :=
  let n := m.size
  ((m.getD 0 0).toUInt64 <<< 16) ||| ((m.getD (n / 2) 0).toUInt64 <<< 24)
    ||| (m.getD (n - 1) 0).toUInt64 ||| (UInt64.ofNat n <<< 8)

/-- The lanes of a long input. -/
abbrev Lanes := List UInt64

/-- The lanes before the first stripe. -/
def startLanes : Lanes := [p32c, p64a, p64b, p64c, p64d, p32b, p64e, p32a]

/-- Takes in one stripe. -/
def stripe (m : Array UInt8) (pos k : Nat) (acc : Lanes) : Lanes :=
  acc.mapIdx fun i a =>
    let other := if i % 2 = 0 then i + 1 else i - 1
    let key := read64 m (pos + 8 * i) ^^^ key64 (k + 8 * i)
    a + read64 m (pos + 8 * other) + (key &&& (0xFFFFFFFF : UInt64)) * (key >>> 32)

/-- Mixes the lanes after a block. -/
def scramble (acc : Lanes) : Lanes :=
  acc.mapIdx fun i a => (xorshift a 47 ^^^ key64 (128 + 8 * i)) * p32a

/-- Takes in `n` stripes of the block at a position. -/
def stripes (m : Array UInt8) (pos n : Nat) (acc : Lanes) : Lanes :=
  (List.range n).foldl (fun acc i => stripe m (pos + 64 * i) (8 * i) acc) acc

/-- The lanes after a whole long input. -/
def lanes (m : Array UInt8) : Lanes :=
  let blocks := (m.size - 1) / 1024
  let acc := (List.range blocks).foldl
    (fun acc b => scramble (stripes m (1024 * b) 16 acc)) startLanes
  let acc := stripes m (1024 * blocks) ((m.size - 1 - 1024 * blocks) / 64) acc
  stripe m (m.size - 64) 121 acc

/-- Folds pairs of lanes into a word. -/
def mergePairs (k : Nat) : Lanes → UInt64
  | a :: b :: rest => mulFold (a ^^^ key64 k) (b ^^^ key64 (k + 8)) + mergePairs (k + 16) rest
  | _ => 0

/-- Folds the lanes into a digest. -/
def mergeLanes (acc : Lanes) (k : Nat) (start : UInt64) : UInt64 :=
  avalanche (start + mergePairs k acc)

/-- The sum over a list of words. -/
def total (l : List UInt64) : UInt64 := l.foldl (· + ·) 0

/-- The 64-bit digest. -/
def digest64 (m : Array UInt8) : UInt64 :=
  let n := m.size
  let len := UInt64.ofNat n
  if n = 0 then avalancheShort (key64 56 ^^^ key64 64)
  else if n ≤ 3 then avalancheShort (packed m ^^^ (key32 0 ^^^ key32 4))
  else if n ≤ 8 then
    let word := (read32 m (n - 4)).toUInt64 + ((read32 m 0).toUInt64 <<< 32)
    let h := word ^^^ (key64 8 ^^^ key64 16)
    let h := (h ^^^ rotl64 h 49 ^^^ rotl64 h 24) * mixB
    let h := (h ^^^ ((h >>> 35) + len)) * mixB
    xorshift h 28
  else if n ≤ 16 then
    let lo := read64 m 0 ^^^ (key64 24 ^^^ key64 32)
    let hi := read64 m (n - 8) ^^^ (key64 40 ^^^ key64 48)
    avalanche (len + swap64 lo + hi + mulFold lo hi)
  else if n ≤ 128 then
    let pairs := (List.range ((n - 1) / 32 + 1)).map fun i =>
      mix16 m (16 * i) (32 * i) + mix16 m (n - 16 * (i + 1)) (32 * i + 16)
    avalanche (len * p64a + total pairs)
  else if n ≤ 240 then
    let front := total ((List.range 8).map fun i => mix16 m (16 * i) (16 * i))
    let back := total ((List.range (n / 16 - 8)).map fun i => mix16 m (16 * (i + 8)) (16 * i + 3))
    avalanche (avalanche (len * p64a + front) + mix16 m (n - 16) 119 + back)
  else mergeLanes (lanes m) 11 (len * p64a)

/-- Mixes two runs of sixteen bytes into a pair of words. -/
def mix32 (m : Array UInt8) (acc : UInt64 × UInt64) (i j k : Nat) : UInt64 × UInt64 :=
  ((acc.1 + mix16 m i k) ^^^ (read64 m j + read64 m (j + 8)),
    (acc.2 + mix16 m j (k + 16)) ^^^ (read64 m i + read64 m (i + 8)))

/-- The last step for inputs of middle length. -/
def finish (len : UInt64) (acc : UInt64 × UInt64) : UInt64 × UInt64 :=
  (avalanche (acc.1 + acc.2),
    0 - avalanche (acc.1 * p64a + acc.2 * p64d + len * p64b))

/-- The 128-bit digest as its low and high word. -/
def digest128 (m : Array UInt8) : UInt64 × UInt64 :=
  let n := m.size
  let len := UInt64.ofNat n
  if n = 0 then
    (avalancheShort (key64 64 ^^^ key64 72), avalancheShort (key64 80 ^^^ key64 88))
  else if n ≤ 3 then
    let lo := packed m
    let hi := (rotl32 (swap32 lo.toUInt32) 13).toUInt64
    (avalancheShort (lo ^^^ (key32 0 ^^^ key32 4)), avalancheShort (hi ^^^ (key32 8 ^^^ key32 12)))
  else if n ≤ 8 then
    let word := (read32 m 0).toUInt64 + ((read32 m (n - 4)).toUInt64 <<< 32)
    let (lo, hi) := mul128 (word ^^^ (key64 16 ^^^ key64 24)) (p64a + (len <<< 2))
    let hi := hi + (lo <<< 1)
    let lo := lo ^^^ (hi >>> 3)
    let lo := xorshift (xorshift lo 35 * mixB) 28
    (lo, avalanche hi)
  else if n ≤ 16 then
    let a := read64 m 0
    let b := read64 m (n - 8)
    let (lo, hi) := mul128 (a ^^^ b ^^^ (key64 32 ^^^ key64 40)) p64a
    let lo := lo + ((len - 1) <<< 54)
    let b := b ^^^ (key64 48 ^^^ key64 56)
    let hi := hi + b + (b &&& (0xFFFFFFFF : UInt64)) * (p32b - 1)
    let lo := lo ^^^ swap64 hi
    let (lo', hi') := mul128 lo p64b
    (avalanche lo', avalanche (hi' + hi * p64b))
  else if n ≤ 128 then
    let steps := (List.range ((n - 1) / 32 + 1)).reverse
    finish len <| steps.foldl
      (fun acc i => mix32 m acc (16 * i) (n - 16 * (i + 1)) (32 * i)) (len * p64a, 0)
  else if n ≤ 240 then
    let front := (List.range 4).foldl
      (fun acc i => mix32 m acc (32 * i) (32 * i + 16) (32 * i)) (len * p64a, 0)
    let back := (List.range (n / 32 - 4)).foldl
      (fun acc i => mix32 m acc (32 * i + 128) (32 * i + 144) (32 * i + 3))
      (avalanche front.1, avalanche front.2)
    finish len (mix32 m back (n - 16) (n - 32) 103)
  else
    let acc := lanes m
    (mergeLanes acc 11 (len * p64a),
      mergeLanes acc 117 ((len * p64b) ^^^ 0xFFFFFFFFFFFFFFFF))

end Xxh3

/-- The 64-bit XXH3 digest in sixteen hexadecimal digits. -/
def xxh64 (s : Bytes) : String := hex64 (Xxh3.digest64 s.toArray)

/-- The 64-bit hash in hexadecimal without leading zeros. -/
def xxh64Short (s : Bytes) : String :=
  match (xxh64 s).toList.dropWhile (· = '0') with
  | [] => "0"
  | cs => String.ofList cs

/-- The 128-bit XXH3 digest in thirty-two hexadecimal digits, high word first. -/
def xxh128 (s : Bytes) : String :=
  let (lo, hi) := Xxh3.digest128 s.toArray
  hex64 hi ++ hex64 lo

end Hash
end InstallerLint
