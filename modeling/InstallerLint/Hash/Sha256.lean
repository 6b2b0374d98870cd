import InstallerLint.Hash.Word
import InstallerLint.Numbers
import InstallerLint.Text.Bytes

/-!
# SHA-256

The digest of a byte string as 64 hexadecimal digits.
-/

namespace InstallerLint
namespace Hash
namespace Sha256

/-- The round constants. -/
def roundConstants : List UInt32 := [
  0x428a2f98, 0x71374491, 0xb5c0fbcf, 0xe9b5dba5, 0x3956c25b, 0x59f111f1, 0x923f82a4, 0xab1c5ed5,
  0xd807aa98, 0x12835b01, 0x243185be, 0x550c7dc3, 0x72be5d74, 0x80deb1fe, 0x9bdc06a7, 0xc19bf174,
  0xe49b69c1, 0xefbe4786, 0x0fc19dc6, 0x240ca1cc, 0x2de92c6f, 0x4a7484aa, 0x5cb0a9dc, 0x76f988da,
  0x983e5152, 0xa831c66d, 0xb00327c8, 0xbf597fc7, 0xc6e00bf3, 0xd5a79147, 0x06ca6351, 0x14292967,
  0x27b70a85, 0x2e1b2138, 0x4d2c6dfc, 0x53380d13, 0x650a7354, 0x766a0abb, 0x81c2c92e, 0x92722c85,
  0xa2bfe8a1, 0xa81a664b, 0xc24b8b70, 0xc76c51a3, 0xd192e819, 0xd6990624, 0xf40e3585, 0x106aa070,
  0x19a4c116, 0x1e376c08, 0x2748774c, 0x34b0bcb5, 0x391c0cb3, 0x4ed8aa4a, 0x5b9cca4f, 0x682e6ff3,
  0x748f82ee, 0x78a5636f, 0x84c87814, 0x8cc70208, 0x90befffa, 0xa4506ceb, 0xbef9a3f7, 0xc67178f2]

/-- The chaining value. -/
structure State where
  /-- First word. -/
  a : UInt32
  b : UInt32
  c : UInt32
  d : UInt32
  e : UInt32
  f : UInt32
  g : UInt32
  h : UInt32

/-- The first chaining value. -/
def start : State :=
  ⟨0x6a09e667, 0xbb67ae85, 0x3c6ef372, 0xa54ff53a, 0x510e527f, 0x9b05688c, 0x1f83d9ab, 0x5be0cd19⟩

/-- One round with its schedule word and constant. -/
def round (s : State) (w k : UInt32) : State :=
  let s1 := rotr32 s.e 6 ^^^ rotr32 s.e 11 ^^^ rotr32 s.e 25
  let ch := (s.e &&& s.f) ^^^ ((s.e ^^^ 0xFFFFFFFF) &&& s.g)
  let t1 := s.h + s1 + ch + k + w
  let s0 := rotr32 s.a 2 ^^^ rotr32 s.a 13 ^^^ rotr32 s.a 22
  let maj := (s.a &&& s.b) ^^^ (s.a &&& s.c) ^^^ (s.b &&& s.c)
  ⟨t1 + (s0 + maj), s.a, s.b, s.c, s.d + t1, s.e, s.f, s.g⟩

/-- Extends the schedule by one word. -/
def extend (w : Array UInt32) : Array UInt32 :=
  let i := w.size
  let w15 := w.getD (i - 15) 0
  let w2 := w.getD (i - 2) 0
  let s0 := rotr32 w15 7 ^^^ rotr32 w15 18 ^^^ (w15 >>> 3)
  let s1 := rotr32 w2 17 ^^^ rotr32 w2 19 ^^^ (w2 >>> 10)
  w.push (w.getD (i - 16) 0 + s0 + w.getD (i - 7) 0 + s1)

/-- The sixty-four schedule words of the block at a position. -/
def schedule (m : Array UInt8) (pos : Nat) : Array UInt32 :=
  let first := ((List.range 16).map fun i => swap32 (read32 m (pos + 4 * i))).toArray
  (List.range 48).foldl (fun w _ => extend w) first

/-- Absorbs the block at a position. -/
def absorb (m : Array UInt8) (s : State) (pos : Nat) : State :=
  let t := ((schedule m pos).toList.zip roundConstants).foldl (fun t (w, k) => round t w k) s
  ⟨s.a + t.a, s.b + t.b, s.c + t.c, s.d + t.d, s.e + t.e, s.f + t.f, s.g + t.g, s.h + t.h⟩

/-- The bytes of a length in bits, highest first. -/
def lengthBytes (bits : Nat) : List UInt8 :=
  (List.range 8).map fun i => UInt8.ofNat (bits / Numbers.power 256 (7 - i))

/-- A message with its mark, zeros and length: a whole number of blocks. -/
def padded (s : Bytes) : Bytes :=
  s ++ [0x80] ++ List.replicate ((119 - s.length % 64) % 64) 0 ++ lengthBytes (8 * s.length)

end Sha256

/-- The SHA-256 digest in hexadecimal. -/
def sha256 (s : Bytes) : String :=
  let m := (Sha256.padded s).toArray
  let t := (List.range (m.size / 64)).foldl (fun t i => Sha256.absorb m t (64 * i)) Sha256.start
  String.join ([t.a, t.b, t.c, t.d, t.e, t.f, t.g, t.h].map hex32)

end Hash
end InstallerLint
