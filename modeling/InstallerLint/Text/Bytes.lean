/-!
# Raw text as bytes

A source file is a list of bytes.  Most of it is UTF-8, but comments and processing
instructions may hold anything, so positions and edits work on bytes and characters are
decoded where they are needed.

**Decoding.**  `headChar?` reads one well-formed character from the front.  A byte that starts
none is *stray*: it counts as one character, and in decoded text it stands as U+FFFD.
-/

namespace InstallerLint

/-- Raw text as it stands in a file. -/
abbrev Bytes := List UInt8

namespace Bytes

/-- The UTF-8 bytes of a string. -/
def ofString (s : String) : Bytes :=
  s.toList.flatMap String.utf8EncodeChar

/-- A byte that continues a character of several bytes. -/
def isTail (b : UInt8) : Bool := 0x80 ≤ b && b ≤ 0xBF

/-- The six payload bits of a continuation byte. -/
def tailBits (b : UInt8) : Nat := b.toNat % 0x40

/-- The character at the front with the number of its bytes; `none` at a stray byte. -/
def headChar? : Bytes → Option (Char × Nat)
  | [] => none
  | a :: rest =>
    if a < 0x80 then some (Char.ofNat a.toNat, 1)
    else if 0xC2 ≤ a && a ≤ 0xDF then
      match rest with
      | b :: _ =>
        if isTail b then some (Char.ofNat ((a.toNat % 0x20) * 0x40 + tailBits b), 2) else none
      | _ => none
    else if 0xE0 ≤ a && a ≤ 0xEF then
      match rest with
      | b :: c :: _ =>
        let low : UInt8 := if a = 0xE0 then 0xA0 else 0x80
        let high : UInt8 := if a = 0xED then 0x9F else 0xBF
        if low ≤ b && b ≤ high && isTail c then
          some (Char.ofNat ((a.toNat % 0x10) * 0x1000 + tailBits b * 0x40 + tailBits c), 3)
        else none
      | _ => none
    else if 0xF0 ≤ a && a ≤ 0xF4 then
      match rest with
      | b :: c :: d :: _ =>
        let low : UInt8 := if a = 0xF0 then 0x90 else 0x80
        let high : UInt8 := if a = 0xF4 then 0x8F else 0xBF
        if low ≤ b && b ≤ high && isTail c && isTail d then
          some (Char.ofNat ((a.toNat % 0x08) * 0x40000 + tailBits b * 0x1000
            + tailBits c * 0x40 + tailBits d), 4)
        else none
      | _ => none
    else none

/-- Characters after skipping `k` bytes that belong to the character just read. -/
def charsAfter : Nat → Bytes → List (Option Char)
  | _, [] => []
  | k + 1, _ :: rest => charsAfter k rest
  | 0, b :: rest =>
    match headChar? (b :: rest) with
    | some (c, n) => some c :: charsAfter (n - 1) rest
    | none => none :: charsAfter 0 rest

/-- The characters of a text, a stray byte as `none`. -/
def chars (s : Bytes) : List (Option Char) := charsAfter 0 s

/-- The number of characters, each stray byte counted once. -/
def charCount (s : Bytes) : Nat := (chars s).length

/-- Counts the characters of the first `m` bytes on from `n`, after skipping `k` bytes. -/
def countWithin : (n k m : Nat) → Bytes → Nat
  | n, _, 0, _ => n
  | n, _, _ + 1, [] => n
  | n, k + 1, m + 1, _ :: rest => countWithin n k m rest
  | n, 0, m + 1, b :: rest =>
    if b < 0x80 then countWithin (n + 1) 0 m rest
    else
      match headChar? (b :: rest.take m) with
      | some (_, w) => countWithin (n + 1) (w - 1) m rest
      | none => countWithin (n + 1) 0 m rest

theorem headChar?_ascii {b : UInt8} (h : b < 0x80) (s : Bytes) :
    headChar? (b :: s) = some (Char.ofNat b.toNat, 1) := by
  simp [headChar?, h]

/-- Counting within a length agrees with cutting first. -/
theorem countWithin_eq (s : Bytes) :
    ∀ n k m, countWithin n k m s = n + (charsAfter k (s.take m)).length := by
  induction s with
  | nil => intro n k m; cases m <;> simp [countWithin, charsAfter]
  | cons b rest ih =>
    intro n k m
    cases m with
    | zero => simp [countWithin, charsAfter]
    | succ m =>
      rw [List.take_succ_cons]
      cases k with
      | succ k => simp [countWithin, charsAfter, ih]
      | zero =>
        by_cases h : b < 0x80
        · simp [countWithin, charsAfter, h, headChar?_ascii h, ih, Nat.add_assoc, Nat.add_comm]
        · rw [countWithin, charsAfter, if_neg h]
          split <;> simp_all [Nat.add_assoc, Nat.add_comm]

/-- The text with U+FFFD for every stray byte. -/
def toText (s : Bytes) : String :=
  String.ofList ((chars s).map (·.getD '\uFFFD'))

/-- The text, when every byte belongs to a character. -/
def toText? (s : Bytes) : Option String :=
  ((chars s).mapM id).map String.ofList

/-- The bytes from `start` up to `stop`. -/
def slice (s : Bytes) (start stop : Nat) : Bytes := (s.drop start).take (stop - start)

/-- Whether `s` starts with `p`. -/
def startsWith (s p : Bytes) : Bool := p.isPrefixOf s

/-- What follows `p` at the front of `s`. -/
def stripFront? : (p s : Bytes) → Option Bytes
  | [], s => some s
  | _ :: _, [] => none
  | a :: p, b :: s => if a = b then stripFront? p s else none

/-- Splits after every line feed; the last piece is what follows the last one. -/
def splitAfterLF : Bytes → List Bytes
  | [] => [[]]
  | b :: rest =>
    match splitAfterLF rest with
    | [] => [[b]]
    | piece :: pieces => if b = 0x0A then [b] :: piece :: pieces else (b :: piece) :: pieces

/-- Splits at every line feed and drops it. -/
def splitLF : Bytes → List Bytes
  | [] => [[]]
  | b :: rest =>
    match splitLF rest with
    | [] => [[b]]
    | piece :: pieces => if b = 0x0A then [] :: piece :: pieces else (b :: piece) :: pieces

end Bytes

end InstallerLint
