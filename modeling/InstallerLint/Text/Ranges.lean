/-!
# Sets of characters as ranges

A set of characters is a list of closed intervals of code points.  The tables of the character
standard are written as text: `lo-hi` or a single number, hexadecimal, separated by blanks.
-/

namespace InstallerLint

/-- A set of code points, as closed intervals. -/
abbrev Ranges := List (Nat × Nat)

namespace Ranges

/-- The value of a hexadecimal digit; other characters count as zero. -/
def hexDigit (c : Char) : Nat :=
  if '0' ≤ c && c ≤ '9' then c.toNat - '0'.toNat
  else if 'a' ≤ c && c ≤ 'f' then c.toNat - 'a'.toNat + 10
  else if 'A' ≤ c && c ≤ 'F' then c.toNat - 'A'.toNat + 10
  else 0

/-- The value of a run of hexadecimal digits. -/
def hex (cs : List Char) : Nat := cs.foldl (fun n c => n * 16 + hexDigit c) 0

/-- One entry of a table. -/
def entry (cs : List Char) : Nat × Nat :=
  match cs.splitOn '-' with
  | [lo, hi] => (hex lo, hex hi)
  | _ => (hex cs, hex cs)

/-- The entries of a table, as they are written. -/
def tokens (s : String) : List (List Char) :=
  (s.toList.splitOnP fun c => c == ' ' || c == '\n').filter (· ≠ [])

/-- Reads the written form of a table. -/
def ofText (s : String) : Ranges :=
  (tokens s).map entry

/-- Whether a code point lies in one of the intervals. -/
def contains (r : Ranges) (n : Nat) : Bool := r.any fun (lo, hi) => lo ≤ n && n ≤ hi

/-- Whether a character lies in one of the intervals. -/
def has (r : Ranges) (c : Char) : Bool := r.contains c.toNat

/-- The largest code point. -/
def top : Nat := 0x10FFFF

end Ranges

end InstallerLint
