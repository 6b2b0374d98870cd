/-!
# Numbers

Sums of lists and the bounds of integers of 64 bits.
-/

namespace InstallerLint
namespace Numbers

/-- The sum of natural numbers. -/
def total : List Nat → Nat
  | [] => 0
  | n :: ns => n + total ns

/-- The number of words of 64 bits. -/
def words : Nat := 18446744073709551616

/-- Half of the words of 64 bits: the first integer that is too large for a signed one. -/
def halfWords : Nat := 9223372036854775808

/-- A power of natural numbers. -/
def power (base : Nat) : (exponent : Nat) → Nat
  | 0 => 1
  | n + 1 => power base n * base

end Numbers
end InstallerLint
