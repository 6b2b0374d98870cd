/-!
# White space

The characters that trimming removes: the ASCII blanks, next line, no-break space and the
space, line and paragraph separators of Unicode.
-/

namespace InstallerLint
namespace Blank

/-- White space in the sense of Unicode. -/
def isBlank (c : Char) : Bool :=
  let n := c.toNat
  (0x09 ≤ n && n ≤ 0x0D) || n == 0x20 || n == 0x85 || n == 0xA0 || n == 0x1680
    || (0x2000 ≤ n && n ≤ 0x200A) || n == 0x2028 || n == 0x2029 || n == 0x202F
    || n == 0x205F || n == 0x3000

/-- Removes a class of characters from the end. -/
def dropEndWhile (p : Char → Bool) (cs : List Char) : List Char :=
  (cs.reverse.dropWhile p).reverse

/-- Removes a class of characters from both ends. -/
def trimBy (p : Char → Bool) (cs : List Char) : List Char :=
  dropEndWhile p (cs.dropWhile p)

/-- A text without white space at its ends. -/
def trim (s : String) : String := String.ofList (trimBy isBlank s.toList)

/-- Whether a text has nothing but white space. -/
def isAllBlank (s : String) : Bool := s.toList.all isBlank

/-- The words of a text: its maximal runs without white space. -/
def words (cs : List Char) : List (List Char) :=
  ((cs.splitOnP isBlank).filter (· ≠ []))

end Blank
end InstallerLint
