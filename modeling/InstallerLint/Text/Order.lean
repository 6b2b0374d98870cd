/-!
# Order of texts

Texts are ordered by their code points, which is also the order of their UTF-8 bytes.  All
sorts here are stable.
-/

namespace InstallerLint
namespace Order

/-- The order of texts as a test. -/
def le (a b : String) : Bool := decide (a ≤ b)

/-- Sorts texts and keeps every copy. -/
def sort (l : List String) : List String := l.mergeSort le

/-- Sorts by a text key. -/
def sortBy {α : Type} (key : α → String) (l : List α) : List α :=
  l.mergeSort fun a b => le (key a) (key b)

/-- Keeps the first of each text that was not seen before. -/
def firstsAfter (seen : List String) : List String → List String
  | [] => []
  | s :: l => if s ∈ seen then firstsAfter seen l else s :: firstsAfter (s :: seen) l

/-- Keeps the first of each text. -/
def firsts (l : List String) : List String := firstsAfter [] l

/-- The different texts in order. -/
def distinct (l : List String) : List String := sort (firsts l)

/-- The different non-empty texts in order. -/
def dedup (l : List String) : List String := sort (firsts (l.filter (· ≠ "")))

/-- Lexicographic comparison of keys, first difference decides. -/
def lexLe : List Ordering → Bool
  | [] => true
  | .lt :: _ => true
  | .gt :: _ => false
  | .eq :: rest => lexLe rest

end Order
end InstallerLint
