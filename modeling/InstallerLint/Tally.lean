import InstallerLint.Json.Basic
import InstallerLint.Text.Order

/-!
# Tallies

Numbers by name, as statistics and reports show them.
-/

namespace InstallerLint

/-- Numbers by name, each name once and in order. -/
abbrev Tally := List (String × Nat)

namespace Tally

/-- Adds to a name's number. -/
def add (name : String) (n : Nat) : Tally → Tally
  | [] => [(name, n)]
  | (k, v) :: rest =>
    if name = k then (k, v + n) :: rest
    else if Order.le name k then (name, n) :: (k, v) :: rest
    else (k, v) :: add name n rest

/-- Adds all numbers of another tally. -/
def merge (a b : Tally) : Tally := b.foldl (fun t (k, n) => add k n t) a

/-- Counts names. -/
def ofNames (l : List String) : Tally := l.foldl (fun t k => add k 1 t) []

/-- A tally in saved form. -/
def toJson (t : Tally) : Json := .obj (t.map fun (k, n) => (k, .nat n))

end Tally

end InstallerLint
