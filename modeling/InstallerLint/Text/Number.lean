import InstallerLint.Text.Quoted
import InstallerLint.Yaml.Scalar

/-!
# Numbers and truth values in words

How values given by hand are read: integers of 64 bits in several bases, truth values by short and
long names.
-/

namespace InstallerLint
namespace Number

/-- Why a text is no value. -/
inductive Fault where
  /-- It is not written like one. -/
  | form
  | range
  deriving DecidableEq, Repr

/-- The wording. -/
def Fault.text : Fault → String
  | form => "invalid syntax"
  | range => "value out of range"

/-- The wording with the reader and the text that it read. -/
def Fault.message (f : Fault) (reader s : String) : String :=
  "strconv." ++ reader ++ ": parsing " ++ Quoted.quote s ++ ": " ++ f.text

/-- A digit of some base, in small or large letters. -/
def isDigit (c : Char) : Bool := (Yaml.hexValue? c).isSome

/-- Removes underscores, each of which must stand between digits; `last` tells whether a digit or
the mark of a base came before. -/
def joinDigits? : (last : Bool) → List Char → Option (List Char)
  | _, [] => some []
  | last, '_' :: c :: cs =>
    if last && isDigit c then (joinDigits? true cs).map (c :: ·) else none
  | last, c :: cs => if c = '_' then none else (joinDigits? (isDigit c || last) cs).map (c :: ·)

/-- The size of an integer; a mark tells its base. -/
def size? (cs : List Char) : Option Nat :=
  match cs with
  | '0' :: c :: rest =>
    if ['x', 'X', 'o', 'O', 'b', 'B'].contains c then
      (joinDigits? true rest).bind fun ds => Yaml.Scalar.natural? ('0' :: c :: ds)
    else (joinDigits? true (c :: rest)).bind fun ds => Yaml.Scalar.natural? ('0' :: ds)
  | cs => (joinDigits? false cs).bind Yaml.Scalar.natural?

/-- An integer of 64 bits. -/
def int? (s : String) : Except Fault Int :=
  let (negative, cs) := match s.toList with
    | '-' :: cs => (true, cs)
    | '+' :: cs => (false, cs)
    | cs => (false, cs)
  match size? cs with
  | none => .error .form
  | some n =>
    if negative then (if n ≤ Numbers.halfWords then .ok (-(n : Int)) else .error .range)
    else if n < Numbers.halfWords then .ok (n : Int) else .error .range

/-- A truth value. -/
def bool? (s : String) : Except Fault Bool :=
  if ["1", "t", "T", "TRUE", "true", "True"].contains s then .ok true
  else if ["0", "f", "F", "FALSE", "false", "False"].contains s then .ok false
  else .error .form

end Number
end InstallerLint
