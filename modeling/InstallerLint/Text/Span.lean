import InstallerLint.Json.Basic
import InstallerLint.Numbers
import InstallerLint.Text.Quoted

/-!
# Spans of time in words

A span is a row of decimal numbers, each with a unit: `1h30m`, `2.5s`.  Spans are counted in
nanoseconds.
-/

namespace InstallerLint
namespace Span

/-- The units in nanoseconds. -/
def units : List (String × Nat) := [("ns", 1), ("us", 1000), ("\u00b5s", 1000), ("\u03bcs", 1000),
  ("ms", 1000000), ("s", 1000000000), ("m", 60000000000), ("h", 3600000000000)]

/-- Why a text is no span. -/
inductive Fault where
  /-- It is not written like one. -/
  | form (text : String)
  | noUnit (text : String)
  | unknownUnit (unit text : String)
  deriving DecidableEq, Repr

/-- The wording. -/
def Fault.message : Fault → String
  | form t => "time: invalid duration " ++ Quoted.quote t
  | noUnit t => "time: missing unit in duration " ++ Quoted.quote t
  | unknownUnit u t =>
    "time: unknown unit " ++ Quoted.quote u ++ " in duration " ++ Quoted.quote t

/-- The largest span. -/
def limit : Nat := Numbers.halfWords

/-- The sum of numbers with units, `fuel` at most. -/
def sum (text : String) : (fuel : Nat) → List Char → Except Fault Nat
  | 0, _ | _, [] => .ok 0
  | fuel + 1, cs => do
    let whole := cs.takeWhile Char.isDigit
    let rest := cs.dropWhile Char.isDigit
    let (fraction, rest) := match rest with
      | '.' :: more => (more.takeWhile Char.isDigit, more.dropWhile Char.isDigit)
      | rest => ([], rest)
    if whole.isEmpty && fraction.isEmpty then throw (.form text)
    let unit := rest.takeWhile fun c => c ≠ '.' && !c.isDigit
    if unit.isEmpty then throw (.noUnit text)
    match units.lookup (String.ofList unit) with
    | none => throw (.unknownUnit (String.ofList unit) text)
    | some size =>
      let digits := (Json.digits? (whole ++ fraction)).getD 0
      let value := digits * size / Numbers.power 10 fraction.length
      let more ← sum text fuel (rest.drop unit.length)
      if limit < value + more then throw (.form text)
      return value + more

/-- Reads a span. -/
def parse (text : String) : Except Fault Int :=
  let (negative, cs) := match text.toList with
    | '-' :: cs => (true, cs)
    | '+' :: cs => (false, cs)
    | cs => (false, cs)
  if cs = ['0'] then .ok 0
  else if cs.isEmpty then .error (.form text)
  else do
    let n ← sum text cs.length cs
    if negative then return -(n : Int)
    else if limit ≤ n then throw (.form text)
    else return (n : Int)

end Span
end InstallerLint
