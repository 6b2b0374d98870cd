import InstallerLint.Numbers
import InstallerLint.Yaml.Input

/-!
# Meaning of plain scalars

A scalar without quotes stands for null, a truth value, a number, a time or a text, whichever it
is written like.
-/

namespace InstallerLint
namespace Yaml

/-- A finite decimal number: `mantissa * 10 ^ exponent`, with a sign. -/
structure Decimal where
  /-- Whether it is below zero. -/
  negative : Bool
  mantissa : Nat
  exponent : Int
  deriving DecidableEq, Repr

namespace Decimal

/-- The number without its fraction. -/
def truncate (d : Decimal) : Int :=
  let n := if d.exponent ≥ 0 then d.mantissa * Numbers.power 10 d.exponent.toNat
    else d.mantissa / Numbers.power 10 (-d.exponent).toNat
  if d.negative then -n else n

/-- Whether the number lies in the range of floating-point numbers. -/
def isFinite (d : Decimal) : Bool :=
  d.mantissa = 0 || (Nat.toDigits 10 d.mantissa).length + d.exponent ≤ 308

/-- Removes zeros at the end of the digits. -/
def strip : (fuel : Nat) → Decimal → Decimal
  | 0, d => d
  | fuel + 1, d =>
    if d.exponent < 0 && d.mantissa % 10 = 0 then
      strip fuel { d with mantissa := d.mantissa / 10, exponent := d.exponent + 1 }
    else d

/-- The number in positional notation. -/
def text (d : Decimal) : String :=
  let d := strip ((-d.exponent).toNat) d
  let sign := if d.negative then "-" else ""
  if d.exponent ≥ 0 then sign ++ toString (d.mantissa * Numbers.power 10 d.exponent.toNat)
  else
    let places := (-d.exponent).toNat
    let digits := Nat.toDigits 10 d.mantissa
    let digits := List.replicate (places + 1 - digits.length) '0' ++ digits
    let whole := digits.length - places
    sign ++ String.ofList (digits.take whole ++ '.' :: digits.drop whole)

end Decimal

/-- What a scalar stands for. -/
inductive Scalar where
  | null
  | bool (b : Bool)
  | int (n : Int)
  | float (d : Decimal)
  | infinite (negative : Bool)
  | nan
  /-- A point in time, as written. -/
  | time (text : String)
  | merge
  | text (s : String)
  deriving DecidableEq, Repr

namespace Scalar

/-- The tag of a meaning. -/
def tag : Scalar → String
  | null => "!!null"
  | bool _ => "!!bool"
  | int _ => "!!int"
  | float _ | infinite _ | nan => "!!float"
  | time _ => "!!timestamp"
  | merge => "!!merge"
  | text _ => "!!str"

/-- The words with a meaning of their own. -/
def words : List (String × Scalar) := [
  ("", null), ("~", null), ("null", null), ("Null", null), ("NULL", null),
  ("true", bool true), ("True", bool true), ("TRUE", bool true),
  ("false", bool false), ("False", bool false), ("FALSE", bool false),
  (".nan", nan), (".NaN", nan), (".NAN", nan),
  (".inf", infinite false), (".Inf", infinite false), (".INF", infinite false),
  ("+.inf", infinite false), ("+.Inf", infinite false), ("+.INF", infinite false),
  ("-.inf", infinite true), ("-.Inf", infinite true), ("-.INF", infinite true),
  ("<<", merge)]

/-- The value of a digit in bases up to sixteen. -/
def digitsIn? (base : Nat) (cs : List Char) : Option Nat :=
  if cs.isEmpty then none
  else cs.foldl (fun n c => match n, hexValue? c with
    | some n, some d => if d < base then some (n * base + d) else none
    | _, _ => none) (some 0)

/-- A natural number whose base is told by how it starts. -/
def natural? : List Char → Option Nat
  | '0' :: c :: rest =>
    if c = 'x' || c = 'X' then digitsIn? 16 rest
    else if c = 'o' || c = 'O' then digitsIn? 8 rest
    else if c = 'b' || c = 'B' then digitsIn? 2 rest
    else digitsIn? 8 (c :: rest)
  | cs => digitsIn? 10 cs

/-- An integer of 64 bits, signed or, without a sign, unsigned. -/
def integer? (cs : List Char) : Option Int :=
  match cs with
  | '-' :: rest => (natural? rest).bind fun n => if n ≤ Numbers.halfWords then some (-(n : Int)) else none
  | '+' :: rest => (natural? rest).bind fun n => if n < Numbers.halfWords then some (n : Int) else none
  | _ => (natural? cs).bind fun n => if n < Numbers.words then some (n : Int) else none

/-- The digits of an exponent with its sign. -/
def exponent? : List Char → Option Int
  | [] => some 0
  | e :: rest =>
    if e = 'e' || e = 'E' then
      match rest with
      | '-' :: cs => (digitsIn? 10 cs).map fun n => -(n : Int)
      | '+' :: cs => (digitsIn? 10 cs).map fun n => (n : Int)
      | cs => (digitsIn? 10 cs).map fun n => (n : Int)
    else none

/-- A decimal number with a point or an exponent. -/
def decimal? (cs : List Char) : Option Decimal :=
  let (negative, cs) := match cs with
    | '-' :: cs => (true, cs)
    | '+' :: cs => (false, cs)
    | cs => (false, cs)
  let whole := cs.takeWhile Char.isDigit
  let rest := cs.drop whole.length
  let (fraction, rest, point) := match rest with
    | '.' :: rest => (rest.takeWhile Char.isDigit, rest.dropWhile Char.isDigit, true)
    | rest => ([], rest, false)
  if whole.isEmpty && (!point || fraction.isEmpty) then none
  else
    match exponent? rest, digitsIn? 10 (whole ++ fraction) with
    | some e, some m =>
      if e.natAbs < 1000 then
        let d : Decimal := ⟨negative, m, e - fraction.length⟩
        if d.isFinite then some d else none
      else if m = 0 || e < 0 then some ⟨negative, 0, 0⟩ else none
    | _, _ => none

/-- One or two digits below a bound, and what follows. -/
def shortNumber? (bound : Nat) (cs : List Char) : Option (Nat × List Char) :=
  let digits := (cs.take 2).takeWhile Char.isDigit
  match digitsIn? 10 digits with
  | some n => if n < bound then some (n, cs.drop digits.length) else none
  | none => none

/-- The days of a month. -/
def daysIn (year month : Nat) : Nat :=
  if month = 2 then (if year % 4 = 0 && (year % 100 ≠ 0 || year % 400 = 0) then 29 else 28)
  else if [4, 6, 9, 11].contains month then 30 else 31

/-- Whether a clock time stands here, and what follows it. -/
def clock? (cs : List Char) : Option (List Char) := do
  let (_, rest) ← shortNumber? 24 cs
  match rest with
  | ':' :: rest =>
    let (_, rest) ← shortNumber? 60 rest
    match rest with
    | ':' :: rest =>
      let (_, rest) ← shortNumber? 60 rest
      match rest with
      | '.' :: c :: more => if c.isDigit then some (more.dropWhile Char.isDigit) else none
      | rest => some rest
    | _ => none
  | _ => none

/-- Whether a time zone stands here, with nothing behind it. -/
def isZone : List Char → Bool
  | ['Z'] => true
  | [s, a, b, ':', c, d] => (s = '+' || s = '-') && [a, b, c, d].all Char.isDigit
  | _ => false

/-- Whether a text is a date, possibly with a time. -/
def isTime (cs : List Char) : Bool :=
  let year := cs.takeWhile Char.isDigit
  match year.length, cs.drop year.length with
  | 4, '-' :: rest =>
    match shortNumber? 13 rest with
    | some (month, '-' :: rest) =>
      match shortNumber? 32 rest with
      | some (day, rest) =>
        let year := (digitsIn? 10 year).getD 0
        if month = 0 || day = 0 || daysIn year month < day then false
        else
          match rest with
          | [] => true
          | c :: rest =>
            if c = 'T' || c = 't' then ((clock? rest).map isZone).getD false
            else if c = ' ' then (clock? rest).any List.isEmpty
            else false
      | none => false
    | _ => false
  | _, _ => false

/-- The meaning of a scalar with a hint whether it may be a time. -/
def resolveAs (mayBeTime : Bool) (s : String) : Scalar :=
  match words.lookup s with
  | some v => v
  | none =>
    let cs := s.toList
    match cs with
    | '.' :: _ => ((decimal? cs).map float).getD (text s)
    | c :: _ =>
      if c.isDigit || c = '+' || c = '-' then
        if mayBeTime && isTime cs then time s
        else
          let plain := cs.filter (· ≠ '_')
          match integer? plain, decimal? plain with
          | some n, _ => int n
          | none, some d => float d
          | none, none => text s
      else text s
    | [] => null

/-- The meaning of a plain scalar. -/
def resolve (s : String) : Scalar := resolveAs true s

end Scalar
end Yaml
end InstallerLint
