import InstallerLint.Text.Find
import InstallerLint.Text.Number
import InstallerLint.Text.Span

/-!
# Flags of a command line

A flag has a name, perhaps a letter, and a value of some kind.  Flags and other arguments may come
in any order; two dashes alone end the flags.

**Forms.**  `--name value`, `--name=value`, `-l value`, `-lvalue` and `-l=value`.  A switch takes
no value of its own, so letters of switches may be joined.
-/

namespace InstallerLint
namespace Cli

/-- What a flag is set to. -/
inductive FlagValue where
  | switch (on : Bool)
  | text (s : String)
  | number (n : Int)
  | texts (l : List String)
  /-- A span of time, in nanoseconds. -/
  | span (n : Int)
  deriving DecidableEq, Repr, Inhabited

/-- A flag. -/
structure Flag where
  name : String
  letter : Option Char := none
  usage : String
  /-- What it is set to unless something else is said. -/
  initial : FlagValue
  /-- How help shows the span of time that it is set to at first. -/
  shownSpan : String := ""
  deriving DecidableEq, Repr, Inhabited

/-- The values of flags by name; of two with one name the first counts. -/
abbrev FlagValues := List (String × FlagValue)

namespace FlagValues

/-- The text of a flag. -/
def text (vs : FlagValues) (name : String) : String := match vs.lookup name with
  | some (.text s) => s
  | _ => ""

/-- Whether a switch is on. -/
def isOn (vs : FlagValues) (name : String) : Bool := vs.lookup name == some (.switch true)

/-- The number of a flag. -/
def number (vs : FlagValues) (name : String) : Int := match vs.lookup name with
  | some (.number n) => n
  | _ => 0

/-- The texts of a flag. -/
def texts (vs : FlagValues) (name : String) : List String := match vs.lookup name with
  | some (.texts l) => l
  | _ => []

end FlagValues

/-- What is wrong with flags. -/
inductive FlagError where
  | unknown (name : String)
  /-- There is no flag with such a letter. -/
  | unknownLetter (c : Char) (group : String)
  | noValue (name : String)
  /-- A value is missing behind a letter. -/
  | noLetterValue (c : Char) (group : String)
  /-- It is not written like a flag. -/
  | form (arg : String)
  | value (value label cause : String)
  deriving DecidableEq, Repr

/-- The wording. -/
def FlagError.message : FlagError → String
  | unknown name => "unknown flag: --" ++ name
  | unknownLetter c group =>
    "unknown shorthand flag: '" ++ String.singleton c ++ "' in -" ++ group
  | noValue name => "flag needs an argument: --" ++ name
  | noLetterValue c group => "flag needs an argument: '" ++ String.singleton c ++ "' in -" ++ group
  | form arg => "bad flag syntax: " ++ arg
  | value v label cause =>
    "invalid argument " ++ Quoted.quote v ++ " for " ++ Quoted.quote label ++ " flag: " ++ cause

/-- A row of texts with commas between them; a text in quotes may hold commas, and a quote in it is
written twice.  An error is the column and the wording. -/
def splitRow : (column : Nat) → (quoted : Bool) → (cell : List Char) → List Char →
    Except (Nat × String) (List String)
  | _, false, cell, [] => .ok [String.ofList cell.reverse]
  | n, true, _, [] => .error (n, "extraneous or missing \" in quoted-field")
  | n, true, cell, '"' :: '"' :: cs => splitRow (n + 2) true ('"' :: cell) cs
  | _, true, cell, ['"'] => .ok [String.ofList cell.reverse]
  | n, true, cell, '"' :: ',' :: cs => do
    let rest ← match cs with
      | '"' :: cs => splitRow (n + 3) true [] cs
      | cs => splitRow (n + 2) false [] cs
    return String.ofList cell.reverse :: rest
  | n, true, _, '"' :: _ => .error (n, "extraneous or missing \" in quoted-field")
  | n, true, cell, c :: cs => splitRow (n + 1) true (c :: cell) cs
  | n, false, cell, ',' :: cs => do
    let rest ← match cs with
      | '"' :: cs => splitRow (n + 2) true [] cs
      | cs => splitRow (n + 1) false [] cs
    return String.ofList cell.reverse :: rest
  | n, false, cell, c :: cs =>
    if c = '"' then .error (n, "bare \" in non-quoted field")
    else splitRow (n + 1) false (c :: cell) cs

/-- The texts of a row; an error is its wording. -/
def readRow (s : String) : Except String (List String) :=
  let r : Except (Nat × String) (List String) := match s.toList with
    | [] => .ok []
    | '"' :: cs => splitRow 2 true [] cs
    | cs => splitRow 1 false [] cs
  r.mapError fun (n, problem) => "parse error on line 1, column " ++ toString n ++ ": " ++ problem

namespace Flag

/-- Whether a flag is a switch. -/
def isSwitch (f : Flag) : Bool := match f.initial with
  | .switch _ => true
  | _ => false

/-- How messages name a flag. -/
def label (f : Flag) : String := match f.letter with
  | some c => "-" ++ String.singleton c ++ ", --" ++ f.name
  | none => "--" ++ f.name

/-- The value that a text gives a flag; texts are added to those that are there. -/
def read (f : Flag) (old : FlagValue) (s : String) : Except FlagError FlagValue :=
  Except.mapError (.value s f.label) <| match f.initial with
  | .switch _ => ((Number.bool? s).map .switch).mapError (·.message "ParseBool" s)
  | .text _ => .ok (.text s)
  | .number _ => ((Number.int? s).map .number).mapError (·.message "ParseInt" s)
  | .texts _ => (readRow s).map fun l => .texts (match old with
    | .texts before => before ++ l
    | _ => l)
  | .span _ => ((Span.parse s).map .span).mapError (·.message)

end Flag

/-- Arguments taken apart. -/
structure Parsed where
  values : FlagValues
  args : List String := []
  deriving DecidableEq, Repr, Inhabited

namespace Parsed

/-- The values that flags have from the start. -/
def start (flags : List Flag) : Parsed := ⟨flags.map fun f => (f.name, f.initial), []⟩

/-- Sets a flag. -/
def set (p : Parsed) (f : Flag) (s : String) : Except FlagError Parsed := do
  let v ← f.read ((p.values.lookup f.name).getD f.initial) s
  return { p with values := (f.name, v) :: p.values }

/-- Adds another argument. -/
def push (p : Parsed) (arg : String) : Parsed := { p with args := p.args ++ [arg] }

/-- Reads an argument with a name, taking a value from those that follow if it needs one. -/
def readNamed (flags : List Flag) (p : Parsed) (arg : String) (rest : List String) :
    Except FlagError (Parsed × List String) :=
  let body := arg.toList.drop 2
  match body with
  | [] | '-' :: _ | '=' :: _ => .error (.form arg)
  | _ =>
    let name := String.ofList (body.takeWhile (· ≠ '='))
    match flags.find? (·.name = name) with
    | none => .error (.unknown name)
    | some f =>
      match body.dropWhile (· ≠ '='), rest with
      | _ :: value, rest => return (← p.set f (String.ofList value), rest)
      | [], rest =>
        if f.isSwitch then return (← p.set f "true", rest)
        else
          match rest with
          | value :: rest => return (← p.set f value, rest)
          | [] => .error (.noValue name)

/-- Reads joined letters. -/
def readLetters (flags : List Flag) : Parsed → (letters : List Char) → (rest : List String) →
    Except FlagError (Parsed × List String)
  | p, [], rest => .ok (p, rest)
  | p, c :: cs, rest =>
    let group := String.ofList (c :: cs)
    match flags.find? (·.letter = some c) with
    | none => .error (.unknownLetter c group)
    | some f =>
      match cs, rest with
      | '=' :: d :: more, rest => return (← p.set f (String.ofList (d :: more)), rest)
      | cs, rest =>
        if f.isSwitch then do
          let p ← p.set f "true"
          readLetters flags p cs rest
        else
          match cs, rest with
          | _ :: _, rest => return (← p.set f (String.ofList cs), rest)
          | [], value :: rest => return (← p.set f value, rest)
          | [], [] => .error (.noLetterValue c group)

/-- Reads arguments, `fuel` at most. -/
def readAll (flags : List Flag) : (fuel : Nat) → Parsed → List String → Except FlagError Parsed
  | 0, p, _ | _, p, [] => .ok p
  | fuel + 1, p, arg :: rest =>
    match arg.toList with
    | ['-', '-'] => .ok { p with args := p.args ++ rest }
    | '-' :: '-' :: _ => do
      let (p, rest) ← readNamed flags p arg rest
      readAll flags fuel p rest
    | '-' :: c :: cs => do
      let (p, rest) ← readLetters flags p (c :: cs) rest
      readAll flags fuel p rest
    | _ => readAll flags fuel (p.push arg) rest

/-- Takes arguments apart. -/
def parse (flags : List Flag) (args : List String) : Except FlagError Parsed :=
  readAll flags args.length (start flags) args

end Parsed

end Cli
end InstallerLint
