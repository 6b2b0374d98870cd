import InstallerLint.Text.Case

/-!
# JSON values

The value type of reports, saved files and settings.  A number keeps its written form, because
whether it reads as an integer depends on how it is written.
-/

namespace InstallerLint

/-- A JSON value; members keep their order. -/
inductive Json where
  | null
  | bool (b : Bool)
  | num (text : String)
  | str (s : String)
  | arr (items : List Json)
  | obj (members : List (String × Json))
  deriving Inhabited, Repr

namespace Json

/-- An integer. -/
def int (n : Int) : Json := .num (toString n)

/-- A natural number. -/
def nat (n : Nat) : Json := .num (toString n)

/-- A list of texts. -/
def strs (l : List String) : Json := .arr (l.map .str)

/-- The value of decimal digits. -/
def digits? (cs : List Char) : Option Nat :=
  if cs ≠ [] && cs.all Char.isDigit then
    some (cs.foldl (fun n c => n * 10 + (c.toNat - '0'.toNat)) 0)
  else none

/-- The value of a number written as a plain integer. -/
def integer? (s : String) : Option Int :=
  match s.toList with
  | '-' :: cs => (digits? cs).map fun n => -(n : Int)
  | cs => (digits? cs).map fun n => (n : Int)

/-- The members of an object, none for other values. -/
def members : Json → List (String × Json)
  | .obj ms => ms
  | _ => []

/-- The items of a list, none for other values. -/
def items : Json → List Json
  | .arr l => l
  | _ => []

/-- The value of a member under its exact name. -/
def get? (j : Json) (name : String) : Option Json := j.members.lookup name

/-- The value of a member, null when it is missing. -/
def get (j : Json) (name : String) : Json := (j.get? name).getD .null

/-- The text of a string value. -/
def str? : Json → Option String
  | .str s => some s
  | _ => none

/-- The value of an integer. -/
def int? : Json → Option Int
  | .num t => integer? t
  | _ => none

/-- A truth value. -/
def bool? : Json → Option Bool
  | .bool b => some b
  | _ => none

/-- Whether the value is null. -/
def isNull : Json → Bool
  | .null => true
  | _ => false

mutual

/-- How deep a value nests. -/
def depth : Json → Nat
  | .arr l => depthOfItems l + 1
  | .obj m => depthOfMembers m + 1
  | _ => 1

/-- How deep the deepest of some values nests. -/
def depthOfItems : List Json → Nat
  | [] => 0
  | j :: rest => max (depth j) (depthOfItems rest)

/-- How deep the deepest of some members nests. -/
def depthOfMembers : List (String × Json) → Nat
  | [] => 0
  | (_, j) :: rest => max (depth j) (depthOfMembers rest)

end

/-- The members that fill a field: those of its exact name, or of its name up to case. -/
def fields (j : Json) (name : String) : List Json :=
  (j.members.filter fun (key, _) => key = name || Case.equalFold key name).map Prod.snd

/-- What a field is filled with: the last member for it that is not null. -/
def field? (j : Json) (name : String) : Option Json :=
  ((j.fields name).filter (fun v => !v.isNull)).getLast?

/-- A member that is left out when its text is empty. -/
def optStr (name s : String) : List (String × Json) := if s = "" then [] else [(name, .str s)]

end Json

end InstallerLint
