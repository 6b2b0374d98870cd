import InstallerLint.Text.Blank
import InstallerLint.Text.Case
import InstallerLint.Text.Quoted

/-!
# Conditions

A condition says of an element whether a rule holds there: a predicate with its operands, or a
combination of other conditions.

**Reading.**  A predicate looks only at the operands it needs.  Predicates and comparisons of a
number that has no meaning can be written down; they never hold.
-/

namespace InstallerLint

/-- How two counts are compared. -/
inductive Comparison where
  | eq
  | ne
  | lt
  | le
  | gt
  | ge
  /-- A number without a meaning: a negative one itself, another one by how far it lies behind the
  numbers that have a meaning. -/
  | unknown (number : Int)
  deriving DecidableEq, Repr, Inhabited

namespace Comparison

/-- The comparisons in the order of their numbers. -/
def all : List Comparison := [eq, ne, lt, le, gt, ge]

/-- The number of a comparison. -/
def number : Comparison → Int
  | unknown n => if n < 0 then n else all.length + n
  | c => all.idxOf c

/-- The comparison of a number. -/
def ofNumber (n : Int) : Comparison :=
  if n < 0 then unknown n else (all[n.toNat]?).getD (unknown (n - all.length))

/-- The sign of a comparison. -/
def symbol : Comparison → String
  | eq => "=="
  | ne => "!="
  | lt => "<"
  | le => "<="
  | gt => ">"
  | ge => ">="
  | unknown _ => "?"

/-- Whether a comparison holds. -/
def holds : Comparison → Int → Int → Bool
  | eq, a, b => a == b
  | ne, a, b => a != b
  | lt, a, b => decide (a < b)
  | le, a, b => decide (a ≤ b)
  | gt, a, b => decide (b < a)
  | ge, a, b => decide (b ≤ a)
  | unknown _, _, _ => false

/-- The signs and names of the comparisons. -/
def names : List (String × Comparison) := [
  ("==", eq), ("=", eq), ("eq", eq), ("!=", ne), ("<>", ne), ("ne", ne), ("<", lt), ("lt", lt),
  ("<=", le), ("le", le), (">", gt), ("gt", gt), (">=", ge), ("ge", ge)]

/-- Reads a sign or name in any case and with blanks around it. -/
def parse? (s : String) : Option Comparison := names.lookup (Case.lower (Blank.trim s))

/-- The wording for a text that is no comparison. -/
def unknownMessage (s : String) : String := "unknown comparison operator " ++ Quoted.quote s

end Comparison

/-- What a condition asks of an element. -/
inductive Predicate where
  | always
  | never
  | attributeMissing
  | attributeExists
  | attributeEquals
  /-- An attribute is absent or has another value. -/
  | attributeNotEquals
  /-- An attribute's value matches a pattern. -/
  | attributeMatches
  /-- An attribute is absent or its value does not match. -/
  | attributeNotMatches
  /-- An attribute has one of several values. -/
  | attributeIn
  /-- An attribute is absent or has none of several values. -/
  | attributeNotIn
  /-- There is a child of a kind. -/
  | hasChild
  /-- There is no child of a kind. -/
  | missingChild
  /-- The number of children of a kind compares to a count. -/
  | childCount
  /-- The parent is of a kind. -/
  | parentIs
  /-- There is no parent or it is of another kind. -/
  | parentNot
  /-- The parent is of one of several kinds. -/
  | parentIn
  /-- There is no parent or it is of none of several kinds. -/
  | parentNotIn
  /-- The element stands deeper than a number of levels. -/
  | depthExceeds
  | textMatches
  | textContains
  | all
  | any
  | not
  /-- A number without a meaning: a negative one itself, another one by how far it lies behind the
  numbers that have a meaning. -/
  | unknown (number : Int)
  deriving DecidableEq, Repr, Inhabited

namespace Predicate

/-- The predicates with their names, in the order of their numbers. -/
def table : List (Predicate × String) := [
  (always, "always"), (never, "never"),
  (attributeMissing, "attribute_missing"), (attributeExists, "attribute_exists"),
  (attributeEquals, "attribute_equals"), (attributeNotEquals, "attribute_not_equals"),
  (attributeMatches, "attribute_matches"), (attributeNotMatches, "attribute_not_matches"),
  (attributeIn, "attribute_in"), (attributeNotIn, "attribute_not_in"),
  (hasChild, "has_child"), (missingChild, "missing_child"), (childCount, "child_count"),
  (parentIs, "parent_is"), (parentNot, "parent_not"), (parentIn, "parent_in"),
  (parentNotIn, "parent_not_in"), (depthExceeds, "depth_exceeds"),
  (textMatches, "text_matches"), (textContains, "text_contains"),
  (all, "all"), (any, "any"), (not, "not")]

/-- The number of a predicate. -/
def number : Predicate → Int
  | unknown n => if n < 0 then n else table.length + n
  | p => (table.map Prod.fst).idxOf p

/-- The name of a predicate. -/
def name : Predicate → String
  | unknown n => "op(" ++ toString (unknown n).number ++ ")"
  | p => (table.lookup p).getD ""

/-- The predicate of a name. -/
def ofName? (s : String) : Option Predicate := (table.find? (·.2 = s)).map Prod.fst

/-- The predicate of a number. -/
def ofNumber (n : Int) : Predicate :=
  if n < 0 then unknown n
  else ((table[n.toNat]?).map Prod.fst).getD (unknown (n - table.length))

/-- Whether a predicate uses a pattern. -/
def usesPattern (p : Predicate) : Bool :=
  p = attributeMatches || p = attributeNotMatches || p = textMatches

end Predicate

/-- What a predicate may look at. -/
structure Operands where
  name : String := ""
  /-- A value or part of a text. -/
  value : String := ""
  /-- Several values, if given. -/
  values : Option (List String) := none
  pattern : String := ""
  /-- The kind of a child or parent. -/
  element : String := ""
  /-- Several kinds, if given. -/
  elements : Option (List String) := none
  comparison : Comparison := .eq
  count : Int := 0
  deriving DecidableEq, Repr, Inhabited

/-- A predicate, its operands and the conditions it combines. -/
inductive Condition where
  | mk (predicate : Predicate) (operands : Operands) (parts : List Condition)
  deriving Repr, Inhabited

namespace Condition

/-- The predicate. -/
def predicate : Condition → Predicate
  | mk p _ _ => p

/-- The operands. -/
def operands : Condition → Operands
  | mk _ o _ => o

/-- The conditions that are combined. -/
def parts : Condition → List Condition
  | mk _ _ cs => cs

/-- Holds everywhere. -/
def always : Condition := mk .always {} []

/-- Holds nowhere. -/
def never : Condition := mk .never {} []

/-- An attribute is absent. -/
def attributeMissing (name : String) : Condition := mk .attributeMissing { name } []

/-- An attribute is present. -/
def attributeExists (name : String) : Condition := mk .attributeExists { name } []

/-- An attribute has a value. -/
def attributeEquals (name value : String) : Condition := mk .attributeEquals { name, value } []

/-- An attribute does not have a value. -/
def attributeNotEquals (name value : String) : Condition :=
  mk .attributeNotEquals { name, value } []

/-- An attribute matches a pattern. -/
def attributeMatches (name pattern : String) : Condition :=
  mk .attributeMatches { name, pattern } []

/-- An attribute does not match a pattern. -/
def attributeNotMatches (name pattern : String) : Condition :=
  mk .attributeNotMatches { name, pattern } []

/-- Lists of operands: an empty one is not given at all. -/
def given (l : List String) : Option (List String) := if l.isEmpty then none else some l

/-- An attribute has one of some values. -/
def attributeIn (name : String) (values : List String) : Condition :=
  mk .attributeIn { name, values := given values } []

/-- An attribute has none of some values. -/
def attributeNotIn (name : String) (values : List String) : Condition :=
  mk .attributeNotIn { name, values := given values } []

/-- There is a child of a kind. -/
def hasChild (element : String) : Condition := mk .hasChild { element } []

/-- There is no child of a kind. -/
def missingChild (element : String) : Condition := mk .missingChild { element } []

/-- Compares the number of children of a kind. -/
def childCount (element : String) (comparison : Comparison) (count : Int) : Condition :=
  mk .childCount { element, comparison, count } []

/-- The parent is of a kind. -/
def parentIs (element : String) : Condition := mk .parentIs { element } []

/-- The parent is not of a kind. -/
def parentNot (element : String) : Condition := mk .parentNot { element } []

/-- The parent is of one of some kinds. -/
def parentIn (elements : List String) : Condition := mk .parentIn { elements := given elements } []

/-- The parent is of none of some kinds. -/
def parentNotIn (elements : List String) : Condition :=
  mk .parentNotIn { elements := given elements } []

/-- The element stands deeper than `count` levels. -/
def depthExceeds (count : Int) : Condition := mk .depthExceeds { count } []

/-- The text matches a pattern. -/
def textMatches (pattern : String) : Condition := mk .textMatches { pattern } []

/-- The text holds another. -/
def textContains (value : String) : Condition := mk .textContains { value } []

/-- All conditions hold. -/
def all (cs : List Condition) : Condition := mk .all {} cs

/-- One condition holds. -/
def any (cs : List Condition) : Condition := mk .any {} cs

/-- A condition does not hold. -/
def not (c : Condition) : Condition := mk .not {} [c]

mutual

/-- Every pattern in a condition, outer ones first. -/
def patterns : Condition → List String
  | mk p o cs => (if p.usesPattern then [o.pattern] else []) ++ patternsOf cs

/-- Every pattern in some conditions. -/
def patternsOf : List Condition → List String
  | [] => []
  | c :: cs => patterns c ++ patternsOf cs

end

/-- Some words with commas between them. -/
def listed (l : Option (List String)) : String := ", ".intercalate (l.getD [])

/-- The text of a predicate's operands, without those of combinations. -/
def operandText (p : Predicate) (o : Operands) : String :=
  match p with
  | .attributeMissing | .attributeExists => o.name
  | .attributeEquals | .attributeNotEquals => o.name ++ ", " ++ Quoted.quote o.value
  | .attributeMatches | .attributeNotMatches => o.name ++ ", /" ++ o.pattern ++ "/"
  | .attributeIn | .attributeNotIn => o.name ++ ", [" ++ listed o.values ++ "]"
  | .hasChild | .missingChild | .parentIs | .parentNot => o.element
  | .childCount => o.element ++ " " ++ o.comparison.symbol ++ " " ++ toString o.count
  | .parentIn | .parentNotIn => "[" ++ listed o.elements ++ "]"
  | .depthExceeds => toString o.count
  | .textMatches => "/" ++ o.pattern ++ "/"
  | .textContains => Quoted.quote o.value
  | _ => ""

mutual

/-- A condition as one line of text. -/
def text : Condition → String
  | mk p o cs =>
    match p with
    | .always | .never | .unknown _ => p.name
    | .all | .any | .not => p.name ++ "(" ++ ", ".intercalate (texts cs) ++ ")"
    | _ => p.name ++ "(" ++ operandText p o ++ ")"

/-- Some conditions as lines of text. -/
def texts : List Condition → List String
  | [] => []
  | c :: cs => text c :: texts cs

end

end Condition

end InstallerLint
