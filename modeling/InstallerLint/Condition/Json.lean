import InstallerLint.Condition.Basic
import InstallerLint.Json.Basic

/-!
# Conditions in saved form

Every operand is written, also those that a predicate does not use, so that two conditions with
one saved form are equal.

**Calls.**  A shorter form is a list: the name of a predicate and then its operands, in the order
of the constructor of that name.
-/

namespace InstallerLint

namespace Operands

/-- A list that may be missing. -/
def listJson : Option (List String) → Json
  | none => .null
  | some l => .strs l

/-- The texts in a list. -/
def texts (l : List Json) : List String := l.map fun x => x.str?.getD ""

/-- A list that may be missing, read back. -/
def listOf (j : Json) : Option (List String) := if j.isNull then none else some (texts j.items)

/-- Operands in saved form. -/
def members (o : Operands) : List (String × Json) := [
  ("Name", .str o.name), ("Value", .str o.value), ("Values", listJson o.values),
  ("Pattern", .str o.pattern), ("Element", .str o.element), ("Elements", listJson o.elements),
  ("Compare", .int o.comparison.number), ("Count", .int o.count)]

/-- Reads operands. -/
def ofJson (j : Json) : Operands where
  name := (j.get "Name").str?.getD ""
  value := (j.get "Value").str?.getD ""
  values := listOf (j.get "Values")
  pattern := (j.get "Pattern").str?.getD ""
  element := (j.get "Element").str?.getD ""
  elements := listOf (j.get "Elements")
  comparison := .ofNumber ((j.get "Compare").int?.getD 0)
  count := (j.get "Count").int?.getD 0

end Operands

namespace Condition

/-- The saved forms of the conditions that a predicate combines; only a combination of none is an
empty list, for other predicates there is no list. -/
def partsJson (p : Predicate) (js : List Json) : Json :=
  if js.isEmpty && p != .all && p != .any then .null else .arr js

mutual

/-- A condition in saved form. -/
def toJson : Condition → Json
  | mk p o cs => .obj (("Op", .int p.number) ::
      (o.members ++ [("Children", partsJson p (listToJson cs))]))

/-- Conditions in saved form. -/
def listToJson : List Condition → List Json
  | [] => []
  | c :: cs => toJson c :: listToJson cs

end

/-- Reads a condition of at most some depth. -/
def ofJsonDepth : Nat → Json → Condition
  | 0, _ => always
  | depth + 1, j => mk (.ofNumber ((j.get "Op").int?.getD 0)) (Operands.ofJson j)
      ((j.get "Children").items.map (ofJsonDepth depth))

/-- Reads a condition. -/
def ofJson (j : Json) : Condition := ofJsonDepth j.depth j

/-- The condition of a predicate that has no parts, with operands in their order. -/
def plainCall (p : Predicate) (args : List Json) : Condition :=
  let a := (Operands.texts args)[0]?.getD ""
  let b := (Operands.texts args)[1]?.getD ""
  let number (k : Nat) : Int := (args[k]?.bind (·.int?)).getD 0
  match p with
  | .never => never
  | .attributeMissing => attributeMissing a
  | .attributeExists => attributeExists a
  | .attributeEquals => attributeEquals a b
  | .attributeNotEquals => attributeNotEquals a b
  | .attributeMatches => attributeMatches a b
  | .attributeNotMatches => attributeNotMatches a b
  | .attributeIn => attributeIn a (Operands.texts (args.drop 1))
  | .attributeNotIn => attributeNotIn a (Operands.texts (args.drop 1))
  | .hasChild => hasChild a
  | .missingChild => missingChild a
  | .childCount => childCount a (.ofNumber (number 1)) (number 2)
  | .parentIs => parentIs a
  | .parentNot => parentNot a
  | .parentIn => parentIn (Operands.texts args)
  | .parentNotIn => parentNotIn (Operands.texts args)
  | .depthExceeds => depthExceeds (number 0)
  | .textMatches => textMatches a
  | .textContains => textContains a
  | _ => always

/-- Reads a call of at most some depth. -/
def ofCallDepth : Nat → Json → Condition
  | 0, _ => always
  | depth + 1, j =>
    match Predicate.ofName? ((j.items.head?.bind (·.str?)).getD "") with
    | some .all => all (j.items.tail.map (ofCallDepth depth))
    | some .any => any (j.items.tail.map (ofCallDepth depth))
    | some .not => not ((j.items.tail.head?.map (ofCallDepth depth)).getD always)
    | some p => plainCall p j.items.tail
    | none => always

/-- Reads a call. -/
def ofCall (j : Json) : Condition := ofCallDepth j.depth j

end Condition

end InstallerLint
