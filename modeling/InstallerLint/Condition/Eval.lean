import InstallerLint.Condition.Basic
import InstallerLint.Document.Basic
import InstallerLint.Pattern.Parse
import InstallerLint.Text.Find

/-!
# Whether a condition holds

`eval` decides a condition at an element.  It reads each pattern once and keeps the result in a
`Memo`; a pattern that cannot be read matches nothing, and its negation does not hold either.
-/

namespace InstallerLint

/-- The patterns read so far; none stands for a pattern that cannot be read. -/
abbrev Memo := List (String × Option Pattern)

namespace Memo

/-- The pattern of a text, read if it is new. -/
def pattern (m : Memo) (text : String) : Option Pattern × Memo :=
  match m.lookup text with
  | some p => (p, m)
  | none =>
    let p := Pattern.parse? text
    (p, (text, p) :: m)

end Memo

namespace Condition

/-- How many children of a kind an element has. -/
def childCountOf (d : Document) (id : Int) (kind : String) : Nat :=
  ((d.children id).filter fun (c : Nat) => d.kind c = kind).length

/-- The kind of the parent. -/
def parentKind? (d : Document) (id : Int) : Option String := (d.parent? id).map fun p => d.kind p

/-- Decides predicates that need neither patterns nor other conditions. -/
def holdsPlain (p : Predicate) (o : Operands) (d : Document) (id : Int) : Bool :=
  match p with
  | .always => true
  | .attributeMissing => (d.attr? id o.name).isNone
  | .attributeExists => (d.attr? id o.name).isSome
  | .attributeEquals => d.attr? id o.name == some o.value
  | .attributeNotEquals => d.attr? id o.name != some o.value
  | .attributeIn => (d.attr? id o.name).any (o.values.getD []).contains
  | .attributeNotIn => !(d.attr? id o.name).any (o.values.getD []).contains
  | .hasChild => 0 < childCountOf d id o.element
  | .missingChild => childCountOf d id o.element == 0
  | .childCount => o.comparison.holds (childCountOf d id o.element) o.count
  | .parentIs => parentKind? d id == some o.element
  | .parentNot => parentKind? d id != some o.element
  | .parentIn => (parentKind? d id).any (o.elements.getD []).contains
  | .parentNotIn => !(parentKind? d id).any (o.elements.getD []).contains
  | .depthExceeds => decide (o.count < d.depth id)
  | .textContains => Find.isIn o.value (d.text id)
  | _ => false

mutual

/-- Whether a condition holds at an element, and the patterns read by then. -/
def eval (d : Document) (id : Int) : Condition → Memo → Bool × Memo
  | mk p o cs, m =>
    match p with
    | .attributeMatches =>
      match d.attr? id o.name with
      | none => (false, m)
      | some v =>
        let (rx, m) := m.pattern o.pattern
        (rx.any (·.isMatch v), m)
    | .attributeNotMatches =>
      match d.attr? id o.name with
      | none => (true, m)
      | some v =>
        let (rx, m) := m.pattern o.pattern
        (rx.any fun r => !r.isMatch v, m)
    | .textMatches =>
      let (rx, m) := m.pattern o.pattern
      (rx.any (·.isMatch (d.text id)), m)
    | .all => evalAll d id cs m
    | .any => evalAny d id cs m
    | .not =>
      let (b, m') := evalLone d id cs m
      (b.any (!·), m')
    | p => (holdsPlain p o d id, m)

/-- Whether all conditions hold, asked in order up to the first that does not. -/
def evalAll (d : Document) (id : Int) : List Condition → Memo → Bool × Memo
  | [], m => (true, m)
  | c :: cs, m =>
    let (b, m) := eval d id c m
    if b then evalAll d id cs m else (false, m)

/-- Whether some condition holds, asked in order up to the first that does. -/
def evalAny (d : Document) (id : Int) : List Condition → Memo → Bool × Memo
  | [], m => (false, m)
  | c :: cs, m =>
    let (b, m) := eval d id c m
    if b then (true, m) else evalAny d id cs m

/-- The answer of the only condition in a list. -/
def evalLone (d : Document) (id : Int) : List Condition → Memo → Option Bool × Memo
  | [c], m =>
    let (b, m) := eval d id c m
    (some b, m)
  | _, m => (none, m)

end

end Condition

end InstallerLint
