import InstallerLint.Condition.Basic
import InstallerLint.Json.Basic
import InstallerLint.Yaml.Decode

/-!
# Conditions in rule files

A condition is written as a mapping with one key, the predicate's name, or as one of the words
`always` and `never`.  A predicate with a single operand may take it as a bare scalar.

`Condition.ofYaml` reads the form and `Condition.toYaml?` writes it.

**Null.**  What is tagged as null is not read in this form.  A null gives no condition; a mapping
with the tag is read field by field, and nothing is asked of its fields.
-/

namespace InstallerLint
namespace Condition

open Yaml (DataTree Decode)

/-- Operands of the general form. -/
structure Given where
  name : String := ""
  value : String := ""
  values : Option (List String) := none
  pattern : String := ""
  element : String := ""
  elements : Option (List String) := none
  substring : String := ""
  max : Option Int := none

/-- A list of texts. -/
def textList (n : DataTree) : Decode (Option (List String)) := Decode.list "[]string" Decode.text n

/-- Sets one operand of the general form. -/
def givenField (g : Given) (name : String) (n : DataTree) : Option (Decode Given) :=
  match name with
  | "name" => some ((Decode.text n).map fun v => { g with name := v.getD g.name })
  | "value" => some ((Decode.text n).map fun v => { g with value := v.getD g.value })
  | "values" => some ((textList n).map fun v => { g with values := v })
  | "pattern" => some ((Decode.text n).map fun v => { g with pattern := v.getD g.pattern })
  | "element" => some ((Decode.text n).map fun v => { g with element := v.getD g.element })
  | "elements" => some ((textList n).map fun v => { g with elements := v })
  | "substring" => some ((Decode.text n).map fun v => { g with substring := v.getD g.substring })
  | "max" => some ((Decode.int n).map fun v => { g with max := v })
  | _ => none

/-- Operands of a count of children. -/
structure CountGiven where
  element : String := ""
  op : String := ""
  value : Int := 0

/-- Sets one operand of a count of children. -/
def countField (g : CountGiven) (name : String) (n : DataTree) : Option (Decode CountGiven) :=
  match name with
  | "element" => some ((Decode.text n).map fun v => { g with element := v.getD g.element })
  | "op" => some ((Decode.text n).map fun v => { g with op := v.getD g.op })
  | "value" => some ((Decode.int n).map fun v => { g with value := v.getD g.value })
  | _ => none

/-- The general form of operands; issues leave none. -/
def givenOf (n : DataTree) : Decode (Option Given) :=
  Decode.nested ((Decode.record "condition.operands" false {} givenField n).map (·.getD {}))

/-- An integer in plain decimal digits, possibly with a sign, of 64 bits. -/
def decimalInt? (s : String) : Option Int :=
  let (negative, digits) := match s.toList with
    | '-' :: cs => (true, cs)
    | '+' :: cs => (false, cs)
    | cs => (false, cs)
  (Json.digits? digits).bind fun n =>
    let v : Int := if negative then -n else n
    if Decode.isInt64 v then some v else none

/-- The operands that a bare scalar stands for. -/
def bareOperand? (p : Predicate) (s : String) : Option Given :=
  match p with
  | .attributeMissing | .attributeExists => some { name := s }
  | .hasChild | .missingChild | .parentIs | .parentNot => some { element := s }
  | .textMatches => some { pattern := s }
  | .textContains => some { substring := s }
  | _ => none

/-- Which operand a predicate lacks. -/
def lacking? (p : Predicate) (o : Operands) : Option String :=
  match p with
  | .attributeMissing | .attributeExists | .attributeEquals | .attributeNotEquals | .attributeIn
  | .attributeNotIn => if o.name = "" then some "name" else none
  | .attributeMatches | .attributeNotMatches =>
    if o.name = "" then some "name" else if o.pattern = "" then some "pattern" else none
  | .hasChild | .missingChild | .parentIs | .parentNot =>
    if o.element = "" then some "element" else none
  | .parentIn | .parentNotIn => if (o.elements.getD []).isEmpty then some "elements" else none
  | .textMatches => if o.pattern = "" then some "pattern" else none
  | _ => none

/-- The condition of a predicate with operands of the general form. -/
def ofGiven (p : Predicate) (n : DataTree) (g : Given) : Decode Condition :=
  let o : Operands := {
    name := g.name, value := g.value, values := g.values
    pattern := g.pattern, element := g.element, elements := g.elements }
  let o := if p = .textContains then
      { o with value := if g.substring = "" then g.value else g.substring } else o
  match lacking? p o with
  | some what => Decode.reject n.line (p.name ++ " requires " ++ what)
  | none => pure (mk p o [])

/-- Reads a predicate with the general form of operands. -/
def ofOperands (p : Predicate) (n : DataTree) : Decode (Option Condition) := do
  match n with
  | .scalar _ _ s =>
    match bareOperand? p s with
    | some g => some <$> ofGiven p n g
    | none => Decode.reject n.line (p.name ++ " expects a mapping")
  | .list .. =>
    if p = .parentIn || p = .parentNotIn then
      match ← Decode.nested (textList n) with
      | some elements => some <$> ofGiven p n { elements }
      | none => pure none
    else
      match ← givenOf n with
      | some g => some <$> ofGiven p n g
      | none => pure none
  | _ =>
    match ← givenOf n with
    | some g => some <$> ofGiven p n g
    | none => pure none

/-- Reads a count of children. -/
def countOf (n : DataTree) : Decode (Option Condition) := do
  match ← Decode.nested ((Decode.record "condition.countOperands" false {} countField n).map
      (·.getD {})) with
  | none => pure none
  | some g =>
    match Comparison.parse? g.op with
    | none => Decode.reject n.line (Comparison.unknownMessage g.op)
    | some c =>
      if g.element = "" then Decode.reject n.line "child_count requires element"
      else pure (some (childCount g.element c g.value))

/-- Reads a bound of the depth. -/
def depthOf (n : DataTree) : Decode (Option Condition) := do
  match n with
  | .scalar _ _ s =>
    match decimalInt? s with
    | some v => pure (some (depthExceeds v))
    | none => Decode.reject n.line "depth_exceeds expects an integer"
  | _ =>
    match ← givenOf n with
    | none => pure none
    | some g =>
      match g.max with
      | some v => pure (some (depthExceeds v))
      | none => Decode.reject n.line "depth_exceeds requires max"

/-- The wording for a word that is no predicate. -/
def unknownMessage (s : String) : String := "unknown condition " ++ Quoted.quote s

section Form

variable (item : DataTree → Decode (Option Condition))

/-- Reads the conditions that a predicate combines; what gives none is left out. -/
def ofParts (p : Predicate) : DataTree → Decode (Option Condition)
  | .list _ _ items => do
    match ← Decode.nested (Decode.collect item items) with
    | none => pure none
    | some cs => pure (some (mk p {} cs))
  | n => Decode.reject n.line (p.name ++ " expects a list of conditions")

/-- Reads the condition that is negated; null stands for one that always holds. -/
def ofNegated (n : DataTree) : Decode (Option Condition) := do
  match ← Decode.nested (item n) with
  | none => pure none
  | some c => pure (some (not (c.getD always)))

/-- Reads the form of conditions; `item` reads the conditions inside. -/
def ofForm : DataTree → Decode (Option Condition)
  | .reference _ name _ => Decode.fault (.selfAnchor name)
  | .scalar line _ s =>
    if s = "always" then pure (some always)
    else if s = "never" then pure (some never)
    else Decode.reject line (unknownMessage s)
  | .list line .. => Decode.reject line "condition must be a mapping or always/never"
  | .mapping _ _ [(key, value)] =>
    match Predicate.ofName? key.text with
    | none => Decode.reject key.line (unknownMessage key.text)
    | some .always => pure (some always)
    | some .never => pure (some never)
    | some .all => ofParts item .all value
    | some .any => ofParts item .any value
    | some .not => ofNegated item value
    | some .childCount => countOf value
    | some .depthExceeds => depthOf value
    | some p => ofOperands p value
  | .mapping line _ entries =>
    Decode.reject line ("condition must have exactly one key, got " ++ toString entries.length)

/-- Sets one field of a condition that is given field by field.  Nothing is asked of the fields: a
predicate may lack its operands or be a number without a meaning. -/
def fieldOf : Condition → String → DataTree → Option (Decode Condition)
  | mk p o cs, name, n =>
    match name with
    | "op" => some ((Decode.number "condition.Op" n).map fun v => mk ((v.map .ofNumber).getD p) o cs)
    | "name" => some ((Decode.text n).map fun v => mk p { o with name := v.getD o.name } cs)
    | "value" => some ((Decode.text n).map fun v => mk p { o with value := v.getD o.value } cs)
    | "values" => some ((textList n).map fun v => mk p { o with values := v } cs)
    | "pattern" => some ((Decode.text n).map fun v => mk p { o with pattern := v.getD o.pattern } cs)
    | "element" => some ((Decode.text n).map fun v => mk p { o with element := v.getD o.element } cs)
    | "elements" => some ((textList n).map fun v => mk p { o with elements := v } cs)
    | "compare" => some ((Decode.number "condition.CompareOp" n).map fun v =>
        mk p { o with comparison := (v.map .ofNumber).getD o.comparison } cs)
    | "count" => some ((Decode.int n).map fun v => mk p { o with count := v.getD o.count } cs)
    | "children" => some ((Decode.list "[]condition.Condition" item n).map fun v => mk p o (v.getD cs))
    | _ => none

end Form

/-- The tag of null. -/
def nullTag : String := "!!null"

/-- Reads a condition at most `depth` levels deep.  A tree with the tag of null does not get to the
form: a null gives no condition, and a mapping gives its fields. -/
def ofLevels : (depth : Nat) → (strict : Bool) → DataTree → Decode (Option Condition)
  | 0, _, _ => pure none
  | depth + 1, strict, n => do
    let n ← Decode.deref n
    if n.tag = nullTag then
      Decode.record "condition.Condition" strict always (fieldOf (ofLevels depth strict)) n
    else ofForm (ofLevels depth false) n

/-- Reads a condition; a null tree gives none. -/
def ofYaml (strict : Bool) (n : DataTree) : Decode (Option Condition) := ofLevels n.depth strict n

/-- An operand that is written only if it is given. -/
def optText (name s : String) : List (String × Json) := if s = "" then [] else [(name, .str s)]

/-- A list that is written only if it is given. -/
def optList (name : String) : Option (List String) → List (String × Json)
  | none => []
  | some l => [(name, .strs l)]

/-- The operands of the general form. -/
def operandsToYaml (p : Predicate) (o : Operands) : Json := .obj <|
  optText "name" o.name
  ++ (match p with
    | .attributeEquals | .attributeNotEquals => [("value", .str o.value)]
    | .textContains => [("substring", .str o.value)]
    | _ => [])
  ++ optList "values" o.values ++ optText "pattern" o.pattern ++ optText "element" o.element
  ++ optList "elements" o.elements

mutual

/-- The written form of a condition; none if a negation does not have exactly one part. -/
def toYaml? : Condition → Option Json
  | mk p o cs =>
    match p with
    | .always | .never => some (.str p.name)
    | .all | .any => (toYamls? cs).map fun js => .obj [(p.name, .arr js)]
    | .not =>
      match cs with
      | [c] => (toYaml? c).map fun j => .obj [("not", j)]
      | _ => none
    | .childCount => some (.obj [("child_count", .obj [("element", .str o.element),
        ("op", .str o.comparison.symbol), ("value", .int o.count)])])
    | .depthExceeds => some (.obj [("depth_exceeds", .obj [("max", .int o.count)])])
    | p => some (.obj [(p.name, operandsToYaml p o)])

/-- The written forms of some conditions. -/
def toYamls? : List Condition → Option (List Json)
  | [] => some []
  | c :: cs =>
    match toYaml? c, toYamls? cs with
    | some j, some js => some (j :: js)
    | _, _ => none

end

/-- The wording for a negation without exactly one part. -/
def lonePartMessage : String := "not requires exactly one condition"

/-- Reads a condition from a text; a text without one always holds. -/
def parseYaml (source : Bytes) : Except Yaml.Error Condition :=
  Yaml.decode source always (ofYaml false)

end Condition
end InstallerLint
