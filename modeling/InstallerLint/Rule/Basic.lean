import InstallerLint.Condition.Basic
import InstallerLint.Diagnostic.Json

/-!
# Rules

A rule names a kind of element, a condition and what to say where it holds.
-/

namespace InstallerLint

/-- One unit of analysis policy. -/
structure Rule where
  id : String
  name : String := ""
  description : String := ""
  severity : Severity := .medium
  category : String := "best-practice"
  /-- The kind of element it applies to. -/
  element : String
  /-- When it raises a finding. -/
  condition : Condition := .always
  /-- What a finding says, with placeholders. -/
  message : String
  help : String := ""
  fix : Option Fix := none
  tags : List String := []
  /-- Whether it is on, if it says so. -/
  enabled : Option Bool := none
  effortMinutes : Int := 0
  docUrl : String := ""
  deriving Inhabited, Repr

/-- A named collection of rules. -/
structure RuleSet where
  name : String := ""
  version : String := ""
  description : String := ""
  rules : List Rule := []
  deriving Inhabited, Repr

namespace Rule

/-- The element that stands for all kinds. -/
def anyElement : String := "*"

/-- Whether a rule is on unless something else is said. -/
def isEnabled (r : Rule) : Bool := r.enabled.getD true

/-- Whether a rule applies to elements of a kind. -/
def targets (r : Rule) (kind : String) : Bool := r.element = anyElement || r.element = kind

/-- A rule without its condition. -/
def toJson (r : Rule) : Json := .obj <|
  [("id", .str r.id)] ++ Json.optStr "name" r.name ++ Json.optStr "description" r.description
  ++ [("severity", .str r.severity.text)] ++ Json.optStr "category" r.category
  ++ [("element", .str r.element), ("message", .str r.message)] ++ Json.optStr "help" r.help
  ++ (match r.fix with
    | some f => [("fix", f.toJson)]
    | none => [])
  ++ (if r.tags.isEmpty then [] else [("tags", .strs r.tags)])
  ++ (match r.enabled with
    | some b => [("enabled", .bool b)]
    | none => [])
  ++ (if r.effortMinutes = 0 then [] else [("effort_minutes", .int r.effortMinutes)])
  ++ Json.optStr "doc_url" r.docUrl

/-- A rule with its condition in words, and whether it is on. -/
def toFullJson (r : Rule) : Json := .obj (r.toJson.members ++
  [("condition", .str r.condition.text), ("is_enabled", .bool r.isEnabled)])

end Rule

/-- The saved form of a collection. -/
def RuleSet.toJson (s : RuleSet) : Json := .obj [("name", .str s.name), ("version", .str s.version),
  ("description", .str s.description), ("rules", .arr (s.rules.map (·.toFullJson)))]

end InstallerLint
