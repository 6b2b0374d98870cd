import InstallerLint.Condition.Yaml
import InstallerLint.Rule.Basic
import InstallerLint.Rule.Validate

/-!
# Rule files

A rule file is a YAML text.  It is decoded into rules as written, the rules are checked, and the
ones that pass get their defaults.
-/

namespace InstallerLint

open Yaml (DataTree Decode)

/-- A rule as written. -/
structure WrittenRule where
  rule : Rule
  /-- The severity, empty if not given. -/
  severity : String := ""
  /-- The category, empty if not given. -/
  category : String := ""

/-- A rule file as written. -/
structure WrittenRules where
  /-- Name, version and description. -/
  header : RuleSet := {}
  rules : List WrittenRule := []

namespace WrittenRule

/-- A rule of which nothing is given. -/
def blank : WrittenRule := { rule := { id := "", element := "", message := "" } }

/-- Sets a text. -/
def setText {ρ : Type} (n : DataTree) (set : String → ρ) (old : ρ) : Option (Decode ρ) :=
  some ((Decode.text n).map fun v => (v.map set).getD old)

/-- Sets a part of an attribute. -/
def attributeField (a : Attribute) (name : String) (n : DataTree) : Option (Decode Attribute) :=
  match name with
  | "name" => setText n (fun v => { a with name := v }) a
  | "value" => setText n (fun v => { a with value := v }) a
  | _ => none

/-- Reads an attribute. -/
def attributeOf (n : DataTree) : Decode (Option Attribute) :=
  Decode.record "diag.Attr" true ⟨"", ""⟩ attributeField n

/-- Sets a part of a remedy's edit. -/
def actionField (a : FixAction) (name : String) (n : DataTree) : Option (Decode FixAction) :=
  match name with
  | "kind" => setText n (fun v => { a with kind := v }) a
  | "name" => setText n (fun v => { a with name := v }) a
  | "value" => setText n (fun v => { a with value := v }) a
  | "element" => setText n (fun v => { a with element := v }) a
  | "attributes" => some ((Decode.list "[]diag.Attr" attributeOf n).map fun v =>
      { a with attributes := v.getD a.attributes })
  | "position" => setText n (fun v => { a with position := v }) a
  | _ => none

/-- Sets a part of a remedy. -/
def fixField (f : Fix) (name : String) (n : DataTree) : Option (Decode Fix) :=
  match name with
  | "description" => setText n (fun v => { f with description := v }) f
  | "action" => some ((Decode.record "diag.FixAction" true f.action actionField n).map fun v =>
      { f with action := v.getD f.action })
  | _ => none

/-- A remedy of which nothing is given. -/
def blankFix : Fix := ⟨"", ⟨"", "", "", "", [], ""⟩⟩

/-- Sets a part of a rule. -/
def field (w : WrittenRule) (name : String) (n : DataTree) : Option (Decode WrittenRule) :=
  let r := w.rule
  match name with
  | "id" => setText n (fun v => { w with rule := { r with id := v } }) w
  | "name" => setText n (fun v => { w with rule := { r with name := v } }) w
  | "description" => setText n (fun v => { w with rule := { r with description := v } }) w
  | "severity" => setText n (fun v => { w with severity := v }) w
  | "category" => setText n (fun v => { w with category := v }) w
  | "element" => setText n (fun v => { w with rule := { r with element := v } }) w
  | "condition" => some ((Condition.ofYaml true n).map fun v =>
      { w with rule := { r with condition := v.getD r.condition } })
  | "message" => setText n (fun v => { w with rule := { r with message := v } }) w
  | "help" => setText n (fun v => { w with rule := { r with help := v } }) w
  | "fix" => some ((Decode.record "diag.Fix" true blankFix fixField n).map fun v =>
      { w with rule := { r with fix := v } })
  | "tags" => some ((Condition.textList n).map fun v =>
      { w with rule := { r with tags := v.getD r.tags } })
  | "enabled" => some ((Decode.bool n).map fun v => { w with rule := { r with enabled := v } })
  | "effort_minutes" => some ((Decode.int n).map fun v =>
      { w with rule := { r with effortMinutes := v.getD r.effortMinutes } })
  | "doc_url" => setText n (fun v => { w with rule := { r with docUrl := v } }) w
  | _ => none

/-- Reads a rule. -/
def ofYaml (n : DataTree) : Decode (Option WrittenRule) :=
  Decode.record "rules.rawRule" true blank field n

/-- What is checked of a rule. -/
def spec (index : Nat) (w : WrittenRule) : RuleSpec :=
  ⟨index, w.rule.id, w.rule.element, w.severity, w.category, w.rule.message,
    w.rule.condition.patterns⟩

/-- The rule with its defaults. -/
def finished (w : WrittenRule) : Rule :=
  { w.rule with
    id := Blank.trim w.rule.id
    severity := if w.severity = "" then .medium else (Severity.parse? w.severity).getD .unset
    category := if w.category = "" then "best-practice" else w.category }

end WrittenRule

namespace WrittenRules

/-- Sets a part of a rule file. -/
def field (w : WrittenRules) (name : String) (n : DataTree) : Option (Decode WrittenRules) :=
  match name with
  | "name" => WrittenRule.setText n (fun v => { w with header := { w.header with name := v } }) w
  | "version" =>
    WrittenRule.setText n (fun v => { w with header := { w.header with version := v } }) w
  | "description" =>
    WrittenRule.setText n (fun v => { w with header := { w.header with description := v } }) w
  | "rules" => some ((Decode.list "[]rules.rawRule" WrittenRule.ofYaml n).map fun v =>
      { w with rules := v.getD w.rules })
  | _ => none

/-- Reads a rule file. -/
def ofYaml (n : DataTree) : Decode (Option WrittenRules) :=
  Decode.record "rules.rawRuleSet" true {} field n

/-- What is checked of each rule. -/
def specs (w : WrittenRules) : List RuleSpec := w.rules.mapIdx fun i r => r.spec i

end WrittenRules

/-- Why a rule file does not load. -/
inductive LoadError where
  /-- The file cannot be read from the disk. -/
  | unreadable (path cause : String)
  /-- It is not written as a rule file. -/
  | decode (source : String) (cause : Yaml.Error)
  | invalid (source : String) (problems : List (RuleSpec × RuleProblem))
  /-- Its patterns cannot be read, and that is not allowed. -/
  | patterns (source : String) (warnings : List String)

namespace LoadError

/-- The wording of an error before its cause. -/
def about : LoadError → String
  | unreadable path _ => "rules: read " ++ path ++ ": "
  | decode source _ => "rules: decode " ++ source ++ ": "
  | invalid source _ => "rules: invalid rule set " ++ source ++ ":\n"
  | patterns source _ => "rules: invalid patterns in " ++ source ++ ":\n"

/-- The cause. -/
def cause : LoadError → String
  | unreadable _ c => c
  | decode _ e => e.message
  | invalid _ ps => "\n".intercalate (ps.map RuleSpec.problemText)
  | patterns _ ws => "\n".intercalate ws

/-- The wording of an error. -/
def message (e : LoadError) : String := e.about ++ e.cause

end LoadError

/-- Loaded rules and the warnings about their patterns. -/
structure Loaded where
  set : RuleSet
  warnings : List String

namespace RuleSet

/-- How an unnamed source is called. -/
def sourceName (source : String) : String := if source = "" then "<input>" else source

/-- Loads checked rules. -/
def ofWritten (w : WrittenRules) (strict : Bool) (source : String) : Except LoadError Loaded :=
  match RuleSpec.problems w.specs, RuleSpec.warnings w.specs with
  | [], warnings =>
    if strict && !warnings.isEmpty then .error (.patterns source warnings)
    else .ok ⟨{ w.header with rules := w.rules.map (·.finished) }, warnings⟩
  | problems, _ => .error (.invalid source problems)

/-- Loads the text of a rule file. -/
def load (text : Bytes) (strict : Bool) (source : String) : Except LoadError Loaded :=
  let source := sourceName source
  match Yaml.decode text {} WrittenRules.ofYaml with
  | .error e => .error (.decode source e)
  | .ok w => ofWritten w strict source

end RuleSet

end InstallerLint
