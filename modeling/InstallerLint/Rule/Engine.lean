import InstallerLint.Condition.Eval
import InstallerLint.Numbers
import InstallerLint.Rule.Basic
import InstallerLint.Tally

/-!
# The rule engine

Selects rules and asks them at every element of a document.

**Dispatch.**  The selected rules are grouped by the kind of element they name, so that an
element is asked only about rules that apply to it; rules for every kind come last.

**Counting.**  Statistics count every finding, also those that a limit cuts off.
-/

namespace InstallerLint

/-!
## Messages with placeholders

A message is read once from left to right into pieces: text, and names between double braces.
Names that are known are replaced by what they say of an element; others stay as written.
-/

namespace Message

/-- Two opening braces. -/
def opening : List Char := ['\x7b', '\x7b']

/-- Two closing braces. -/
def closing : List Char := ['\x7d', '\x7d']

/-- A piece of a message. -/
inductive Piece where
  | text (cs : List Char)
  | name (cs : List Char)
  deriving DecidableEq, Repr

/-- The pieces of a message. -/
def pieces (cs : List Char) : List Piece :=
  match h : Find.cut? opening cs with
  | none => [.text cs]
  | some (before, rest) =>
    match h' : Find.cut? closing rest with
    | none => [.text cs]
    | some (inside, after) =>
      have : after.length < cs.length := by
        have h1 := Find.length_of_cut? h
        have h2 := Find.length_of_cut? h'
        simp only [opening, closing, List.length_cons, List.length_nil] at h1 h2
        omega
      .text before :: .name inside :: pieces after
termination_by cs.length

/-- What a name says of an element. -/
def placeholder? (name : String) (d : Document) (id : Int) : Option String :=
  match name with
  | "kind" => some (d.kind id)
  | "parent" => some ((Condition.parentKind? d id).getD "(root)")
  | "id" => some (((d.attr? id "Id").orElse fun _ => d.attr? id "Name").getD "(unnamed)")
  | "children" => some (toString (d.children id).length)
  | "depth" => some (toString (d.depth id))
  | "text" => some (Blank.trim (d.text id))
  | _ =>
    match Find.stripFront? name "attribute.", Find.stripFront? name "children." with
    | some attr, _ => some (d.attr id attr)
    | none, some kind => some (toString (Condition.childCountOf d id kind))
    | none, none => none

/-- A piece as it is shown. -/
def Piece.show (d : Document) (id : Int) : Piece → String
  | .text cs => String.ofList cs
  | .name cs =>
    let written := String.ofList cs
    (placeholder? (Blank.trim written) d id).getD (String.ofList (opening ++ cs ++ closing))

/-- A message as it is shown for an element. -/
def render (template : String) (d : Document) (id : Int) : String :=
  String.join ((pieces template.toList).map (·.show d id))

end Message

/-!
## Asking rules

A selection says which rules count and at which level; an engine is those rules, grouped for asking.
-/

/-- What was looked at and found. -/
structure Stats where
  filesAnalyzed : Nat := 0
  /-- Questions asked: pairs of an element and a rule. -/
  rulesEvaluated : Nat := 0
  nodesChecked : Nat := 0
  bySeverity : Tally := []
  byRule : Tally := []
  deriving DecidableEq, Repr, Inhabited

namespace Stats

/-- Adds up two statistics. -/
def merge (a b : Stats) : Stats where
  filesAnalyzed := a.filesAnalyzed + b.filesAnalyzed
  rulesEvaluated := a.rulesEvaluated + b.rulesEvaluated
  nodesChecked := a.nodesChecked + b.nodesChecked
  bySeverity := a.bySeverity.merge b.bySeverity
  byRule := a.byRule.merge b.byRule

/-- Counts findings anew. -/
def recount (s : Stats) (ds : List Diagnostic) : Stats :=
  { s with
    bySeverity := Tally.ofNames (ds.map (·.severity.text))
    byRule := Tally.ofNames (ds.map (·.ruleId)) }

/-- A tally as an object, left out when it is empty. -/
def tallyJson (name : String) (t : Tally) : List (String × Json) :=
  if t.isEmpty then [] else [(name, t.toJson)]

/-- Statistics in saved form. -/
def toJson (s : Stats) : Json := .obj <|
  [("files_analyzed", .nat s.filesAnalyzed), ("rules_evaluated", .nat s.rulesEvaluated),
    ("nodes_checked", .nat s.nodesChecked)]
  ++ tallyJson "by_severity" s.bySeverity ++ tallyJson "by_rule" s.byRule

end Stats

/-- Which rules count and how. -/
structure Selection where
  minSeverity : Severity := .unset
  /-- Which rules are on; without an answer the rules decide. -/
  enabled : Option (String → Bool) := none
  /-- The categories that count; none means all. -/
  categories : List String := []
  /-- How many findings of a document are kept; zero or less means all. -/
  maxDiagnostics : Int := 0
  /-- Levels in place of those of the rules. -/
  severityOverride : String → Option Severity := fun _ => none

namespace Selection

/-- Whether a rule is on and in a category that counts. -/
def selects (s : Selection) (r : Rule) : Bool :=
  (match s.enabled with
    | some f => f r.id
    | none => r.isEnabled)
  && (s.categories.isEmpty || s.categories.contains r.category)

/-- The rule with the level that it has here, if it counts. -/
def admit? (s : Selection) (r : Rule) : Option Rule :=
  if s.selects r then
    let level := (s.severityOverride r.id).getD r.severity
    if level.atLeast s.minSeverity then some { r with severity := level } else none
  else none

/-- The first findings, as many as are kept. -/
def cap {α : Type} (max : Int) (l : List α) : List α := if max > 0 then l.take max.toNat else l

end Selection

/-- Rules ready to be asked. -/
structure Engine where
  /-- The rules that count, in order. -/
  active : List Rule
  byKind : List (String × List Rule)
  forAny : List Rule
  /-- How many findings of a document are kept. -/
  maxDiagnostics : Int

namespace Engine

/-- Adds a rule to the group of its kind. -/
def addTo (r : Rule) : List (String × List Rule) → List (String × List Rule)
  | [] => [(r.element, [r])]
  | (k, rs) :: rest => if k = r.element then (k, rs ++ [r]) :: rest else (k, rs) :: addTo r rest

/-- Groups rules by kind. -/
def group (rules : List Rule) : List (String × List Rule) :=
  (rules.filter (·.element ≠ Rule.anyElement)).foldl (fun g r => addTo r g) []

/-- Selects and groups rules. -/
def new (rules : List Rule) (s : Selection) : Engine :=
  let active := rules.filterMap s.admit?
  ⟨active, group active, active.filter (·.element = Rule.anyElement), s.maxDiagnostics⟩

/-- The rules that apply to a kind, those for it alone first. -/
def rulesFor (e : Engine) (kind : String) : List Rule := (e.byKind.lookup kind).getD [] ++ e.forAny

/-- The finding of a rule at an element. -/
def finding (r : Rule) (d : Document) (id : Nat) : Diagnostic where
  ruleId := r.id
  severity := r.severity
  category := r.category
  message := Message.render r.message d id
  location := d.location id
  help := r.help
  fix := r.fix
  related := []
  tags := r.tags
  effortMinutes := r.effortMinutes
  docUrl := r.docUrl

/-- Asks rules at an element. -/
def ask (d : Document) (id : Nat) : List Rule → Memo → List Diagnostic × Memo
  | [], m => ([], m)
  | r :: rs, m =>
    let (b, m) := r.condition.eval d id m
    let (ds, m) := ask d id rs m
    (if b then finding r d id :: ds else ds, m)

/-- Asks the rules at elements. -/
def askAll (e : Engine) (d : Document) : List Nat → Memo → List Diagnostic × Memo
  | [], m => ([], m)
  | id :: ids, m =>
    let (ds, m) := ask d id (e.rulesFor (d.kind id)) m
    let (more, m) := askAll e d ids m
    (ds ++ more, m)

/-- All findings in a document, in their listed order, with statistics. -/
def evaluate (e : Engine) (d : Document) (m : Memo) : List Diagnostic × Stats × Memo :=
  let (found, m) := e.askAll d d.ids m
  let stats : Stats := {
    filesAnalyzed := 1
    rulesEvaluated := Numbers.total (d.ids.map fun (id : Nat) => (e.rulesFor (d.kind id)).length)
    nodesChecked := d.ids.length }
  (Selection.cap e.maxDiagnostics (Diagnostic.sort found), stats.recount found, m)

end Engine

end InstallerLint
