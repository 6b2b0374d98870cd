import InstallerLint.Dependency.Extract
import InstallerLint.Symbol.Index
import InstallerLint.Document.Parse
import InstallerLint.Text.Find

/-!
# Built-in checks

Checks that look further than one element: at the symbols of the whole project or at the
dependencies of a document.  Each has an id, a level and a category, as a rule has.

- `unresolved` refers to every reference that nothing defines.
- `duplicates` refers to the second definition of an id.
- `orphans` refers to every component that no feature takes up.
- `circular` refers to every cycle of dependencies.
-/

namespace InstallerLint

/-- The built-in checks. -/
inductive Check where
  | malformed
  | unresolved
  | duplicate
  /-- A component belongs to no feature. -/
  | orphan
  | circular
  deriving DecidableEq, Repr, Inhabited

namespace Check

/-- All checks. -/
def all : List Check := [malformed, unresolved, duplicate, orphan, circular]

/-- The id of a check. -/
def id : Check → String
  | malformed => "PARSE-001"
  | unresolved => "VAL-REF-001"
  | duplicate => "VAL-DUP-001"
  | orphan => "DEAD-003"
  | circular => "DEP-001"

/-- The name of a check. -/
def name : Check → String
  | malformed => "Malformed XML"
  | unresolved => "Unresolved reference"
  | duplicate => "Duplicate definition"
  | orphan => "Component not in any Feature"
  | circular => "Circular dependency"

/-- The level of a check's findings. -/
def severity : Check → Severity
  | malformed => .blocker
  | _ => .high

/-- The category of a check. -/
def category : Check → String
  | orphan => "dead-code"
  | _ => "validation"

/-- Advice. -/
def help : Check → String
  | malformed => "Fix the XML syntax error; no other check can run on this file"
  | unresolved => ""
  | duplicate => "Ids must be unique per element type across the whole project"
  | orphan => "Components must be referenced by a Feature to be installed"
  | circular => "Break the cycle in the After/Before ordering"

/-- A check in saved form. -/
def toJson (c : Check) : Json := .obj [("id", .str c.id), ("name", .str c.name),
  ("severity", .str c.severity.text), ("category", .str c.category), ("help", .str c.help)]

/-- A finding of a check. -/
def finding (c : Check) (level : Severity) (message : String) (location : Location) : Diagnostic where
  ruleId := c.id
  severity := level
  category := c.category
  message := message
  location := location
  help := c.help
  fix := none
  related := []
  tags := []
  effortMinutes := 0
  docUrl := ""

/-- The kind of element that a reference asks for, in words. -/
def wanted (kind : String) : String := Find.stripBack kind "Ref"

/-- The finding at a reference that nothing defines. -/
def unresolved? (level : Severity) (d : Document) (r : Resolver) (id : Nat) : Option Diagnostic :=
  let kind := d.kind id
  let target := d.attr id "Id"
  if SymbolKind.isReference kind && target ≠ "" && !r.isDefined kind target then
    some { finding .unresolved level
        ("No " ++ wanted kind ++ " found with Id '" ++ target ++ "'") (d.location id) with
      help := "Ensure a " ++ wanted kind ++ " with Id='" ++ target
        ++ "' is defined in this file or an included file" }
  else none

/-- All references that nothing defines. -/
def unresolvedIn (level : Severity) (d : Document) (r : Resolver) : List Diagnostic :=
  d.ids.filterMap (unresolved? level d r)

/-- Kinds that may be declared in many places. -/
def repeatable : List String := ["StandardDirectory", "Fragment"]

/-- The finding at the second of two definitions. -/
def duplicate? (level : Severity) (file : String) (p : Duplicate) : Option Diagnostic :=
  if p.second.location.file = file && !repeatable.contains p.first.kind
      && !repeatable.contains p.second.kind then
    some { finding .duplicate level
        ("Duplicate " ++ p.second.kind ++ " definition '" ++ p.second.id ++ "' (first defined as "
          ++ p.first.kind ++ " at " ++ p.first.location.text ++ ")") p.second.location with
      related := [⟨p.first.location, "first definition"⟩] }
  else none

/-- All second definitions that stand in a document. -/
def duplicatesIn (level : Severity) (d : Document) (r : Resolver) : List Diagnostic :=
  r.duplicates.filterMap (duplicate? level d.path)

/-- Kinds that take up the components inside them. -/
def grouping : List String := ["Feature", "FeatureGroup", "FeatureRef", "ComponentGroup", "Module"]

/-- Whether some element around takes up a component. -/
def isGrouped (d : Document) (id : Nat) : Bool :=
  (d.ancestors id).any fun (a : Nat) => grouping.contains (d.kind a)

/-- The finding at a component that no feature takes up. -/
def orphan? (level : Severity) (d : Document) (r : Resolver) (id : Nat) : Option Diagnostic :=
  let kind := d.kind id
  let own := d.attr id "Id"
  if (kind = "Component" || kind = "ComponentGroup") && own ≠ "" && !r.isReferenced kind own
      && !isGrouped d id then
    some (finding .orphan level ("Component '" ++ own ++ "' is not included in any Feature")
      (d.location id))
  else none

/-- All components that no feature takes up. -/
def orphansIn (level : Severity) (d : Document) (r : Resolver) : List Diagnostic :=
  d.ids.filterMap (orphan? level d r)

/-- The finding for a cycle, at its first member. -/
def circular? (level : Severity) (g : DependencyGraph) (cycle : List String) : Option Diagnostic :=
  (cycle.head?.bind g.find?).map fun n =>
    finding .circular level (DependencyGraph.cycleMessage cycle) n.dependency.location

/-- All cycles of dependencies. -/
def circularIn (level : Severity) (d : Document) : List Diagnostic :=
  let g := DependencyGraph.extract d
  g.cycles.filterMap (circular? level g)

/-- Where a file stops being a document; at least the first character. -/
def faultLocation (path : String) (e : ParseError) : Location :=
  let line := max e.line 1
  let col := max e.col 1
  ⟨path, line, col, line, col⟩

/-- The finding for a file that is no document. -/
def malformedAt (level : Severity) (path : String) (e : ParseError) : Diagnostic :=
  finding .malformed level ("Malformed XML: " ++ e.reason) (faultLocation path e)

/-- What a check finds in a document. -/
def run (c : Check) (level : Severity) (d : Document) (r : Resolver) : List Diagnostic :=
  match c with
  | malformed => []
  | unresolved => unresolvedIn level d r
  | duplicate => duplicatesIn level d r
  | orphan => orphansIn level d r
  | circular => circularIn level d

end Check

end InstallerLint
