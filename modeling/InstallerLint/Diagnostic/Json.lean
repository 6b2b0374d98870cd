import InstallerLint.Diagnostic.Basic

/-!
# Diagnostics as JSON

The saved form of diagnostics and results.  Empty optional fields are left out.  Reading takes
missing fields as empty and fails where a field has the wrong type.
-/

namespace InstallerLint

namespace Json

/-- A field that must be a text. -/
def textField (j : Json) (name : String) : Option String :=
  match j.field? name with
  | none => some ""
  | some v => v.str?

/-- A field that must be an integer of 64 bits. -/
def intField (j : Json) (name : String) : Option Int :=
  match j.field? name with
  | none => some 0
  | some v => (v.int?).filter fun n =>
    -(Numbers.halfWords : Int) ≤ n && n < (Numbers.halfWords : Int)

/-- A field that must be a list. -/
def listField {α : Type} (j : Json) (name : String) (item : Json → Option α) :
    Option (List α) :=
  match j.field? name with
  | none => some []
  | some (.arr l) => l.mapM item
  | some _ => none

/-- A list item that must be a text; null stands for the empty one. -/
def textItem : Json → Option String
  | .null => some ""
  | .str s => some s
  | _ => none

/-- Whether the value can fill a record: it is an object or null. -/
def isRecord : Json → Bool
  | .obj _ => true
  | .null => true
  | _ => false

end Json

namespace Location

/-- The saved form. -/
def toJson (l : Location) : Json := .obj [
  ("file", .str l.file), ("line", .int l.line), ("col", .int l.col),
  ("end_line", .int l.endLine), ("end_col", .int l.endCol)]

/-- Reads the saved form. -/
def ofJson (j : Json) : Option Location := do
  guard j.isRecord
  return ⟨← j.textField "file", ← j.intField "line", ← j.intField "col",
    ← j.intField "end_line", ← j.intField "end_col"⟩

end Location

namespace Attribute

/-- The saved form. -/
def toJson (a : Attribute) : Json := .obj [("name", .str a.name), ("value", .str a.value)]

/-- Reads the saved form. -/
def ofJson (j : Json) : Option Attribute := do
  guard j.isRecord
  return ⟨← j.textField "name", ← j.textField "value"⟩

end Attribute

namespace Fix

/-- The saved form of an edit. -/
def actionToJson (a : FixAction) : Json := .obj <|
  [("kind", .str a.kind)] ++ Json.optStr "name" a.name ++ Json.optStr "value" a.value
    ++ Json.optStr "element" a.element
    ++ (if a.attributes.isEmpty then [] else [("attributes", .arr (a.attributes.map (·.toJson)))])
    ++ Json.optStr "position" a.position

/-- The saved form. -/
def toJson (f : Fix) : Json := .obj
  [("description", .str f.description), ("action", actionToJson f.action)]

/-- Reads the saved form of an edit. -/
def actionOfJson (j : Json) : Option FixAction := do
  guard j.isRecord
  return ⟨← j.textField "kind", ← j.textField "name", ← j.textField "value",
    ← j.textField "element", ← j.listField "attributes" Attribute.ofJson,
    ← j.textField "position"⟩

/-- Reads the saved form. -/
def ofJson (j : Json) : Option Fix := do
  guard j.isRecord
  return ⟨← j.textField "description", ← actionOfJson ((j.field? "action").getD .null)⟩

end Fix

namespace Related

/-- The saved form. -/
def toJson (r : Related) : Json := .obj
  [("location", r.location.toJson), ("message", .str r.message)]

/-- Reads the saved form. -/
def ofJson (j : Json) : Option Related := do
  guard j.isRecord
  return ⟨← Location.ofJson ((j.field? "location").getD .null), ← j.textField "message"⟩

end Related

namespace Diagnostic

/-- The saved form. -/
def toJson (d : Diagnostic) : Json := .obj <|
  [("rule_id", .str d.ruleId), ("severity", .str d.severity.text)]
    ++ Json.optStr "category" d.category
    ++ [("message", .str d.message), ("location", d.location.toJson)]
    ++ Json.optStr "help" d.help
    ++ (d.fix.map fun f => ("fix", f.toJson)).toList
    ++ (if d.related.isEmpty then [] else [("related", .arr (d.related.map (·.toJson)))])
    ++ (if d.tags.isEmpty then [] else [("tags", .strs d.tags)])
    ++ (if d.effortMinutes = 0 then [] else [("effort_minutes", .int d.effortMinutes)])
    ++ Json.optStr "doc_url" d.docUrl

/-- Reads a level; a missing one is not graded. -/
def severityOfJson (j : Json) : Option Severity :=
  match j.field? "severity" with
  | none => some .unset
  | some v => v.str?.bind Severity.parse?

/-- Reads the saved form. -/
def ofJson (j : Json) : Option Diagnostic := do
  guard j.isRecord
  return {
    ruleId := ← j.textField "rule_id"
    severity := ← severityOfJson j
    category := ← j.textField "category"
    message := ← j.textField "message"
    location := ← Location.ofJson ((j.field? "location").getD .null)
    help := ← j.textField "help"
    fix := ← (j.field? "fix").mapM Fix.ofJson
    related := ← j.listField "related" Related.ofJson
    tags := ← j.listField "tags" Json.textItem
    effortMinutes := ← j.intField "effort_minutes"
    docUrl := ← j.textField "doc_url" }

end Diagnostic

namespace FileResult

/-- The saved form; where the result came from is not part of it. -/
def toJson (r : FileResult) : Json := .obj <|
  [("file", .str r.file), ("diagnostics", .arr (r.diagnostics.map (·.toJson)))]
    ++ (if r.suppressed = 0 then [] else [("suppressed", .nat r.suppressed)])

/-- A result with everything known of it. -/
def toFullJson (r : FileResult) : Json := .obj [
  ("file", .str r.file), ("diagnostics", .arr (r.diagnostics.map (·.toJson))),
  ("suppressed", .nat r.suppressed), ("from_cache", .bool r.fromCache)]

/-- Reads the saved form. -/
def ofJson (j : Json) : Option FileResult := do
  guard j.isRecord
  let suppressed ← j.intField "suppressed"
  return ⟨← j.textField "file", ← j.listField "diagnostics" Diagnostic.ofJson,
    suppressed.toNat, false⟩

end FileResult

end InstallerLint
