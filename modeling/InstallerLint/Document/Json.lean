import InstallerLint.Document.Parse
import InstallerLint.Json.Basic

/-!
# Documents in saved form

One record for each element: what it is, where it stands in the source and in the tree.
-/

namespace InstallerLint

/-- A range as four numbers: first line and column, last line and column. -/
def SourceRange.toJson (r : SourceRange) : Json :=
  .arr [.nat r.startLine, .nat r.startCol, .nat r.endLine, .nat r.endCol]

namespace Document

/-- The parent of an element, or -1. -/
def parentJson (d : Document) (id : Int) : Json := ((d.parent? id).map Json.nat).getD (.int (-1))

/-- Numbers of elements. -/
def idsJson (ids : List Nat) : Json := .arr (ids.map .nat)

/-- An element in saved form. -/
def nodeJson (d : Document) (id : Int) : Json := .obj [
  ("id", .int id), ("kind", .str (d.kind id)),
  ("attrs", .arr ((d.attrs id).map fun a => .strs [a.name, a.value])),
  ("children", idsJson (d.children id)), ("parent", d.parentJson id),
  ("range", (d.range id).toJson), ("text", .str (d.text id)), ("depth", .nat (d.depth id))]

/-- An element in saved form with its surroundings and its identifier, if it has one. -/
def detailJson (d : Document) (id : Int) : Json := .obj ((d.nodeJson id).members ++ [
  ("ancestors", idsJson (d.ancestors id)), ("descendants", idsJson (d.descendants id)),
  ("has_parent", .bool (d.parent? id).isSome),
  ("attr_Id", .arr [.str (d.attr id "Id"), .bool (d.attr? id "Id").isSome])])

/-- All elements in saved form. -/
def nodesJson (d : Document) : Json := .arr (d.ids.map fun (n : Nat) => d.nodeJson n)

/-- The depth of the deepest element. -/
def maxDepth (d : Document) : Nat := (d.ids.map fun (n : Nat) => d.depth n).foldl max 0

end Document

end InstallerLint
