import InstallerLint.Diagnostic.Json
import InstallerLint.Document.Parse
import InstallerLint.Hash.Xxh3
import InstallerLint.Numbers

/-!
# The symbol index

Collects the definitions of a project and the references to them.

**First one wins.**  Of several definitions with one canonical type and id the first stays; each
later one is recorded as a duplicate of it.

**Reading a file again.**  The symbols of a file are replaced as a whole.  When a first definition
goes, the next surviving one takes its place.
-/

namespace InstallerLint

/-!
## Kinds of symbols

Several kinds of elements share one space of ids: its canonical type.  A reference finds a
definition by canonical type and id.
-/

namespace SymbolKind

/-- The canonical types of the kinds that take part. -/
def canonicalTypes : List (String × String) := [
  ("Component", "Component"), ("ComponentGroup", "Component"),
  ("ComponentRef", "Component"), ("ComponentGroupRef", "Component"),
  ("Directory", "Directory"), ("StandardDirectory", "Directory"), ("DirectoryRef", "Directory"),
  ("Feature", "Feature"), ("FeatureGroup", "Feature"),
  ("FeatureRef", "Feature"), ("FeatureGroupRef", "Feature"),
  ("Property", "Property"), ("PropertyRef", "Property"),
  ("CustomAction", "CustomAction"), ("CustomActionRef", "CustomAction"),
  ("Binary", "Binary"), ("BinaryRef", "Binary"),
  ("Package", "Package"), ("Module", "Package"), ("Bundle", "Package"),
  ("Fragment", "Fragment")]

/-- The canonical type of a kind; other kinds are types of their own. -/
def canonical (kind : String) : String := (canonicalTypes.lookup kind).getD kind

/-- The kinds that define symbols. -/
def definitions : List String := [
  "Component", "ComponentGroup", "Directory", "StandardDirectory", "Feature", "FeatureGroup",
  "Property", "CustomAction", "Binary", "Fragment", "Package", "Module", "Bundle"]

/-- The kinds that refer to symbols. -/
def references : List String := [
  "ComponentRef", "ComponentGroupRef", "DirectoryRef", "FeatureRef", "FeatureGroupRef",
  "PropertyRef", "CustomActionRef", "BinaryRef"]

/-- Whether elements of a kind define symbols. -/
def isDefinition (kind : String) : Bool := definitions.contains kind

/-- Whether elements of a kind refer to symbols. -/
def isReference (kind : String) : Bool := references.contains kind

/-- The well-known folders, which no source defines. -/
def standardDirectories : List String := [
  "TARGETDIR", "ProgramFilesFolder", "ProgramFiles64Folder", "ProgramFiles6432Folder",
  "CommonFilesFolder", "CommonFiles64Folder", "SystemFolder", "System64Folder", "WindowsFolder",
  "TempFolder", "LocalAppDataFolder", "AppDataFolder", "CommonAppDataFolder", "DesktopFolder",
  "StartMenuFolder", "ProgramMenuFolder", "StartupFolder", "PersonalFolder", "FontsFolder"]

end SymbolKind

/-!
## The index

Definitions and references by symbol, with the definitions that came too late.
-/

/-- A named entity that an element introduces. -/
structure Definition where
  id : String
  kind : String
  /-- Where it stands. -/
  location : Location
  detail : String
  deriving DecidableEq, Repr, Inhabited

/-- An element that refers to an entity. -/
structure Reference where
  id : String
  kind : String
  /-- Where it stands. -/
  location : Location
  deriving DecidableEq, Repr, Inhabited

/-- A definition whose place was already taken. -/
structure Duplicate where
  first : Definition
  second : Definition
  deriving DecidableEq, Repr, Inhabited

/-- What a symbol is found by: canonical type and id. -/
structure SymbolKey where
  type : String
  id : String
  deriving DecidableEq, Repr

namespace SymbolKey

/-- The key for a kind and an id. -/
def of (kind id : String) : SymbolKey := ⟨SymbolKind.canonical kind, id⟩

end SymbolKey

namespace Definition

/-- The file name of definitions that no source holds. -/
def builtinFile : String := "<builtin>"

/-- What it is found by. -/
def key (d : Definition) : SymbolKey := .of d.kind d.id

/-- Whether no source holds it. -/
def isBuiltin (d : Definition) : Bool := d.location.file = builtinFile

/-- A definition in saved form. -/
def toJson (d : Definition) : Json := .obj <|
  [("id", .str d.id), ("kind", .str d.kind), ("location", d.location.toJson)]
  ++ Json.optStr "detail" d.detail

end Definition

namespace Reference

/-- What it looks for. -/
def key (r : Reference) : SymbolKey := .of r.kind r.id

/-- A reference in saved form. -/
def toJson (r : Reference) : Json :=
  .obj [("id", .str r.id), ("kind", .str r.kind), ("location", r.location.toJson)]

/-- References by file, line and column. -/
def sort (rs : List Reference) : List Reference :=
  rs.mergeSort fun a b => Order.lexLe (a.location.compareKeys b.location)

end Reference

/-- A duplicate in saved form. -/
def Duplicate.toJson (d : Duplicate) : Json :=
  .obj [("first", d.first.toJson), ("second", d.second.toJson)]

namespace Document

/-- What is worth knowing about a definition. -/
def symbolDetail (d : Document) (id : Nat) (kind : String) : String :=
  match kind with
  | "Component" => ((d.attr? id "Guid").map ("Guid: " ++ ·)).getD ""
  | "Package" | "Bundle" => ((d.attr? id "Version").map ("Version: " ++ ·)).getD ""
  | _ => ""

/-- The definition at an element. -/
def definition? (d : Document) (id : Nat) : Option Definition :=
  let kind := d.kind id
  match d.attr id "Id" with
  | "" => none
  | name =>
    if SymbolKind.isDefinition kind then some ⟨name, kind, d.location id, d.symbolDetail id kind⟩
    else none

/-- The reference at an element. -/
def reference? (d : Document) (id : Nat) : Option Reference :=
  let kind := d.kind id
  match d.attr id "Id" with
  | "" => none
  | name => if SymbolKind.isReference kind then some ⟨name, kind, d.location id⟩ else none

/-- All definitions in document order. -/
def definitions (d : Document) : List Definition := d.ids.filterMap d.definition?

/-- All references in document order. -/
def references (d : Document) : List Reference := d.ids.filterMap d.reference?

end Document

/-- The symbols of a project. -/
structure SymbolIndex where
  defs : List (SymbolKey × Definition) := []
  refs : List (SymbolKey × List Reference) := []
  /-- The definitions whose place was taken, in the order they were found. -/
  dups : List Duplicate := []
  files : List String := []
  deriving Repr, Inhabited

namespace SymbolIndex

/-- Looks up a definition by key. -/
def find? (ix : SymbolIndex) (k : SymbolKey) : Option Definition := ix.defs.lookup k

/-- Looks up a definition by any kind that shares its ids. -/
def definition? (ix : SymbolIndex) (kind id : String) : Option Definition := ix.find? (.of kind id)

/-- Whether a symbol is defined. -/
def isDefined (ix : SymbolIndex) (kind id : String) : Bool := (ix.definition? kind id).isSome

/-- Adds a definition, or records it as a duplicate. -/
def addDefinition (ix : SymbolIndex) (d : Definition) : SymbolIndex :=
  match ix.find? d.key with
  | some first => { ix with dups := ix.dups ++ [⟨first, d⟩] }
  | none => { ix with defs := ix.defs ++ [(d.key, d)] }

/-- Adds a reference to a list by key. -/
def insertRef (r : Reference) : List (SymbolKey × List Reference) → List (SymbolKey × List Reference)
  | [] => [(r.key, [r])]
  | (k, rs) :: rest => if k = r.key then (k, rs ++ [r]) :: rest else (k, rs) :: insertRef r rest

/-- Adds a reference. -/
def addReference (ix : SymbolIndex) (r : Reference) : SymbolIndex :=
  { ix with refs := insertRef r ix.refs }

/-- Puts a duplicate back after a file was taken out. -/
def restore (file : String) (ix : SymbolIndex) (dup : Duplicate) : SymbolIndex :=
  if dup.second.location.file = file then ix
  else if dup.first.location.file = file then ix.addDefinition dup.second
  else { ix with dups := ix.dups ++ [dup] }

/-- Takes out everything that came from a file. -/
def removeFile (ix : SymbolIndex) (file : String) : SymbolIndex :=
  if ix.files.contains file then
    let kept : SymbolIndex := {
      defs := ix.defs.filter fun (_, d) => d.location.file ≠ file
      refs := (ix.refs.map fun (k, rs) => (k, rs.filter fun r => r.location.file ≠ file)).filter
        fun (_, rs) => !rs.isEmpty
      dups := []
      files := ix.files.filter (· ≠ file) }
    ix.dups.foldl (restore file) kept
  else ix

/-- Reads the symbols of a document in place of those of its file. -/
def addDocument (ix : SymbolIndex) (d : Document) : SymbolIndex :=
  let ix := ix.removeFile d.path
  let ix := { ix with files := ix.files ++ [d.path] }
  let ix := d.definitions.foldl addDefinition ix
  d.references.foldl addReference ix

/-- Reads the symbols of a text; a text that is malformed changes nothing. -/
def addSource (ix : SymbolIndex) (source : Bytes) (file : String) : Except ParseError SymbolIndex :=
  (Document.parse source file).map ix.addDocument

/-- Adds a definition that no source holds. -/
def inject (ix : SymbolIndex) (id kind detail : String) : SymbolIndex :=
  ix.addDefinition ⟨id, kind, ⟨Definition.builtinFile, 0, 0, 0, 0⟩, detail⟩

/-- Adds the well-known folders that are not defined. -/
def addStandardDirectories (ix : SymbolIndex) : SymbolIndex :=
  SymbolKind.standardDirectories.foldl (fun ix id =>
    if ix.isDefined "Directory" id then ix
    else ix.inject id "StandardDirectory" "standard directory") ix

/-- The definitions of a type by id. -/
def ofType (ix : SymbolIndex) (kind : String) : List Definition :=
  Order.sortBy (·.id)
    ((ix.defs.filter fun (k, _) => k.type = SymbolKind.canonical kind).map Prod.snd)

/-- The references to a key in the order they were read. -/
def refsTo (ix : SymbolIndex) (k : SymbolKey) : List Reference := (ix.refs.lookup k).getD []

/-- The references to a symbol by location. -/
def findReferences (ix : SymbolIndex) (kind id : String) : List Reference :=
  Reference.sort (ix.refsTo (.of kind id))

/-- Whether anything refers to a symbol. -/
def isReferenced (ix : SymbolIndex) (kind id : String) : Bool :=
  !(ix.refsTo (.of kind id)).isEmpty

/-- All references by location. -/
def allReferences (ix : SymbolIndex) : List Reference :=
  Reference.sort (ix.refs.flatMap Prod.snd)

/-- The files that were read, in order. -/
def fileNames (ix : SymbolIndex) : List String := Order.sort ix.files

/-- The number of definitions that stay. -/
def definitionCount (ix : SymbolIndex) : Nat := ix.defs.length

/-- The number of references. -/
def referenceCount (ix : SymbolIndex) : Nat := Numbers.total (ix.refs.map (·.2.length))

/-- Words with zero characters between them. -/
def record (words : List String) : String := (String.ofList [Char.ofNat 0]).intercalate words

/-- The lines that a digest covers: keys of definitions, keys of references with their number, and
duplicates with their locations. -/
def digestLines (ix : SymbolIndex) : List String := Order.sort <|
  (ix.defs.map fun (k, _) => record ["d", k.type, k.id])
  ++ (ix.refs.map fun (k, rs) => record ["r", k.type, k.id, toString rs.length])
  ++ (ix.dups.map fun dup =>
    record ["u", dup.second.id, dup.first.location.text, dup.second.location.text])

/-- The text that a digest covers. -/
def digestText (ix : SymbolIndex) : String := "\n".intercalate ix.digestLines

/-- A digest of the symbols. -/
def digest (ix : SymbolIndex) : String := Hash.xxh64Short (Bytes.ofString ix.digestText)

/-- What an index holds, in numbers. -/
def toJson (ix : SymbolIndex) : Json := .obj [
  ("definitions", .nat ix.definitionCount), ("references", .nat ix.referenceCount),
  ("duplicates", .arr (ix.dups.map (·.toJson))), ("files", .strs ix.fileNames)]

end SymbolIndex

/-!
## Questions about symbols

What the checks ask about the symbols of a whole project.  Anything that answers these
questions can stand in for an index.
-/

/-- Answers to questions about symbols. -/
structure Resolver where
  /-- Whether a kind of element refers to something defined. -/
  isDefined : (kind id : String) → Bool
  /-- Whether something refers to an id. -/
  isReferenced : (kind id : String) → Bool
  /-- The ids that are defined twice. -/
  duplicates : List Duplicate

/-- The answers of an index. -/
def SymbolIndex.resolver (ix : SymbolIndex) : Resolver where
  isDefined := ix.isDefined
  isReferenced := ix.isReferenced
  duplicates := ix.dups

end InstallerLint
