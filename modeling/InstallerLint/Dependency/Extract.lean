import InstallerLint.Dependency.Graph
import InstallerLint.Document.Basic
import InstallerLint.Text.Find

/-!
# Dependencies of a document

Chained packages, sequenced custom actions, merge modules and the extensions that a document
names.
-/

namespace InstallerLint
namespace DependencyGraph

/-- The kinds of chained packages. -/
def chainPackages : List String :=
  ["ExePackage", "MsiPackage", "MspPackage", "MsuPackage", "BundlePackage"]

/-- The extensions by the last word of their name space. -/
def extensionNames : List (String × String) := [
  ("ui", "WixUIExtension"), ("util", "WixUtilExtension"), ("netfx", "WixNetFxExtension"),
  ("firewall", "WixFirewallExtension"), ("iis", "WixIIsExtension"), ("sql", "WixSqlExtension"),
  ("bal", "WixBalExtension"), ("dependency", "WixDependencyExtension"),
  ("http", "WixHttpExtension"), ("complus", "WixComPlusExtension"), ("msmq", "WixMsmqExtension"),
  ("difxapp", "WixDifxAppExtension"), ("directx", "WixDirectXExtension"),
  ("vs", "WixVSExtension"), ("gaming", "WixGamingExtension"), ("powershell", "WixPSExtension")]

/-- The extension of a name space, empty if there is none. -/
def extensionFor (uri : String) : String :=
  let trimmed := Blank.dropEndWhile (· = '/') uri.toList
  let last := Case.lower (String.ofList (trimmed.reverse.takeWhile (· ≠ '/')).reverse)
  let word := if Find.endsWith last "extension" then String.ofList (last.toList.take (last.length - 9)) else last
  (extensionNames.lookup word).getD ""

/-- Words that tell the type of a package. -/
def typeWords : List (DependencyType × List String) := [
  (.vcRuntime, ["vcredist", "vc_redist", "vcruntime"]),
  (.dotNetFramework, ["netfx", "ndp4", "dotnetfx"]),
  (.dotNetCore, ["dotnet", "windowsdesktop-runtime", "aspnetcore"]),
  (.directX, ["directx", "dxsetup"]),
  (.windowsSdk, ["windowssdk", "winsdk"])]

/-- The type of a package by its name and source. -/
def classify (name source : String) : DependencyType :=
  let text := Case.lower (name ++ " " ++ source)
  ((typeWords.find? fun (_, words) => words.any fun w => Find.isIn w text).map Prod.fst).getD
    .package

/-- Whether an attribute says no. -/
def saysNo (d : Document) (id : Nat) (attr : String) : Bool := Case.equalFold (d.attr id attr) "no"

/-- The first of some texts that is not empty. -/
def firstGiven : List String → String
  | [] => ""
  | s :: rest => if s = "" then firstGiven rest else s

/-- The package at an element. -/
def packageAt (d : Document) (id : Nat) : Dependency :=
  let source := d.attr id "SourceFile"
  let name := firstGiven [d.attr id "Id", source, d.attr id "Name"]
  let url := d.attr id "DownloadUrl"
  { name
    version := d.attr id "Version"
    type := classify name source
    required := !saysNo d id "Vital"
    bundled := !(saysNo d id "Compressed" || (url ≠ "" && (d.attr? id "Compressed").isNone))
    sourceFile := source
    downloadUrl := url
    location := d.location id }

/-- Adds a dependency that is only mentioned, unless its name is known. -/
def mention (g : DependencyGraph) (d : Document) (id : Nat) (name : String)
    (type : DependencyType) : DependencyGraph :=
  if g.has name then g
  else g.add {
    name, type
    required := true
    bundled := type ≠ .wixExtension
    location := d.location id }

/-- A graph and the edges that are still to be added. -/
structure Draft where
  graph : DependencyGraph := {}
  edges : List (String × String) := []

/-- Reads the element itself; none if what makes it a dependency is missing. -/
def readElement? (s : Draft) (d : Document) (id : Nat) : Option Draft :=
  let kind := d.kind id
  if chainPackages.contains kind then
    let p := packageAt d id
    if p.name = "" then none
    else
      let after := d.attr id "After"
      some ⟨s.graph.add p, if after = "" then s.edges else s.edges ++ [(p.name, after)]⟩
  else if kind = "Custom" then
    let action := d.attr id "Action"
    if action = "" then none
    else
      let after := d.attr id "After"
      let before := d.attr id "Before"
      let g := s.graph.mention d id action .customAction
      let s : Draft :=
        if after = "" then ⟨g, s.edges⟩
        else ⟨g.mention d id after .customAction, s.edges ++ [(action, after)]⟩
      some (if before = "" then s
        else ⟨s.graph.mention d id before .customAction, s.edges ++ [(before, action)]⟩)
  else if kind = "Merge" then
    let name := d.attr id "Id"
    if name = "" then none
    else some { s with graph := s.graph.add {
      name, type := .mergeModule, required := true, bundled := true
      sourceFile := d.attr id "SourceFile", location := d.location id } }
  else if kind = "UIRef" then
    some { s with graph := s.graph.mention d id "WixUIExtension" .wixExtension }
  else some s

/-- Reads the extensions that an element's prefixes name. -/
def readPrefixes (s : Draft) (d : Document) (id : Nat) : Draft :=
  (d.attrs id).foldl (fun s a =>
    let ext := if Find.startsWith a.name "xmlns:" then extensionFor a.value else ""
    if ext = "" then s else { s with graph := s.graph.mention d id ext .wixExtension }) s

/-- Reads one element. -/
def readNode (d : Document) (s : Draft) (id : Nat) : Draft :=
  match readElement? s d id with
  | none => s
  | some s => readPrefixes s d id

/-- The dependencies of a document. -/
def extract (d : Document) : DependencyGraph :=
  let s := d.ids.foldl (readNode d) {}
  s.edges.foldl (fun g (source, target) => g.link source target) s.graph

end DependencyGraph
end InstallerLint
