import InstallerLint.Dependency.Extract
import InstallerLint.Tally

/-!
# Dependency reports

A graph summed up for display: counts, all dependencies, the known extensions, and the cycles or
the order of installation.
-/

namespace InstallerLint

/-- What is known about an extension. -/
structure ExtensionInfo where
  name : String
  description : String
  package : String
  deriving DecidableEq, Repr

namespace ExtensionInfo

/-- The known extensions. -/
def known : List ExtensionInfo := [
  ⟨"WixUIExtension", "Standard installer dialog sets", "WixToolset.UI.wixext"⟩,
  ⟨"WixUtilExtension", "Users, groups, XML edits, shell execution and other utilities",
    "WixToolset.Util.wixext"⟩,
  ⟨"WixNetFxExtension", ".NET Framework detection and install", "WixToolset.Netfx.wixext"⟩,
  ⟨"WixFirewallExtension", "Windows Firewall exceptions", "WixToolset.Firewall.wixext"⟩,
  ⟨"WixIIsExtension", "IIS web sites, app pools and virtual directories",
    "WixToolset.Iis.wixext"⟩,
  ⟨"WixSqlExtension", "SQL Server databases and scripts", "WixToolset.Sql.wixext"⟩,
  ⟨"WixBalExtension", "Bootstrapper application library", "WixToolset.Bal.wixext"⟩,
  ⟨"WixDependencyExtension", "Package dependency tracking", "WixToolset.Dependency.wixext"⟩,
  ⟨"WixHttpExtension", "HTTP URL reservations and SSL bindings", "WixToolset.Http.wixext"⟩,
  ⟨"WixComPlusExtension", "COM+ applications and components", "WixToolset.ComPlus.wixext"⟩,
  ⟨"WixMsmqExtension", "Message queues", "WixToolset.Msmq.wixext"⟩,
  ⟨"WixDifxAppExtension", "Driver installation", "WixToolset.DifxApp.wixext"⟩,
  ⟨"WixDirectXExtension", "DirectX capability detection", "WixToolset.DirectX.wixext"⟩,
  ⟨"WixVSExtension", "Visual Studio integration", "WixToolset.VisualStudio.wixext"⟩,
  ⟨"WixGamingExtension", "Game Explorer registration", "WixToolset.Gaming.wixext"⟩,
  ⟨"WixPSExtension", "PowerShell snap-ins", "WixToolset.PowerShell.wixext"⟩]

/-- What is known about a name. -/
def find? (name : String) : Option ExtensionInfo := known.find? (·.name = name)

/-- What is known about a name, nothing if it is unknown. -/
def of (name : String) : ExtensionInfo := (find? name).getD ⟨name, "", ""⟩

/-- An extension in saved form. -/
def toJson (e : ExtensionInfo) : Json :=
  .obj [("name", .str e.name), ("description", .str e.description), ("package", .str e.package)]

end ExtensionInfo

/-- A graph summed up. -/
structure DependencyReport where
  project : String
  dependencies : List Dependency
  byType : Tally
  /-- The cycles, if there are any. -/
  cycles : List (List String)
  /-- The order of installation, if there is one. -/
  order : List String
  deriving DecidableEq, Repr

namespace DependencyReport

/-- Sums up a graph. -/
def of (project : String) (g : DependencyGraph) : DependencyReport :=
  let all := g.sorted.map (·.dependency)
  { project
    dependencies := all
    byType := Tally.ofNames (all.map (·.type.name))
    cycles := g.cycles
    order := (g.order.toOption).getD [] }

/-- The number of dependencies. -/
def total (r : DependencyReport) : Nat := r.dependencies.length

/-- The number of dependencies that are shipped along. -/
def bundled (r : DependencyReport) : Nat := (r.dependencies.filter (·.bundled)).length

/-- The number of dependencies that are not. -/
def external (r : DependencyReport) : Nat := (r.dependencies.filter fun d => !d.bundled).length

/-- The extensions among the dependencies. -/
def extensions (r : DependencyReport) : List ExtensionInfo :=
  (r.dependencies.filter (·.type = .wixExtension)).map fun d => .of d.name

/-- The names of the types that occur. -/
def typeNames (r : DependencyReport) : List String := r.byType.map Prod.fst

/-- A list that is left out when it is empty. -/
def optArr (name : String) (l : List Json) : List (String × Json) :=
  if l.isEmpty then [] else [(name, .arr l)]

/-- A report in saved form. -/
def toJson (r : DependencyReport) : Json := .obj <|
  [("project", .str r.project), ("total", .nat r.total), ("bundled", .nat r.bundled),
    ("external", .nat r.external), ("by_type", .obj (r.byType.map fun (k, n) => (k, .nat n))),
    ("dependencies", if r.dependencies.isEmpty then .null
      else .arr (r.dependencies.map (·.toJson)))]
  ++ optArr "cycles" (r.cycles.map .strs) ++ optArr "order" (r.order.map .str)
  ++ optArr "extensions" (r.extensions.map (·.toJson))

end DependencyReport

end InstallerLint
