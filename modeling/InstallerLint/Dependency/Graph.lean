import InstallerLint.Diagnostic.Json

/-!
# Dependency graphs

What an installer depends on: named nodes, and edges from a node to those it depends on.

**Both ways.**  A node stores the names it depends on and the names that require it.

**Walks.**  Nodes and edges are visited in the order of their names, depth first.  A walk that
meets a node of its own path has found a cycle.
-/

namespace InstallerLint

/-- What kind of thing a dependency is. -/
inductive DependencyType where
  | other
  | dotNetFramework
  | dotNetCore
  | vcRuntime
  | directX
  | windowsSdk
  | nativeDll
  | comComponent
  | wixExtension
  | mergeModule
  | package
  | customAction
  /-- A number without a meaning. -/
  | unknown (number : Int)
  deriving DecidableEq, Repr, Inhabited

namespace DependencyType

/-- The types in the order of their numbers. -/
def all : List DependencyType := [other, dotNetFramework, dotNetCore, vcRuntime, directX,
  windowsSdk, nativeDll, comComponent, wixExtension, mergeModule, package, customAction]

/-- The type of a number. -/
def ofNumber (n : Int) : DependencyType :=
  if n < 0 then unknown n else (all[n.toNat]?).getD (unknown n)

/-- The name of a type. -/
def name : DependencyType → String
  | other => "Other"
  | dotNetFramework => ".NET Framework"
  | dotNetCore => ".NET"
  | vcRuntime => "Visual C++ Runtime"
  | directX => "DirectX"
  | windowsSdk => "Windows SDK"
  | nativeDll => "Native DLL"
  | comComponent => "COM Component"
  | wixExtension => "WiX Extension"
  | mergeModule => "Merge Module"
  | package => "Package"
  | customAction => "Custom Action"
  | unknown n => "Type(" ++ toString n ++ ")"

end DependencyType

/-- Something an installer depends on. -/
structure Dependency where
  name : String
  version : String := ""
  type : DependencyType
  required : Bool
  bundled : Bool
  sourceFile : String := ""
  /-- Where it can be had. -/
  downloadUrl : String := ""
  /-- Where it is declared. -/
  location : Location
  deriving DecidableEq, Repr, Inhabited

/-- A dependency in saved form. -/
def Dependency.toJson (d : Dependency) : Json := .obj <|
  [("name", .str d.name)] ++ Json.optStr "version" d.version
  ++ [("type", .str d.type.name), ("required", .bool d.required), ("bundled", .bool d.bundled)]
  ++ Json.optStr "source_file" d.sourceFile ++ Json.optStr "download_url" d.downloadUrl
  ++ [("location", d.location.toJson)]

/-- A dependency with its edges. -/
structure DependencyNode where
  dependency : Dependency
  dependsOn : List String
  /-- The names that depend on it. -/
  requiredBy : List String
  deriving DecidableEq, Repr, Inhabited

/-- Nodes, each name once. -/
structure DependencyGraph where
  /-- The nodes as they were added. -/
  nodes : List DependencyNode := []
  deriving DecidableEq, Repr, Inhabited

namespace DependencyNode

/-- The name of a node. -/
def name (n : DependencyNode) : String := n.dependency.name

/-- The names it depends on, in order. -/
def dependencies (n : DependencyNode) : List String := Order.sort n.dependsOn

/-- The names that depend on it, in order. -/
def dependents (n : DependencyNode) : List String := Order.sort n.requiredBy

/-- A node in saved form. -/
def toJson (n : DependencyNode) : Json := .obj [("dependency", n.dependency.toJson),
  ("depends_on", .strs n.dependencies), ("required_by", .strs n.dependents)]

end DependencyNode

namespace DependencyGraph

/-- The node of a name. -/
def find? (g : DependencyGraph) (name : String) : Option DependencyNode :=
  g.nodes.find? (·.name = name)

/-- Whether there is a node of a name. -/
def has (g : DependencyGraph) (name : String) : Bool := (g.find? name).isSome

/-- The number of nodes. -/
def size (g : DependencyGraph) : Nat := g.nodes.length

/-- Changes the node of a name. -/
def update (g : DependencyGraph) (name : String) (f : DependencyNode → DependencyNode) :
    DependencyGraph := ⟨g.nodes.map fun n => if n.name = name then f n else n⟩

/-- Adds a dependency; one of the same name is replaced and keeps its edges. -/
def add (g : DependencyGraph) (d : Dependency) : DependencyGraph :=
  if g.has d.name then g.update d.name fun n => { n with dependency := d }
  else ⟨g.nodes ++ [⟨d, [], []⟩]⟩

/-- Adds a name to a set of names. -/
def insertName (name : String) (l : List String) : List String :=
  if l.contains name then l else l ++ [name]

/-- Whether both ends of an edge are there. -/
def canLink (g : DependencyGraph) (source target : String) : Bool := g.has source && g.has target

/-- Adds an edge between nodes; if one is missing nothing changes. -/
def link (g : DependencyGraph) (source target : String) : DependencyGraph :=
  if g.canLink source target then
    (g.update source fun n => { n with dependsOn := insertName target n.dependsOn }).update target
      fun n => { n with requiredBy := insertName source n.requiredBy }
  else g

/-- All names in order. -/
def names (g : DependencyGraph) : List String := Order.sort (g.nodes.map (·.name))

/-- All nodes by name. -/
def sorted (g : DependencyGraph) : List DependencyNode := g.names.filterMap g.find?

/-- The nodes that nothing depends on. -/
def roots (g : DependencyGraph) : List DependencyNode := g.sorted.filter (·.requiredBy.isEmpty)

/-- The nodes that depend on nothing. -/
def leaves (g : DependencyGraph) : List DependencyNode := g.sorted.filter (·.dependsOn.isEmpty)

/-- Adds another graph; its dependencies win. -/
def merge (g other : DependencyGraph) : DependencyGraph :=
  let g := other.sorted.foldl (fun g n => g.add n.dependency) g
  other.sorted.foldl (fun g n => n.dependsOn.foldl (fun g target => g.link n.name target) g) g

/-- The names a name depends on, in order. -/
def dependenciesOf (g : DependencyGraph) (name : String) : List String :=
  ((g.find? name).map (·.dependencies)).getD []

/-- What a search for cycles has seen. -/
structure Search where
  visited : List String := []
  cycles : List (List String) := []

mutual

/-- Visits a name; `path` leads to it. -/
def searchFrom (g : DependencyGraph) (path : List String) (name : String) :
    (fuel : Nat) → Search → Search
  | 0, s => s
  | fuel + 1, s =>
    searchEach g (path ++ [name]) fuel (g.dependenciesOf name)
      { s with visited := name :: s.visited }

/-- Goes on to the names at the end of a path. -/
def searchEach (g : DependencyGraph) (path : List String) :
    (fuel : Nat) → List String → Search → Search
  | _, [], s => s
  | 0, _ :: _, s => s
  | fuel + 1, name :: rest, s =>
    let s :=
      if !s.visited.contains name then searchFrom g path name fuel s
      else if path.contains name then
        { s with cycles := s.cycles ++ [path.dropWhile (· ≠ name)] }
      else s
    searchEach g path fuel rest s

end

/-- Steps that suffice for every walk: each level of a path may look at every name. -/
def walkFuel (g : DependencyGraph) : Nat := (g.size + 2) * (g.size + 2)

/-- All cycles that a walk over the whole graph meets. -/
def cycles (g : DependencyGraph) : List (List String) :=
  (g.names.foldl (fun s name =>
    if s.visited.contains name then s else searchFrom g [] name g.walkFuel s) ({} : Search)).cycles

mutual

/-- Lists what a name depends on and then the name, last first. -/
def orderFrom (g : DependencyGraph) (name : String) :
    (fuel : Nat) → List String × List String → List String × List String
  | 0, s => s
  | fuel + 1, (visited, done) =>
    let (visited, done) := orderEach g fuel (g.dependenciesOf name) (name :: visited, done)
    (visited, name :: done)

/-- Lists several names. -/
def orderEach (g : DependencyGraph) :
    (fuel : Nat) → List String → List String × List String → List String × List String
  | _, [], s => s
  | 0, _ :: _, s => s
  | fuel + 1, name :: rest, s =>
    orderEach g fuel rest (if s.1.contains name then s else orderFrom g name fuel s)

end

/-- The names in an order in which each stands before all it depends on, or the first cycle. -/
def order (g : DependencyGraph) : Except (List String) (List String) :=
  match g.cycles with
  | cycle :: _ => .error cycle
  | [] => .ok (g.names.foldl (fun s name =>
      if s.1.contains name then s else orderFrom g name g.walkFuel s) (([], []) : _ × _)).2

/-- The wording for a cycle. -/
def cycleMessage (cycle : List String) : String :=
  "Circular dependency detected: " ++ " -> ".intercalate (cycle ++ cycle.take 1)

/-- A graph in saved form. -/
def toJson (g : DependencyGraph) : Json := .obj [
  ("nodes", .arr (g.sorted.map (·.toJson))), ("roots", .strs (g.roots.map (·.name))),
  ("leaves", .strs (g.leaves.map (·.name))), ("cycles", .arr (g.cycles.map .strs))]

end DependencyGraph

end InstallerLint
