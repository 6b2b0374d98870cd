import InstallerLint.Dependency.Graph
import InstallerLint.Proofs.Order
import Mathlib.Data.List.Nodup
import Mathlib.Data.List.Perm.Basic

/-!
# Graphs that are built

A graph is built from the empty one by adding dependencies, linking names and taking in other
graphs (`Built`).

**Names.**  No name occurs twice, a node lists each name that it depends on once, and every listed
name is that of a node (`Coherent`).  Each of the operations keeps this (`Built.coherent`).

**Edges.**  `Edge` says that a name depends on another one.  Both ends of an edge are names of the
graph, so a walk along edges stays among finitely many names.
-/

namespace InstallerLint
namespace DependencyGraph

/-- A graph that some operations lead to. -/
inductive Built : DependencyGraph → Prop
  | new : Built {}
  | add {g : DependencyGraph} (d : Dependency) : Built g → Built (g.add d)
  | link {g : DependencyGraph} (source target : String) : Built g → Built (g.link source target)
  | merge {g h : DependencyGraph} : Built g → Built h → Built (g.merge h)

/-- A name depends on another one. -/
def Edge (g : DependencyGraph) (x y : String) : Prop := y ∈ g.dependenciesOf x

/-- The names of the nodes as they were added. -/
def keys (g : DependencyGraph) : List String := g.nodes.map (·.name)

/-- Every name has one node, and every edge leads to a node. -/
structure Coherent (g : DependencyGraph) : Prop where
  nodup : g.keys.Nodup
  once : ∀ n ∈ g.nodes, n.dependsOn.Nodup
  known : ∀ n ∈ g.nodes, ∀ target ∈ n.dependsOn, target ∈ g.keys

section Nodes

variable {g : DependencyGraph}

theorem mem_names {x : String} : x ∈ g.names ↔ x ∈ g.keys := (Order.sort_perm _).mem_iff

theorem has_iff {x : String} : g.has x = true ↔ x ∈ g.keys := by
  unfold has find? keys
  rw [List.find?_isSome, List.mem_map]
  simp

/-- Changing a node keeps the names when the node keeps its own. -/
theorem keys_update {name : String} {f : DependencyNode → DependencyNode}
    (hf : ∀ n : DependencyNode, n.name = name → (f n).name = name) :
    (g.update name f).keys = g.keys := by
  unfold update keys
  rw [List.map_map]
  refine List.map_congr_left fun n _ => ?_
  show (if n.name = name then f n else n).name = n.name
  split
  · next h => rw [hf n h, h]
  · rfl

theorem nodup_insertName {name : String} {l : List String} (h : l.Nodup) :
    (insertName name l).Nodup := by
  unfold insertName
  split
  · exact h
  · next hnew =>
    exact (List.perm_append_singleton name l).nodup_iff.mpr
      (List.nodup_cons.mpr ⟨by simpa using hnew, h⟩)

theorem mem_insertName {name x : String} {l : List String} :
    x ∈ insertName name l ↔ x = name ∨ x ∈ l := by
  unfold insertName
  split
  · next hold =>
    have hname : name ∈ l := by simpa using hold
    exact ⟨Or.inr, fun h => h.elim (fun heq => heq ▸ hname) id⟩
  · rw [List.mem_append, List.mem_singleton, or_comm]

/-- A change of a node keeps a graph coherent when it keeps the name and adds only known names. -/
theorem Coherent.update (h : g.Coherent) {name : String} {f : DependencyNode → DependencyNode}
    (hname : ∀ n : DependencyNode, n.name = name → (f n).name = name)
    (honce : ∀ n : DependencyNode, n.dependsOn.Nodup → (f n).dependsOn.Nodup)
    (hknown : ∀ n : DependencyNode, ∀ t ∈ (f n).dependsOn, t ∈ n.dependsOn ∨ t ∈ g.keys) :
    (g.update name f).Coherent := by
  have hkeys : (g.update name f).keys = g.keys := keys_update hname
  have hnode {m : DependencyNode} (hm : m ∈ (g.update name f).nodes) :
      ∃ n ∈ g.nodes, m = f n ∨ m = n := by
    obtain ⟨n, hn, rfl⟩ := List.mem_map.mp hm
    refine ⟨n, hn, ?_⟩
    split
    · exact Or.inl rfl
    · exact Or.inr rfl
  refine ⟨hkeys ▸ h.nodup, fun m hm => ?_, fun m hm t ht => ?_⟩
  · obtain ⟨n, hn, rfl | rfl⟩ := hnode hm
    · exact honce n (h.once n hn)
    · exact h.once m hn
  · rw [hkeys]
    obtain ⟨n, hn, rfl | rfl⟩ := hnode hm
    · exact (hknown n t ht).elim (h.known n hn t) id
    · exact h.known m hn t ht

theorem Coherent.add (h : g.Coherent) (d : Dependency) : (g.add d).Coherent := by
  unfold DependencyGraph.add
  by_cases hd : g.has d.name = true
  · rw [if_pos hd]
    exact h.update (fun _ _ => rfl) (fun _ hn => hn) fun _ _ ht => Or.inl ht
  · rw [if_neg hd]
    have hnew : d.name ∉ g.keys := fun hmem => hd (has_iff.mpr hmem)
    have hkeys : (⟨g.nodes ++ [⟨d, [], []⟩]⟩ : DependencyGraph).keys = g.keys ++ [d.name] := by
      simp [keys, DependencyNode.name]
    refine ⟨?_, fun n hn => ?_, fun n hn t ht => ?_⟩
    · rw [hkeys]
      exact (List.perm_append_singleton d.name g.keys).nodup_iff.mpr
        (List.nodup_cons.mpr ⟨hnew, h.nodup⟩)
    · rcases List.mem_append.mp hn with hn | hn
      · exact h.once n hn
      · rw [List.mem_singleton.mp hn]
        exact List.nodup_nil
    · rw [hkeys]
      rcases List.mem_append.mp hn with hn | hn
      · exact List.mem_append_left _ (h.known n hn t ht)
      · rw [List.mem_singleton.mp hn] at ht
        cases ht

theorem Coherent.link (h : g.Coherent) (source target : String) :
    (g.link source target).Coherent := by
  unfold DependencyGraph.link
  by_cases hlink : g.canLink source target = true
  · rw [if_pos hlink]
    have htarget : target ∈ g.keys := has_iff.mp (Bool.and_eq_true_iff.mp hlink).2
    have hfirst : (g.update source fun n =>
        { n with dependsOn := insertName target n.dependsOn }).Coherent := by
      refine h.update (fun _ hn => hn) (fun _ hn => nodup_insertName hn) fun n t ht => ?_
      rcases mem_insertName.mp ht with rfl | ht
      · exact Or.inr htarget
      · exact Or.inl ht
    exact hfirst.update (fun _ hn => hn) (fun _ hn => hn) fun _ _ ht => Or.inl ht
  · rw [if_neg hlink]
    exact h

/-- What adding and linking keep, merging keeps. -/
theorem merge_induction {motive : DependencyGraph → Prop}
    (hadd : ∀ (g : DependencyGraph) (d : Dependency), motive g → motive (g.add d))
    (hlink : ∀ (g : DependencyGraph) (source target : String), motive g →
      motive (g.link source target))
    (other : DependencyGraph) (h : motive g) : motive (g.merge other) := by
  have hadds : ∀ (l : List DependencyNode) (g : DependencyGraph), motive g →
      motive (l.foldl (fun g n => g.add n.dependency) g) := by
    intro l
    induction l with
    | nil => exact fun _ h => h
    | cons n l ih => exact fun _ h => ih _ (hadd _ n.dependency h)
  have hlinks (name : String) : ∀ (l : List String) (g : DependencyGraph), motive g →
      motive (l.foldl (fun g target => g.link name target) g) := by
    intro l
    induction l with
    | nil => exact fun _ h => h
    | cons target l ih => exact fun _ h => ih _ (hlink _ name target h)
  have hall : ∀ (l : List DependencyNode) (g : DependencyGraph), motive g →
      motive (l.foldl (fun g n =>
        n.dependsOn.foldl (fun g target => g.link n.name target) g) g) := by
    intro l
    induction l with
    | nil => exact fun _ h => h
    | cons n l ih => exact fun _ h => ih _ (hlinks n.name n.dependsOn _ h)
  exact hall _ _ (hadds _ _ h)

theorem Coherent.merge (h : g.Coherent) (other : DependencyGraph) : (g.merge other).Coherent :=
  merge_induction (fun _ d h => h.add d) (fun _ source target h => h.link source target) other h

/-- Whatever operations led to a graph, it is coherent. -/
theorem Built.coherent (h : g.Built) : g.Coherent := by
  induction h with
  | new =>
      refine ⟨List.nodup_nil, fun n hn => ?_, fun n hn => ?_⟩
      · cases hn
      · cases hn
  | add d _ ih => exact ih.add d
  | link source target _ ih => exact ih.link source target
  | merge _ _ ih _ => exact ih.merge _

end Nodes

section Edges

variable {g : DependencyGraph} {x y : String}

/-- The names that a name depends on are those that its node lists, in order. -/
theorem dependenciesOf_cases (g : DependencyGraph) (x : String) :
    g.dependenciesOf x = [] ∨
      ∃ n ∈ g.nodes, n.name = x ∧ (g.dependenciesOf x).Perm n.dependsOn := by
  unfold dependenciesOf
  cases hfind : g.find? x with
  | none => exact Or.inl rfl
  | some n =>
      refine Or.inr ⟨n, List.mem_of_find?_eq_some hfind, ?_, Order.sort_perm _⟩
      simpa using List.find?_some hfind

theorem Coherent.nodup_dependenciesOf (h : g.Coherent) (x : String) :
    (g.dependenciesOf x).Nodup := by
  rcases g.dependenciesOf_cases x with hnil | ⟨n, hn, -, hperm⟩
  · rw [hnil]
    exact List.nodup_nil
  · exact hperm.nodup_iff.mpr (h.once n hn)

/-- Both ends of an edge are names of the graph. -/
theorem Coherent.mem_names_of_edge (h : g.Coherent) (hxy : g.Edge x y) :
    x ∈ g.names ∧ y ∈ g.names := by
  unfold Edge at hxy
  rcases g.dependenciesOf_cases x with hnil | ⟨n, hn, rfl, hperm⟩
  · rw [hnil] at hxy
    cases hxy
  · exact ⟨mem_names.mpr (List.mem_map_of_mem hn),
      mem_names.mpr (h.known n hn y (hperm.mem_iff.mp hxy))⟩

theorem length_names (g : DependencyGraph) : g.names.length = g.size :=
  (Order.sort_perm _).length_eq.trans (List.length_map _)

theorem Coherent.nodup_names (h : g.Coherent) : g.names.Nodup :=
  (Order.sort_perm _).nodup_iff.mpr h.nodup

/-- A name depends on no more names than there are. -/
theorem Coherent.length_dependenciesOf_le (h : g.Coherent) (x : String) :
    (g.dependenciesOf x).length ≤ g.size := by
  rw [← g.length_names]
  refine (List.subperm_of_subset (h.nodup_dependenciesOf x) fun y hy => ?_).length_le
  exact (h.mem_names_of_edge hy).2

end Edges

end DependencyGraph
end InstallerLint
