import InstallerLint.Proofs.Dependency.Built
import Mathlib.Tactic.SplitIfs

/-!
# What is found at a name

A node holds a dependency, the names that it depends on and the names that depend on it.  This
module says what is found at a name after each operation (`find?_add`, `find?_link`), and from it
what becomes of the dependency (`payload?`), of the edges (`Edge`) and of the edges as their targets
store them (`dependentsOf`).

**Many at once.**  When dependencies are added one after the other the last one of a name stays
(`payload?_addAll`).  When edges are added one after the other, those between names of the graph
are there afterwards (`edge_linkAll`).
-/

namespace InstallerLint
namespace DependencyGraph

/-- The dependency of a name. -/
def payload? (g : DependencyGraph) (x : String) : Option Dependency :=
  (g.find? x).map (·.dependency)

/-- The names that depend on a name, in order. -/
def dependentsOf (g : DependencyGraph) (x : String) : List String :=
  ((g.find? x).map (·.dependents)).getD []

/-- Adds dependencies one after the other. -/
def addAll (g : DependencyGraph) (l : List Dependency) : DependencyGraph := l.foldl add g

/-- Adds edges one after the other. -/
def linkAll (g : DependencyGraph) (l : List (String × String)) : DependencyGraph :=
  l.foldl (fun g e => g.link e.1 e.2) g

/-- The last dependency of a name. -/
def lastNamed (x : String) (l : List Dependency) : Option Dependency :=
  (l.filter (·.name = x)).getLast?

variable {g : DependencyGraph} {x y : String}

section Find

/-- What is found under a name has that name. -/
theorem name_of_find? {n : DependencyNode} (h : g.find? x = some n) : n.name = x := by
  simpa using List.find?_some h

/-- An update that keeps the name changes what is found there and nowhere else. -/
theorem find?_update {name : String} {f : DependencyNode → DependencyNode}
    (hf : ∀ n : DependencyNode, n.name = name → (f n).name = name) (x : String) :
    (g.update name f).find? x = if x = name then (g.find? x).map f else g.find? x := by
  have hname (n : DependencyNode) : (if n.name = name then f n else n).name = n.name := by
    split
    · next h => rw [hf n h, h]
    · rfl
  have hfind : (g.update name f).find? x =
      (g.find? x).map fun n => if n.name = name then f n else n := by
    unfold update find?
    rw [List.find?_map]
    simp only [Function.comp_def, hname]
  rw [hfind]
  cases hx : g.find? x with
  | none => simp
  | some n =>
      rw [Option.map_some, Option.map_some, name_of_find? hx]
      split
      · rfl
      · rfl

/-- A dependency that is added comes to the node of its name, which keeps its edges. -/
theorem find?_add (g : DependencyGraph) (d : Dependency) (x : String) :
    (g.add d).find? x =
      if x = d.name then some ⟨d, ((g.find? x).map (·.dependsOn)).getD [],
        ((g.find? x).map (·.requiredBy)).getD []⟩
      else g.find? x := by
  unfold DependencyGraph.add has
  cases hd : g.find? d.name with
  | some n =>
      have hkeep (m : DependencyNode) (_ : m.name = d.name) :
          ({ m with dependency := d } : DependencyNode).name = d.name := rfl
      rw [Option.isSome_some, if_pos rfl, find?_update hkeep]
      by_cases hx : x = d.name
      · subst hx
        rw [if_pos rfl, if_pos rfl, hd]
        rfl
      · rw [if_neg hx, if_neg hx]
  | none =>
      rw [Option.isSome_none, if_neg Bool.false_ne_true]
      have happend : (⟨g.nodes ++ [⟨d, [], []⟩]⟩ : DependencyGraph).find? x =
          (g.find? x).or (if x = d.name then some ⟨d, [], []⟩ else none) := by
        unfold find?
        rw [List.find?_append]
        by_cases hx : x = d.name
        · simp [DependencyNode.name, hx]
        · simp [DependencyNode.name, hx, Ne.symm hx]
      rw [happend]
      by_cases hx : x = d.name
      · subst hx
        rw [if_pos rfl, if_pos rfl, hd]
        rfl
      · rw [if_neg hx, if_neg hx, Option.or_none]

/-- An edge between nodes is entered at both of its ends. -/
theorem find?_link (g : DependencyGraph) (source target x : String) :
    (g.link source target).find? x =
      if g.canLink source target then (g.find? x).map fun n => { n with
        dependsOn := if x = source then insertName target n.dependsOn else n.dependsOn
        requiredBy := if x = target then insertName source n.requiredBy else n.requiredBy }
      else g.find? x := by
  unfold DependencyGraph.link
  by_cases hlink : g.canLink source target = true
  · have hsource (n : DependencyNode) (h : n.name = source) :
        ({ n with dependsOn := insertName target n.dependsOn } : DependencyNode).name = source := h
    have htarget (n : DependencyNode) (h : n.name = target) :
        ({ n with requiredBy := insertName source n.requiredBy } : DependencyNode).name = target := h
    rw [if_pos hlink, if_pos hlink, find?_update htarget, find?_update hsource]
    cases g.find? x with
    | none => simp
    | some n =>
        simp only [Option.map_some]
        split_ifs <;> rfl
  · rw [if_neg hlink, if_neg hlink]

theorem name_of_payload? {d : Dependency} (h : g.payload? x = some d) : d.name = x := by
  obtain ⟨n, hn, rfl⟩ := Option.map_eq_some_iff.mp h
  exact name_of_find? hn

theorem has_eq_isSome_payload? (g : DependencyGraph) (x : String) :
    g.has x = (g.payload? x).isSome := by
  unfold has payload?
  rw [Option.isSome_map]

/-- The nodes by name are those of the names in order. -/
theorem map_name_sorted (g : DependencyGraph) : g.sorted.map (·.name) = g.names := by
  have hname : ∀ x ∈ g.names, (g.find? x).map (·.name) = some x := by
    intro x hx
    have hhas : (g.find? x).isSome = true := has_iff.mpr (mem_names.mp hx)
    obtain ⟨n, hn⟩ := Option.isSome_iff_exists.mp hhas
    rw [hn, Option.map_some, name_of_find? hn]
  unfold sorted
  rw [List.map_filterMap, List.filterMap_congr hname, List.filterMap_some]

/-- An edge stands at its source, among what the source depends on. -/
theorem edge_iff : g.Edge x y ↔ ∃ n, g.find? x = some n ∧ y ∈ n.dependsOn := by
  unfold Edge dependenciesOf
  cases g.find? x with
  | none => simp
  | some n =>
      have hperm : n.dependencies.Perm n.dependsOn := Order.sort_perm _
      simp [hperm.mem_iff]

/-- A dependent stands at the target, among what requires it. -/
theorem mem_dependentsOf : x ∈ g.dependentsOf y ↔ ∃ n, g.find? y = some n ∧ x ∈ n.requiredBy := by
  unfold dependentsOf
  cases g.find? y with
  | none => simp
  | some n =>
      have hperm : n.dependents.Perm n.requiredBy := Order.sort_perm _
      simp [hperm.mem_iff]

end Find

section Add

/-- Adding a dependency replaces the payload of its name. -/
theorem payload?_add (g : DependencyGraph) (d : Dependency) (x : String) :
    (g.add d).payload? x = if x = d.name then some d else g.payload? x := by
  unfold payload?
  rw [find?_add]
  split
  · rfl
  · rfl

/-- What is added has no edges yet, or keeps those of its name. -/
theorem dependenciesOf_add (g : DependencyGraph) (d : Dependency) (x : String) :
    (g.add d).dependenciesOf x = g.dependenciesOf x := by
  unfold dependenciesOf
  rw [find?_add]
  split
  · cases g.find? x with
    | none => exact List.mergeSort_nil
    | some n => rfl
  · rfl

theorem dependentsOf_add (g : DependencyGraph) (d : Dependency) (x : String) :
    (g.add d).dependentsOf x = g.dependentsOf x := by
  unfold dependentsOf
  rw [find?_add]
  split
  · cases g.find? x with
    | none => exact List.mergeSort_nil
    | some n => rfl
  · rfl

end Add

section Link

variable (source target : String)

/-- Linking changes no payload. -/
theorem payload?_link (g : DependencyGraph) (x : String) :
    (g.link source target).payload? x = g.payload? x := by
  unfold payload?
  rw [find?_link]
  split
  · rw [Option.map_map]
    rfl
  · rfl

theorem has_link (g : DependencyGraph) (x : String) : (g.link source target).has x = g.has x := by
  rw [has_eq_isSome_payload?, has_eq_isSome_payload?, payload?_link]

theorem canLink_iff :
    g.canLink source target = true ↔ g.has source = true ∧ g.has target = true :=
  Bool.and_eq_true_iff

/-- Linking adds the one edge when both names are known, and none otherwise. -/
theorem edge_link :
    (g.link source target).Edge x y ↔
      g.Edge x y ∨ (x = source ∧ y = target) ∧ g.canLink source target = true := by
  rw [edge_iff, edge_iff, find?_link]
  by_cases hlink : g.canLink source target = true
  · rw [if_pos hlink]
    cases hx : g.find? x with
    | none =>
        have hne : x ≠ source := by
          rintro rfl
          have hhas := (canLink_iff x target).mp hlink
          simp [has, hx] at hhas
        simp [hne]
    | some n =>
        by_cases hs : x = source
        · simp [hs, hlink, mem_insertName, or_comm]
        · simp [hs]
  · rw [if_neg hlink]
    simp [hlink]

/-- Linking adds the one dependent when both names are known. -/
theorem mem_dependentsOf_link :
    x ∈ (g.link source target).dependentsOf y ↔
      x ∈ g.dependentsOf y ∨ (x = source ∧ y = target) ∧ g.canLink source target = true := by
  rw [mem_dependentsOf, mem_dependentsOf, find?_link]
  by_cases hlink : g.canLink source target = true
  · rw [if_pos hlink]
    cases hy : g.find? y with
    | none =>
        have hne : y ≠ target := by
          rintro rfl
          have hhas := (canLink_iff source y).mp hlink
          simp [has, hy] at hhas
        simp [hne]
    | some n =>
        by_cases ht : y = target
        · simp [ht, hlink, mem_insertName, or_comm]
        · simp [ht]
  · rw [if_neg hlink]
    simp [hlink]

end Link

section Repeated

theorem lastNamed_cons (x : String) (d : Dependency) (l : List Dependency) :
    lastNamed x (d :: l) = (lastNamed x l).or (if x = d.name then some d else none) := by
  unfold lastNamed
  by_cases hx : x = d.name
  · rw [List.filter_cons_of_pos (by simp [hx]), List.getLast?_cons, if_pos hx]
    cases (l.filter (·.name = x)).getLast? with
    | none => rfl
    | some _ => rfl
  · rw [List.filter_cons_of_neg (by simpa using Ne.symm hx), if_neg hx, Option.or_none]

/-- The last of a name in two lists stands in the second when it is there at all. -/
theorem lastNamed_append (x : String) (l l' : List Dependency) :
    lastNamed x (l ++ l') = (lastNamed x l').or (lastNamed x l) := by
  unfold lastNamed
  rw [List.filter_append, List.getLast?_append]

theorem lastNamed_eq_none {l : List Dependency} (h : ∀ d ∈ l, d.name ≠ x) :
    lastNamed x l = none := by
  unfold lastNamed
  rw [List.filter_eq_nil_iff.mpr (by simpa using h), List.getLast?_nil]

/-- Of several dependencies of one name the last one stays. -/
theorem payload?_addAll (l : List Dependency) (g : DependencyGraph) (x : String) :
    (g.addAll l).payload? x = (lastNamed x l).or (g.payload? x) := by
  induction l generalizing g with
  | nil => rfl
  | cons d l ih =>
      rw [lastNamed_cons, Option.or_assoc]
      refine (ih (g.add d)).trans ?_
      rw [payload?_add]
      split
      · rfl
      · rfl

/-- Adding dependencies adds no edges. -/
theorem edge_addAll (l : List Dependency) (g : DependencyGraph) :
    (g.addAll l).Edge x y ↔ g.Edge x y := by
  induction l generalizing g with
  | nil => rfl
  | cons d l ih =>
      refine (ih (g.add d)).trans ?_
      unfold Edge
      rw [dependenciesOf_add]

theorem payload?_linkAll (l : List (String × String)) (g : DependencyGraph) (x : String) :
    (g.linkAll l).payload? x = g.payload? x := by
  induction l generalizing g with
  | nil => rfl
  | cons e l ih => exact (ih (g.link e.1 e.2)).trans (payload?_link e.1 e.2 g x)

theorem Built.linkAll (hg : g.Built) (l : List (String × String)) : (g.linkAll l).Built := by
  induction l generalizing g with
  | nil => exact hg
  | cons e l ih => exact ih (.link e.1 e.2 hg)

/-- Of several edges those whose ends are names of the graph are there in the end. -/
theorem edge_linkAll (l : List (String × String)) (g : DependencyGraph) :
    (g.linkAll l).Edge x y ↔ g.Edge x y ∨ (x, y) ∈ l ∧ g.canLink x y = true := by
  induction l generalizing g with
  | nil => simp [linkAll]
  | cons e l ih =>
      have hcan : (g.link e.1 e.2).canLink x y = g.canLink x y := by
        unfold canLink
        rw [has_link, has_link]
      have hfirst : (x = e.1 ∧ y = e.2) ∧ g.canLink e.1 e.2 = true ↔
          (x = e.1 ∧ y = e.2) ∧ g.canLink x y = true :=
        and_congr_right fun h => by rw [h.1, h.2]
      refine (ih (g.link e.1 e.2)).trans ?_
      rw [edge_link, hcan, hfirst, List.mem_cons, Prod.ext_iff, or_assoc, or_and_right]

end Repeated

end DependencyGraph
end InstallerLint
