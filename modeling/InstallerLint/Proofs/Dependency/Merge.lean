import InstallerLint.Proofs.Dependency.Order

/-!
# Merging graphs

An edge is stored twice, at the name that depends and at the name that it depends on.  In a graph
that was built both entries agree (`Mirrored`, `Consistent`).

**Merging.**  A graph that takes in another one has the names and the edges of both; where both know
a name the dependency of the other one wins (`payload?_merge`, `edge_merge`).

**As a graph is seen.**  Nodes stand in the order in which they were added, which nothing shows.
What can be seen of a graph is its `view`: all dependencies by name, each with the names on both of
its sides; its `shape` has names in place of dependencies.  The view is determined by what is found
at the names, so merging is associative and idempotent on views and commutative on shapes.

**Files.**  Roots, leaves, cycles and order can be read off the shape, so they do not depend on the
order in which the graphs of several files are merged.

**The main result** is `merge_spec`.
-/

namespace InstallerLint

/-- A node without its dependency: its name and the names on both of its sides. -/
def DependencyNode.row (n : DependencyNode) : String × List String × List String :=
  (n.name, n.dependencies, n.dependents)

namespace DependencyGraph

/-- Both ends of an edge know it, and each of them lists it once. -/
structure Mirrored (g : DependencyGraph) : Prop where
  mem_iff : ∀ x y, x ∈ g.dependentsOf y ↔ g.Edge x y
  once : ∀ x, (g.dependentsOf x).Nodup

/-- A node is found at the name of its dependency, the names at the ends of an edge have each other
in their lists, and no list has a name without a node. -/
structure Consistent (g : DependencyGraph) : Prop where
  found : ∀ n ∈ g.nodes, g.find? n.dependency.name = some n
  key : ∀ x n, g.find? x = some n → n.dependency.name = x
  mirrored : ∀ x y, (∃ n, g.find? x = some n ∧ y ∈ n.dependsOn) ↔
    ∃ m, g.find? y = some m ∧ x ∈ m.requiredBy
  known : ∀ n ∈ g.nodes, ∀ y, y ∈ n.dependsOn ∨ y ∈ n.requiredBy → g.has y = true

/-- A graph as it is seen: the dependencies by name, each with the names that it depends on and
those that depend on it. -/
def view (g : DependencyGraph) : List (Dependency × List String × List String) :=
  g.sorted.map fun n => (n.dependency, n.dependencies, n.dependents)

/-- The names and edges of a graph as they are seen. -/
def shape (g : DependencyGraph) : List (String × List String × List String) :=
  g.sorted.map DependencyNode.row

/-- The edges of a graph, each from a name to one that it depends on. -/
def edges (g : DependencyGraph) : List (String × String) :=
  g.sorted.flatMap fun n => n.dependsOn.map fun target => (n.name, target)

/-- One graph of several. -/
def mergeAll (files : List DependencyGraph) : DependencyGraph := files.foldl merge {}

variable {g h : DependencyGraph} {x y : String}

section Mirrored

/-- Adding a dependency keeps both lists of edges in step. -/
theorem Mirrored.add (hg : g.Mirrored) (d : Dependency) : (g.add d).Mirrored where
  mem_iff := by
    intro x y
    unfold Edge
    rw [dependentsOf_add, dependenciesOf_add]
    exact hg.mem_iff x y
  once := by
    intro x
    rw [dependentsOf_add]
    exact hg.once x

/-- Linking keeps both lists of edges in step. -/
theorem Mirrored.link (hg : g.Mirrored) (source target : String) :
    (g.link source target).Mirrored where
  mem_iff := by
    intro x y
    rw [mem_dependentsOf_link, edge_link, hg.mem_iff]
  once := by
    intro x
    have hold := hg.once x
    unfold dependentsOf at hold ⊢
    rw [find?_link]
    split
    · cases hx : g.find? x with
      | none => exact List.nodup_nil
      | some n =>
          rw [hx] at hold
          have hnodup : n.requiredBy.Nodup := (Order.sort_perm _).nodup_iff.mp hold
          refine (Order.sort_perm _).nodup_iff.mpr ?_
          show (if x = target then insertName source n.requiredBy else n.requiredBy).Nodup
          split
          · exact nodup_insertName hnodup
          · exact hnodup
    · exact hold

/-- However a graph was built, both ends of an edge know it. -/
theorem Built.mirrored (hg : g.Built) : g.Mirrored := by
  induction hg with
  | new =>
      refine ⟨fun x y => ⟨fun h => ?_, fun h => ?_⟩, fun _ => List.nodup_nil⟩
      · exact absurd h List.not_mem_nil
      · exact absurd h List.not_mem_nil
  | add d _ ih => exact ih.add d
  | link source target _ ih => exact ih.link source target
  | merge _ _ ih _ =>
      exact merge_induction (fun _ d h => h.add d) (fun _ source target h => h.link source target)
        _ ih

/-- A node is found under its name. -/
theorem Coherent.find?_of_mem (hg : g.Coherent) {n : DependencyNode} (hn : n ∈ g.nodes) :
    g.find? n.name = some n := by
  have hfind : ∀ l : List DependencyNode, (l.map (·.name)).Nodup → n ∈ l →
      l.find? (·.name = n.name) = some n := by
    intro l
    induction l with
    | nil => exact fun _ hn => absurd hn List.not_mem_nil
    | cons a l ih =>
        intro hnodup hn
        obtain ⟨hnew, hnodup⟩ := List.nodup_cons.mp hnodup
        rcases List.mem_cons.mp hn with rfl | hn
        · exact List.find?_cons_of_pos (by simp)
        · have hne : a.name ≠ n.name := fun heq =>
            hnew (List.mem_map.mpr ⟨n, hn, heq.symm⟩)
          rw [List.find?_cons_of_neg (by simpa using hne)]
          exact ih hnodup hn
  exact hfind g.nodes hg.nodup hn

theorem Built.consistent (hg : g.Built) : g.Consistent where
  found := fun n hn => hg.coherent.find?_of_mem hn
  key := fun x n hn => name_of_find? hn
  mirrored := by
    intro x y
    rw [← edge_iff, ← mem_dependentsOf, hg.mirrored.mem_iff]
  known := by
    intro n hn y hy
    have hfind := hg.coherent.find?_of_mem hn
    rcases hy with hy | hy
    · exact has_iff.mpr (hg.coherent.known n hn y hy)
    · have hedge : g.Edge y n.name := (hg.mirrored.mem_iff y n.name).mp
        (mem_dependentsOf.mpr ⟨n, hfind, hy⟩)
      exact has_iff.mpr (mem_names.mp (hg.coherent.mem_names_of_edge hedge).1)

end Mirrored

section Merge

/-- The listed edges are the edges. -/
theorem mem_edges : (x, y) ∈ g.edges ↔ g.Edge x y := by
  rw [edge_iff]
  unfold edges sorted
  simp only [List.mem_flatMap, List.mem_filterMap, List.mem_map, Prod.mk.injEq]
  constructor
  · rintro ⟨n, ⟨z, -, hn⟩, target, htarget, hname, rfl⟩
    rw [← hname, name_of_find? hn]
    exact ⟨n, hn, htarget⟩
  · rintro ⟨n, hn, hy⟩
    have hx : x ∈ g.names := mem_names.mpr (has_iff.mp (by rw [has, hn]; rfl))
    exact ⟨n, ⟨x, hx, hn⟩, y, hy, name_of_find? hn, rfl⟩

/-- Merging adds all dependencies of the other graph and then all of its edges. -/
theorem merge_eq (g h : DependencyGraph) :
    g.merge h = (g.addAll (h.sorted.map (·.dependency))).linkAll h.edges := by
  unfold merge addAll linkAll edges
  rw [List.foldl_flatMap, List.foldl_map]
  simp only [List.foldl_map]

theorem lastNamed_filterMap (h : DependencyGraph) (x : String) {l : List String} (hl : l.Nodup) :
    lastNamed x (l.filterMap h.payload?) = if x ∈ l then h.payload? x else none := by
  induction l with
  | nil => rfl
  | cons a l ih =>
      obtain ⟨hnew, hl⟩ := List.nodup_cons.mp hl
      cases ha : h.payload? a with
      | none =>
          rw [List.filterMap_cons_none ha, ih hl]
          by_cases hx : x = a
          · subst hx
            rw [if_neg hnew, if_pos List.mem_cons_self, ha]
          · simp only [List.mem_cons, hx, false_or]
      | some d =>
          rw [List.filterMap_cons_some ha, lastNamed_cons, ih hl, name_of_payload? ha]
          by_cases hx : x = a
          · subst hx
            rw [if_neg hnew, if_pos rfl, if_pos List.mem_cons_self, ha, Option.none_or]
          · simp only [List.mem_cons, hx, false_or, if_false, Option.or_none]

/-- Adding all of a graph replaces the payloads of its names and leaves the others. -/
theorem payload?_addAll_sorted (hh : h.Coherent) (x : String) :
    (g.addAll (h.sorted.map (·.dependency))).payload? x = (h.payload? x).or (g.payload? x) := by
  have hsorted : h.sorted.map (·.dependency) = h.names.filterMap h.payload? := List.map_filterMap
  rw [payload?_addAll, hsorted, lastNamed_filterMap h x hh.nodup_names]
  by_cases hx : x ∈ h.names
  · rw [if_pos hx]
  · have hnone : h.payload? x = none := by
      rw [← Option.not_isSome_iff_eq_none, ← has_eq_isSome_payload?]
      exact fun hhas => hx (mem_names.mpr (has_iff.mp hhas))
    rw [if_neg hx, hnone]

/-- A dependency of the other graph wins. -/
theorem payload?_merge (hh : h.Coherent) (x : String) :
    (g.merge h).payload? x = (h.payload? x).or (g.payload? x) := by
  rw [merge_eq, payload?_linkAll, payload?_addAll_sorted hh]

/-- The names of a merge are those of both graphs. -/
theorem has_merge (hh : h.Coherent) (x : String) :
    (g.merge h).has x = (g.has x || h.has x) := by
  simp only [has_eq_isSome_payload?, payload?_merge hh, Option.isSome_or, Bool.or_comm]

/-- No edge is lost and none is made up. -/
theorem edge_merge (hh : h.Coherent) : (g.merge h).Edge x y ↔ g.Edge x y ∨ h.Edge x y := by
  rw [merge_eq, edge_linkAll, edge_addAll, mem_edges]
  refine or_congr_right (and_iff_left_of_imp fun hedge => ?_)
  have hhas {z : String} (hz : z ∈ h.names) :
      (g.addAll (h.sorted.map (·.dependency))).has z = true := by
    have hz' : h.has z = true := has_iff.mpr (mem_names.mp hz)
    rw [has_eq_isSome_payload?] at hz' ⊢
    rw [payload?_addAll_sorted hh, Option.isSome_or, hz', Bool.true_or]
  obtain ⟨hx, hy⟩ := hh.mem_names_of_edge hedge
  exact (canLink_iff x y).mpr ⟨hhas hx, hhas hy⟩

end Merge

section View

/-- What is shown of a graph, by its names, payloads and edges. -/
theorem view_eq (g : DependencyGraph) :
    g.view = g.names.filterMap fun x =>
      (g.payload? x).map fun d => (d, g.dependenciesOf x, g.dependentsOf x) := by
  unfold view sorted
  rw [List.map_filterMap]
  refine List.filterMap_congr fun x _ => ?_
  unfold payload? dependenciesOf dependentsOf
  cases g.find? x with
  | none => rfl
  | some n => rfl

/-- The shape of a graph, by its names and edges. -/
theorem shape_eq (g : DependencyGraph) :
    g.shape = g.names.map fun x => (x, g.dependenciesOf x, g.dependentsOf x) := by
  rw [← map_name_sorted, List.map_map]
  refine List.map_congr_left fun n hn => ?_
  obtain ⟨x, -, hfind⟩ := List.mem_filterMap.mp hn
  obtain rfl : n.name = x := name_of_find? hfind
  unfold DependencyNode.row dependenciesOf dependentsOf
  simp [hfind]

/-- Graphs with the same names list them alike. -/
theorem Coherent.names_eq (hg : g.Coherent) (hh : h.Coherent) (hhas : ∀ x, g.has x = h.has x) :
    g.names = h.names := by
  refine Order.sort_eq_of_perm ((List.perm_ext_iff_of_nodup hg.nodup hh.nodup).mpr fun x => ?_)
  rw [← has_iff, ← has_iff, hhas]

theorem pairwise_dependenciesOf (g : DependencyGraph) (x : String) :
    (g.dependenciesOf x).Pairwise fun a b => Order.le a b = true := by
  unfold dependenciesOf
  cases g.find? x with
  | none => exact List.Pairwise.nil
  | some n => exact Order.pairwise_sort n.dependsOn

theorem pairwise_dependentsOf (g : DependencyGraph) (x : String) :
    (g.dependentsOf x).Pairwise fun a b => Order.le a b = true := by
  unfold dependentsOf
  cases g.find? x with
  | none => exact List.Pairwise.nil
  | some n => exact Order.pairwise_sort n.requiredBy

/-- Graphs with the same edges list what a name depends on alike. -/
theorem Coherent.dependenciesOf_eq (hg : g.Coherent) (hh : h.Coherent)
    (hedge : ∀ x y, g.Edge x y ↔ h.Edge x y) (x : String) :
    g.dependenciesOf x = h.dependenciesOf x :=
  Order.eq_of_perm (pairwise_dependenciesOf g x) (pairwise_dependenciesOf h x)
    ((List.perm_ext_iff_of_nodup (hg.nodup_dependenciesOf x) (hh.nodup_dependenciesOf x)).mpr
      (hedge x))

/-- Graphs with the same edges list what depends on a name alike. -/
theorem Mirrored.dependentsOf_eq (hg : g.Mirrored) (hh : h.Mirrored)
    (hedge : ∀ x y, g.Edge x y ↔ h.Edge x y) (x : String) :
    g.dependentsOf x = h.dependentsOf x := by
  refine Order.eq_of_perm (pairwise_dependentsOf g x) (pairwise_dependentsOf h x) ?_
  refine (List.perm_ext_iff_of_nodup (hg.once x) (hh.once x)).mpr fun y => ?_
  rw [hg.mem_iff, hh.mem_iff, hedge]

/-- The shape is determined by the names and the edges. -/
theorem Built.shape_eq_of (hg : g.Built) (hh : h.Built) (hhas : ∀ x, g.has x = h.has x)
    (hedge : ∀ x y, g.Edge x y ↔ h.Edge x y) : g.shape = h.shape := by
  rw [shape_eq, shape_eq, hg.coherent.names_eq hh.coherent hhas]
  refine List.map_congr_left fun x _ => ?_
  rw [hg.coherent.dependenciesOf_eq hh.coherent hedge, hg.mirrored.dependentsOf_eq hh.mirrored hedge]

/-- The view is determined by the dependencies and the edges. -/
theorem Built.view_eq_of (hg : g.Built) (hh : h.Built) (hpayload : ∀ x, g.payload? x = h.payload? x)
    (hedge : ∀ x y, g.Edge x y ↔ h.Edge x y) : g.view = h.view := by
  have hhas (x : String) : g.has x = h.has x := by
    rw [has_eq_isSome_payload?, has_eq_isSome_payload?, hpayload]
  rw [view_eq, view_eq, hg.coherent.names_eq hh.coherent hhas]
  refine List.filterMap_congr fun x _ => ?_
  rw [hpayload, hg.coherent.dependenciesOf_eq hh.coherent hedge,
    hg.mirrored.dependentsOf_eq hh.mirrored hedge]

end View

section Shape

theorem map_row_roots (g : DependencyGraph) :
    g.roots.map DependencyNode.row = g.shape.filter fun r => r.2.2.isEmpty := by
  have hempty (n : DependencyNode) : n.dependents.isEmpty = n.requiredBy.isEmpty :=
    (Order.sort_perm n.requiredBy).isEmpty_eq
  unfold roots shape
  rw [List.filter_map]
  simp only [Function.comp_def, DependencyNode.row, hempty]

theorem map_row_leaves (g : DependencyGraph) :
    g.leaves.map DependencyNode.row = g.shape.filter fun r => r.2.1.isEmpty := by
  have hempty (n : DependencyNode) : n.dependencies.isEmpty = n.dependsOn.isEmpty :=
    (Order.sort_perm n.dependsOn).isEmpty_eq
  unfold leaves shape
  rw [List.filter_map]
  simp only [Function.comp_def, DependencyNode.row, hempty]

/-- A walk sees of a graph what the names depend on. -/
theorem Walk.congr (hdeps : ∀ x, g.dependenciesOf x = h.dependenciesOf x) {path todo : List String}
    {s s' : Search} (hwalk : Walk g path todo s s') : Walk h path todo s s' := by
  induction hwalk with
  | done => exact .done
  | visit hnew _ _ ihinner ihrest => exact .visit hnew (hdeps _ ▸ ihinner) ihrest
  | close hold hon _ ih => exact .close hold hon ih
  | pass hold hoff _ ih => exact .pass hold hoff ih

theorem Lists.congr (hdeps : ∀ x, g.dependenciesOf x = h.dependenciesOf x) {todo : List String}
    {s s' : List String × List String} (hlists : Lists g todo s s') : Lists h todo s s' := by
  induction hlists with
  | done => exact .done
  | visit hnew _ _ ihinner ihrest => exact .visit hnew (hdeps _ ▸ ihinner) ihrest
  | pass hold _ ih => exact .pass hold ih

/-- Graphs with the same names and edges have the same cycles. -/
theorem Built.cycles_eq_of (hg : g.Built) (hh : h.Built) (hhas : ∀ x, g.has x = h.has x)
    (hedge : ∀ x y, g.Edge x y ↔ h.Edge x y) : g.cycles = h.cycles := by
  obtain ⟨s, hwalk, hcycles⟩ := walk_search hg.coherent
  obtain ⟨s', hwalk', hcycles'⟩ := walk_search hh.coherent
  have hsame : Walk h [] h.names {} s := by
    rw [← hg.coherent.names_eq hh.coherent hhas]
    exact hwalk.congr (hg.coherent.dependenciesOf_eq hh.coherent hedge)
  rw [hcycles, hcycles', hsame.unique hwalk']

/-- Graphs with the same names and edges are ordered alike. -/
theorem Built.order_eq_of (hg : g.Built) (hh : h.Built) (hhas : ∀ x, g.has x = h.has x)
    (hedge : ∀ x y, g.Edge x y ↔ h.Edge x y) : g.order = h.order := by
  have hcycles := hg.cycles_eq_of hh hhas hedge
  cases hnil : g.cycles with
  | cons c rest => rw [order, order, ← hcycles, hnil]
  | nil =>
      obtain ⟨s, hlists, horder⟩ := exists_lists hg.coherent
      obtain ⟨s', hlists', horder'⟩ := exists_lists hh.coherent
      have hsame : Lists h h.names ([], []) s := by
        rw [← hg.coherent.names_eq hh.coherent hhas]
        exact hlists.congr (hg.coherent.dependenciesOf_eq hh.coherent hedge)
      rw [horder hnil, horder' (hcycles ▸ hnil), hsame.unique hlists']

/-- What can be said of a graph without its dependencies is the same of two graphs. -/
structure Alike (g h : DependencyGraph) : Prop where
  shape : g.shape = h.shape
  roots : g.roots.map DependencyNode.row = h.roots.map DependencyNode.row
  leaves : g.leaves.map DependencyNode.row = h.leaves.map DependencyNode.row
  cycles : g.cycles = h.cycles
  order : g.order = h.order

/-- Graphs with the same names and edges are alike. -/
theorem Built.alike (hg : g.Built) (hh : h.Built) (hhas : ∀ x, g.has x = h.has x)
    (hedge : ∀ x y, g.Edge x y ↔ h.Edge x y) : g.Alike h := by
  have hshape := hg.shape_eq_of hh hhas hedge
  refine ⟨hshape, ?_, ?_, hg.cycles_eq_of hh hhas hedge, hg.order_eq_of hh hhas hedge⟩
  · rw [map_row_roots, map_row_roots, hshape]
  · rw [map_row_leaves, map_row_leaves, hshape]

end Shape

section Files

variable {files : List DependencyGraph}

theorem mergeAll_concat (files : List DependencyGraph) (g : DependencyGraph) :
    mergeAll (files ++ [g]) = (mergeAll files).merge g := List.foldl_concat ..

theorem built_mergeAll (hfiles : ∀ f ∈ files, f.Built) : (mergeAll files).Built := by
  induction files using List.reverseRecOn with
  | nil => exact .new
  | append_singleton files f ih =>
      rw [mergeAll_concat]
      rw [List.forall_mem_append, List.forall_mem_singleton] at hfiles
      exact .merge (ih hfiles.1) hfiles.2

/-- The names of a merge of many are those of each. -/
theorem has_mergeAll (hfiles : ∀ f ∈ files, f.Built) (x : String) :
    (mergeAll files).has x = files.any (·.has x) := by
  induction files using List.reverseRecOn with
  | nil => rfl
  | append_singleton files f ih =>
      rw [List.forall_mem_append, List.forall_mem_singleton] at hfiles
      rw [mergeAll_concat, has_merge hfiles.2.coherent, ih hfiles.1]
      simp

/-- The edges of a merge of many are those of each. -/
theorem edge_mergeAll (hfiles : ∀ f ∈ files, f.Built) :
    (mergeAll files).Edge x y ↔ ∃ f ∈ files, f.Edge x y := by
  induction files using List.reverseRecOn with
  | nil => simp [mergeAll, edge_iff, find?]
  | append_singleton files f ih =>
      rw [List.forall_mem_append, List.forall_mem_singleton] at hfiles
      rw [mergeAll_concat, edge_merge hfiles.2.coherent, ih hfiles.1]
      simp [or_and_right, exists_or]

end Files

/-- **Merging.**  However the graphs `g`, `h` and `k` were built: both entries of an edge agree, at
nodes that are there.  Merged graphs have the names and the edges of both, and the dependencies of
the second one where it has a name.  Merging is associative and idempotent, and graphs that are
merged in another order have the same names, edges, roots, leaves, cycles and order. -/
theorem merge_spec {g h k : DependencyGraph} (hg : g.Built) (hh : h.Built) (hk : k.Built)
    {files files' : List DependencyGraph} (hfiles : ∀ f ∈ files, f.Built)
    (hperm : files.Perm files') :
    g.Consistent ∧
    (∀ x, (g.merge h).has x = (g.has x || h.has x)) ∧
    (∀ x y, (g.merge h).Edge x y ↔ g.Edge x y ∨ h.Edge x y) ∧
    (∀ x, (g.merge h).payload? x = (h.payload? x).or (g.payload? x)) ∧
    ((g.merge h).merge k).view = (g.merge (h.merge k)).view ∧
    (g.merge g).view = g.view ∧
    (g.merge h).Alike (h.merge g) ∧
    (mergeAll files).Alike (mergeAll files') := by
  have hgc := hg.coherent
  have hhc := hh.coherent
  have hkc := hk.coherent
  refine ⟨hg.consistent, has_merge hhc, fun x y => edge_merge hhc, payload?_merge hhc,
    ?_, ?_, ?_, ?_⟩
  · refine Built.view_eq_of (.merge (.merge hg hh) hk) (.merge hg (.merge hh hk)) ?_ ?_
    · intro x
      rw [payload?_merge hkc, payload?_merge hhc, payload?_merge (hhc.merge k), payload?_merge hkc,
        Option.or_assoc]
    · intro x y
      rw [edge_merge hkc, edge_merge hhc, edge_merge (hhc.merge k), edge_merge hkc, or_assoc]
  · refine Built.view_eq_of (.merge hg hg) hg ?_ ?_
    · intro x
      rw [payload?_merge hgc, Option.or_self]
    · intro x y
      rw [edge_merge hgc, or_self]
  · refine Built.alike (.merge hg hh) (.merge hh hg) ?_ ?_
    · intro x
      rw [has_merge hhc, has_merge hgc, Bool.or_comm]
    · intro x y
      rw [edge_merge hhc, edge_merge hgc, or_comm]
  · have hfiles' : ∀ f ∈ files', f.Built := fun f hf => hfiles f (hperm.mem_iff.mpr hf)
    refine (built_mergeAll hfiles).alike (built_mergeAll hfiles') ?_ ?_
    · intro x
      rw [has_mergeAll hfiles, has_mergeAll hfiles', hperm.any_eq]
    · intro x y
      rw [edge_mergeAll hfiles, edge_mergeAll hfiles']
      simp only [hperm.mem_iff]

/-- Two files, of which both know a name and each has an edge: the edges come together, and whose
dependency stays depends on the order. -/
theorem merge_spec_twoFiles :
    let node (name version : String) : Dependency :=
      { name, version, type := .package, required := true, bundled := false,
        location := ⟨"", 0, 0, 0, 0⟩ }
    let g := ((({} : DependencyGraph).add (node "a" "")).add (node "b" "1")).link "a" "b"
    let h := ((({} : DependencyGraph).add (node "b" "2")).add (node "c" "")).link "b" "c"
    g.Built ∧ h.Built ∧ [g, h].Perm [h, g] ∧ g.Consistent ∧
      (g.merge h).Edge "a" "b" ∧ (g.merge h).Edge "b" "c" ∧
      (g.merge h).payload? "b" = some (node "b" "2") ∧
      (h.merge g).payload? "b" = some (node "b" "1") ∧
      ((g.merge h).merge g).view = (g.merge (h.merge g)).view ∧ (g.merge g).view = g.view ∧
      (g.merge h).Alike (h.merge g) ∧ (mergeAll [g, h]).Alike (mergeAll [h, g]) := by
  intro node g h
  have hg : g.Built := .link "a" "b" (.add (node "b" "1") (.add (node "a" "") .new))
  have hh : h.Built := .link "b" "c" (.add (node "c" "") (.add (node "b" "2") .new))
  have hfiles : ∀ f ∈ [g, h], f.Built := by simp [hg, hh]
  have hfiles' : ∀ f ∈ [h, g], f.Built := by simp [hg, hh]
  have hperm : [g, h].Perm [h, g] := .swap h g []
  have hab : g.Edge "a" "b" := by
    simp [edge_iff, g, node, add, link, update, canLink, has, find?, DependencyNode.name, insertName]
  have hbc : h.Edge "b" "c" := by
    simp [edge_iff, h, node, add, link, update, canLink, has, find?, DependencyNode.name, insertName]
  have hgb : g.payload? "b" = some (node "b" "1") := rfl
  have hhb : h.payload? "b" = some (node "b" "2") := rfl
  obtain ⟨hconsistent, -, hedge, hpayload, hassoc, hself, halike, hall⟩ :=
    merge_spec hg hh hg hfiles hperm
  obtain ⟨-, -, -, hpayload', -, -, -, -⟩ := merge_spec hh hg hh hfiles' hperm.symm
  refine ⟨hg, hh, hperm, hconsistent, (hedge _ _).mpr (Or.inl hab), (hedge _ _).mpr (Or.inr hbc),
    ?_, ?_, hassoc, hself, halike, hall⟩
  · rw [hpayload, hhb]
    rfl
  · rw [hpayload', hgb]
    rfl

end DependencyGraph
end InstallerLint
