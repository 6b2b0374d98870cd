import InstallerLint.Dependency.Report
import InstallerLint.Proofs.Dependency.Cycles
import InstallerLint.Proofs.Dependency.Lookup

/-!
# The order of installation

The order is found by a second walk through the graph, which lists a name when everything that it
depends on is listed.  It visits the names as the search for cycles does, but has no path.

**Without a bound.**  `Lists` describes this walk by its cases alone, and the bound on its steps is
never reached (`exists_lists`).

**Order.**  The list is the one in which the search for cycles leaves the names.  When no cycle was
reported, every edge leads from a name to one behind it (`Settled.idxOf_lt`).  So no name depends on
itself, and the search for cycles and the order agree on which graphs have one (`order_cases`).

**The main result** is `order_spec`.
-/

namespace InstallerLint
namespace DependencyGraph

open Relation (TransGen)

section Ends

variable {g : DependencyGraph} {todo : List String} {s s' s'' : List String × List String}

/-- The walk comes to one end only. -/
theorem Lists.unique (h : Lists g todo s s') (h' : Lists g todo s s'') : s' = s'' := by
  induction h generalizing s'' with
  | done =>
      cases h'
      rfl
  | visit hnew _ _ ihinner ihrest =>
      cases h' with
      | visit _ hinner' hrest' =>
          obtain ⟨rfl, rfl⟩ := Prod.mk.inj (ihinner hinner')
          exact ihrest hrest'
      | pass hold => exact absurd hold hnew
  | pass hold _ ih =>
      cases h' with
      | visit hnew => exact absurd hold hnew
      | pass _ hrest' => exact ih hrest'

/-- The walk forgets nothing that was visited. -/
theorem Lists.visited_subset (h : Lists g todo s s') : s.1 ⊆ s'.1 := by
  induction h with
  | done => exact List.Subset.refl _
  | visit _ _ _ ihinner ihrest =>
      exact fun x hx => ihrest (ihinner (List.mem_cons_of_mem _ hx))
  | pass _ _ ih => exact ih

/-- The walk visits names of the graph only. -/
theorem Lists.visited_names (hg : g.Coherent) (h : Lists g todo s s') (htodo : todo ⊆ g.names)
    (hs : s.1 ⊆ g.names) : s'.1 ⊆ g.names := by
  induction h with
  | done => exact hs
  | visit _ _ _ ihinner ihrest =>
      obtain ⟨hname, hrest⟩ := List.cons_subset.mp htodo
      refine ihrest hrest (ihinner (fun y hy => (hg.mem_names_of_edge hy).2) ?_)
      exact List.cons_subset.mpr ⟨hname, hs⟩
  | pass _ _ ih => exact ih (List.cons_subset.mp htodo).2 hs

theorem orderFrom_succ (g : DependencyGraph) (name : String) (fuel : Nat)
    (s : List String × List String) :
    orderFrom g name (fuel + 1) s =
      ((orderEach g fuel (g.dependenciesOf name) (name :: s.1, s.2)).1,
        name :: (orderEach g fuel (g.dependenciesOf name) (name :: s.1, s.2)).2) := by
  rw [orderFrom]

/-- With enough steps the bounded walk is a walk. -/
theorem lists_orderEach (hg : g.Coherent) (fuel : Nat) :
    ∀ {todo : List String} {s : List String × List String}, todo ⊆ g.names →
      todo.length + g.unseen { visited := s.1 } * (g.size + 2) ≤ fuel →
      Lists g todo s (orderEach g fuel todo s) := by
  induction fuel using Nat.strongRecOn with
  | ind fuel ih =>
  intro todo s htodo hfuel
  cases todo with
  | nil =>
      rw [orderEach]
      exact .done
  | cons name rest =>
      rw [List.length_cons] at hfuel
      have hname : name ∈ g.names := htodo List.mem_cons_self
      have hrest : rest ⊆ g.names := fun x hx => htodo (List.mem_cons_of_mem _ hx)
      by_cases hnew : name ∈ s.1
      · obtain ⟨steps, rfl⟩ : ∃ steps, fuel = steps + 1 := ⟨fuel - 1, by omega⟩
        rw [orderEach, if_pos (by simpa using hnew)]
        exact .pass hnew (ih steps (by omega) hrest (by omega))
      · obtain ⟨inner, rfl, hdeps, hlater⟩ := fuel_visit (s := { visited := s.1 }) hg hname hnew hfuel
        rw [orderEach, if_neg (by simpa using hnew), orderFrom_succ]
        have hinner : Lists g (g.dependenciesOf name) (name :: s.1, s.2) _ :=
          ih inner (by omega) (fun y hy => (hg.mem_names_of_edge hy).2) hdeps
        refine .visit hnew hinner (ih (inner + 1) (by omega) hrest ?_)
        exact hlater { visited := _ } hinner.visited_subset

/-- **The walk ends.**  Without a cycle the order of a coherent graph is what the walk through all
of its names lists. -/
theorem exists_lists (hg : g.Coherent) :
    ∃ s, Lists g g.names ([], []) s ∧ (g.cycles = [] → g.order = .ok s.2) := by
  refine ⟨_, ?_, fun hnil => by rw [order, hnil]⟩
  have hfold : ∀ (todo : List String) (s : List String × List String), todo ⊆ g.names →
      Lists g todo s (todo.foldl (fun s name =>
        if s.1.contains name then s else orderFrom g name g.walkFuel s) s) := by
    intro todo
    induction todo with
    | nil => exact fun s _ => .done
    | cons name todo ih =>
        intro s htodo
        have hrest : todo ⊆ g.names := fun x hx => htodo (List.mem_cons_of_mem _ hx)
        rw [List.foldl_cons]
        by_cases hnew : name ∈ s.1
        · rw [if_pos (by simpa using hnew)]
          exact .pass hnew (ih s hrest)
        · rw [if_neg (by simpa using hnew)]
          obtain ⟨fuel, hfuel, hsteps⟩ := walkFuel_visit hg name { visited := name :: s.1 }
          have hinner : Lists g (g.dependenciesOf name) (name :: s.1, s.2) _ :=
            lists_orderEach hg fuel (fun y hy => (hg.mem_names_of_edge hy).2) hsteps
          rw [hfuel, orderFrom_succ, ← hfuel]
          exact .visit hnew hinner (ih _ hrest)
  exact hfold g.names ([], []) (List.Subset.refl _)

end Ends

section Order

variable {g : DependencyGraph} {l : List String} {x y : String}

/-- Where no cycle is reported, a name stands before all that it depends on. -/
theorem Settled.idxOf_lt (h : Settled g [] l) (hnodup : l.Nodup) (hx : x ∈ l) (hxy : g.Edge x y) :
    l.idxOf x < l.idxOf y := by
  induction l with
  | nil => cases hx
  | cons a l ih =>
      obtain ⟨hnew, hnodup⟩ := List.nodup_cons.mp hnodup
      have hopen (u v : String) (huv : g.Edge u v) : g.Edge u v ∧ ¬Closes [] u v :=
        ⟨huv, fun ⟨_, hc, _⟩ => List.not_mem_nil hc⟩
      have hy : y ∈ l := by
        rcases List.mem_cons.mp hx with rfl | hx
        · exact (h.1 y hxy).resolve_right (hopen x y hxy).2
        · exact h.2.mem_of_edge hopen hx hxy
      have hya : a ≠ y := fun heq => hnew (heq ▸ hy)
      rw [List.idxOf_cons_ne l hya]
      rcases List.mem_cons.mp hx with rfl | hx
      · rw [List.idxOf_cons_self]
        exact Nat.succ_pos _
      · have hxa : a ≠ x := fun heq => hnew (heq ▸ hx)
        rw [List.idxOf_cons_ne l hxa]
        exact Nat.succ_lt_succ (ih h.2 hnodup hx)

/-- Everything that the search for cycles reports is a cycle. -/
theorem Coherent.isCycle (hg : g.Coherent) {c : List String} (hc : c ∈ g.cycles) :
    g.IsCycle c := by
  obtain ⟨s, hwalk, hcycles⟩ := walk_search hg
  have hstart : Stands g [] g.names {} :=
    ⟨List.isChain_nil, List.nodup_nil, List.nil_subset _, by simp, hg.nodup_names⟩
  obtain ⟨new, hnew, hsound, -, -⟩ := hwalk.reports hg hstart
  refine hsound c ?_
  rw [hcycles, hnew] at hc
  exact hc

/-- Without a reported cycle all names are listed, each before those it depends on. -/
theorem Coherent.order_of_cycles_nil (hg : g.Coherent) (hnil : g.cycles = []) :
    ∃ l, g.order = .ok l ∧ l.Perm g.names ∧ ∀ x y, g.Edge x y → l.idxOf x < l.idxOf y := by
  obtain ⟨s, hlists, horder⟩ := exists_lists hg
  obtain ⟨s', hwalk, hcycles⟩ := walk_search hg
  have hnone : HasLeft g [] {} [] := ⟨by simp, List.nodup_nil, trivial⟩
  obtain ⟨left, hlists', hleft, htodo⟩ := hwalk.lists (List.nil_subset _) hnone
  obtain rfl : s = (s'.visited, left) := hlists.unique hlists'
  have hvisited : s'.visited ⊆ g.names :=
    hlists.visited_names hg (List.Subset.refl _) (List.nil_subset _)
  have hmem (x : String) : x ∈ left ↔ x ∈ g.names := by
    refine ⟨fun hx => hvisited ((hleft.mem_iff x).mp hx).1, fun hx => ?_⟩
    rcases htodo x hx with hx | ⟨_, hend, -⟩
    · exact hx
    · cases hend
  have hsettled : Settled g [] left := by
    rw [← hnil, hcycles]
    exact hleft.settled
  refine ⟨left, horder hnil, ?_, fun x y hxy => ?_⟩
  · exact (List.perm_ext_iff_of_nodup hleft.nodup hg.nodup_names).mpr hmem
  · exact hsettled.idxOf_lt hleft.nodup ((hmem x).mpr (hg.mem_names_of_edge hxy).1) hxy

/-- A graph has a cycle, which is reported first, or its names have an order. -/
theorem Coherent.order_cases (hg : g.Coherent) :
    (∃ c rest, g.cycles = c :: rest ∧ g.order = .error c ∧ g.IsCycle c) ∨
    (g.cycles = [] ∧ ∃ l, g.order = .ok l ∧ l.Perm g.names ∧
      ∀ x y, g.Edge x y → l.idxOf x < l.idxOf y) := by
  cases hcycles : g.cycles with
  | nil => exact Or.inr ⟨rfl, hg.order_of_cycles_nil hcycles⟩
  | cons c rest =>
      refine Or.inl ⟨c, rest, rfl, by rw [order, hcycles], hg.isCycle ?_⟩
      rw [hcycles]
      exact List.mem_cons_self

/-- Where there is an order, no name depends on itself. -/
theorem not_transGen_of_idxOf (h : ∀ x y, g.Edge x y → l.idxOf x < l.idxOf y) (x : String) :
    ¬TransGen g.Edge x x := by
  have hlt (y : String) (hxy : TransGen g.Edge x y) : l.idxOf x < l.idxOf y := by
    induction hxy with
    | single hstep => exact h _ _ hstep
    | tail _ hstep ih => exact Nat.lt_trans ih (h _ _ hstep)
  exact fun hcircle => Nat.lt_irrefl _ (hlt x hcircle)

end Order

section Report

variable {g : DependencyGraph} (project : String)

theorem total_of (g : DependencyGraph) :
    (DependencyReport.of project g).total = g.names.length := by
  rw [← map_name_sorted, List.length_map]
  exact List.length_map _

theorem order_of_error {c : List String} (h : g.order = .error c) :
    (DependencyReport.of project g).order = [] := by
  show (g.order.toOption).getD [] = []
  rw [h]
  rfl

theorem order_of_ok {l : List String} (h : g.order = .ok l) :
    (DependencyReport.of project g).order = l := by
  show (g.order.toOption).getD [] = l
  rw [h]
  rfl

end Report

/-- **The order of installation.**  However a graph was built, its order fails exactly when some
name depends on itself, directly or not, and then what it gives is a cycle.  Otherwise it has every
name once, and a name stands before all that it depends on.  So a report has cycles exactly for the
graphs with a cycle, and for the others an order that is as long as the list of dependencies. -/
theorem order_spec {g : DependencyGraph} (h : g.Built) (project : String) :
    ((∃ c, g.order = .error c) ↔ ∃ x, TransGen g.Edge x x) ∧
    (∀ c, g.order = .error c → g.IsCycle c) ∧
    (∀ l, g.order = .ok l → l.Perm g.names ∧ ∀ x y, g.Edge x y → l.idxOf x < l.idxOf y) ∧
    ((DependencyReport.of project g).cycles ≠ [] ↔ ∃ x, TransGen g.Edge x x) ∧
    ((DependencyReport.of project g).order.length = (DependencyReport.of project g).total ↔
      ¬∃ x, TransGen g.Edge x x) := by
  rw [total_of]
  rcases h.coherent.order_cases with ⟨c, rest, hcycles, horder, hc⟩ | ⟨hcycles, l, horder, hl⟩
  · have hcyclic : ∃ x, TransGen g.Edge x x := hc.transGen
    have hreported : (DependencyReport.of project g).cycles = c :: rest := hcycles
    have hnames : 0 < g.names.length := by
      obtain ⟨x, hx⟩ := hcyclic
      obtain ⟨y, hxy, -⟩ := TransGen.head'_iff.mp hx
      exact List.length_pos_of_mem (h.coherent.mem_names_of_edge hxy).1
    rw [horder, order_of_error project horder, hreported]
    refine ⟨⟨fun _ => hcyclic, fun _ => ⟨c, rfl⟩⟩, ?_, ?_, ?_, ?_⟩
    · rintro _ ⟨⟩
      exact hc
    · rintro _ ⟨⟩
    · exact ⟨fun _ => hcyclic, fun _ => List.cons_ne_nil c rest⟩
    · exact ⟨fun hlength => absurd hlength hnames.ne, fun hno => absurd hcyclic hno⟩
  · have hacyclic : ¬∃ x, TransGen g.Edge x x := fun ⟨x, hx⟩ => not_transGen_of_idxOf hl.2 x hx
    have hreported : (DependencyReport.of project g).cycles = [] := hcycles
    rw [horder, order_of_ok project horder, hreported]
    refine ⟨⟨?_, fun hcyclic => absurd hcyclic hacyclic⟩, ?_, ?_, ?_, ?_⟩
    · rintro ⟨_, ⟨⟩⟩
    · rintro _ ⟨⟩
    · rintro _ ⟨⟩
      exact hl
    · exact ⟨fun hne => absurd rfl hne, fun hcyclic => absurd hcyclic hacyclic⟩
    · exact ⟨fun _ => hacyclic, fun _ => hl.1.length_eq⟩

/-- Three names, where the second one depends on both of the others and comes first. -/
theorem order_spec_three :
    let node (name : String) : Dependency :=
      { name, type := .package, required := true, bundled := false, location := ⟨"", 0, 0, 0, 0⟩ }
    let g := (((((({} : DependencyGraph).add (node "a")).add (node "b")).add (node "c")).link
      "b" "a").link "b" "c").link "a" "c"
    g.Built ∧ g.order = .ok ["b", "a", "c"] ∧ ["b", "a", "c"].Perm g.names ∧
      (∀ x y, g.Edge x y → ["b", "a", "c"].idxOf x < ["b", "a", "c"].idxOf y) ∧
      (¬∃ x, TransGen g.Edge x x) ∧ (DependencyReport.of "p" g).cycles = [] ∧
      (DependencyReport.of "p" g).order.length = (DependencyReport.of "p" g).total := by
  intro node g
  have hbuilt : g.Built :=
    .link "a" "c" (.link "b" "c" (.link "b" "a"
      (.add (node "c") (.add (node "b") (.add (node "a") .new)))))
  have hnodes : g = ⟨[⟨node "a", ["c"], ["b"]⟩, ⟨node "b", ["a", "c"], []⟩,
      ⟨node "c", [], ["b", "a"]⟩]⟩ := by
    simp [g, node, add, link, update, canLink, has, find?, DependencyNode.name, insertName]
  have hnames : g.names = ["a", "b", "c"] := by
    rw [hnodes]
    exact List.mergeSort_of_pairwise (by decide)
  have ha : g.dependenciesOf "a" = ["c"] := by
    rw [hnodes]
    exact List.mergeSort_singleton "c"
  have hb : g.dependenciesOf "b" = ["a", "c"] := by
    rw [hnodes]
    exact List.mergeSort_of_pairwise (by decide)
  have hc : g.dependenciesOf "c" = [] := by
    rw [hnodes]
    exact List.mergeSort_nil
  have hfuel : g.walkFuel = 25 := by
    rw [hnodes]
    rfl
  have hcycles : g.cycles = [] := by
    simp [cycles, hnames, hfuel, searchFrom, searchEach, ha, hb, hc]
  have horder : g.order = .ok ["b", "a", "c"] := by
    simp [order, hcycles, hnames, hfuel, orderFrom, orderEach, ha, hb, hc]
  obtain ⟨-, -, hordered, hreported, hlength⟩ := order_spec hbuilt "p"
  obtain ⟨hperm, hbefore⟩ := hordered _ horder
  have hacyclic : ¬∃ x, TransGen g.Edge x x := fun hcyclic => hreported.mpr hcyclic hcycles
  exact ⟨hbuilt, horder, hperm, hbefore, hacyclic, hcycles, hlength.mpr hacyclic⟩

end DependencyGraph
end InstallerLint
