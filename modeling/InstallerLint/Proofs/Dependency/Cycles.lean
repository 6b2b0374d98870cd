import InstallerLint.Proofs.Dependency.Built
import Mathlib.Data.List.Chain
import Mathlib.Logic.Relation

/-!
# Cycles of dependencies

The search for cycles goes depth first through the names of a graph.  It remembers the names that it
has visited and the path to where it is; when it meets a name of its own path it reports the part of
the path from this name on.

**Without a bound.**  `Walk` describes the search by its cases alone.  In a coherent graph the
search always comes to its end, and the bound on its steps is never reached (`walk_search`).

**Soundness.**  Everything a walk reports is a cycle, and no two cycles are closed by the same edge
(`Walk.reports`).

**Completeness.**  When a walk leaves a name, every edge out of it leads to a name that was left
before, or it closes a reported cycle (`Walk.settles`).  So without the closing edges no cycle is
left.

**The main result** is `cycles_spec`.
-/

namespace InstallerLint
namespace DependencyGraph

open Relation (TransGen ReflTransGen)

/-- Names in a circle: each one depends on the next one, and the last one on the first one. -/
structure IsCycle (g : DependencyGraph) (c : List String) : Prop where
  nonempty : c ≠ []
  nodup : c.Nodup
  chain : c.IsChain g.Edge
  closed : ∀ x ∈ c.getLast?, ∀ y ∈ c.head?, g.Edge x y

/-- The edge from `x` to `y` leads from the last name of a cycle to its first one. -/
def Closes (cycles : List (List String)) (x y : String) : Prop :=
  ∃ c ∈ cycles, c.getLast? = some x ∧ c.head? = some y

/-- An edge that is left when the last edge of every reported cycle is deleted. -/
def Remains (g : DependencyGraph) (x y : String) : Prop := g.Edge x y ∧ ¬Closes g.cycles x y

/-- The ends of the last edge of a cycle. -/
def closing (c : List String) : Option String × Option String := (c.getLast?, c.head?)

/-- The search goes on from the end of a path to some names. -/
inductive Walk (g : DependencyGraph) : (path todo : List String) → (before after : Search) → Prop
  | done {path : List String} {s : Search} : Walk g path [] s s
  | visit {path rest : List String} {name : String} {s s₁ s₂ : Search} :
      name ∉ s.visited →
      Walk g (path ++ [name]) (g.dependenciesOf name) { s with visited := name :: s.visited } s₁ →
      Walk g path rest s₁ s₂ → Walk g path (name :: rest) s s₂
  | close {path rest : List String} {name : String} {s s₁ : Search} :
      name ∈ s.visited → name ∈ path →
      Walk g path rest { s with cycles := s.cycles ++ [path.dropWhile (· ≠ name)] } s₁ →
      Walk g path (name :: rest) s s₁
  | pass {path rest : List String} {name : String} {s s₁ : Search} :
      name ∈ s.visited → name ∉ path → Walk g path rest s s₁ → Walk g path (name :: rest) s s₁

section Ends

variable {g : DependencyGraph} {path todo : List String} {s s' s'' : Search}

/-- A walk comes to one end only. -/
theorem Walk.unique (h : Walk g path todo s s') (h' : Walk g path todo s s'') : s' = s'' := by
  induction h generalizing s'' with
  | done =>
      cases h'
      rfl
  | visit hnew _ _ ihinner ihrest =>
      cases h' with
      | visit _ hinner' hrest' =>
          obtain rfl := ihinner hinner'
          exact ihrest hrest'
      | close hold => exact absurd hold hnew
      | pass hold => exact absurd hold hnew
  | close hold hpath _ ih =>
      cases h' with
      | visit hnew => exact absurd hold hnew
      | close _ _ hrest' => exact ih hrest'
      | pass _ hoff => exact absurd hpath hoff
  | pass hold hoff _ ih =>
      cases h' with
      | visit hnew => exact absurd hold hnew
      | close _ hpath => exact absurd hpath hoff
      | pass _ _ hrest' => exact ih hrest'

/-- A walk forgets nothing that was visited. -/
theorem Walk.visited_subset (h : Walk g path todo s s') : s.visited ⊆ s'.visited := by
  induction h with
  | done => exact List.Subset.refl _
  | visit _ _ _ ihinner ihrest =>
      exact fun x hx => ihrest (ihinner (List.mem_cons_of_mem _ hx))
  | close _ _ _ ih => exact ih
  | pass _ _ _ ih => exact ih

/-- A walk forgets no cycle. -/
theorem Walk.cycles_subset (h : Walk g path todo s s') : s.cycles ⊆ s'.cycles := by
  induction h with
  | done => exact List.Subset.refl _
  | visit _ _ _ ihinner ihrest => exact fun x hx => ihrest (ihinner hx)
  | close _ _ _ ih => exact fun x hx => ih (List.mem_append_left _ hx)
  | pass _ _ _ ih => exact ih

/-- How many names are not visited yet. -/
def unseen (g : DependencyGraph) (s : Search) : Nat := g.names.countP (· ∉ s.visited)

theorem unseen_le_of_subset (h : s.visited ⊆ s'.visited) : g.unseen s' ≤ g.unseen s := by
  refine List.countP_mono_left fun x _ hx => ?_
  rw [decide_eq_true_eq] at hx ⊢
  exact fun hmem => hx (h hmem)

theorem unseen_visit {name : String} (hname : name ∈ g.names) (hnew : name ∉ s.visited) :
    g.unseen { s with visited := name :: s.visited } < g.unseen s := by
  obtain ⟨front, back, hsplit⟩ := List.append_of_mem hname
  have hle (l : List String) :
      l.countP (· ∉ name :: s.visited) ≤ l.countP (· ∉ s.visited) := by
    refine List.countP_mono_left fun x _ hx => ?_
    rw [decide_eq_true_eq] at hx ⊢
    exact fun hmem => hx (List.mem_cons_of_mem _ hmem)
  have hfront := hle front
  have hback := hle back
  show g.names.countP (· ∉ name :: s.visited) < g.names.countP (· ∉ s.visited)
  rw [hsplit, List.countP_append, List.countP_append, List.countP_cons, List.countP_cons,
    if_neg (by simp), if_pos (by simpa using hnew)]
  omega

/-- Steps for a visit.  There is one step for each name to go on to, and for every name that may
still be visited as many as there are names, and two.  That suffices for what is below a name, and
afterwards for the rest. -/
theorem fuel_visit (hg : g.Coherent) {name : String} {rest : List String} {fuel : Nat}
    (hname : name ∈ g.names) (hnew : name ∉ s.visited)
    (hfuel : rest.length + 1 + g.unseen s * (g.size + 2) ≤ fuel) :
    ∃ inner, fuel = inner + 2 ∧
      (g.dependenciesOf name).length +
        g.unseen { s with visited := name :: s.visited } * (g.size + 2) ≤ inner ∧
      ∀ s' : Search, name :: s.visited ⊆ s'.visited →
        rest.length + g.unseen s' * (g.size + 2) ≤ inner + 1 := by
  have hunseen := unseen_visit hname hnew
  have hlength := hg.length_dependenciesOf_le name
  obtain ⟨more, hmore⟩ : ∃ more, g.unseen s = more + 1 := ⟨g.unseen s - 1, by omega⟩
  rw [hmore, Nat.succ_mul] at hfuel
  have hmul : g.unseen { s with visited := name :: s.visited } * (g.size + 2) ≤
      more * (g.size + 2) := Nat.mul_le_mul_right _ (by omega)
  refine ⟨fuel - 2, by omega, by omega, fun s' hs' => ?_⟩
  have hle : g.unseen s' ≤ g.unseen { s with visited := name :: s.visited } :=
    unseen_le_of_subset hs'
  have hmul' := Nat.mul_le_mul_right (g.size + 2) hle
  omega

/-- The bound on the steps of a walk suffices for a visit from outside. -/
theorem walkFuel_visit (hg : g.Coherent) (name : String) (s : Search) :
    ∃ fuel, g.walkFuel = fuel + 1 ∧
      (g.dependenciesOf name).length + g.unseen s * (g.size + 2) ≤ fuel := by
  have hsquare : g.walkFuel = g.size * (g.size + 2) + 2 * (g.size + 2) := Nat.add_mul ..
  have hlength := hg.length_dependenciesOf_le name
  have hunseen : g.unseen s ≤ g.size := List.countP_le_length.trans g.length_names.le
  have hmul := Nat.mul_le_mul_right (g.size + 2) hunseen
  exact ⟨g.walkFuel - 1, by omega, by omega⟩

/-- With enough steps the bounded search is a walk. -/
theorem walk_searchEach (hg : g.Coherent) (fuel : Nat) :
    ∀ {path todo : List String} {s : Search}, todo ⊆ g.names →
      todo.length + g.unseen s * (g.size + 2) ≤ fuel →
      Walk g path todo s (searchEach g path fuel todo s) := by
  induction fuel using Nat.strongRecOn with
  | ind fuel ih =>
  intro path todo s htodo hfuel
  cases todo with
  | nil =>
      rw [searchEach]
      exact .done
  | cons name rest =>
      rw [List.length_cons] at hfuel
      have hname : name ∈ g.names := htodo List.mem_cons_self
      have hrest : rest ⊆ g.names := fun x hx => htodo (List.mem_cons_of_mem _ hx)
      by_cases hnew : name ∈ s.visited
      · obtain ⟨steps, rfl⟩ : ∃ steps, fuel = steps + 1 := ⟨fuel - 1, by omega⟩
        have hvisited : s.visited.contains name = true := by simpa using hnew
        rw [searchEach]
        by_cases hpath : name ∈ path
        · have hcontains : path.contains name = true := by simpa using hpath
          simp only [hvisited, hcontains, Bool.not_true, Bool.false_eq_true, if_false, if_true]
          exact .close hnew hpath (ih steps (by omega) hrest (by
            show rest.length + g.unseen s * (g.size + 2) ≤ steps
            omega))
        · have hcontains : path.contains name = false := by simpa using hpath
          simp only [hvisited, hcontains, Bool.not_true, Bool.false_eq_true, if_false]
          exact .pass hnew hpath (ih steps (by omega) hrest (by omega))
      · obtain ⟨inner, rfl, hdeps, hlater⟩ := fuel_visit hg hname hnew hfuel
        have hvisited : s.visited.contains name = false := by simpa using hnew
        rw [searchEach]
        simp only [hvisited, Bool.not_false, if_true]
        rw [searchFrom]
        have hinner : Walk g (path ++ [name]) (g.dependenciesOf name)
            { s with visited := name :: s.visited } _ :=
          ih inner (by omega) (fun y hy => (hg.mem_names_of_edge hy).2) hdeps
        exact .visit hnew hinner (ih (inner + 1) (by omega) hrest (hlater _ hinner.visited_subset))

/-- **The search ends.**  The cycles of a coherent graph are those that a walk through all of its
names finds, and there is one such walk. -/
theorem walk_search (hg : g.Coherent) : ∃ s, Walk g [] g.names {} s ∧ g.cycles = s.cycles := by
  refine ⟨_, ?_, rfl⟩
  have hfold : ∀ (todo : List String) (s : Search), todo ⊆ g.names →
      Walk g [] todo s (todo.foldl (fun s name =>
        if s.visited.contains name then s else searchFrom g [] name g.walkFuel s) s) := by
    intro todo
    induction todo with
    | nil => exact fun s _ => .done
    | cons name todo ih =>
        intro s htodo
        have hname : name ∈ g.names := htodo List.mem_cons_self
        have hrest : todo ⊆ g.names := fun x hx => htodo (List.mem_cons_of_mem _ hx)
        rw [List.foldl_cons]
        by_cases hnew : name ∈ s.visited
        · rw [if_pos (by simpa using hnew)]
          exact .pass hnew List.not_mem_nil (ih s hrest)
        · rw [if_neg (by simpa using hnew)]
          refine .visit hnew ?_ (ih _ hrest)
          obtain ⟨fuel, hfuel, hsteps⟩ :=
            walkFuel_visit hg name { s with visited := name :: s.visited }
          rw [hfuel, searchFrom]
          exact walk_searchEach hg fuel (fun y hy => (hg.mem_names_of_edge hy).2) hsteps
  exact hfold g.names {} (List.Subset.refl _)

end Ends

section Reports

variable {g : DependencyGraph} {path todo : List String} {name x : String} {s s' : Search}

/-- The part of a path from one of its names on. -/
theorem exists_dropWhile (h : name ∈ path) :
    ∃ front rest, path = front ++ name :: rest ∧ path.dropWhile (· ≠ name) = name :: rest := by
  induction path with
  | nil => cases h
  | cons a path ih =>
      by_cases ha : a = name
      · subst ha
        exact ⟨[], path, rfl, by simp⟩
      · obtain ⟨front, rest, hpath, hdrop⟩ := ih ((List.mem_cons.mp h).resolve_left (Ne.symm ha))
        refine ⟨a :: front, rest, by rw [hpath, List.cons_append], ?_⟩
        rw [List.dropWhile_cons_of_pos (by simpa using ha), hdrop]

/-- The circle that a name of the path closes: it ends where the path ends. -/
theorem ends_dropWhile (h : name ∈ path) :
    (path.dropWhile (· ≠ name)).getLast? = path.getLast? ∧
      (path.dropWhile (· ≠ name)).head? = some name := by
  obtain ⟨front, rest, hpath, hdrop⟩ := exists_dropWhile h
  rw [hdrop, hpath]
  refine ⟨?_, rfl⟩
  rw [List.getLast?_append_of_ne_nil front (List.cons_ne_nil name rest)]

/-- Where a walk stands: a path of visited names along edges, and names to go on to that the last
name of the path depends on. -/
structure Stands (g : DependencyGraph) (path todo : List String) (s : Search) : Prop where
  chain : path.IsChain g.Edge
  nodup : path.Nodup
  visited : path ⊆ s.visited
  edges : ∀ x ∈ path.getLast?, ∀ y ∈ todo, g.Edge x y
  once : todo.Nodup

theorem Stands.tail (h : Stands g path (name :: todo) s) (hs : s.visited ⊆ s'.visited) :
    Stands g path todo s' where
  chain := h.chain
  nodup := h.nodup
  visited := fun _ hx => hs (h.visited hx)
  edges := fun x hx y hy => h.edges x hx y (List.mem_cons_of_mem _ hy)
  once := (List.nodup_cons.mp h.once).2

theorem Stands.visit (hg : g.Coherent) (h : Stands g path (name :: todo) s)
    (hnew : name ∉ s.visited) :
    Stands g (path ++ [name]) (g.dependenciesOf name)
      { s with visited := name :: s.visited } where
  chain := by
    refine List.isChain_append.mpr ⟨h.chain, List.isChain_singleton _, fun x hx y hy => ?_⟩
    obtain rfl : name = y := Option.some.inj hy
    exact h.edges x hx name List.mem_cons_self
  nodup := (List.perm_append_singleton name path).nodup_iff.mpr
    (List.nodup_cons.mpr ⟨fun hmem => hnew (h.visited hmem), h.nodup⟩)
  visited := fun x hx => by
    rcases List.mem_append.mp hx with hx | hx
    · exact List.mem_cons_of_mem _ (h.visited hx)
    · rw [List.mem_singleton.mp hx]
      exact List.mem_cons_self
  edges := fun _ hx _ hy => by
    rw [List.getLast?_concat] at hx
    cases hx
    exact hy
  once := hg.nodup_dependenciesOf name

theorem Stands.isCycle (h : Stands g path (name :: todo) s) (hpath : name ∈ path) :
    g.IsCycle (path.dropWhile (· ≠ name)) := by
  obtain ⟨hlast, hhead⟩ := ends_dropWhile hpath
  have hsuffix : path.dropWhile (· ≠ name) <:+ path := List.dropWhile_suffix _
  refine ⟨?_, h.nodup.sublist hsuffix.sublist, h.chain.suffix hsuffix, fun x hx y hy => ?_⟩
  · intro hnil
    rw [hnil] at hhead
    cases hhead
  · rw [hlast] at hx
    rw [hhead] at hy
    obtain rfl : name = y := Option.some.inj hy
    exact h.edges x hx name List.mem_cons_self

/-- Where the cycles come from that a walk reports: the last edge leads from the end of the path to
one of the names to go on to, or from a name that the walk visits. -/
def Origin (path todo : List String) (s s' : Search) (c : List String) : Prop :=
  (c.getLast? = path.getLast? ∧ ∃ y ∈ todo, c.head? = some y) ∨
    ∃ x, c.getLast? = some x ∧ x ∉ s.visited ∧ x ∈ s'.visited

/-- What a walk adds to the cycles: each of them is a cycle, closed by an edge of its own. -/
structure Reports (g : DependencyGraph) (path todo : List String) (s s' : Search)
    (new : List (List String)) : Prop where
  cycles : s'.cycles = s.cycles ++ new
  sound : ∀ c ∈ new, g.IsCycle c
  nodup : (new.map closing).Nodup
  origin : ∀ c ∈ new, Origin path todo s s' c

/-- What is reported after a visit ends with a name that was not visited before. -/
theorem Reports.ends_inside {s₁ : Search} {new : List (List String)}
    (h : Reports g (path ++ [name]) todo { s with visited := name :: s.visited } s₁ new)
    (hnew : name ∉ s.visited) (hname : name ∈ s₁.visited) {c : List String} (hc : c ∈ new) :
    ∃ x, c.getLast? = some x ∧ x ∉ s.visited ∧ x ∈ s₁.visited := by
  rcases h.origin c hc with ⟨hlast, -⟩ | ⟨x, hlast, hx, hx'⟩
  · exact ⟨name, by rw [hlast, List.getLast?_concat], hnew, hname⟩
  · exact ⟨x, hlast, fun hmem => hx (List.mem_cons_of_mem _ hmem), hx'⟩

theorem Reports.visit {s₁ s₂ : Search} {deps : List String} {new new' : List (List String)}
    (hs : Stands g path (name :: todo) s) (hnew : name ∉ s.visited)
    (hname : name ∈ s₁.visited) (hold : s.visited ⊆ s₁.visited) (hlater : s₁.visited ⊆ s₂.visited)
    (h : Reports g (path ++ [name]) deps { s with visited := name :: s.visited } s₁ new)
    (h' : Reports g path todo s₁ s₂ new') :
    Reports g path (name :: todo) s s₂ (new ++ new') where
  cycles := by rw [h'.cycles, h.cycles, List.append_assoc]
  sound := fun c hc => (List.mem_append.mp hc).elim (h.sound c) (h'.sound c)
  nodup := by
    rw [List.map_append]
    refine List.Nodup.append h.nodup h'.nodup fun e he he' => ?_
    obtain ⟨c, hc, rfl⟩ := List.mem_map.mp he
    obtain ⟨c', hc', hclosing⟩ := List.mem_map.mp he'
    obtain ⟨x, hlast, hx, hx'⟩ := h.ends_inside hnew hname hc
    have hlast' : c'.getLast? = some x := (congrArg Prod.fst hclosing).trans hlast
    rcases h'.origin c' hc' with ⟨hend, -⟩ | ⟨y, hy, hy', -⟩
    · refine hx (hs.visited (List.mem_of_getLast? ?_))
      rw [← hend, hlast']
    · rw [hlast'] at hy
      cases hy
      exact hy' hx'
  origin := by
    intro c hc
    rcases List.mem_append.mp hc with hc | hc
    · obtain ⟨x, hlast, hx, hx'⟩ := h.ends_inside hnew hname hc
      exact Or.inr ⟨x, hlast, hx, hlater hx'⟩
    · rcases h'.origin c hc with ⟨hend, y, hy, hhead⟩ | ⟨x, hlast, hx, hx'⟩
      · exact Or.inl ⟨hend, y, List.mem_cons_of_mem _ hy, hhead⟩
      · exact Or.inr ⟨x, hlast, fun hmem => hx (hold hmem), hx'⟩

theorem Origin.cons {c : List String} (h : Origin path todo s s' c) (name : String) :
    Origin path (name :: todo) s s' c := by
  rcases h with ⟨hend, y, hy, hhead⟩ | h
  · exact Or.inl ⟨hend, y, List.mem_cons_of_mem _ hy, hhead⟩
  · exact Or.inr h

theorem Reports.close {new : List (List String)} (hs : Stands g path (name :: todo) s)
    (hpath : name ∈ path)
    (h : Reports g path todo { s with cycles := s.cycles ++ [path.dropWhile (· ≠ name)] } s' new) :
    Reports g path (name :: todo) s s' (path.dropWhile (· ≠ name) :: new) where
  cycles := by
    rw [h.cycles, List.append_assoc]
    rfl
  sound := List.forall_mem_cons.mpr ⟨hs.isCycle hpath, h.sound⟩
  nodup := by
    obtain ⟨hlast, hhead⟩ := ends_dropWhile hpath
    rw [List.map_cons, List.nodup_cons]
    refine ⟨fun hmem => ?_, h.nodup⟩
    obtain ⟨c, hc, hclosing⟩ := List.mem_map.mp hmem
    have hlast' : c.getLast? = path.getLast? := (congrArg Prod.fst hclosing).trans hlast
    have hhead' : c.head? = some name := (congrArg Prod.snd hclosing).trans hhead
    rcases h.origin c hc with ⟨-, y, hy, hhead''⟩ | ⟨x, hend, hx, -⟩
    · rw [hhead'] at hhead''
      cases hhead''
      exact (List.nodup_cons.mp hs.once).1 hy
    · exact hx (hs.visited (List.mem_of_getLast? (hlast' ▸ hend)))
  origin := by
    obtain ⟨hlast, hhead⟩ := ends_dropWhile hpath
    refine List.forall_mem_cons.mpr ⟨Or.inl ⟨hlast, name, List.mem_cons_self, hhead⟩, ?_⟩
    exact fun c hc => (h.origin c hc).cons name

/-- **Soundness of a walk.**  Everything it reports is a cycle, and each of them is closed by an
edge of its own. -/
theorem Walk.reports (hg : g.Coherent) (h : Walk g path todo s s') (hs : Stands g path todo s) :
    ∃ new, Reports g path todo s s' new := by
  induction h with
  | done => exact ⟨[], by simp, by simp, by simp, by simp⟩
  | visit hnew hinner hrest ihinner ihrest =>
      have hold := List.subset_of_cons_subset hinner.visited_subset
      obtain ⟨new, hreports⟩ := ihinner (hs.visit hg hnew)
      obtain ⟨new', hreports'⟩ := ihrest (hs.tail hold)
      exact ⟨new ++ new', hreports.visit hs hnew (hinner.visited_subset List.mem_cons_self) hold
        hrest.visited_subset hreports'⟩
  | close _ hpath _ ih =>
      obtain ⟨new, hreports⟩ := ih (hs.tail fun _ hx => hx)
      exact ⟨_, hreports.close hs hpath⟩
  | @pass _ _ name _ _ _ _ _ ih =>
      obtain ⟨new, hreports⟩ := ih (hs.tail fun _ hx => hx)
      exact ⟨new, hreports.cycles, hreports.sound, hreports.nodup,
        fun c hc => (hreports.origin c hc).cons name⟩

end Reports

section Settled

variable {g : DependencyGraph} {path todo : List String} {s s' : Search}
  {cycles cycles' : List (List String)}

/-- Names in the order in which a walk left them, the last one first: an edge out of a name leads to
one behind it, or closes a cycle. -/
def Settled (g : DependencyGraph) (cycles : List (List String)) : List String → Prop
  | [] => True
  | x :: rest => (∀ y, g.Edge x y → y ∈ rest ∨ Closes cycles x y) ∧ Settled g cycles rest

/-- Goes through some names and lists each one when everything that it depends on was gone through,
in front of those that were listed before.  The state holds the visited names and the listed ones. -/
inductive Lists (g : DependencyGraph) :
    (todo : List String) → (before after : List String × List String) → Prop
  | done {s : List String × List String} : Lists g [] s s
  | visit {rest visited listed : List String} {name : String} {s s' : List String × List String} :
      name ∉ s.1 → Lists g (g.dependenciesOf name) (name :: s.1, s.2) (visited, listed) →
      Lists g rest (visited, name :: listed) s' → Lists g (name :: rest) s s'
  | pass {rest : List String} {name : String} {s s' : List String × List String} :
      name ∈ s.1 → Lists g rest s s' → Lists g (name :: rest) s s'

theorem Closes.mono {x y : String} (h : Closes cycles x y) (hsub : cycles ⊆ cycles') :
    Closes cycles' x y := by
  obtain ⟨c, hc, hends⟩ := h
  exact ⟨c, hsub hc, hends⟩

theorem Settled.mono (hsub : cycles ⊆ cycles') :
    ∀ {left : List String}, Settled g cycles left → Settled g cycles' left
  | [], _ => trivial
  | _ :: _, h => ⟨fun y hy => (h.1 y hy).imp_right fun hclose => hclose.mono hsub, h.2.mono hsub⟩

/-- The names that a walk has left: those that it visited and that are not on its path. -/
structure HasLeft (g : DependencyGraph) (path : List String) (s : Search) (left : List String) :
    Prop where
  mem_iff : ∀ x, x ∈ left ↔ x ∈ s.visited ∧ x ∉ path
  nodup : left.Nodup
  settled : Settled g s.cycles left

section HasLeft

variable {name : String} {left : List String}

/-- A name that is visited is on the path and not left. -/
theorem HasLeft.enter (h : HasLeft g path s left) (hnew : name ∉ s.visited) :
    HasLeft g (path ++ [name]) { s with visited := name :: s.visited } left where
  mem_iff := by
    intro x
    rw [h.mem_iff, List.mem_cons, List.mem_append, List.mem_singleton, not_or]
    constructor
    · rintro ⟨hx, hx'⟩
      exact ⟨Or.inr hx, hx', fun heq => hnew (heq ▸ hx)⟩
    · rintro ⟨hx, hx', hne⟩
      exact ⟨hx.resolve_left hne, hx'⟩
  nodup := h.nodup
  settled := h.settled

/-- The last name of a path can be left when all edges out of it were looked at. -/
theorem HasLeft.leave (h : HasLeft g (path ++ [name]) s left) (hname : name ∈ s.visited)
    (hoff : name ∉ path)
    (hdeps : ∀ y ∈ g.dependenciesOf name,
      y ∈ left ∨ ∃ x, (path ++ [name]).getLast? = some x ∧ Closes s.cycles x y) :
    HasLeft g path s (name :: left) where
  mem_iff := by
    intro x
    rw [List.mem_cons, h.mem_iff, List.mem_append, List.mem_singleton, not_or]
    constructor
    · rintro (rfl | ⟨hx, hx', -⟩)
      · exact ⟨hname, hoff⟩
      · exact ⟨hx, hx'⟩
    · rintro ⟨hx, hx'⟩
      by_cases heq : x = name
      · exact Or.inl heq
      · exact Or.inr ⟨hx, hx', heq⟩
  nodup := by
    refine List.nodup_cons.mpr ⟨fun hmem => ?_, h.nodup⟩
    exact ((h.mem_iff name).mp hmem).2 (List.mem_append_right _ (List.mem_singleton_self name))
  settled := by
    refine ⟨fun y hy => ?_, h.settled⟩
    rcases hdeps y hy with hmem | ⟨x, hx, hclose⟩
    · exact Or.inl hmem
    · rw [List.getLast?_concat] at hx
      cases hx
      exact Or.inr hclose

theorem HasLeft.report (h : HasLeft g path s left) (c : List String) :
    HasLeft g path { s with cycles := s.cycles ++ [c] } left where
  mem_iff := h.mem_iff
  nodup := h.nodup
  settled := h.settled.mono (List.subset_append_left _ _)

/-- A walk lists the names in the order in which it leaves them, and those that it leaves stand
apart from its path.  When it comes to its end, every edge to a name to go on to leads to a name
that was left, or it closes a cycle. -/
theorem Walk.lists (h : Walk g path todo s s') (hpath : path ⊆ s.visited)
    (hleft : HasLeft g path s left) :
    ∃ left', Lists g todo (s.visited, left) (s'.visited, left') ∧ HasLeft g path s' left' ∧
      ∀ y ∈ todo, y ∈ left' ∨ ∃ x, path.getLast? = some x ∧ Closes s'.cycles x y := by
  induction h generalizing left with
  | done => exact ⟨left, .done, hleft, by simp⟩
  | @visit path rest name s s₁ s₂ hnew hinner hrest ihinner ihrest =>
      have hname : name ∈ s₁.visited := hinner.visited_subset List.mem_cons_self
      have hoff : name ∉ path := fun hmem => hnew (hpath hmem)
      have hold : s.visited ⊆ s₁.visited := List.subset_of_cons_subset hinner.visited_subset
      have hpath' : path ++ [name] ⊆ name :: s.visited :=
        List.append_subset.mpr ⟨List.Subset.trans hpath (List.subset_cons_self _ _), by simp⟩
      obtain ⟨inside, hlists, hinside, hdeps⟩ := ihinner hpath' (hleft.enter hnew)
      obtain ⟨left', hlists', hleft', htodo⟩ :=
        ihrest (List.Subset.trans hpath hold) (hinside.leave hname hoff hdeps)
      refine ⟨left', .visit hnew hlists hlists', hleft',
        List.forall_mem_cons.mpr ⟨Or.inl ?_, htodo⟩⟩
      exact (hleft'.mem_iff name).mpr ⟨hrest.visited_subset hname, hoff⟩
  | @close path rest name s s₁ hold hon hrest ih =>
      obtain ⟨hlast, hhead⟩ := ends_dropWhile hon
      obtain ⟨left', hlists, hleft', htodo⟩ := ih hpath (hleft.report _)
      refine ⟨left', .pass hold hlists, hleft', List.forall_mem_cons.mpr ⟨Or.inr ?_, htodo⟩⟩
      obtain ⟨x, hx⟩ :=
        Option.isSome_iff_exists.mp (List.getLast?_isSome.mpr (List.ne_nil_of_mem hon))
      refine ⟨x, hx, path.dropWhile (· ≠ name), ?_, hlast.trans hx, hhead⟩
      exact hrest.cycles_subset (List.mem_append_right _ (List.mem_singleton_self _))
  | @pass path rest name s s₁ hold hoff hrest ih =>
      obtain ⟨left', hlists, hleft', htodo⟩ := ih hpath hleft
      refine ⟨left', .pass hold hlists, hleft', List.forall_mem_cons.mpr ⟨Or.inl ?_, htodo⟩⟩
      exact (hleft'.mem_iff name).mpr ⟨hrest.visited_subset hold, hoff⟩

/-- **Completeness of a walk.**  When a walk comes to its end, every edge to a name to go on to
leads to a name that was left, or it closes a cycle. -/
theorem Walk.settles (h : Walk g path todo s s') (hpath : path ⊆ s.visited)
    (hleft : HasLeft g path s left) :
    ∃ left', HasLeft g path s' left' ∧
      ∀ y ∈ todo, y ∈ left' ∨ ∃ x, path.getLast? = some x ∧ Closes s'.cycles x y := by
  obtain ⟨left', -, hsettled⟩ := h.lists hpath hleft
  exact ⟨left', hsettled⟩

end HasLeft

section Order

variable {r : String → String → Prop} {left : List String} {x y : String}

/-- An edge that closes no cycle leads from a name that was left to another one. -/
theorem Settled.mem_of_edge (h : Settled g cycles left)
    (hr : ∀ x y, r x y → g.Edge x y ∧ ¬Closes cycles x y) (hx : x ∈ left) (hxy : r x y) :
    y ∈ left := by
  induction left with
  | nil => cases hx
  | cons a left ih =>
      rcases List.mem_cons.mp hx with rfl | hx
      · obtain ⟨hedge, hopen⟩ := hr x y hxy
        exact List.mem_cons_of_mem _ ((h.1 y hedge).resolve_right hopen)
      · exact List.mem_cons_of_mem _ (ih h.2 hx)

theorem Settled.mem_of_reflTransGen (h : Settled g cycles left)
    (hr : ∀ x y, r x y → g.Edge x y ∧ ¬Closes cycles x y) (hx : x ∈ left)
    (hxy : ReflTransGen r x y) : y ∈ left := by
  induction hxy with
  | refl => exact hx
  | tail _ hstep ih => exact h.mem_of_edge hr ih hstep

/-- No circle of edges that close no cycle goes through a name that was left. -/
theorem Settled.acyclic (h : Settled g cycles left)
    (hr : ∀ x y, r x y → g.Edge x y ∧ ¬Closes cycles x y) (hnodup : left.Nodup) (hx : x ∈ left) :
    ¬TransGen r x x := by
  induction left with
  | nil => cases hx
  | cons a left ih =>
      obtain ⟨hnew, hnodup⟩ := List.nodup_cons.mp hnodup
      rcases List.mem_cons.mp hx with rfl | hx
      · -- the first step leads behind the name, and from there no edge leads back
        intro hcircle
        obtain ⟨y, hxy, hback⟩ := TransGen.head'_iff.mp hcircle
        obtain ⟨hedge, hopen⟩ := hr x y hxy
        have hy : y ∈ left := (h.1 y hedge).resolve_right hopen
        exact hnew (h.2.mem_of_reflTransGen hr hy hback)
      · exact ih h.2 hnodup hx

end Order

end Settled

/-- The names of a cycle depend on themselves. -/
theorem IsCycle.transGen {g : DependencyGraph} {c : List String} (h : g.IsCycle c) :
    ∃ x, TransGen g.Edge x x := by
  obtain ⟨x, rest, rfl⟩ := List.exists_cons_of_ne_nil h.nonempty
  obtain ⟨y, hy⟩ := Option.isSome_iff_exists.mp
    (List.getLast?_isSome.mpr (List.cons_ne_nil x rest))
  have hreach : ReflTransGen g.Edge x y := by
    refine List.relationReflTransGen_of_exists_isChain_cons rest h.chain ?_
    rw [List.getLast?_eq_some_getLast (List.cons_ne_nil x rest)] at hy
    exact Option.some.inj hy
  exact ⟨x, TransGen.tail' hreach (h.closed y hy x rfl)⟩

/-- **The cycles of a graph.**  However a graph was built, the search for its cycles comes to its
end in one way.  What it reports are cycles, no list twice, and without the last edge of each of
them the graph has no circle; so something is reported exactly when some name depends on itself. -/
theorem cycles_spec {g : DependencyGraph} (h : g.Built) :
    (∃ s, Walk g [] g.names {} s ∧ (∀ s', Walk g [] g.names {} s' → s' = s) ∧
      g.cycles = s.cycles) ∧
    (∀ c ∈ g.cycles, g.IsCycle c) ∧ g.cycles.Nodup ∧ (∀ x, ¬TransGen g.Remains x x) ∧
    (g.cycles ≠ [] ↔ ∃ x, TransGen g.Edge x x) := by
  have hg : g.Coherent := h.coherent
  obtain ⟨s, hwalk, hcycles⟩ := walk_search hg
  have hstart : Stands g [] g.names {} :=
    ⟨List.isChain_nil, List.nodup_nil, List.nil_subset _, by simp, hg.nodup_names⟩
  obtain ⟨new, hnew, hsound, hnodup, -⟩ := hwalk.reports hg hstart
  obtain rfl : g.cycles = new := hcycles.trans hnew
  have hnone : HasLeft g [] {} [] := ⟨by simp, List.nodup_nil, trivial⟩
  obtain ⟨left, hleft, hall⟩ := hwalk.settles (List.nil_subset _) hnone
  have hremains (x y : String) (hxy : g.Remains x y) : g.Edge x y ∧ ¬Closes s.cycles x y := by
    rw [← hcycles]
    exact hxy
  have hacyclic (x : String) : ¬TransGen g.Remains x x := by
    intro hcircle
    obtain ⟨y, hxy, -⟩ := TransGen.head'_iff.mp hcircle
    have hx : x ∈ left := by
      rcases hall x (hg.mem_names_of_edge hxy.1).1 with hx | ⟨_, hend, -⟩
      · exact hx
      · cases hend
    exact hleft.settled.acyclic hremains hleft.nodup hx hcircle
  refine ⟨⟨s, hwalk, fun s' h' => h'.unique hwalk, hcycles⟩, hsound, hnodup.of_map, hacyclic, ?_⟩
  constructor
  · intro hne
    obtain ⟨c, hc⟩ := List.exists_mem_of_ne_nil _ hne
    exact (hsound c hc).transGen
  · rintro ⟨x, hx⟩ hnil
    have hopen : g.Edge ≤ g.Remains := by
      refine fun a b hab => ⟨hab, ?_⟩
      rintro ⟨c, hc, -⟩
      rw [hnil] at hc
      cases hc
    exact hacyclic x (TransGen.mono hopen x x hx)

/-- Two names that depend on each other, and one of them also on itself. -/
theorem cycles_spec_pair :
    let node (name : String) : Dependency :=
      { name, type := .package, required := true, bundled := false, location := ⟨"", 0, 0, 0, 0⟩ }
    let g := ((((({} : DependencyGraph).add (node "a")).add (node "b")).link "a" "b").link
      "b" "a").link "b" "b"
    g.Built ∧ g.cycles = [["a", "b"], ["b"]] ∧ (∀ c ∈ g.cycles, g.IsCycle c) ∧ g.cycles.Nodup ∧
      (∀ x, ¬TransGen g.Remains x x) ∧ ∃ x, TransGen g.Edge x x := by
  intro node g
  have hbuilt : g.Built :=
    .link "b" "b" (.link "b" "a" (.link "a" "b" (.add (node "b") (.add (node "a") .new))))
  have hnodes : g = ⟨[⟨node "a", ["b"], ["b"]⟩, ⟨node "b", ["a", "b"], ["a", "b"]⟩]⟩ := by
    simp [g, node, add, link, update, canLink, has, find?, DependencyNode.name, insertName]
  have hsort : Order.sort ["a", "b"] = ["a", "b"] := List.mergeSort_of_pairwise (by decide)
  have hnames : g.names = ["a", "b"] := by
    rw [hnodes]
    exact hsort
  have ha : g.dependenciesOf "a" = ["b"] := by
    rw [hnodes]
    exact List.mergeSort_singleton "b"
  have hb : g.dependenciesOf "b" = ["a", "b"] := by
    rw [hnodes]
    exact hsort
  have hfuel : g.walkFuel = 16 := by
    rw [hnodes]
    rfl
  have hcycles : g.cycles = [["a", "b"], ["b"]] := by
    simp [cycles, hnames, hfuel, searchFrom, searchEach, ha, hb]
  obtain ⟨-, hsound, hnodup, hacyclic, hiff⟩ := cycles_spec hbuilt
  exact ⟨hbuilt, hcycles, hsound, hnodup, hacyclic, hiff.mp (hcycles ▸ List.cons_ne_nil _ _)⟩

end DependencyGraph
end InstallerLint
