import InstallerLint.Document.Builder
import Mathlib.Data.List.Perm.Basic
import Mathlib.Data.List.Pairwise
import Mathlib.Tactic.SplitIfs

/-!
# Trees in an array

A document is a tree when every element but the first one has a parent before it, and when each
element lists exactly those elements as its children that name it as their parent, in order.

**Walking.**  Then visiting a stack of elements whose blocks are apart meets everything below them
once (`mem_visit`, `nodup_visit`), an element before its children and children in order
(`sublist_visit`).

**Building.**  Every building step keeps the tree (`Forest.build`).
-/

namespace InstallerLint
namespace Document

variable {d : Document}

/-- Parents and children of a document belong together. -/
structure Forest (d : Document) : Prop where
  root : ∀ i < d.size, d.parent? i = none ↔ i = 0
  parent_lt : ∀ {i p : Nat}, d.parent? i = some p → p < i
  child_iff : ∀ {p c : Nat}, c ∈ d.children p ↔ d.parent? c = some p
  increasing : ∀ p : Nat, (d.children p).Pairwise (· < ·)

theorem node?_natCast (d : Document) (i : Nat) : d.node? i = d.nodes[i]? := rfl

theorem lt_size_of_parent? {i p : Nat} (h : d.parent? i = some p) : i < d.size := by
  unfold parent? at h
  rw [node?_natCast] at h
  by_contra hge
  rw [Array.getElem?_eq_none (by unfold size at hge; omega)] at h
  cases h

namespace Forest

/-- The chase of parents without its guard. -/
theorem ancestorsOf_eq (h : d.Forest) (i : Nat) :
    d.ancestorsOf i =
      match d.parent? i with
      | none => []
      | some p => p :: d.ancestorsOf p := by
  rw [ancestorsOf]
  cases hp : d.parent? i with
  | none => rfl
  | some p =>
      dsimp only
      rw [if_pos (h.parent_lt hp)]

/-- The ancestors of a node: its parent and those of the parent. -/
theorem ancestorsOf_of_parent (h : d.Forest) {i p : Nat} (hp : d.parent? i = some p) :
    d.ancestorsOf i = p :: d.ancestorsOf p := by
  rw [h.ancestorsOf_eq, hp]

theorem lt_of_mem_ancestorsOf (h : d.Forest) {i a : Nat} (ha : a ∈ d.ancestorsOf i) : a < i := by
  induction i using Nat.strongRecOn with
  | ind i ih =>
      cases hp : d.parent? i with
      | none =>
          rw [h.ancestorsOf_eq, hp] at ha
          cases ha
      | some p =>
          have hlt := h.parent_lt hp
          rw [h.ancestorsOf_of_parent hp] at ha
          rcases List.mem_cons.mp ha with rfl | ha
          · exact hlt
          · exact Nat.lt_trans (ih p hlt ha) hlt

/-- An element other than the root is below the root. -/
theorem getLast?_ancestorsOf (h : d.Forest) {i : Nat} (hi : i < d.size) (hpos : 0 < i) :
    (d.ancestorsOf i).getLast? = some 0 := by
  induction i using Nat.strongRecOn with
  | ind i ih =>
      cases hp : d.parent? i with
      | none =>
          have := (h.root i hi).mp hp
          omega
      | some p =>
          have hlt := h.parent_lt hp
          rw [h.ancestorsOf_of_parent hp]
          by_cases hzero : p = 0
          · subst hzero
            have hnone : d.parent? (0 : Nat) = none := (h.root 0 (by omega)).mpr rfl
            rw [h.ancestorsOf_eq, hnone]
            rfl
          · have hlast := ih p hlt (by omega) (by omega)
            rw [List.getLast?_cons, hlast]
            rfl

end Forest

/-- An element or something below it. -/
def Below (d : Document) (i j : Nat) : Prop := i = j ∨ i ∈ d.ancestorsOf j

instance (d : Document) (i j : Nat) : Decidable (d.Below i j) := by
  unfold Below
  infer_instance

namespace Forest

theorem below_of_parent (h : d.Forest) {i j p : Nat} (hp : d.parent? j = some p)
    (hb : d.Below i p) : i ∈ d.ancestorsOf j := by
  rw [h.ancestorsOf_of_parent hp]
  rcases hb with rfl | hb
  · exact List.mem_cons_self
  · exact List.mem_cons_of_mem p hb

theorem le_of_below (h : d.Forest) {i j : Nat} (hb : d.Below i j) : i ≤ j := by
  rcases hb with rfl | hb
  · exact Nat.le_refl i
  · exact Nat.le_of_lt (h.lt_of_mem_ancestorsOf hb)

/-- What is above an element of a chase is further up in it. -/
theorem below_trans (h : d.Forest) {i j k : Nat} (hij : d.Below i j) (hjk : d.Below j k) :
    d.Below i k := by
  induction k using Nat.strongRecOn with
  | ind k ih =>
      rcases hjk with rfl | hjk
      · exact hij
      · cases hp : d.parent? k with
        | none =>
            rw [h.ancestorsOf_eq, hp] at hjk
            cases hjk
        | some p =>
            rw [h.ancestorsOf_of_parent hp] at hjk
            exact .inr (h.below_of_parent hp (ih p (h.parent_lt hp) (List.mem_cons.mp hjk)))

/-- A chase is a chain. -/
theorem below_of_le (h : d.Forest) {a b j : Nat} (ha : d.Below a j) (hb : d.Below b j)
    (hab : a ≤ b) : d.Below a b := by
  induction j using Nat.strongRecOn with
  | ind j ih =>
      rcases hb with rfl | hb
      · exact ha
      · rcases ha with rfl | ha
        · have := h.lt_of_mem_ancestorsOf hb
          omega
        · cases hp : d.parent? j with
          | none =>
              rw [h.ancestorsOf_eq, hp] at ha
              cases ha
          | some p =>
              rw [h.ancestorsOf_of_parent hp] at ha hb
              exact ih p (h.parent_lt hp) (List.mem_cons.mp ha) (List.mem_cons.mp hb)

/-- What is properly below an element is below one of its children. -/
theorem mem_ancestorsOf_iff (h : d.Forest) {i j : Nat} :
    i ∈ d.ancestorsOf j ↔ ∃ c ∈ d.children i, d.Below c j := by
  constructor
  · intro hi
    induction j using Nat.strongRecOn with
    | ind j ih =>
        cases hp : d.parent? j with
        | none =>
            rw [h.ancestorsOf_eq, hp] at hi
            cases hi
        | some p =>
            rw [h.ancestorsOf_of_parent hp] at hi
            rcases List.mem_cons.mp hi with rfl | hi
            · exact ⟨j, h.child_iff.mpr hp, .inl rfl⟩
            · obtain ⟨c, hc, hb⟩ := ih p (h.parent_lt hp) hi
              exact ⟨c, hc, .inr (h.below_of_parent hp hb)⟩
  · rintro ⟨c, hc, hb⟩
    have hparent := h.child_iff.mp hc
    have hmem : i ∈ d.ancestorsOf c := h.below_of_parent hparent (.inl rfl)
    rcases hb with rfl | hb
    · exact hmem
    · rcases h.below_trans (.inr hmem) (.inr hb) with rfl | hij
      · have h1 := h.lt_of_mem_ancestorsOf hmem
        have h2 := h.lt_of_mem_ancestorsOf hb
        omega
      · exact hij

/-- What is below a node is the node itself or below one of its children. -/
theorem below_iff (h : d.Forest) {i j : Nat} :
    d.Below i j ↔ i = j ∨ ∃ c ∈ d.children i, d.Below c j := by
  rw [Below, h.mem_ancestorsOf_iff]

/-- The blocks of two children are apart. -/
theorem not_below_of_child (h : d.Forest) {i c c' j : Nat} (hc : c ∈ d.children i)
    (hc' : c' ∈ d.children i) (hlt : c < c') (hb : d.Below c j) : ¬d.Below c' j := by
  intro hb'
  have hparent := h.child_iff.mp hc
  have hparent' := h.child_iff.mp hc'
  rcases h.below_of_le hb hb' (Nat.le_of_lt hlt) with rfl | hmem
  · omega
  · rw [h.ancestorsOf_of_parent hparent'] at hmem
    have hlt' := h.parent_lt hparent
    rcases List.mem_cons.mp hmem with rfl | hmem
    · omega
    · have := h.lt_of_mem_ancestorsOf hmem
      omega

theorem child_lt_size (h : d.Forest) {i c : Nat} (hc : c ∈ d.children i) : c < d.size :=
  lt_size_of_parent? (h.child_iff.mp hc)

end Forest

/-- Elements in an array whose blocks are apart. -/
structure Stack (d : Document) (stack : List Nat) : Prop where
  lt_size : ∀ i ∈ stack, i < d.size
  apart : stack.Pairwise fun a b => ∀ j, d.Below a j → ¬d.Below b j

/-- Whether an element stands on a stack or below. -/
def Covers (d : Document) (stack : List Nat) (j : Nat) : Prop := ∃ i ∈ stack, d.Below i j

instance (d : Document) (stack : List Nat) (j : Nat) : Decidable (d.Covers stack j) := by
  unfold Covers
  infer_instance

/-- What stands on a stack or below, in the order of numbers. -/
def covered (d : Document) (stack : List Nat) : List Nat :=
  (List.range d.size).filter fun j => d.Covers stack j

theorem mem_covered {stack : List Nat} {j : Nat} :
    j ∈ d.covered stack ↔ j < d.size ∧ d.Covers stack j := by
  simp [covered]

theorem nodup_covered (d : Document) (stack : List Nat) : (d.covered stack).Nodup :=
  List.nodup_range.filter _

section Visit

variable {id : Nat} {stack : List Nat}

/-- The next stack of a visit. -/
theorem Stack.next (h : d.Forest) (hs : d.Stack (id :: stack)) : d.Stack (d.children id ++ stack) where
  lt_size := by
    intro i hi
    rcases List.mem_append.mp hi with hi | hi
    · exact h.child_lt_size hi
    · exact hs.lt_size i (List.mem_cons_of_mem id hi)
  apart := by
    obtain ⟨hid, hrest⟩ := List.pairwise_cons.mp hs.apart
    refine List.pairwise_append.mpr ⟨?_, hrest, ?_⟩
    · refine (h.increasing id).imp_of_mem ?_
      intro c c' hc hc' hlt j
      exact h.not_below_of_child hc hc' hlt
    · intro c hc i hi j hb
      refine hid i hi j ?_
      exact h.below_iff.mpr (.inr ⟨c, hc, hb⟩)

/-- A stack covers its top and what its children and the others cover. -/
theorem covers_cons (h : d.Forest) {j : Nat} :
    d.Covers (id :: stack) j ↔ id = j ∨ d.Covers (d.children id ++ stack) j := by
  constructor
  · rintro ⟨i, hi, hb⟩
    rcases List.mem_cons.mp hi with rfl | hi
    · rcases h.below_iff.mp hb with rfl | ⟨c, hc, hb⟩
      · exact .inl rfl
      · exact .inr ⟨c, List.mem_append_left stack hc, hb⟩
    · exact .inr ⟨i, List.mem_append_right _ hi, hb⟩
  · rintro (rfl | ⟨i, hi, hb⟩)
    · exact ⟨id, List.mem_cons_self, .inl rfl⟩
    · rcases List.mem_append.mp hi with hi | hi
      · exact ⟨id, List.mem_cons_self, h.below_iff.mpr (.inr ⟨i, hi, hb⟩)⟩
      · exact ⟨i, List.mem_cons_of_mem id hi, hb⟩

/-- The top of a stack is not covered any more once it is taken. -/
theorem not_covers_next (h : d.Forest) (hs : d.Stack (id :: stack)) :
    ¬d.Covers (d.children id ++ stack) id := by
  rintro ⟨i, hi, hb⟩
  rcases List.mem_append.mp hi with hi | hi
  · have h1 := h.parent_lt (h.child_iff.mp hi)
    have h2 := h.le_of_below hb
    omega
  · exact (List.pairwise_cons.mp hs.apart).1 i hi id (.inl rfl) hb

/-- Taking the top covers one node less. -/
theorem length_covered_cons (h : d.Forest) (hs : d.Stack (id :: stack)) :
    (d.covered (id :: stack)).length = (d.covered (d.children id ++ stack)).length + 1 := by
  have hperm : (d.covered (id :: stack)).Perm (id :: d.covered (d.children id ++ stack)) := by
    refine (List.perm_ext_iff_of_nodup (nodup_covered d _) ?_).mpr ?_
    · refine List.nodup_cons.mpr ⟨?_, nodup_covered d _⟩
      rw [mem_covered]
      exact fun hmem => not_covers_next h hs hmem.2
    · intro j
      rw [List.mem_cons, mem_covered, mem_covered, covers_cons h]
      constructor
      · rintro ⟨hj, rfl | hc⟩
        · exact .inl rfl
        · exact .inr ⟨hj, hc⟩
      · rintro (rfl | ⟨hj, hc⟩)
        · exact ⟨hs.lt_size _ List.mem_cons_self, .inl rfl⟩
        · exact ⟨hj, .inr hc⟩
  rw [hperm.length_eq, List.length_cons]

/-- **Visiting a stack.**  With fuel for all that stands on it or below, each of these elements is
met once; the stack keeps its order, and so does each element before its children. -/
theorem visit_spec (h : d.Forest) (fuel : Nat) :
    ∀ stack, d.Stack stack → (d.covered stack).length ≤ fuel →
      (d.visit (fun _ => true) fuel stack).Nodup ∧
      (∀ j, j ∈ d.visit (fun _ => true) fuel stack ↔ j < d.size ∧ d.Covers stack j) ∧
      stack.Sublist (d.visit (fun _ => true) fuel stack) ∧
      ∀ i ∈ d.visit (fun _ => true) fuel stack,
        (i :: d.children i).Sublist (d.visit (fun _ => true) fuel stack) := by
  induction fuel with
  | zero =>
      intro stack hs hfuel
      cases stack with
      | nil => simp [visit, Covers]
      | cons id stack =>
          rw [length_covered_cons h hs] at hfuel
          omega
  | succ fuel ih =>
      intro stack hs hfuel
      cases stack with
      | nil => simp [visit, Covers]
      | cons id stack =>
          rw [length_covered_cons h hs] at hfuel
          obtain ⟨hnodup, hmem, hsub, hkids⟩ := ih _ (hs.next h) (by omega)
          rw [visit, if_pos rfl]
          refine ⟨?_, ?_, ?_, ?_⟩
          · refine List.nodup_cons.mpr ⟨?_, hnodup⟩
            rw [hmem]
            exact fun hid => not_covers_next h hs hid.2
          · intro j
            rw [List.mem_cons, hmem, covers_cons h]
            constructor
            · rintro (rfl | ⟨hj, hc⟩)
              · exact ⟨hs.lt_size j List.mem_cons_self, .inl rfl⟩
              · exact ⟨hj, .inr hc⟩
            · rintro ⟨hj, rfl | hc⟩
              · exact .inl rfl
              · exact .inr ⟨hj, hc⟩
          · exact ((List.sublist_append_right _ _).trans hsub).cons_cons id
          · intro i hi
            rcases List.mem_cons.mp hi with rfl | hi
            · exact ((List.sublist_append_left _ _).trans hsub).cons_cons i
            · exact (hkids i hi).trans (List.sublist_cons_self id _)

theorem length_covered_le (d : Document) (stack : List Nat) : (d.covered stack).length ≤ d.size := by
  have := List.length_filter_le (fun j => decide (d.Covers stack j)) (List.range d.size)
  rwa [List.length_range] at this

end Visit

namespace Forest

theorem stack_root (h : 0 < d.size) : d.Stack [0] where
  lt_size := by simpa using h
  apart := List.pairwise_singleton _ _

/-- Everything is below the root. -/
theorem below_root (h : d.Forest) {i : Nat} (hi : i < d.size) : d.Below 0 i := by
  by_cases hpos : 0 < i
  · exact .inr (List.mem_of_getLast? (h.getLast?_ancestorsOf hi hpos))
  · exact .inl (by omega)

/-- The walk through a tree meets every element once. -/
theorem perm_walk (h : d.Forest) : (d.walk fun _ => true).Perm (List.range d.size) := by
  unfold walk
  split_ifs with hsize
  · simp [hsize]
  · obtain ⟨hnodup, hmem, -, -⟩ :=
      visit_spec h d.size [0] (stack_root (by omega)) (length_covered_le d _)
    refine (List.perm_ext_iff_of_nodup hnodup List.nodup_range).mpr fun j => ?_
    rw [hmem, List.mem_range]
    constructor
    · exact fun hj => hj.1
    · exact fun hj => ⟨hj, 0, List.mem_singleton_self 0, h.below_root hj⟩

/-- The walk meets an element before its children, and these in order. -/
theorem sublist_walk (h : d.Forest) {i : Nat} (hi : i < d.size) :
    (i :: d.children i).Sublist (d.walk fun _ => true) := by
  have hmem : i ∈ d.walk fun _ => true := h.perm_walk.mem_iff.mpr (List.mem_range.mpr hi)
  unfold walk at hmem ⊢
  rw [if_neg (by omega)] at hmem ⊢
  exact (visit_spec h d.size [0] (stack_root (by omega)) (length_covered_le d _)).2.2.2 i hmem

/-- The elements below one are those that have it in their chase. -/
theorem mem_descendants (h : d.Forest) {i j : Nat} :
    j ∈ d.descendants i ↔ i ∈ d.ancestors j := by
  have hstack : d.Stack (d.children i) := by
    refine ⟨fun c hc => h.child_lt_size hc, (h.increasing i).imp_of_mem ?_⟩
    intro c c' hc hc' hlt k
    exact h.not_below_of_child hc hc' hlt
  have hmem := (visit_spec h d.size _ hstack (length_covered_le d _)).2.1 j
  rw [descendants, hmem]
  change j < d.size ∧ d.Covers (d.children i) j ↔ i ∈ d.ancestorsOf j
  rw [h.mem_ancestorsOf_iff]
  constructor
  · exact fun hj => hj.2
  · rintro ⟨c, hc, hb⟩
    refine ⟨?_, c, hc, hb⟩
    rcases hb with rfl | hb
    · exact h.child_lt_size hc
    · cases hp : d.parent? j with
      | none =>
          rw [h.ancestorsOf_eq, hp] at hb
          cases hb
      | some p => exact lt_size_of_parent? hp

end Forest

section Build

theorem forest_blank (path : String) : (blank path).Forest where
  root := by
    intro i hi
    exact absurd hi (by simp [blank, size])
  parent_lt := by
    intro i p hp
    exact absurd (lt_size_of_parent? hp) (by simp [blank, size])
  child_iff := by
    intro p c
    simp [children, parent?, node?_natCast, blank]
  increasing := by
    intro p
    simp [children, node?_natCast, blank]

/-- A tree is a matter of parents and children alone. -/
theorem Forest.of_same {d' : Document} (h : d.Forest) (hsize : d'.size = d.size)
    (hparent : ∀ i : Nat, d'.parent? i = d.parent? i)
    (hchildren : ∀ i : Nat, d'.children i = d.children i) : d'.Forest where
  root := by
    intro i hi
    rw [hparent]
    exact h.root i (by omega)
  parent_lt := by
    intro i p hp
    rw [hparent] at hp
    exact h.parent_lt hp
  child_iff := by
    intro p c
    rw [hparent, hchildren]
    exact h.child_iff
  increasing := by
    intro p
    rw [hchildren]
    exact h.increasing p

section Append

variable {parent : Option Nat} {kind : String} {attrs : List Attribute}

theorem size_append (d : Document) (parent : Option Nat) (kind : String) (attrs : List Attribute) :
    (d.append parent kind attrs).size = d.size + 1 := by
  cases parent <;> simp [append, size]

theorem node?_append_lt {i : Nat} (hi : i < d.size) :
    (d.append parent kind attrs).node? i = (d.node? i).map fun n =>
      if parent = some i then { n with children := n.children ++ [d.size] } else n := by
  unfold size at hi
  rw [node?_natCast, node?_natCast]
  cases parent with
  | none => simp [append, Array.getElem?_push, Nat.ne_of_lt hi]
  | some p =>
      simp only [append, Array.getElem?_push, Array.size_modify, Nat.ne_of_lt hi, if_false,
        Array.getElem?_modify, Option.some.injEq]
      split_ifs with hp
      · rfl
      · simp

theorem node?_append_size :
    (d.append parent kind attrs).node? d.size = some
      ⟨kind, attrs, [], parent, ⟨d.size + 1, 1, d.size + 1, 1⟩, "", none⟩ := by
  rw [node?_natCast]
  cases parent with
  | none => simp [append, size]
  | some p =>
      rw [append, Array.getElem?_push, Array.size_modify]
      exact if_pos rfl

theorem parent?_append (i : Nat) :
    (d.append parent kind attrs).parent? i = if i = d.size then parent else d.parent? i := by
  unfold parent?
  split_ifs with hi
  · subst hi
    rw [node?_append_size]
    rfl
  · by_cases hlt : i < d.size
    · rw [node?_append_lt hlt]
      cases d.node? i with
      | none => rfl
      | some n =>
          simp only [Option.map_some, Option.bind_some]
          split_ifs <;> rfl
    · have hout : (d.append parent kind attrs).node? i = none := by
        rw [node?_natCast, Array.getElem?_eq_none]
        have := size_append d parent kind attrs
        unfold size at this hlt hi
        omega
      have hout' : d.node? i = none := by
        rw [node?_natCast, Array.getElem?_eq_none]
        unfold size at hlt
        omega
      rw [hout, hout']

/-- A new node is the last child of its parent. -/
theorem children_append (hparent : ∀ p ∈ parent, p < d.size) (i : Nat) :
    (d.append parent kind attrs).children i =
      if parent = some i then d.children i ++ [d.size] else d.children i := by
  unfold children
  by_cases hlt : i < d.size
  · have hin : d.node? i = some d.nodes[i] := by
      rw [node?_natCast]
      exact Array.getElem?_eq_getElem hlt
    rw [node?_append_lt hlt, hin]
    split_ifs <;> simp [*]
  · have hout' : d.node? i = none := by
      rw [node?_natCast, Array.getElem?_eq_none]
      unfold size at hlt
      omega
    have hne : parent ≠ some i := fun h => hlt (hparent i (by simp [h]))
    rw [if_neg hne, hout']
    by_cases hi : i = d.size
    · subst hi
      rw [node?_append_size]
      rfl
    · rw [node?_natCast, Array.getElem?_eq_none]
      have := size_append d parent kind attrs
      unfold size at this hlt hi
      omega

/-- A new element behind the children of its parent leaves a tree. -/
theorem Forest.append (h : d.Forest) (hparent : ∀ p ∈ parent, p < d.size)
    (hroot : parent = none ↔ d.size = 0) : (d.append parent kind attrs).Forest where
  root := by
    intro i hi
    rw [size_append] at hi
    rw [parent?_append]
    split_ifs with heq
    · rw [hroot, heq]
    · exact h.root i (by omega)
  parent_lt := by
    intro i p hp
    rw [parent?_append] at hp
    split_ifs at hp with heq
    · have := hparent p (by simp [hp])
      omega
    · exact h.parent_lt hp
  child_iff := by
    intro p c
    rw [children_append hparent, parent?_append]
    have hnew : d.parent? d.size ≠ some p := fun hp => by
      have := lt_size_of_parent? hp
      omega
    split_ifs with hp hc hc
    · simp [hp, hc]
    · rw [List.mem_append, List.mem_singleton, h.child_iff]
      simp [hc]
    · rw [h.child_iff, hc]
      simp [hp, hnew]
    · exact h.child_iff
  increasing := by
    intro p
    rw [children_append hparent]
    split_ifs
    · refine List.pairwise_append.mpr ⟨h.increasing p, List.pairwise_singleton _ _, ?_⟩
      intro c hc c' hc'
      obtain rfl := List.mem_singleton.mp hc'
      exact h.child_lt_size hc
    · exact h.increasing p

end Append

theorem lt_size_of_node? {id : Int} {n : Node} (h : d.node? id = some n) :
    0 ≤ id ∧ id.toNat < d.size := by
  cases id with
  | ofNat i =>
      refine ⟨Int.natCast_nonneg i, ?_⟩
      by_contra hge
      have hnone : d.nodes[i]? = none := Array.getElem?_eq_none (by
        unfold size at hge
        simpa using hge)
      rw [show d.node? (Int.ofNat i) = d.nodes[i]? from rfl, hnone] at h
      cases h
  | negSucc i => cases h

/-- A building step adds an element or leaves parents and children alone. -/
theorem build_cases {step : BuildStep} {d' : Document} (h : d.build step = .ok d') :
    (∃ parent kind attrs, (∀ p ∈ parent, p < d.size) ∧ (parent = none ↔ d.size = 0) ∧
      d' = d.append parent kind attrs) ∨
    (d'.size = d.size ∧ (∀ i : Nat, d'.parent? i = d.parent? i) ∧
      ∀ i : Nat, d'.children i = d.children i) := by
  cases step with
  | root kind attrs =>
      rw [Document.build] at h
      split_ifs at h with hsize
      cases hattrs : pairUp attrs with
      | none =>
          rw [hattrs] at h
          cases h
      | some as =>
          rw [hattrs] at h
          cases h
          refine .inl ⟨none, kind, as, by simp, ?_, rfl⟩
          simp only [true_iff]
          omega
  | add parent kind attrs =>
      rw [Document.build] at h
      split_ifs at h with hnone
      cases hattrs : pairUp attrs with
      | none =>
          rw [hattrs] at h
          cases h
      | some as =>
          rw [hattrs] at h
          cases h
          obtain ⟨n, hn⟩ := Option.ne_none_iff_exists'.mp (by simpa using hnone)
          have hlt := (lt_size_of_node? hn).2
          refine .inl ⟨some parent.toNat, kind, as, by simpa using hlt, ?_, rfl⟩
          simp only [reduceCtorEq, false_iff]
          omega
  | text id text =>
      rw [Document.build] at h
      split_ifs at h with hnone
      cases h
      refine .inr ⟨by simp [size], fun i => ?_, fun i => ?_⟩
      · simp only [parent?, node?_natCast, Array.getElem?_modify]
        cases d.nodes[i]? <;> split_ifs <;> rfl
      · simp only [children, node?_natCast, Array.getElem?_modify]
        cases d.nodes[i]? <;> split_ifs <;> rfl

/-- One building step keeps the tree. -/
theorem Forest.build (h : d.Forest) {step : BuildStep} {d' : Document}
    (hbuild : d.build step = .ok d') : d'.Forest := by
  obtain ⟨parent, kind, attrs, hparent, hroot, rfl⟩ | ⟨hsize, hparents, hchildren⟩ :=
    build_cases hbuild
  · exact h.append hparent hroot
  · exact h.of_same hsize hparents hchildren

/-- One building step puts children behind those that are there. -/
theorem prefix_build {step : BuildStep} {d' : Document} (hbuild : d.build step = .ok d') (i : Nat) :
    d.children i <+: d'.children i := by
  obtain ⟨parent, kind, attrs, hparent, -, rfl⟩ | ⟨-, -, hchildren⟩ := build_cases hbuild
  · rw [children_append hparent]
    split_ifs
    · exact List.prefix_append _ _
    · exact List.prefix_refl _
  · exact hchildren i ▸ List.prefix_refl _

/-- Building steps keep the tree, and children stay in the order in which they were added. -/
theorem Forest.buildAll (h : d.Forest) {steps : List BuildStep} {d' : Document}
    (hbuild : d.buildAll steps = .ok d') : d'.Forest ∧ ∀ i : Nat, d.children i <+: d'.children i := by
  induction steps generalizing d with
  | nil =>
      cases hbuild
      exact ⟨h, fun i => List.prefix_refl _⟩
  | cons step steps ih =>
      rw [Document.buildAll] at hbuild
      cases hstep : d.build step with
      | error fault =>
          rw [hstep] at hbuild
          cases hbuild
      | ok d'' =>
          rw [hstep] at hbuild
          obtain ⟨hforest, hfront⟩ := ih (h.build hstep) hbuild
          exact ⟨hforest, fun i => (prefix_build hstep i).trans (hfront i)⟩

/-- Building in two parts. -/
theorem buildAll_append {steps steps' : List BuildStep} {d' d'' : Document}
    (h : d.buildAll steps = .ok d') (h' : d.buildAll (steps ++ steps') = .ok d'') :
    d'.buildAll steps' = .ok d'' := by
  induction steps generalizing d with
  | nil =>
      cases h
      exact h'
  | cons step steps ih =>
      rw [List.cons_append] at h'
      rw [Document.buildAll] at h h'
      cases hstep : d.build step with
      | error fault =>
          rw [hstep] at h
          cases h
      | ok d1 =>
          rw [hstep] at h h'
          exact ih h h'

end Build

end Document
end InstallerLint
