import InstallerLint.Document.Parse
import Mathlib.Data.List.Basic
import Mathlib.Data.List.Infix

/-!
# The array of a document

A tree is laid out in document order: an element, then what its first child holds, and so on.  So
the walk through a document that was read from a source meets the elements in the order of their
numbers, each once (`ids_of_parse`).
-/

namespace InstallerLint

namespace Element

mutual

theorem length_layout (place : Nat → Position) (parent : Option Nat) (id : Nat) :
    ∀ e : Element, (layout place parent id e).length = e.size
  | .mk head children => by
      rw [layout, List.length_cons, length_layoutAll place id (id + 1) children, size,
        Nat.add_comm]

theorem length_layoutAll (place : Nat → Position) (parent next : Nat) :
    ∀ es : List Element, (layoutAll place parent next es).length = sizeAll es
  | [] => rfl
  | e :: es => by
      rw [layoutAll, List.length_append, length_layout place (some parent) next e,
        length_layoutAll place parent (next + e.size) es, sizeAll]

end

theorem size_pos (e : Element) : 0 < e.size := by
  cases e with
  | mk head children =>
      rw [size]
      omega

end Element

namespace Document

open Element

/-- The nodes of a tree stand in a document from an index on. -/
def HasAt (d : Document) (id : Nat) (nodes : List Node) : Prop := nodes <+: d.nodes.toList.drop id

theorem HasAt.left {d : Document} {id : Nat} {l l' : List Node} (h : d.HasAt id (l ++ l')) :
    d.HasAt id l :=
  (List.prefix_append l l').trans h

theorem HasAt.right {d : Document} {id : Nat} {l l' : List Node} (h : d.HasAt id (l ++ l')) :
    d.HasAt (id + l.length) l' := by
  obtain ⟨rest, hrest⟩ := h
  refine ⟨rest, ?_⟩
  rw [← List.drop_drop, ← hrest, List.append_assoc, List.drop_left]

theorem HasAt.node? {d : Document} {id : Nat} {n : Node} {l : List Node}
    (h : d.HasAt id (n :: l)) : d.node? id = some n := by
  obtain ⟨rest, hrest⟩ := h
  have hget : (d.nodes.toList.drop id)[0]? = some n := by rw [← hrest]; rfl
  rw [List.getElem?_drop, Nat.add_zero, Array.getElem?_toList] at hget
  exact hget

mutual

/-- Visiting an element visits its block of numbers in order. -/
theorem visit_layout (d : Document) (place : Nat → Position) (parent : Option Nat) :
    ∀ (e : Element) (id fuel : Nat) (stack : List Nat),
      d.HasAt id (layout place parent id e) → e.size ≤ fuel →
      d.visit (fun _ => true) fuel (id :: stack) =
        List.range' id e.size ++ d.visit (fun _ => true) (fuel - e.size) stack
  | .mk head children, id, fuel, stack, h, hfuel => by
      rw [layout] at h
      rw [Element.size] at hfuel ⊢
      obtain ⟨fuel, rfl⟩ : ∃ m, fuel = m + 1 := ⟨fuel - 1, by omega⟩
      have hkids : d.children id = indices (id + 1) children := by
        unfold Document.children
        rw [h.node?]
        rfl
      have hrest : d.HasAt (id + 1) (layoutAll place id (id + 1) children) := h.right (l := [_])
      rw [visit, if_pos rfl, hkids,
        visit_layoutAll d place id children (id + 1) fuel stack hrest (by omega),
        Nat.add_comm 1, List.range'_succ, List.cons_append, Nat.add_sub_add_right]

/-- Visiting siblings visits their blocks one after the other. -/
theorem visit_layoutAll (d : Document) (place : Nat → Position) (parent : Nat) :
    ∀ (es : List Element) (next fuel : Nat) (stack : List Nat),
      d.HasAt next (layoutAll place parent next es) → sizeAll es ≤ fuel →
      d.visit (fun _ => true) fuel (indices next es ++ stack) =
        List.range' next (sizeAll es) ++ d.visit (fun _ => true) (fuel - sizeAll es) stack
  | [], next, fuel, stack, _, _ => by simp [indices, sizeAll]
  | e :: es, next, fuel, stack, h, hfuel => by
      rw [layoutAll] at h
      rw [sizeAll] at hfuel ⊢
      have hrest := h.right
      rw [length_layout] at hrest
      rw [indices, List.cons_append, visit_layout d place (some parent) e next fuel _ h.left
          (by omega),
        visit_layoutAll d place parent es (next + e.size) (fuel - e.size) stack hrest (by omega),
        ← List.append_assoc, Nat.sub_sub]
      congr 1
      rw [← List.range'_append_1]

end

/-- The elements of a document that was read, in document order, are all numbers below its size. -/
theorem ids_of_parse {source : Bytes} {path : String} {d : Document}
    (h : Document.parse source path = .ok d) : d.ids = List.range d.size := by
  unfold Document.parse at h
  split at h
  · next e he =>
      cases h
      set d := ofElement source path e with hd
      have hat : d.HasAt 0 (layout (fun n => (LineIndex.ofSource source).position n) none 0 e) := by
        refine ⟨[], ?_⟩
        simp [hd, ofElement]
      have hsize : d.size = e.size := by
        simp [hd, ofElement, Document.size, length_layout]
      have hpos : d.size ≠ 0 := by
        have := e.size_pos
        omega
      unfold Document.ids Document.walk
      rw [if_neg hpos, hsize, visit_layout d _ none e 0 e.size [] hat (le_refl _), Nat.sub_self]
      simp [visit, List.range_eq_range']
  · cases h

end Document
end InstallerLint
