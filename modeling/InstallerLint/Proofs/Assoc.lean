import Mathlib.Data.List.Nodup
import Mathlib.Data.List.Perm.Basic

/-!
# Association lists whose keys are distinct

Look-up, membership and order in lists of pairs.  When no key occurs twice, a pair is in the list
exactly if its key is looked up to its value; so two such lists with the same look-ups hold the
same pairs, in some order.
-/

namespace InstallerLint
namespace Assoc

universe u v

variable {α : Type u} {β : Type v} [BEq α] [LawfulBEq α]

theorem lookup_eq_some_of_mem {l : List (α × β)} (hl : (l.map Prod.fst).Nodup) {k : α} {v : β}
    (h : (k, v) ∈ l) : l.lookup k = some v := by
  induction l with
  | nil => cases h
  | cons p l ih =>
      obtain ⟨k', v'⟩ := p
      rw [List.map_cons, List.nodup_cons] at hl
      rcases List.mem_cons.mp h with he | hm
      · cases he
        simp
      · have hne : k ≠ k' := by
          rintro rfl
          exact hl.1 (List.mem_map.mpr ⟨_, hm, rfl⟩)
        rw [List.lookup_cons, beq_false_of_ne hne]
        exact ih hl.2 hm

theorem mem_of_lookup_eq_some {l : List (α × β)} {k : α} {v : β} (h : l.lookup k = some v) :
    (k, v) ∈ l := by
  obtain ⟨l₁, l₂, rfl, -⟩ := List.lookup_eq_some_iff.mp h
  simp

theorem lookup_eq_some_iff_mem {l : List (α × β)} (hl : (l.map Prod.fst).Nodup) {k : α} {v : β} :
    l.lookup k = some v ↔ (k, v) ∈ l :=
  ⟨mem_of_lookup_eq_some, lookup_eq_some_of_mem hl⟩

theorem lookup_eq_none_iff_key {l : List (α × β)} {k : α} :
    l.lookup k = none ↔ k ∉ l.map Prod.fst := by
  rw [List.lookup_eq_none_iff]
  constructor
  · rintro h hk
    obtain ⟨p, hp, rfl⟩ := List.mem_map.mp hk
    simpa using h p hp
  · intro h p hp
    have hne : k ≠ p.1 := by
      rintro rfl
      exact h (List.mem_map_of_mem hp)
    simpa using hne

/-- Lists with distinct keys and the same look-ups are permutations of each other. -/
theorem perm_of_lookup_eq {l l' : List (α × β)} (hl : (l.map Prod.fst).Nodup)
    (hl' : (l'.map Prod.fst).Nodup) (h : ∀ k, l.lookup k = l'.lookup k) : l.Perm l' := by
  refine (List.perm_ext_iff_of_nodup (List.Nodup.of_map _ hl) (List.Nodup.of_map _ hl')).mpr ?_
  rintro ⟨k, v⟩
  rw [← lookup_eq_some_iff_mem hl, ← lookup_eq_some_iff_mem hl', h]

/-- A list with distinct keys is looked up alike in any order. -/
theorem lookup_eq_of_perm {l l' : List (α × β)} (hl : (l.map Prod.fst).Nodup) (h : l.Perm l')
    (k : α) : l.lookup k = l'.lookup k := by
  have hl' : (l'.map Prod.fst).Nodup := (h.map _).nodup_iff.mp hl
  apply Option.ext
  intro v
  rw [lookup_eq_some_iff_mem hl, lookup_eq_some_iff_mem hl', h.mem_iff]

/-- Filtering by value commutes with look-up when keys are distinct. -/
theorem lookup_filter_snd {l : List (α × β)} (hl : (l.map Prod.fst).Nodup) (p : β → Bool) (k : α) :
    (l.filter fun x => p x.2).lookup k = (l.lookup k).filter p := by
  have hf : ((l.filter fun x => p x.2).map Prod.fst).Nodup :=
    hl.sublist (List.filter_sublist.map _)
  apply Option.ext
  intro v
  rw [lookup_eq_some_iff_mem hf, List.mem_filter, ← lookup_eq_some_iff_mem hl,
    Option.filter_eq_some_iff]

omit [LawfulBEq α] in
/-- Looking up after the values were changed. -/
theorem lookup_map_snd {γ : Type v} (f : β → γ) (l : List (α × β)) (k : α) :
    (l.map fun x => (x.1, f x.2)).lookup k = (l.lookup k).map f := by
  induction l with
  | nil => rfl
  | cons p l ih =>
      rw [List.map_cons, List.lookup_cons, List.lookup_cons]
      cases k == p.1 with
      | true => rfl
      | false => exact ih

end Assoc
end InstallerLint
