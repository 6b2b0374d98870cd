import InstallerLint.Text.Order

/-!
# Sorted texts

The order of texts is total, so a sorted list depends only on which texts it has and how often.
-/

namespace InstallerLint
namespace Order

theorem le_trans (a b c : String) (hab : le a b = true) (hbc : le b c = true) :
    le a c = true := by
  simp only [le, decide_eq_true_eq] at *
  exact String.le_trans hab hbc

theorem le_total (a b : String) : (le a b || le b a) = true := by
  simp only [le, Bool.or_eq_true, decide_eq_true_eq]
  exact String.le_total a b

/-- A sorted list is in order. -/
theorem pairwise_sort (l : List String) : (sort l).Pairwise fun a b => le a b = true :=
  List.pairwise_mergeSort le_trans le_total l

theorem sort_perm (l : List String) : (sort l).Perm l := List.mergeSort_perm l le

theorem sortBy_perm {α : Type} (key : α → String) (l : List α) : (sortBy key l).Perm l :=
  List.mergeSort_perm l _

/-- A list sorted by a key is in the order of the key. -/
theorem pairwise_sortBy {α : Type} (key : α → String) (l : List α) :
    (sortBy key l).Pairwise fun a b => le (key a) (key b) = true := by
  unfold sortBy
  refine List.pairwise_mergeSort ?_ ?_ l
  · exact fun a b c => le_trans (key a) (key b) (key c)
  · exact fun a b => le_total (key a) (key b)

/-- Sorted texts are in one order only. -/
theorem eq_of_perm {l l' : List String} (hl : l.Pairwise fun a b => le a b = true)
    (hl' : l'.Pairwise fun a b => le a b = true) (h : l.Perm l') : l = l' := by
  refine List.Perm.eq_of_pairwise ?_ hl hl' h
  intro a b _ _ hab hba
  simp only [le, decide_eq_true_eq] at hab hba
  exact String.le_antisymm hab hba

/-- The order in which texts arrive does not show in the sorted list. -/
theorem sort_eq_of_perm {l l' : List String} (h : l.Perm l') : sort l = sort l' :=
  eq_of_perm (pairwise_sort l) (pairwise_sort l') ((sort_perm l).trans (h.trans (sort_perm l').symm))

end Order
end InstallerLint
