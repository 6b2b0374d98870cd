import InstallerLint.Diagnostic.Basic
import InstallerLint.Tally
import Mathlib.Data.List.Sort
import Mathlib.Data.String.Basic

/-!
# How findings are listed and counted

**Order.**  The test that sorts findings says that one `Precedes` the other: the first of file,
line, column and rule that differs decides.  Sorting is stable, so findings with the same keys stay
in the order in which they were found (`filter_tied_sort`).

**Numbers.**  A tally keeps its names in ascending order.  Because of this adding finds a name that
is there, and counting a list gives each name the number of times it occurs (`lookup_ofNames`).  Of
findings that are filtered, those that are not kept are counted (`keep_eq`).
-/

namespace InstallerLint

namespace Diagnostic

/-- One finding is listed before another, or they have the same keys. -/
def Precedes (a b : Diagnostic) : Prop :=
  a.location.file < b.location.file ∨ a.location.file = b.location.file ∧
    (a.location.line < b.location.line ∨ a.location.line = b.location.line ∧
      (a.location.col < b.location.col ∨ a.location.col = b.location.col ∧
        a.ruleId ≤ b.ruleId))

/-- Two findings have the same file, line, column and rule. -/
def Tied (a b : Diagnostic) : Prop :=
  a.location.file = b.location.file ∧ a.location.line = b.location.line ∧
    a.location.col = b.location.col ∧ a.ruleId = b.ruleId

instance (a b : Diagnostic) : Decidable (Tied a b) := by
  unfold Tied
  infer_instance

theorem lexLe_compare_cons {α : Type} [LinearOrder α] (a b : α) (rest : List Ordering) :
    Order.lexLe (compare a b :: rest) = true ↔ a < b ∨ a = b ∧ Order.lexLe rest = true := by
  rcases lt_trichotomy a b with h | rfl | h
  · rw [compare_lt_iff_lt.mpr h]
    simp [Order.lexLe, h]
  · rw [compare_eq_iff_eq.mpr rfl]
    simp [Order.lexLe]
  · rw [compare_gt_iff_gt.mpr h]
    simp [Order.lexLe, h.not_gt, h.ne']

/-- The order of a listing compares file, line, column and rule, in this order. -/
theorem le_iff_precedes (a b : Diagnostic) : le a b = true ↔ Precedes a b := by
  have hlast : Order.lexLe [compare a.ruleId b.ruleId] = true ↔ a.ruleId ≤ b.ruleId := by
    rw [lexLe_compare_cons, le_iff_lt_or_eq]
    simp [Order.lexLe]
  unfold le Location.compareKeys Precedes
  rw [List.cons_append, List.cons_append, List.cons_append, List.nil_append, lexLe_compare_cons,
    lexLe_compare_cons, lexLe_compare_cons, hlast]

section Keys

variable {α : Type} [LinearOrder α] {a b c : α} {p q r : Prop}

theorem keys_trans (hab : a < b ∨ a = b ∧ p) (hbc : b < c ∨ b = c ∧ q) (h : p → q → r) :
    a < c ∨ a = c ∧ r := by
  rcases hab with hlt | ⟨rfl, hp⟩
  · rcases hbc with hlt' | ⟨rfl, -⟩
    · exact Or.inl (hlt.trans hlt')
    · exact Or.inl hlt
  · exact hbc.imp_right fun ⟨heq, hq⟩ => ⟨heq, h hp hq⟩

theorem keys_total (h : p ∨ q) : (a < b ∨ a = b ∧ p) ∨ (b < a ∨ b = a ∧ q) := by
  rcases lt_trichotomy a b with hlt | heq | hgt
  · exact Or.inl (Or.inl hlt)
  · exact h.imp (fun hp => Or.inr ⟨heq, hp⟩) fun hq => Or.inr ⟨heq.symm, hq⟩
  · exact Or.inr (Or.inl hgt)

end Keys

/-- The order is transitive. -/
theorem Precedes.trans {a b c : Diagnostic} (hab : Precedes a b) (hbc : Precedes b c) :
    Precedes a c :=
  keys_trans hab hbc fun h h' => keys_trans h h' fun h h' => keys_trans h h' fun h h' => h.trans h'

/-- Of two findings one comes first, or both have one place and rule. -/
theorem Precedes.total (a b : Diagnostic) : Precedes a b ∨ Precedes b a :=
  keys_total (keys_total (keys_total (String.le_total a.ruleId b.ruleId)))

theorem le_trans (a b c : Diagnostic) (hab : le a b = true) (hbc : le b c = true) :
    le a c = true := by
  rw [le_iff_precedes] at *
  exact hab.trans hbc

theorem le_total (a b : Diagnostic) : (le a b || le b a) = true := by
  rw [Bool.or_eq_true, le_iff_precedes, le_iff_precedes]
  exact Precedes.total a b

/-- A listing is in order. -/
theorem pairwise_sort (ds : List Diagnostic) : (sort ds).Pairwise Precedes :=
  (List.pairwise_mergeSort le_trans le_total ds).imp fun h => (le_iff_precedes _ _).mp h

/-- A listing holds the findings, each as often. -/
theorem sort_perm (ds : List Diagnostic) : (sort ds).Perm ds := List.mergeSort_perm ds le

/-- Findings that tie with a third tie with each other. -/
theorem le_of_tied {x a b : Diagnostic} (ha : Tied x a) (hb : Tied x b) : le a b = true := by
  obtain ⟨hfile, hline, hcol, hid⟩ := ha
  obtain ⟨hfile', hline', hcol', hid'⟩ := hb
  rw [le_iff_precedes, Precedes, ← hfile, ← hfile', ← hline, ← hline', ← hcol, ← hcol', ← hid,
    ← hid']
  exact Or.inr ⟨rfl, Or.inr ⟨rfl, Or.inr ⟨rfl, le_refl _⟩⟩⟩

/-- Findings with the same keys are listed in the order in which they were found. -/
theorem filter_tied_sort (x : Diagnostic) (ds : List Diagnostic) :
    (sort ds).filter (Tied x ·) = ds.filter (Tied x ·) := by
  have hsorted : (ds.filter (Tied x ·)).Pairwise fun a b => le a b = true := by
    refine List.pairwise_of_forall_mem_list fun a ha b hb => ?_
    exact le_of_tied (by simpa using (List.mem_filter.mp ha).2)
      (by simpa using (List.mem_filter.mp hb).2)
  have hsub : (ds.filter (Tied x ·)).Sublist (sort ds) :=
    List.sublist_mergeSort le_trans le_total hsorted List.filter_sublist
  have hsub' : (ds.filter (Tied x ·)).Sublist ((sort ds).filter (Tied x ·)) := by
    have := hsub.filter (Tied x ·)
    simpa only [List.filter_filter, Bool.and_self] using this
  refine (hsub'.eq_of_length ?_).symm
  exact ((sort_perm ds).filter _).length_eq.symm

end Diagnostic

namespace Tally

/-- The names of a tally are in ascending order, so none occurs twice. -/
def Ascending (t : Tally) : Prop := t.Pairwise fun a b => a.1 < b.1

theorem mem_add {name : String} {n : Nat} {t : Tally} {p : String × Nat} (h : p ∈ add name n t) :
    p.1 = name ∨ ∃ q ∈ t, p.1 = q.1 := by
  induction t with
  | nil =>
      rw [List.mem_singleton.mp h]
      exact Or.inl rfl
  | cons q t ih =>
      obtain ⟨k, v⟩ := q
      simp only [add] at h
      split at h
      · rcases List.mem_cons.mp h with rfl | h
        · exact Or.inr ⟨(k, v), List.mem_cons_self, rfl⟩
        · exact Or.inr ⟨p, List.mem_cons_of_mem _ h, rfl⟩
      · split at h
        · rcases List.mem_cons.mp h with rfl | h
          · exact Or.inl rfl
          · exact Or.inr ⟨p, h, rfl⟩
        · rcases List.mem_cons.mp h with rfl | h
          · exact Or.inr ⟨(k, v), List.mem_cons_self, rfl⟩
          · rcases ih h with h | ⟨q, hq, h⟩
            · exact Or.inl h
            · exact Or.inr ⟨q, List.mem_cons_of_mem _ hq, h⟩

/-- A tally stays ascending when it is added to. -/
theorem Ascending.add {t : Tally} (h : t.Ascending) (name : String) (n : Nat) :
    (Tally.add name n t).Ascending := by
  induction t with
  | nil => exact List.pairwise_singleton _ _
  | cons q t ih =>
      obtain ⟨k, v⟩ := q
      obtain ⟨hk, ht⟩ := List.pairwise_cons.mp h
      simp only [Tally.add]
      split
      · exact List.pairwise_cons.mpr ⟨hk, ht⟩
      · next hne =>
        split
        · next hle =>
          have hlt : name < k := lt_of_le_of_ne (of_decide_eq_true hle) hne
          refine List.pairwise_cons.mpr ⟨?_, h⟩
          intro p hp
          rcases List.mem_cons.mp hp with rfl | hp
          · exact hlt
          · exact hlt.trans (hk p hp)
        · next hle =>
          have hlt : k < name := not_le.mp fun h => hle (decide_eq_true h)
          refine List.pairwise_cons.mpr ⟨?_, ih ht⟩
          intro p hp
          rcases mem_add hp with h | ⟨q, hq, h⟩
          · exact h ▸ hlt
          · exact h ▸ hk q hq

/-- What adding to one name leaves at all names. -/
theorem lookup_add {t : Tally} (h : t.Ascending) (name : String) (n : Nat) (k : String) :
    (add name n t).lookup k =
      if k = name then some ((t.lookup k).getD 0 + n) else t.lookup k := by
  induction t with
  | nil =>
      by_cases hk : k = name
      · subst hk
        simp [add]
      · simp [add, List.lookup_cons, beq_false_of_ne hk, hk]
  | cons q t ih =>
      obtain ⟨k', v⟩ := q
      obtain ⟨hk', ht⟩ := List.pairwise_cons.mp h
      simp only [add]
      split
      · next heq =>
        subst heq
        by_cases hk : k = name
        · simp [hk]
        · simp [List.lookup_cons, beq_false_of_ne hk, hk]
      · next hne =>
        split
        · next hle =>
          by_cases hk : k = name
          · -- the name is not in the tally, as all its names are larger
            subst hk
            have hlt : k < k' := lt_of_le_of_ne (of_decide_eq_true hle) hne
            have hnone : ((k', v) :: t).lookup k = none := by
              rw [List.lookup_eq_none_iff]
              intro p hp
              rcases List.mem_cons.mp hp with rfl | hp
              · simpa using hne
              · simpa using (hlt.trans (hk' p hp)).ne
            rw [hnone]
            simp
          · rw [List.lookup_cons, beq_false_of_ne hk, if_neg hk]
        · by_cases hk : k = k'
          · subst hk
            simp [Ne.symm hne]
          · rw [List.lookup_cons, List.lookup_cons, beq_false_of_ne hk]
            exact ih ht

/-- Counting a list gives each name that occurs its number of occurrences, and no other name. -/
theorem lookup_ofNames (l : List String) (k : String) :
    (ofNames l).lookup k = if l.count k = 0 then none else some (l.count k) := by
  have hfold : ∀ (l : List String) (t : Tally), t.Ascending →
      (l.foldl (fun t k => add k 1 t) t).lookup k =
        if l.count k = 0 then t.lookup k else some ((t.lookup k).getD 0 + l.count k) := by
    intro l
    induction l with
    | nil => exact fun t _ => by simp
    | cons name l ih =>
        intro t ht
        rw [List.foldl_cons, ih _ (ht.add name 1), lookup_add ht, List.count_cons]
        by_cases hk : k = name
        · subst hk
          by_cases hl : l.count k = 0
          · simp [hl]
          · simp [hl]
            omega
        · simp [hk, Ne.symm hk]
  rw [ofNames, hfold l [] List.Pairwise.nil]
  simp

end Tally

/-- Levels with one number are equal. -/
theorem Severity.level_injective {a b : Severity} (h : a.level = b.level) : a = b := by
  cases a <;> cases b <;> first | rfl | exact absurd h (by decide)

/-- Levels with one name are equal. -/
theorem Severity.text_injective {a b : Severity} (h : a.text = b.text) : a = b := by
  cases a <;> cases b <;> first | rfl | exact absurd h (by decide)

namespace FileResult

/-- The total of some results is the number of their findings. -/
theorem total_eq_length (rs : List FileResult) :
    total rs = (rs.flatMap (·.diagnostics)).length := by
  unfold total
  induction rs with
  | nil => rfl
  | cons r rs ih =>
      rw [List.map_cons, Numbers.total, ih, List.flatMap_cons, List.length_append]

/-- What is kept stays in its result and in order, and what is not kept is counted. -/
theorem keep_eq (p : Diagnostic → Bool) (rs : List FileResult) :
    keep p rs = (rs.map fun r => { r with diagnostics := r.diagnostics.filter p },
      ((rs.flatMap (·.diagnostics)).filter fun d => !p d).length) := by
  have hkept : (rs.map fun r => { r with diagnostics := r.diagnostics.filter p }).flatMap
      (·.diagnostics) = (rs.flatMap (·.diagnostics)).filter p := by
    rw [List.flatMap_map, List.filter_flatMap]
  have hsplit := List.length_eq_countP_add_countP p (l := rs.flatMap (·.diagnostics))
  unfold keep
  dsimp only
  rw [total_eq_length, total_eq_length, hkept, ← List.countP_eq_length_filter,
    ← List.countP_eq_length_filter, hsplit]
  simp

end FileResult

end InstallerLint
