import InstallerLint.Diff.Match
import Mathlib.Data.List.Basic
import Mathlib.Order.Nat
import Mathlib.Tactic.SplitIfs

/-!
# Common runs of two sequences

**Numbers.**  Two places have the same number exactly if they hold the same item (`same_ofLists`).
The places of a number are those where it stands in the second sequence, in order, unless it is too
frequent to start a run (`starts_ofLists`).

**Runs.**  Each row of the table holds runs that end there (`Ending`), and growing keeps a run
common.  So the runs that are found are common and stand in order (`chain_runs`).

**The end.**  When the last items are equal and occur nowhere else, the last run ends with them
(`reachesEnd_runs`).

**Equal sequences.**  Between equal sequences the longest run in the table is one that starts at the
same place in both, although frequent items are missing in it; growing makes it the whole sequence
(`runs_self`).
-/

namespace InstallerLint
namespace Diff
namespace Pair

section Places

/-- The places where a number stands, in order. -/
def positions (right : List Nat) (x : Nat) : List Nat :=
  (right.zipIdx.filter (·.1 = x)).map Prod.snd

/-- The positions of a number are the places it stands at. -/
theorem mem_positions {right : List Nat} {x j : Nat} : j ∈ positions right x ↔ right[j]? = some x := by
  unfold positions
  rw [List.mem_map]
  constructor
  · rintro ⟨⟨y, j⟩, hmem, rfl⟩
    obtain ⟨hidx, hy⟩ := List.mem_filter.mp hmem
    obtain rfl : y = x := of_decide_eq_true hy
    exact List.mem_zipIdx_iff_getElem?.mp hidx
  · intro h
    exact ⟨(x, j), List.mem_filter.mpr ⟨List.mem_zipIdx_iff_getElem?.mpr h, by simp⟩, rfl⟩

/-- Positions ascend. -/
theorem pairwise_positions (right : List Nat) (x : Nat) : (positions right x).Pairwise (· < ·) := by
  unfold positions
  refine List.Pairwise.sublist (List.filter_sublist.map Prod.snd) ?_
  rw [List.zipIdx_map_snd]
  exact List.pairwise_lt_range'

/-- Collecting places from behind puts them in front of those that are there. -/
theorem getElem?_collect (pairs : List (Nat × Nat)) (ps : Array (List Nat)) (x : Nat) :
    (pairs.foldr (fun q (ps : Array (List Nat)) => ps.modify q.1 (q.2 :: ·)) ps)[x]? =
      ps[x]?.map (((pairs.filter (·.1 = x)).map Prod.snd) ++ ·) := by
  induction pairs with
  | nil => simp
  | cons q pairs ih =>
      rw [List.foldr_cons, Array.getElem?_modify, ih]
      by_cases hq : q.1 = x
      · rw [if_pos hq, List.filter_cons_of_pos (by simpa using hq), Option.map_map]
        rfl
      · rw [if_neg hq, List.filter_cons_of_neg (by simpa using hq)]

/-- Whether a number is too frequent to start a run. -/
def isFrequent (right : List Nat) (x : Nat) : Bool :=
  frequencyLimit ≤ right.length && right.length / 100 + 1 < (positions right x).length

theorem getElem?_placesOf {count x : Nat} (hx : x < count) (right : Array Nat) :
    (placesOf count right)[x]? =
      some (if isFrequent right.toList x then [] else positions right.toList x) := by
  have hall : ((right.toList.zipIdx).foldr
      (fun q (ps : Array (List Nat)) => ps.modify q.1 (q.2 :: ·)) (Array.replicate count []))[x]? =
      some (positions right.toList x) := by
    rw [getElem?_collect, Array.getElem?_replicate, if_pos hx]
    simp [positions]
  unfold placesOf isFrequent
  dsimp only
  rw [Array.length_toList, List.foldl_reverse]
  by_cases hlimit : frequencyLimit ≤ right.size
  · rw [if_pos hlimit, Array.getElem?_map, hall]
    simp [hlimit]
  · rw [if_neg hlimit, hall]
    simp [hlimit]

end Places

section Numbers

variable {α : Type} [BEq α] [LawfulBEq α] {a b : List α} {i j : Nat}

/-- The places at which item `i` of the first sequence starts a run or extends one in the table. -/
def starts (p : Pair) (i : Nat) : List Nat := ((p.left[i]?).bind fun x => p.places[x]?).getD []

omit [LawfulBEq α] in
theorem getElem?_number (names l : List α) (i : Nat) :
    (number names l)[i]? = l[i]?.map names.idxOf := by
  rw [number, List.getElem?_toArray, List.getElem?_map]

theorem idxOf_eq_iff {names : List α} {x y : α} (hy : y ∈ names) :
    names.idxOf x = names.idxOf y ↔ x = y := by
  rw [eq_comm, List.idxOf_inj hy, eq_comm]

/-- Equal numbers stand for equal items. -/
theorem same_ofLists (a b : List α) (i j : Nat) :
    (ofLists a b).same i j = true ↔ ∃ x, a[i]? = some x ∧ b[j]? = some x := by
  have hleft : (ofLists a b).left[i]? = a[i]?.map (distinct b).idxOf := getElem?_number _ _ _
  have hright : (ofLists a b).right[j]? = b[j]?.map (distinct b).idxOf := getElem?_number _ _ _
  unfold same
  rw [hleft, hright]
  cases hi : a[i]? with
  | none => simp
  | some x =>
      cases hj : b[j]? with
      | none => simp
      | some y =>
          have hy : y ∈ distinct b := List.mem_eraseDups.mpr (List.mem_of_getElem? hj)
          simp only [Option.map_some, beq_iff_eq, idxOf_eq_iff hy, Option.some.injEq,
            exists_eq_left']
          exact eq_comm

/-- The places of an item are those where it stands in the second sequence, if it is not too
frequent. -/
theorem starts_ofLists {x : α} (hi : a[i]? = some x) :
    (ofLists a b).starts i =
      if isFrequent (number (distinct b) b).toList ((distinct b).idxOf x) then []
      else positions (number (distinct b) b).toList ((distinct b).idxOf x) := by
  have hleft : (ofLists a b).left[i]? = some ((distinct b).idxOf x) := by
    rw [← Option.map_some (f := (distinct b).idxOf), ← hi]
    exact getElem?_number _ _ _
  have hplaces := getElem?_placesOf (Nat.lt_succ_of_le (List.idxOf_le_length (a := x)
    (l := distinct b))) (number (distinct b) b)
  unfold starts
  rw [hleft, Option.bind_some]
  exact congrArg (Option.getD · []) hplaces

end Numbers

section Rows

variable {p : Pair} {w : Window} {i j k n : Nat} {before : List (Nat × Nat)} {best r : Run}

/-- The length of the run that ends at an item of a row, from those of the row before. -/
def reach (before : List (Nat × Nat)) (j : Nat) : Nat :=
  (if j = 0 then 0 else (before.lookup (j - 1)).getD 0) + 1

/-- The places of a row that stand in the window. -/
def visited (w : Window) : List Nat → List Nat
  | [] => []
  | j :: js =>
      if j < w.rightLo then visited w js else if w.rightHi ≤ j then [] else j :: visited w js

/-- The run that ends at an item of a row, if it is longer than the best one so far. -/
def better (i : Nat) (before : List (Nat × Nat)) (best : Run) (j : Nat) : Run :=
  if best.size < reach before j then
    ⟨i + 1 - reach before j, j + 1 - reach before j, reach before j⟩
  else best

/-- A row visits the places in the window, and keeps the best run. -/
theorem row_eq (w : Window) (i : Nat) (before : List (Nat × Nat)) (js : List Nat) (best : Run) :
    row w i before js best = ((visited w js).map fun j => (j, reach before j),
      (visited w js).foldl (better i before) best) := by
  induction js generalizing best with
  | nil => rfl
  | cons j js ih =>
      rw [row, visited]
      by_cases hlo : j < w.rightLo
      · rw [if_pos hlo, if_pos hlo, ih]
      by_cases hhi : w.rightHi ≤ j
      · rw [if_neg hlo, if_neg hlo, if_pos hhi, if_pos hhi]
        rfl
      · rw [if_neg hlo, if_neg hlo, if_neg hhi, if_neg hhi]
        dsimp only
        rw [ih]
        rfl

theorem rows_succ (p : Pair) (w : Window) (n i : Nat) (before : List (Nat × Nat)) (best : Run) :
    rows p w (n + 1) i before best = rows p w n (i + 1)
      ((visited w (p.starts i)).map fun j => (j, reach before j))
      ((visited w (p.starts i)).foldl (better i before) best) := by
  rw [rows]
  dsimp only
  rw [row_eq]
  rfl

theorem mem_visited {js : List Nat} (h : j ∈ visited w js) :
    j ∈ js ∧ w.rightLo ≤ j ∧ j < w.rightHi := by
  induction js with
  | nil => cases h
  | cons j' js ih =>
      rw [visited] at h
      split_ifs at h with hlo hhi
      · exact ⟨List.mem_cons_of_mem _ (ih h).1, (ih h).2⟩
      · cases h
      · rcases List.mem_cons.mp h with rfl | h
        · exact ⟨List.mem_cons_self, by omega, by omega⟩
        · exact ⟨List.mem_cons_of_mem _ (ih h).1, (ih h).2⟩

/-- A run of items that are the same in both sequences, inside of a window. -/
structure Common (p : Pair) (w : Window) (r : Run) : Prop where
  leftLo : w.leftLo ≤ r.left
  rightLo : w.rightLo ≤ r.right
  leftHi : r.left + r.size ≤ w.leftHi
  rightHi : r.right + r.size ≤ w.rightHi
  same : ∀ t < r.size, p.same (r.left + t) (r.right + t) = true

/-- A common run of some length ends in front of two places. -/
def Ending (p : Pair) (w : Window) (i j k : Nat) : Prop :=
  ∃ r, Common p w r ∧ r.size = k ∧ r.left + k = i ∧ r.right + k = j

theorem ending_zero (hi : w.leftLo ≤ i) (hi' : i ≤ w.leftHi) (hj : w.rightLo ≤ j)
    (hj' : j ≤ w.rightHi) : Ending p w i j 0 :=
  ⟨⟨i, j, 0⟩, ⟨hi, hj, hi', hj', fun t ht => absurd ht (Nat.not_lt_zero t)⟩, rfl, rfl, rfl⟩

/-- A run that ends before two equal lines ends behind them, one longer. -/
theorem Ending.extend (h : Ending p w i j k) (hi : i < w.leftHi) (hj : j < w.rightHi)
    (hsame : p.same i j = true) : Ending p w (i + 1) (j + 1) (k + 1) := by
  obtain ⟨⟨left, right, size⟩, hr, rfl, rfl, rfl⟩ := h
  refine ⟨⟨left, right, size + 1⟩, ⟨hr.leftLo, hr.rightLo, hi, hj, fun t ht => ?_⟩, rfl, rfl, rfl⟩
  rcases Nat.lt_succ_iff_lt_or_eq.mp ht with ht | rfl
  · exact hr.same t ht
  · exact hsame

/-- The runs in a row end there, if those of the row before do. -/
theorem ending_reach (hbefore : ∀ x ∈ before, Ending p w i (x.1 + 1) x.2) (hi : w.leftLo ≤ i)
    (hi' : i < w.leftHi) (hj : w.rightLo ≤ j) (hj' : j < w.rightHi) (hsame : p.same i j = true) :
    Ending p w (i + 1) (j + 1) (reach before j) := by
  refine Ending.extend ?_ hi' hj' hsame
  split_ifs with hzero
  · exact ending_zero hi (Nat.le_of_lt hi') hj (Nat.le_of_lt hj')
  · cases hl : before.lookup (j - 1) with
    | none => exact ending_zero hi (Nat.le_of_lt hi') hj (Nat.le_of_lt hj')
    | some k =>
        obtain ⟨front, back, rfl, -⟩ := List.lookup_eq_some_iff.mp hl
        have hend := hbefore (j - 1, k) (by simp)
        rwa [Nat.sub_add_cancel (Nat.pos_of_ne_zero hzero)] at hend

/-- The better of two runs is common when both are. -/
theorem common_better (hbest : Common p w best)
    (hend : Ending p w (i + 1) (j + 1) (reach before j)) : Common p w (better i before best j) := by
  unfold better
  split_ifs
  · obtain ⟨⟨left, right, size⟩, hr, hsize, hleft, hright⟩ := hend
    obtain rfl : size = reach before j := hsize
    rwa [← hleft, ← hright, Nat.add_sub_cancel, Nat.add_sub_cancel]
  · exact hbest

/-- The best run of a row is common. -/
theorem common_foldl {js : List Nat} (hbest : Common p w best)
    (h : ∀ j ∈ js, Ending p w (i + 1) (j + 1) (reach before j)) :
    Common p w (js.foldl (better i before) best) := by
  induction js generalizing best with
  | nil => exact hbest
  | cons j js ih =>
      exact ih (common_better hbest (h j List.mem_cons_self))
        fun j' hj' => h j' (List.mem_cons_of_mem _ hj')

/-- The best run in the table is common. -/
theorem common_rows (hstarts : ∀ i, ∀ j ∈ p.starts i, p.same i j = true)
    (hbefore : ∀ x ∈ before, Ending p w i (x.1 + 1) x.2) (hi : w.leftLo ≤ i)
    (hn : i + n ≤ w.leftHi) (hbest : Common p w best) : Common p w (rows p w n i before best) := by
  induction n generalizing i before best with
  | zero => exact hbest
  | succ n ih =>
      have hrow : ∀ j ∈ visited w (p.starts i), Ending p w (i + 1) (j + 1) (reach before j) := by
        intro j hj
        obtain ⟨hmem, hlo, hhi⟩ := mem_visited hj
        exact ending_reach hbefore hi (by omega) hlo hhi (hstarts i j hmem)
      rw [rows_succ]
      refine ih (fun x hx => ?_) (by omega) (by omega) (common_foldl hbest hrow)
      obtain ⟨j, hj, rfl⟩ := List.mem_map.mp hx
      exact hrow j hj

theorem size_le_better (i : Nat) (before : List (Nat × Nat)) (best : Run) (j : Nat) :
    best.size ≤ (better i before best j).size ∧ reach before j ≤ (better i before best j).size := by
  unfold better
  split_ifs with hlt
  · exact ⟨Nat.le_of_lt hlt, le_rfl⟩
  · exact ⟨le_rfl, not_lt.mp hlt⟩

/-- The best run of a row is as long as any seen. -/
theorem size_le_foldl (i : Nat) (before : List (Nat × Nat)) (best : Run) (js : List Nat) :
    best.size ≤ (js.foldl (better i before) best).size ∧
      ∀ j ∈ js, reach before j ≤ (js.foldl (better i before) best).size := by
  induction js generalizing best with
  | nil => exact ⟨le_rfl, fun j hj => absurd hj List.not_mem_nil⟩
  | cons j js ih =>
      obtain ⟨hbest, hjs⟩ := ih (better i before best j)
      obtain ⟨hold, hnew⟩ := size_le_better i before best j
      refine ⟨hold.trans hbest, fun j' hj' => ?_⟩
      rcases List.mem_cons.mp hj' with rfl | hj'
      · exact hnew.trans hbest
      · exact hjs j' hj'

/-- The best run never gets shorter. -/
theorem size_le_rows (p : Pair) (w : Window) (n i : Nat) (before : List (Nat × Nat)) (best : Run) :
    best.size ≤ (rows p w n i before best).size := by
  induction n generalizing i before best with
  | zero => exact le_rfl
  | succ n ih =>
      rw [rows_succ]
      exact (size_le_foldl i before best _).1.trans (ih _ _ _)

/-- A row with a place in the window gives a run. -/
theorem size_rows_pos {e : Nat} (hlo : i ≤ e) (hhi : e < i + n) (hj : j ∈ visited w (p.starts e)) :
    0 < (rows p w n i before best).size := by
  induction n generalizing i before best with
  | zero => omega
  | succ n ih =>
      rw [rows_succ]
      by_cases he : e = i
      · subst he
        have hreach := (size_le_foldl e before best _).2 j hj
        exact (Nat.succ_pos _).trans_le (hreach.trans (size_le_rows ..))
      · exact ih (by omega) (by omega)

/-- A common run stays common when it grows to the left. -/
theorem common_growLeft (h : Common p w r) : Common p w (growLeft p w n r) := by
  induction n generalizing r with
  | zero => exact h
  | succ n ih =>
      rw [growLeft]
      split_ifs with hgrow
      · rw [Bool.and_eq_true, Bool.and_eq_true, decide_eq_true_eq, decide_eq_true_eq] at hgrow
        obtain ⟨⟨hleft, hright⟩, hsame⟩ := hgrow
        have hleftHi := h.leftHi
        have hrightHi := h.rightHi
        refine ih ⟨by dsimp only; omega, by dsimp only; omega, by dsimp only; omega,
          by dsimp only; omega, fun t ht => ?_⟩
        cases t with
        | zero => exact hsame
        | succ t =>
            have hrest := h.same t (Nat.lt_of_succ_lt_succ ht)
            rwa [show r.left + t = r.left - 1 + (t + 1) by omega,
              show r.right + t = r.right - 1 + (t + 1) by omega] at hrest
      · exact h

/-- A common run stays common when it grows to the right. -/
theorem common_growRight (h : Common p w r) : Common p w (growRight p w n r) := by
  induction n generalizing r with
  | zero => exact h
  | succ n ih =>
      rw [growRight]
      split_ifs with hgrow
      · rw [Bool.and_eq_true, Bool.and_eq_true, decide_eq_true_eq, decide_eq_true_eq] at hgrow
        obtain ⟨⟨hleft, hright⟩, hsame⟩ := hgrow
        refine ih ⟨h.leftLo, h.rightLo, hleft, hright, fun t ht => ?_⟩
        rcases Nat.lt_succ_iff_lt_or_eq.mp ht with ht | rfl
        · exact h.same t ht
        · exact hsame
      · exact h

theorem size_le_growLeft (p : Pair) (w : Window) (n : Nat) (r : Run) :
    r.size ≤ (growLeft p w n r).size := by
  induction n generalizing r with
  | zero => exact le_rfl
  | succ n ih =>
      rw [growLeft]
      split_ifs
      · exact (Nat.le_succ r.size).trans (ih ⟨_, _, r.size + 1⟩)
      · exact le_rfl

theorem size_le_growRight (p : Pair) (w : Window) (n : Nat) (r : Run) :
    r.size ≤ (growRight p w n r).size := by
  induction n generalizing r with
  | zero => exact le_rfl
  | succ n ih =>
      rw [growRight]
      split_ifs
      · exact (Nat.le_succ r.size).trans (ih ⟨_, _, r.size + 1⟩)
      · exact le_rfl

/-- The longest run is common. -/
theorem common_longest (hstarts : ∀ i, ∀ j ∈ p.starts i, p.same i j = true)
    (hleft : w.leftLo ≤ w.leftHi) (hright : w.rightLo ≤ w.rightHi) : Common p w (p.longest w) := by
  refine common_growRight (common_growLeft (common_rows hstarts ?_ le_rfl (by omega) ?_))
  · exact fun x hx => absurd hx List.not_mem_nil
  · exact ⟨le_rfl, le_rfl, hleft, hright, fun t ht => absurd ht (Nat.not_lt_zero t)⟩

end Rows

section Chains

variable {p : Pair} {w : Window} {i j i' j' n m fuel : Nat} {l l' : List Run}

/-- Common runs in order, between two places of each sequence. -/
inductive Chain (p : Pair) (i' j' : Nat) : (i j : Nat) → List Run → Prop where
  | nil {i j : Nat} (hi : i ≤ i') (hj : j ≤ j') : Chain p i' j' i j []
  /-- A run and those behind it. -/
  | cons {i j : Nat} {r : Run} {rest : List Run} (hi : i ≤ r.left) (hj : j ≤ r.right)
      (hpos : 0 < r.size) (hsame : ∀ t < r.size, p.same (r.left + t) (r.right + t) = true)
      (h : Chain p i' j' (r.left + r.size) (r.right + r.size) rest) : Chain p i' j' i j (r :: rest)

/-- Chains one behind the other make a chain. -/
theorem Chain.append {i'' j'' : Nat} (h : Chain p i' j' i j l) (h' : Chain p i'' j'' i' j' l') :
    Chain p i'' j'' i j (l ++ l') := by
  induction h with
  | nil hi hj =>
      cases h' with
      | nil hi' hj' => exact .nil (hi.trans hi') (hj.trans hj')
      | cons hi' hj' hpos hsame h' => exact .cons (hi.trans hi') (hj.trans hj') hpos hsame h'
  | cons hi hj hpos hsame _ ih => exact .cons hi hj hpos hsame ih

/-- The runs in a window are common and in order. -/
theorem chain_runsIn (hstarts : ∀ i, ∀ j ∈ p.starts i, p.same i j = true)
    (hleft : w.leftLo ≤ w.leftHi) (hright : w.rightLo ≤ w.rightHi) :
    Chain p w.leftHi w.rightHi w.leftLo w.rightLo (p.runsIn fuel w) := by
  induction fuel generalizing w with
  | zero => exact .nil hleft hright
  | succ fuel ih =>
      have hr := common_longest (w := w) hstarts hleft hright
      rw [runsIn]
      dsimp only
      generalize p.longest w = r at hr ⊢
      have hbefore : Chain p r.left r.right w.leftLo w.rightLo
          (if w.leftLo < r.left && w.rightLo < r.right then
            runsIn p fuel ⟨w.leftLo, r.left, w.rightLo, r.right⟩ else []) := by
        split_ifs
        · exact ih (w := ⟨w.leftLo, r.left, w.rightLo, r.right⟩) hr.leftLo hr.rightLo
        · exact .nil hr.leftLo hr.rightLo
      have hafter : Chain p w.leftHi w.rightHi (r.left + r.size) (r.right + r.size)
          (if r.left + r.size < w.leftHi && r.right + r.size < w.rightHi then
            runsIn p fuel ⟨r.left + r.size, w.leftHi, r.right + r.size, w.rightHi⟩ else []) := by
        split_ifs
        · exact ih (w := ⟨r.left + r.size, w.leftHi, r.right + r.size, w.rightHi⟩) hr.leftHi hr.rightHi
        · exact .nil hr.leftHi hr.rightHi
      by_cases hzero : r.size = 0
      · rw [if_pos hzero]
        exact .nil hleft hright
      · rw [if_neg hzero]
        exact hbefore.append (.cons le_rfl le_rfl (Nat.pos_of_ne_zero hzero) hr.same hafter)

/-- Joining adjacent runs keeps them common and in order. -/
theorem Chain.joined (h : Chain p i' j' i j l) : Chain p i' j' i j (joined l) := by
  induction h with
  | nil hi hj => exact .nil hi hj
  | @cons i j r rest hi hj hpos hsame _ ih =>
      rw [Pair.joined]
      cases hrest : Pair.joined rest with
      | nil =>
          rw [hrest] at ih
          exact .cons hi hj hpos hsame ih
      | cons s more =>
          rw [hrest] at ih
          dsimp only
          split_ifs with hgap
          · rw [Bool.and_eq_true, decide_eq_true_eq, decide_eq_true_eq] at hgap
            cases ih with
            | cons _ _ hpos' hsame' h' =>
                rw [← hgap.1, ← hgap.2, Nat.add_assoc, Nat.add_assoc] at h'
                refine .cons hi hj (by dsimp only; omega) (fun t ht => ?_) h'
                by_cases hfirst : t < r.size
                · exact hsame t hfirst
                · have hsecond := hsame' (t - r.size) (by dsimp only at ht; omega)
                  rw [← hgap.1, ← hgap.2] at hsecond
                  rwa [show r.left + r.size + (t - r.size) = r.left + t by omega,
                    show r.right + r.size + (t - r.size) = r.right + t by omega] at hsecond
          · exact .cons hi hj hpos hsame ih

/-- The runs of a pair stand in order and do not overlap. -/
theorem chain_runs (hstarts : ∀ i, ∀ j ∈ p.starts i, p.same i j = true) :
    Chain p p.left.size p.right.size 0 0 p.runs :=
  (chain_runsIn (w := ⟨0, p.left.size, 0, p.right.size⟩) hstarts (Nat.zero_le _)
    (Nat.zero_le _)).joined

/-- The last run ends in front of two places. -/
def ReachesEnd (n m : Nat) (l : List Run) : Prop :=
  ∃ r, l.getLast? = some r ∧ r.left + r.size = n ∧ r.right + r.size = m

theorem ReachesEnd.joined (h : ReachesEnd n m l) : ReachesEnd n m (joined l) := by
  induction l with
  | nil => exact h
  | cons r rest ih =>
      obtain ⟨last, hlast, hleft, hright⟩ := h
      rw [Pair.joined]
      cases rest with
      | nil => exact ⟨last, hlast, hleft, hright⟩
      | cons r' rest =>
          rw [List.getLast?_cons_cons] at hlast
          obtain ⟨last', hlast', hleft', hright'⟩ := ih ⟨last, hlast, hleft, hright⟩
          cases hrest : Pair.joined (r' :: rest) with
          | nil =>
              rw [hrest] at hlast'
              cases hlast'
          | cons s more =>
              rw [hrest] at hlast'
              dsimp only
              split_ifs with hgap
              · rw [Bool.and_eq_true, decide_eq_true_eq, decide_eq_true_eq] at hgap
                cases more with
                | nil =>
                    obtain rfl : s = last' := Option.some.inj hlast'
                    exact ⟨⟨r.left, r.right, r.size + s.size⟩, rfl,
                      by rw [← hleft', ← hgap.1, Nat.add_assoc],
                      by rw [← hright', ← hgap.2, Nat.add_assoc]⟩
                | cons s' more =>
                    rw [List.getLast?_cons_cons] at hlast'
                    exact ⟨last', by rw [List.getLast?_cons_cons, hlast'], hleft', hright'⟩
              · exact ⟨last', by rw [List.getLast?_cons_cons, hlast'], hleft', hright'⟩

/-- When the last items are the same and match nothing else, the last run in a window that holds them
ends with them. -/
theorem reachesEnd_runsIn (hstarts : ∀ i, ∀ j ∈ p.starts i, p.same i j = true)
    (hlast : p.starts n = [m]) (htied : ∀ i j, p.same i j = true → (i = n ↔ j = m))
    (hleft : w.leftLo ≤ n) (hright : w.rightLo ≤ m) (hleftHi : w.leftHi = n + 1)
    (hrightHi : w.rightHi = m + 1) (hfuel : w.leftHi - w.leftLo < fuel) :
    ReachesEnd (n + 1) (m + 1) (p.runsIn fuel w) := by
  induction fuel generalizing w with
  | zero => omega
  | succ fuel ih =>
      have hr := common_longest (w := w) hstarts (by omega) (by omega)
      have hpos : 0 < (p.longest w).size := by
        have hvisited : m ∈ visited w (p.starts n) := by
          rw [hlast, visited, if_neg (by omega), if_neg (by omega)]
          exact List.mem_cons_self
        have hfound : 0 < (rows p w (w.leftHi - w.leftLo) w.leftLo [] ⟨w.leftLo, w.rightLo, 0⟩).size :=
          size_rows_pos (e := n) hleft (by omega) hvisited
        exact hfound.trans_le ((size_le_growLeft ..).trans (size_le_growRight ..))
      generalize hlongest : p.longest w = r at hr hpos
      have hlo := hr.leftLo
      have hhi := hr.leftHi
      have hhi' := hr.rightHi
      have hends := htied _ _ (hr.same (r.size - 1) (by omega))
      rw [runsIn]
      dsimp only
      rw [hlongest, if_neg (show ¬ r.size = 0 by omega)]
      by_cases hend : r.left + r.size = n + 1
      · have hstop : (decide (r.left + r.size < w.leftHi) &&
            decide (r.right + r.size < w.rightHi)) = false := by
          rw [decide_eq_false (by omega), Bool.false_and]
        rw [hstop, if_neg Bool.false_ne_true]
        exact ⟨r, by simp, hend, by omega⟩
      · have hgo : (decide (r.left + r.size < w.leftHi) &&
            decide (r.right + r.size < w.rightHi)) = true := by
          rw [decide_eq_true (by omega), decide_eq_true (by omega), Bool.true_and]
        obtain ⟨last, hlast', hrest⟩ :=
          ih (w := ⟨r.left + r.size, w.leftHi, r.right + r.size, w.rightHi⟩) (by dsimp only; omega)
            (by dsimp only; omega) hleftHi hrightHi (by dsimp only; omega)
        rw [hgo, if_pos rfl]
        refine ⟨last, ?_, hrest⟩
        rw [List.getLast?_append, List.getLast?_cons, hlast']
        rfl

end Chains

section Equal

variable {p : Pair} {i n : Nat} {before : List (Nat × Nat)} {best : Run}

/-- A sequence is matched with itself. -/
structure Mirrored (p : Pair) (n : Nat) : Prop where
  sorted : ∀ i, (p.starts i).Pairwise (· < ·)
  self : ∀ i, ∀ j ∈ p.starts i, i ∈ p.starts i
  equal : ∀ i, ∀ j ∈ p.starts i, p.starts j = p.starts i
  bound : ∀ i, ∀ j ∈ p.starts i, j < n
  same : ∀ i < n, p.same i i = true

/-- How many items in front of a place start a run at their own place, counted back to the first that
does not. -/
def block (p : Pair) : Nat → Nat
  | 0 => 0
  | e + 1 => if e ∈ p.starts e then block p e + 1 else 0

/-- Before a row: no run is longer than those at its own place, and the best run starts at one place
in both. -/
structure Level (p : Pair) (i : Nat) (before : List (Nat × Nat)) (best : Run) : Prop where
  short : ∀ x ∈ before, x.2 ≤ block p (x.1 + 1) ∧ x.2 ≤ block p i
  diagonal : (if i = 0 then 0 else (before.lookup (i - 1)).getD 0) = block p i
  place : best.left = best.right
  longest : ∀ e ≤ i, block p e ≤ best.size

theorem foldl_better_of_le {js : List Nat} (h : ∀ j ∈ js, reach before j ≤ best.size) :
    js.foldl (better i before) best = best := by
  induction js with
  | nil => rfl
  | cons j js ih =>
      have hj : better i before best j = best := if_neg (not_lt.mpr (h j List.mem_cons_self))
      rw [List.foldl_cons, hj]
      exact ih fun j' hj' => h j' (List.mem_cons_of_mem _ hj')

theorem lookup_map_self {f : Nat → Nat} {js : List Nat} {j : Nat} (h : j ∈ js) :
    (js.map fun j => (j, f j)).lookup j = some (f j) := by
  induction js with
  | nil => cases h
  | cons j' js ih =>
      rw [List.map_cons, List.lookup_cons]
      by_cases heq : j = j'
      · rw [heq, beq_self_eq_true]
      · rw [beq_false_of_ne heq]
        exact ih ((List.mem_cons.mp h).resolve_left heq)

theorem visited_full {js : List Nat} (h : ∀ j ∈ js, j < n) : visited ⟨0, n, 0, n⟩ js = js := by
  induction js with
  | nil => rfl
  | cons j js ih =>
      have hj := h j List.mem_cons_self
      rw [visited, if_neg (Nat.not_lt_zero j), if_neg (Nat.not_le.mpr hj),
        ih fun j' hj' => h j' (List.mem_cons_of_mem _ hj')]

/-- In the row of item `i` no run is longer than the one at place `i`. -/
theorem Level.reach_le (h : Level p i before best) (hp : Mirrored p n) {j : Nat}
    (hj : j ∈ p.starts i) : reach before j ≤ block p (j + 1) ∧ reach before j ≤ block p (i + 1) := by
  have hjj : j ∈ p.starts j := by rwa [hp.equal i j hj]
  have hii := hp.self i j hj
  rw [block, block, if_pos hjj, if_pos hii]
  unfold reach
  split_ifs with hzero
  · omega
  · cases hl : before.lookup (j - 1) with
    | none =>
        rw [Option.getD_none]
        omega
    | some k =>
        obtain ⟨front, back, rfl, -⟩ := List.lookup_eq_some_iff.mp hl
        obtain ⟨hcol, hrow⟩ := h.short (j - 1, k) (by simp)
        rw [Nat.sub_add_cancel (Nat.pos_of_ne_zero hzero)] at hcol
        exact ⟨Nat.succ_le_succ hcol, Nat.succ_le_succ hrow⟩

/-- Between equal texts a row keeps the best run level. -/
theorem Level.step (h : Level p i before best) (hp : Mirrored p n) :
    Level p (i + 1) ((p.starts i).map fun j => (j, reach before j))
      ((p.starts i).foldl (better i before) best) := by
  by_cases hi : i ∈ p.starts i
  · -- the run at place `i` is the only one of the row that can be better
    have hreach : reach before i = block p (i + 1) := by
      rw [block, if_pos hi, reach, h.diagonal]
    obtain ⟨front, back, hsplit⟩ := List.append_of_mem hi
    have hsorted := hp.sorted i
    have hle := fun j => h.reach_le hp (j := j)
    have hmap := lookup_map_self (f := reach before) hi
    rw [hsplit] at hsorted hle
    rw [List.pairwise_append, List.pairwise_cons] at hsorted
    have hfront : front.foldl (better i before) best = best := by
      refine foldl_better_of_le fun j hj => ?_
      have hlt : j < i := hsorted.2.2 j hj i List.mem_cons_self
      exact (hle j (List.mem_append_left _ hj)).1.trans (h.longest (j + 1) hlt)
    have hsize := size_le_better i before best i
    have hback : back.foldl (better i before) (better i before best i) = better i before best i := by
      refine foldl_better_of_le fun j hj => ?_
      have hrow := (hle j (List.mem_append_right _ (List.mem_cons_of_mem _ hj))).2
      exact hrow.trans (hreach ▸ hsize.2)
    have hfold : (p.starts i).foldl (better i before) best = better i before best i := by
      rw [hsplit, List.foldl_append, hfront, List.foldl_cons, hback]
    refine ⟨fun x hx => ?_, ?_, ?_, fun e he => ?_⟩
    · obtain ⟨j, hj, rfl⟩ := List.mem_map.mp hx
      exact h.reach_le hp hj
    · rw [if_neg (Nat.succ_ne_zero i), Nat.add_sub_cancel, hmap]
      exact hreach
    · rw [hfold, better]
      split_ifs
      · rfl
      · exact h.place
    · rw [hfold]
      rcases Nat.le_succ_iff.mp he with he | rfl
      · exact (h.longest e he).trans hsize.1
      · exact hreach ▸ hsize.2
  · -- no item of the row starts a run
    have hnone : p.starts i = [] :=
      List.eq_nil_iff_forall_not_mem.mpr fun j hj => hi (hp.self i j hj)
    have hblock : block p (i + 1) = 0 := if_neg hi
    rw [hnone]
    refine ⟨fun x hx => absurd hx List.not_mem_nil, hblock.symm, h.place, fun e he => ?_⟩
    rcases Nat.le_succ_iff.mp he with he | rfl
    · exact h.longest e he
    · rw [hblock]
      exact Nat.zero_le _

/-- Between equal texts the best run stands at one place in both. -/
theorem place_rows (hp : Mirrored p n) (m : Nat) (h : Level p i before best) :
    (rows p ⟨0, n, 0, n⟩ m i before best).left = (rows p ⟨0, n, 0, n⟩ m i before best).right := by
  induction m generalizing i before best with
  | zero => exact h.place
  | succ m ih =>
      rw [rows_succ, visited_full (hp.bound i)]
      exact ih (h.step hp)

/-- Between equal texts a run grows to the front. -/
theorem growLeft_mirrored (hp : Mirrored p n) {fuel place size : Nat} (hfuel : place ≤ fuel)
    (hplace : place + size ≤ n) :
    growLeft p ⟨0, n, 0, n⟩ fuel ⟨place, place, size⟩ = ⟨0, 0, size + place⟩ := by
  induction fuel generalizing place size with
  | zero =>
      obtain rfl := Nat.le_zero.mp hfuel
      rfl
  | succ fuel ih =>
      rw [growLeft]
      dsimp only
      cases place with
      | zero => rfl
      | succ place =>
          have hsame := hp.same place (by omega)
          rw [Nat.add_sub_cancel, hsame, if_pos (by simp), ih (by omega) (by omega)]
          congr 1
          omega

/-- Between equal texts a run grows to the end. -/
theorem growRight_mirrored (hp : Mirrored p n) {fuel size : Nat} (hfuel : n ≤ size + fuel)
    (hsize : size ≤ n) : growRight p ⟨0, n, 0, n⟩ fuel ⟨0, 0, size⟩ = ⟨0, 0, n⟩ := by
  induction fuel generalizing size with
  | zero =>
      obtain rfl : size = n := by omega
      rfl
  | succ fuel ih =>
      rw [growRight]
      dsimp only
      rw [Nat.zero_add]
      by_cases hlt : size < n
      · rw [hp.same size hlt, if_pos (by simpa using hlt)]
        exact ih (by omega) hlt
      · obtain rfl : size = n := by omega
        rw [if_neg (by simp)]

/-- Matching a sequence with itself finds the whole of it. -/
theorem longest_mirrored (hp : Mirrored p n) (hstarts : ∀ i, ∀ j ∈ p.starts i, p.same i j = true) :
    p.longest ⟨0, n, 0, n⟩ = ⟨0, 0, n⟩ := by
  have hlevel : Level p 0 [] ⟨0, 0, 0⟩ := by
    refine ⟨fun x hx => absurd hx List.not_mem_nil, rfl, rfl, fun e he => ?_⟩
    obtain rfl := Nat.le_zero.mp he
    exact Nat.zero_le _
  have hplace := place_rows hp n hlevel
  have hcommon : Common p ⟨0, n, 0, n⟩ (rows p ⟨0, n, 0, n⟩ n 0 [] ⟨0, 0, 0⟩) :=
    common_rows hstarts (fun x hx => absurd hx List.not_mem_nil) le_rfl (Nat.zero_add n).le
      ⟨le_rfl, le_rfl, Nat.zero_le _, Nat.zero_le _, fun t ht => absurd ht (Nat.not_lt_zero t)⟩
  unfold longest
  dsimp only
  rw [Nat.sub_zero]
  generalize rows p ⟨0, n, 0, n⟩ n 0 [] ⟨0, 0, 0⟩ = r at hplace hcommon ⊢
  obtain ⟨left, right, size⟩ := r
  obtain rfl : left = right := hplace
  have hbound : left + size ≤ n := hcommon.leftHi
  rw [growLeft_mirrored hp (by omega) hbound, growRight_mirrored hp (by omega) (by omega)]

end Equal

section Lists

variable {α : Type} [BEq α] [LawfulBEq α] {a b : List α}

omit [LawfulBEq α] in
theorem size_left_ofLists (a b : List α) : (ofLists a b).left.size = a.length := by
  simp [ofLists, number]

omit [LawfulBEq α] in
theorem size_right_ofLists (a b : List α) : (ofLists a b).right.size = b.length := by
  simp [ofLists, number]

omit [LawfulBEq α] in
theorem starts_of_none {i : Nat} (hi : a[i]? = none) : (ofLists a b).starts i = [] := by
  have hleft : (ofLists a b).left[i]? = none := by
    show (number (distinct b) a)[i]? = none
    rw [getElem?_number, hi]
    rfl
  rw [starts, hleft]
  rfl

/-- Where an item stands, by its number. -/
theorem mem_positions_number {x : α} {j : Nat} (hx : x ∈ b) :
    j ∈ positions (number (distinct b) b).toList ((distinct b).idxOf x) ↔ b[j]? = some x := by
  rw [mem_positions, number, List.toList_toArray, List.getElem?_map, Option.map_eq_some_iff]
  constructor
  · rintro ⟨y, hy, heq⟩
    rw [hy, (idxOf_eq_iff (List.mem_eraseDups.mpr hx)).mp heq]
  · exact fun hj => ⟨x, hj, rfl⟩

/-- What starts a run is the same in both sequences. -/
theorem same_of_mem_starts (a b : List α) : ∀ i, ∀ j ∈ (ofLists a b).starts i,
    (ofLists a b).same i j = true := by
  intro i j hj
  cases hi : a[i]? with
  | none =>
      rw [starts_of_none hi] at hj
      cases hj
  | some x =>
      rw [starts_ofLists hi] at hj
      split_ifs at hj
      · cases hj
      · rw [mem_positions, number, List.toList_toArray, List.getElem?_map,
          Option.map_eq_some_iff] at hj
        obtain ⟨y, hy, heq⟩ := hj
        have hmem : y ∈ distinct b := List.mem_eraseDups.mpr (List.mem_of_getElem? hy)
        rw [eq_comm, idxOf_eq_iff hmem] at heq
        exact (same_ofLists a b i j).mpr ⟨x, hi, heq ▸ hy⟩

/-- The items that start a run, for a sequence and itself. -/
theorem mirrored_ofLists (a : List α) : Mirrored (ofLists a a) a.length := by
  have hequal : ∀ i, ∀ j ∈ (ofLists a a).starts i, ∃ x, a[i]? = some x ∧ a[j]? = some x :=
    fun i j hj => (same_ofLists a a i j).mp (same_of_mem_starts a a i j hj)
  refine ⟨fun i => ?_, fun i j hj => ?_, fun i j hj => ?_, fun i j hj => ?_, fun i hi => ?_⟩
  · cases hi : a[i]? with
    | none =>
        rw [starts_of_none hi]
        exact List.Pairwise.nil
    | some x =>
        rw [starts_ofLists hi]
        split_ifs
        · exact List.Pairwise.nil
        · exact pairwise_positions _ _
  · obtain ⟨x, hi, -⟩ := hequal i j hj
    rw [starts_ofLists hi] at hj ⊢
    split_ifs at hj ⊢
    · cases hj
    · exact (mem_positions_number (List.mem_of_getElem? hi)).mpr hi
  · obtain ⟨x, hi, hj'⟩ := hequal i j hj
    rw [starts_ofLists hi, starts_ofLists hj']
  · obtain ⟨x, -, hj'⟩ := hequal i j hj
    exact (List.getElem?_eq_some_iff.mp hj').1
  · exact (same_ofLists a a i i).mpr ⟨a[i], List.getElem?_eq_getElem hi, List.getElem?_eq_getElem hi⟩

end Lists

end Pair

section Runs

open Pair

variable {α : Type} [BEq α] [LawfulBEq α]

/-- The runs of two lists are common and in order. -/
theorem chain_runs (a b : List α) :
    Chain (ofLists a b) a.length b.length 0 0 (runs a b) := by
  have h := Pair.chain_runs (same_of_mem_starts a b)
  rwa [size_left_ofLists, size_right_ofLists] at h

/-- A last item that both lists have and that stands nowhere else ends the last run. -/
theorem reachesEnd_runs {a b : List α} {x : α} (ha : x ∉ a) (hb : x ∉ b) :
    ReachesEnd (a.length + 1) (b.length + 1) (runs (a ++ [x]) (b ++ [x])) := by
  have hstarts := same_of_mem_starts (a ++ [x]) (b ++ [x])
  have hunique : ∀ {l : List α} {i : Nat}, x ∉ l → ((l ++ [x])[i]? = some x ↔ i = l.length) := by
    intro l i hl
    refine ⟨fun h => ?_, fun h => by rw [h, List.getElem?_concat_length]⟩
    rcases Nat.lt_trichotomy i l.length with hlt | heq | hgt
    · rw [List.getElem?_append_left hlt] at h
      exact absurd (List.mem_of_getElem? h) hl
    · exact heq
    · rw [List.getElem?_eq_none (by simp; omega)] at h
      cases h
  have htied : ∀ i j, (ofLists (a ++ [x]) (b ++ [x])).same i j = true →
      (i = a.length ↔ j = b.length) := by
    intro i j h
    obtain ⟨y, hi, hj⟩ := (same_ofLists _ _ i j).mp h
    rw [← hunique ha, ← hunique hb, hi, hj]
  have hlast : (ofLists (a ++ [x]) (b ++ [x])).starts a.length = [b.length] := by
    have hmem : x ∈ b ++ [x] := by simp
    have honly : positions (number (distinct (b ++ [x])) (b ++ [x])).toList
        ((distinct (b ++ [x])).idxOf x) = [b.length] := by
      have hall := fun j => (mem_positions_number (j := j) hmem).trans (hunique hb)
      have hsorted := pairwise_positions (number (distinct (b ++ [x])) (b ++ [x])).toList
        ((distinct (b ++ [x])).idxOf x)
      generalize positions _ _ = l at hall hsorted
      cases l with
      | nil => exact absurd ((hall b.length).mpr rfl) List.not_mem_nil
      | cons j l =>
          obtain rfl := (hall j).mp List.mem_cons_self
          cases l with
          | nil => rfl
          | cons j l =>
              obtain rfl := (hall j).mp (by simp)
              have hless := (List.pairwise_cons.mp hsorted).1 _ List.mem_cons_self
              exact absurd hless (Nat.lt_irrefl _)
    rw [starts_ofLists ((hunique ha).mpr rfl), isFrequent, honly]
    simp
  have hfuel : (a.length + 1) - 0 < a.length + 1 + 1 := Nat.lt_succ_self _
  have h := reachesEnd_runsIn (w := ⟨0, a.length + 1, 0, b.length + 1⟩) hstarts hlast htied
    (Nat.zero_le _) (Nat.zero_le _) rfl rfl hfuel
  unfold runs Pair.runs
  rw [size_left_ofLists, size_right_ofLists, List.length_append, List.length_append]
  exact h.joined

/-- A list and itself have one run, the whole list. -/
theorem runs_self {a : List α} (hne : a ≠ []) : runs a a = [⟨0, 0, a.length⟩] := by
  have hlongest := longest_mirrored (mirrored_ofLists a) (same_of_mem_starts a a)
  have hpos := List.length_pos_of_ne_nil hne
  unfold runs Pair.runs
  rw [size_left_ofLists, size_right_ofLists, runsIn]
  dsimp only
  rw [hlongest]
  dsimp only
  rw [if_neg (by omega), if_neg (by simp), if_neg (by simp)]
  rfl

end Runs

end Diff
end InstallerLint
