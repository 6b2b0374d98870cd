import InstallerLint.Diff.Unified
import InstallerLint.Proofs.Diff.Match
import Mathlib.Data.List.Flatten
import Mathlib.Tactic.SplitIfs

/-!
# Patches as edit scripts

**Segments.**  Common runs in order cut two texts into segments whose old lines are the first text and
whose new lines are the second (`olds_segments`, `news_segments`).

**Hunks.**  Hunks `Cut` two texts when between them stand equal lines and each hunk stands where it
says.  Cutting segments into hunks, shortening kept lines and leaving out hunks without changes keep
this (`cuts_hunks`).

**Order.**  What hunks show is what segments show with some lines left out (`sublist_hunks`).
-/

namespace InstallerLint
namespace Diff

/-- The old lines of segments. -/
def olds (segs : List Segment) : List Bytes := segs.flatMap Segment.old

/-- The new lines of segments. -/
def news (segs : List Segment) : List Bytes := segs.flatMap Segment.new

section Sides

variable (s : Segment) (segs segs' : List Segment)

@[simp] theorem olds_nil : olds [] = [] := rfl

@[simp] theorem news_nil : news [] = [] := rfl

@[simp] theorem olds_cons : olds (s :: segs) = s.old ++ olds segs := List.flatMap_cons

@[simp] theorem news_cons : news (s :: segs) = s.new ++ news segs := List.flatMap_cons

@[simp] theorem olds_append : olds (segs ++ segs') = olds segs ++ olds segs' := List.flatMap_append

@[simp] theorem news_append : news (segs ++ segs') = news segs ++ news segs' := List.flatMap_append

@[simp] theorem olds_keep (ls : List Bytes) : olds [.keep ls] = ls := List.append_nil ls

@[simp] theorem news_keep (ls : List Bytes) : news [.keep ls] = ls := List.append_nil ls

/-- Segments without changes have one text. -/
theorem olds_eq_news {segs : List Segment} (h : ∀ s ∈ segs, s.isKeep = true) :
    olds segs = news segs := by
  induction segs with
  | nil => rfl
  | cons s segs ih =>
      rw [olds_cons, news_cons, ih fun s' hs' => h s' (List.mem_cons_of_mem _ hs')]
      cases s with
      | keep ls => rfl
      | change old new => cases h _ List.mem_cons_self

end Sides

section Segments

open Pair

variable {a b : List Bytes} {i j : Nat} {l : List Run}

/-- A common run holds the same lines. -/
theorem take_drop_eq_of_same {left right : Nat} : ∀ {size : Nat},
    (∀ t < size, (ofLists a b).same (left + t) (right + t) = true) →
      (a.drop left).take size = (b.drop right).take size ∧ ((a.drop left).take size).length = size
  | 0, _ => by simp
  | size + 1, h => by
      obtain ⟨heq, hlen⟩ := take_drop_eq_of_same fun t ht => h t (Nat.lt_succ_of_lt ht)
      obtain ⟨x, hx, hy⟩ := (same_ofLists a b _ _).mp (h size (Nat.lt_succ_self size))
      rw [List.take_add_one, List.take_add_one, List.getElem?_drop, List.getElem?_drop, hx, hy, heq]
      refine ⟨rfl, ?_⟩
      rw [List.length_append, ← heq, hlen]
      rfl

/-- What stands between two runs. -/
def gap (old new : List Bytes) : List Segment :=
  if old.isEmpty && new.isEmpty then [] else [.change old new]

theorem sides_gap (old new : List Bytes) : olds (gap old new) = old ∧ news (gap old new) = new := by
  unfold gap
  split_ifs with hempty
  · rw [Bool.and_eq_true, List.isEmpty_iff, List.isEmpty_iff] at hempty
    rw [hempty.1, hempty.2]
    exact ⟨rfl, rfl⟩
  · simp [Segment.old, Segment.new]

/-- A change that stands between two runs is not empty on both sides. -/
theorem ne_nil_of_mem_gap {old new old' new' : List Bytes}
    (h : Segment.change old' new' ∈ gap old new) : ¬ (old' = [] ∧ new' = []) := by
  unfold gap at h
  split_ifs at h with hempty
  · cases h
  · obtain ⟨rfl, rfl⟩ := Segment.change.inj (List.mem_singleton.mp h)
    simpa using hempty

theorem segmentsFrom_nil (i j : Nat) (a b : List Bytes) : segmentsFrom i j a b [] = gap a b := rfl

theorem segmentsFrom_cons {r : Run} (hi : i ≤ r.left) (hj : j ≤ r.right) (a b : List Bytes)
    (rest : List Run) :
    segmentsFrom i j (a.drop i) (b.drop j) (r :: rest) =
      gap ((a.drop i).take (r.left - i)) ((b.drop j).take (r.right - j)) ++
        .keep ((a.drop r.left).take r.size) :: segmentsFrom (r.left + r.size) (r.right + r.size)
          (a.drop (r.left + r.size)) (b.drop (r.right + r.size)) rest := by
  have hleft : (a.drop i).drop (r.left - i) = a.drop r.left := by
    rw [List.drop_drop, Nat.add_sub_cancel' hi]
  have hright : (b.drop j).drop (r.right - j) = b.drop r.right := by
    rw [List.drop_drop, Nat.add_sub_cancel' hj]
  rw [segmentsFrom, hleft, hright, List.drop_drop, List.drop_drop]
  rfl

/-- Lines before a run, the run and the lines behind it. -/
theorem take_take_drop {left size : Nat} (hi : i ≤ left) (a : List Bytes) :
    (a.drop i).take (left - i) ++ ((a.drop left).take size ++ a.drop (left + size)) = a.drop i := by
  rw [← List.drop_drop, List.take_append_drop]
  have hdrop : (a.drop i).drop (left - i) = a.drop left := by
    rw [List.drop_drop, Nat.add_sub_cancel' hi]
  rw [← hdrop, List.take_append_drop]

/-- Segments around runs in order have the two texts as their sides. -/
theorem sides_segmentsFrom (h : Chain (ofLists a b) a.length b.length i j l) :
    olds (segmentsFrom i j (a.drop i) (b.drop j) l) = a.drop i ∧
      news (segmentsFrom i j (a.drop i) (b.drop j) l) = b.drop j := by
  induction h with
  | nil _ _ => exact sides_gap _ _
  | @cons i j r rest hi hj hpos hsame _ ih =>
      obtain ⟨hlines, -⟩ := take_drop_eq_of_same hsame
      rw [segmentsFrom_cons hi hj, olds_append, news_append, olds_cons, news_cons, ih.1, ih.2,
        (sides_gap _ _).1, (sides_gap _ _).2]
      refine ⟨take_take_drop hi a, ?_⟩
      rw [Segment.new, hlines]
      exact take_take_drop hj b

theorem olds_segments (a b : List Bytes) : olds (segments a b) = a :=
  (sides_segmentsFrom (chain_runs a b)).1

theorem news_segments (a b : List Bytes) : news (segments a b) = b :=
  (sides_segmentsFrom (chain_runs a b)).2

/-- No change is empty on both sides. -/
theorem change_ne_nil {a b old new : List Bytes}
    (h : Segment.change old new ∈ segmentsFrom i j a b l) : ¬ (old = [] ∧ new = []) := by
  induction l generalizing i j a b with
  | nil => exact ne_nil_of_mem_gap h
  | cons r rest ih =>
      rcases List.mem_append.mp h with h | h
      · exact ne_nil_of_mem_gap h
      · rcases List.mem_cons.mp h with h | h
        · cases h
        · exact ih h

/-- When the last run ends with both texts, the last lines are kept. -/
theorem exists_keep_last (h : Chain (ofLists a b) a.length b.length i j l)
    (hend : ReachesEnd a.length b.length l) :
    ∃ init ls, segmentsFrom i j (a.drop i) (b.drop j) l = init ++ [.keep ls] ∧ ls ≠ [] := by
  induction h with
  | nil _ _ =>
      obtain ⟨r, hr, -⟩ := hend
      cases hr
  | @cons i j r rest hi hj hpos hsame hrest ih =>
      obtain ⟨-, hlen⟩ := take_drop_eq_of_same hsame
      obtain ⟨last, hlast, hend⟩ := hend
      rw [segmentsFrom_cons hi hj]
      cases rest with
      | nil =>
          obtain rfl : r = last := Option.some.inj hlast
          rw [hend.1, hend.2, List.drop_length, List.drop_length]
          exact ⟨_, _, rfl, List.ne_nil_of_length_pos (hlen.symm ▸ hpos)⟩
      | cons s more =>
          rw [List.getLast?_cons_cons] at hlast
          obtain ⟨init, ls, hsegs, hne⟩ := ih ⟨last, hlast, hend⟩
          rw [hsegs, ← List.cons_append, ← List.append_assoc]
          exact ⟨_, ls, rfl, hne⟩

/-- A last line that both texts have and that stands nowhere else is kept. -/
theorem exists_keep_of_last {x : Bytes} (ha : x ∉ a) (hb : x ∉ b) :
    ∃ init ls, segments (a ++ [x]) (b ++ [x]) = init ++ [.keep ls] ∧ ls ≠ [] := by
  have hend := reachesEnd_runs ha hb
  refine exists_keep_last (chain_runs (a ++ [x]) (b ++ [x])) ?_
  rwa [List.length_append, List.length_append]

/-- A text and itself have no changes. -/
theorem isKeep_segments_self (a : List Bytes) : ∀ s ∈ segments a a, s.isKeep = true := by
  intro s hs
  by_cases hne : a = []
  · subst hne
    cases hs
  · rw [segments, runs_self hne] at hs
    simp [segmentsFrom] at hs
    obtain rfl := hs
    rfl

theorem segments_of_empty (h : a = [] ∨ b = []) :
    segments a b = gap a b := by
  have hnone : runs a b = [] := by
    have hchain := chain_runs a b
    generalize runs a b = l at hchain
    cases hchain with
    | nil _ _ => rfl
    | cons _ _ hpos hsame _ =>
        obtain ⟨x, hx, hy⟩ := (same_ofLists a b _ _).mp (hsame 0 hpos)
        rcases h with rfl | rfl
        · cases hx
        · cases hy
  rw [segments, hnone, segmentsFrom_nil]

end Segments

section Hunks

variable {i j n : Nat} {old new : List Bytes} {hs : List Hunk}

/-- Hunks stand in two texts where they say, and between them the texts are equal.  The numbers count
the lines that come before. -/
inductive Cuts : (i j : Nat) → (old new : List Bytes) → List Hunk → Prop where
  | done {i j : Nat} (equal : List Bytes) : Cuts i j equal equal []
  | hunk {i j : Nat} {old new : List Bytes} {hs : List Hunk} (equal : List Bytes) (h : Hunk)
      (hold : h.oldStart = i + equal.length) (hnew : h.newStart = j + equal.length)
      (hrest : Cuts (h.oldStart + (olds h.segments).length)
        (h.newStart + (news h.segments).length) old new hs) :
      Cuts i j (equal ++ (olds h.segments ++ old)) (equal ++ (news h.segments ++ new)) (h :: hs)

theorem Cuts.skip (equal : List Bytes) (h : Cuts (i + equal.length) (j + equal.length) old new hs) :
    Cuts i j (equal ++ old) (equal ++ new) hs := by
  cases h with
  | done more => exact .done _
  | hunk more h hold hnew hrest =>
      have hjoined := Cuts.hunk (i := i) (j := j) (equal ++ more) h
        (by rw [hold, List.length_append, Nat.add_assoc])
        (by rw [hnew, List.length_append, Nat.add_assoc]) hrest
      rwa [List.append_assoc, List.append_assoc] at hjoined

theorem Cuts.append (h : Cuts i j old new hs) (equal : List Bytes) :
    Cuts i j (old ++ equal) (new ++ equal) hs := by
  induction h with
  | done more => exact .done _
  | hunk more h hold hnew _ ih =>
      rw [List.append_assoc, List.append_assoc, List.append_assoc, List.append_assoc]
      exact .hunk more h hold hnew ih

/-- Whether a hunk changes something. -/
def Hunk.changes (h : Hunk) : Bool := h.segments.any fun s => !s.isKeep

/-- Hunks without changes may be left out. -/
theorem Cuts.filter (h : Cuts i j old new hs) : Cuts i j old new (hs.filter Hunk.changes) := by
  induction h with
  | done equal => exact .done equal
  | hunk equal h hold hnew _ ih =>
      -- a hunk without changes has the same lines on both sides, as if they stood between hunks
      cases hchanges : h.changes with
      | true =>
          rw [List.filter_cons_of_pos hchanges]
          exact .hunk equal h hold hnew ih
      | false =>
          have hkeep : ∀ s ∈ h.segments, s.isKeep = true := by
            intro s hs
            have hall := List.any_eq_false.mp hchanges s hs
            simpa using hall
          rw [List.filter_cons_of_neg (by simp [hchanges])]
          have hrest := Cuts.skip (olds h.segments) (by
            rw [← olds_eq_news hkeep] at ih
            exact ih)
          rw [hold, hnew] at hrest
          rw [← olds_eq_news hkeep]
          exact hrest.skip _

/-- Kept lines are the first ones, those that are skipped and the last ones. -/
theorem take_gap_drop {ls : List Bytes} (hlong : 2 * n < ls.length) :
    ls.take n ++ ((ls.drop n).take (ls.length - n - n) ++ ls.drop (ls.length - n)) = ls := by
  have hdrop : ls.drop (ls.length - n) = (ls.drop n).drop (ls.length - n - n) := by
    rw [List.drop_drop, Nat.add_sub_cancel' (by omega)]
  rw [hdrop, List.take_append_drop, List.take_append_drop]

/-- A hunk ends with the first of many kept lines, and the next one begins with the last ones. -/
theorem Cuts.close {h : Hunk} {ls : List Bytes} (hlong : 2 * n < ls.length)
    (hi : i = h.oldStart + (olds h.segments).length) (hj : j = h.newStart + (news h.segments).length)
    (hnext : Cuts (i + (ls.length - n)) (j + (ls.length - n)) (ls.drop (ls.length - n) ++ old)
      (ls.drop (ls.length - n) ++ new) hs) :
    Cuts h.oldStart h.newStart (olds h.segments ++ (ls ++ old)) (news h.segments ++ (ls ++ new))
      ({ h with segments := h.segments ++ [.keep (ls.take n)] } :: hs) := by
  have hjoin : ∀ more, ls.take n ++ ((ls.drop n).take (ls.length - n - n) ++
      (ls.drop (ls.length - n) ++ more)) = ls ++ more := by
    intro more
    rw [← List.append_assoc ((ls.drop n).take _), ← List.append_assoc, take_gap_drop hlong]
  have hgap : ∀ k, k + n + ((ls.drop n).take (ls.length - n - n)).length = k + (ls.length - n) := by
    intro k
    rw [List.length_take, List.length_drop]
    omega
  have htake : (ls.take n).length = n := by
    rw [List.length_take]
    omega
  have hskip := Cuts.skip (i := i + n) (j := j + n) ((ls.drop n).take (ls.length - n - n)) (by
    rw [hgap, hgap]
    exact hnext)
  have hcut := Cuts.hunk (i := h.oldStart) (j := h.newStart) []
    { h with segments := h.segments ++ [.keep (ls.take n)] } rfl rfl (by
      simp only [olds_append, news_append, olds_keep, news_keep, List.length_append, htake,
        ← Nat.add_assoc, ← hi, ← hj]
      exact hskip)
  simp only [olds_append, news_append, olds_keep, news_keep, List.nil_append, List.append_assoc]
    at hcut
  rwa [hjoin, hjoin] at hcut

/-- The hunks of segments behind a hunk that is still open. -/
theorem cuts_hunksFrom (n : Nat) (segs : List Segment) (h : Hunk)
    (hi : i = h.oldStart + (olds h.segments).length)
    (hj : j = h.newStart + (news h.segments).length) :
    Cuts h.oldStart h.newStart (olds h.segments ++ olds segs) (news h.segments ++ news segs)
      (hunksFrom n i j h segs) := by
  have hlast : ∀ h : Hunk, Cuts h.oldStart h.newStart (olds h.segments ++ [])
      (news h.segments ++ []) [h] := fun h => .hunk [] h rfl rfl (.done [])
  induction segs generalizing h i j with
  | nil => exact hlast h
  | cons s segs ih =>
      have hmore : ∀ i' j', i' = i + s.old.length → j' = j + s.new.length →
          Cuts h.oldStart h.newStart (olds h.segments ++ olds (s :: segs))
            (news h.segments ++ news (s :: segs))
            (hunksFrom n i' j' { h with segments := h.segments ++ [s] } segs) := by
        rintro i' j' rfl rfl
        have := ih (i := i + s.old.length) (j := j + s.new.length)
          { h with segments := h.segments ++ [s] } (by simp [hi]; omega) (by simp [hj]; omega)
        simpa using this
      cases s with
      | change old new => exact hmore _ _ rfl rfl
      | keep ls =>
          rw [hunksFrom]
          split_ifs with hlong
          · -- the open hunk ends, and the next one begins with the last kept lines
            have htail : ∀ k, k + ls.length =
                k + (ls.length - n) + (ls.drop (ls.length - n)).length := by
              intro k
              rw [List.length_drop]
              omega
            have hnext := ih (i := i + ls.length) (j := j + ls.length)
              ⟨i + (ls.length - n), j + (ls.length - n), [.keep (ls.drop (ls.length - n))]⟩
              (by rw [olds_keep]; exact htail i) (by rw [news_keep]; exact htail j)
            rw [olds_keep, news_keep] at hnext
            exact hnext.close hlong hi hj
          · exact hmore _ _ rfl rfl

/-- Shortening kept lines at the end takes the same lines from both sides. -/
theorem sides_trimEnd (n : Nat) (segs : List Segment) :
    ∃ equal, olds segs = olds (trimEnd n segs) ++ equal ∧
      news segs = news (trimEnd n segs) ++ equal := by
  induction segs with
  | nil => exact ⟨[], rfl, rfl⟩
  | cons s segs ih =>
      obtain ⟨equal, hold, hnew⟩ := ih
      have hmore : ∃ equal, olds (s :: segs) = olds (s :: trimEnd n segs) ++ equal ∧
          news (s :: segs) = news (s :: trimEnd n segs) ++ equal :=
        ⟨equal, by rw [olds_cons, olds_cons, hold, List.append_assoc],
          by rw [news_cons, news_cons, hnew, List.append_assoc]⟩
      cases segs with
      | cons s' segs => cases s <;> exact hmore
      | nil =>
          cases s with
          | change old new => exact hmore
          | keep ls => exact ⟨ls.drop n, by simp [trimEnd, Segment.old], by simp [trimEnd, Segment.new]⟩

theorem cuts_trimEnd (n i : Nat) (segs : List Segment) :
    Cuts i i (olds segs) (news segs) (hunksFrom n i i ⟨i, i, []⟩ (trimEnd n segs)) := by
  obtain ⟨equal, hold, hnew⟩ := sides_trimEnd n segs
  rw [hold, hnew]
  exact (cuts_hunksFrom n (trimEnd n segs) ⟨i, i, []⟩ rfl rfl).append equal

/-- **The hunks of segments stand where they say.** -/
theorem cuts_hunks (n : Nat) (segs : List Segment) :
    Cuts 0 0 (olds segs) (news segs) (hunks n segs) := by
  refine Cuts.filter ?_
  split
  · next ls rest =>
    have hlines : ls = ls.take (ls.length - n) ++ ls.drop (ls.length - n) :=
      (List.take_append_drop _ _).symm
    have hlen : (ls.take (ls.length - n)).length = ls.length - n := by
      rw [List.length_take]
      omega
    have hcut := cuts_trimEnd n (ls.length - n) (.keep (ls.drop (ls.length - n)) :: rest)
    have hskip := Cuts.skip (i := 0) (j := 0) (ls.take (ls.length - n)) (by
      rw [hlen, Nat.zero_add]
      exact hcut)
    simp only [olds_cons, news_cons, Segment.old, Segment.new] at hskip ⊢
    rw [← List.append_assoc, ← List.append_assoc, ← hlines] at hskip
    exact hskip
  · exact cuts_trimEnd n 0 segs

/-- The lines of a segment as they are shown, each with its sign. -/
def Segment.lines : Segment → List Bytes
  | .keep ls => ls.map (0x20 :: ·)
  | .change old new => old.map (0x2D :: ·) ++ new.map (0x2B :: ·)

/-- The lines of segments as they are shown. -/
def shown (segs : List Segment) : List Bytes := segs.flatMap Segment.lines

theorem shown_cons (s : Segment) (segs : List Segment) : shown (s :: segs) = s.lines ++ shown segs :=
  List.flatMap_cons

theorem shown_append (segs segs' : List Segment) : shown (segs ++ segs') = shown segs ++ shown segs' :=
  List.flatMap_append

theorem sublist_hunksFrom (n : Nat) (segs : List Segment) (h : Hunk) :
    ((hunksFrom n i j h segs).flatMap fun h => shown h.segments).Sublist
      (shown h.segments ++ shown segs) := by
  induction segs generalizing h i j with
  | nil =>
      rw [hunksFrom, List.flatMap_singleton]
      exact List.sublist_append_left _ _
  | cons s segs ih =>
      have hmore : ∀ i' j', ((hunksFrom n i' j' { h with segments := h.segments ++ [s] } segs).flatMap
          fun h => shown h.segments).Sublist (shown h.segments ++ shown (s :: segs)) := by
        intro i' j'
        have := ih (i := i') (j := j') { h with segments := h.segments ++ [s] }
        rwa [shown_append, List.append_assoc, ← shown_append] at this
      cases s with
      | change old new => exact hmore _ _
      | keep ls =>
          rw [hunksFrom]
          split_ifs with hlong
          · have hnext := ih (i := i + ls.length) (j := j + ls.length)
              ⟨i + (ls.length - n), j + (ls.length - n), [.keep (ls.drop (ls.length - n))]⟩
            have hkept : (ls.take n ++ ls.drop (ls.length - n)).Sublist ls := by
              have hboth := (List.Sublist.refl (ls.take n)).append (List.sublist_append_right
                ((ls.drop n).take (ls.length - n - n)) (ls.drop (ls.length - n)))
              rwa [take_gap_drop hlong] at hboth
            have hlines := (hkept.map (0x20 :: ·)).append (List.Sublist.refl (shown segs))
            rw [List.map_append] at hlines
            have hall := (List.Sublist.refl (shown h.segments ++ (ls.take n).map (0x20 :: ·))).append
              hnext
            refine List.Sublist.trans ?_
              ((List.Sublist.refl (shown h.segments)).append hlines)
            simpa [shown, lastLines, Segment.lines, List.append_assoc] using hall
          · exact hmore _ _

theorem sublist_trimEnd (n : Nat) (segs : List Segment) :
    (shown (trimEnd n segs)).Sublist (shown segs) := by
  induction segs with
  | nil => exact List.Sublist.refl _
  | cons s segs ih =>
      have hmore : (shown (s :: trimEnd n segs)).Sublist (shown (s :: segs)) :=
        (List.Sublist.refl s.lines).append ih
      cases segs with
      | cons s' segs => cases s <;> exact hmore
      | nil =>
          cases s with
          | change old new => exact hmore
          | keep ls =>
              exact ((List.take_sublist n ls).map (0x20 :: ·)).append (List.Sublist.refl [])

/-- Hunks show lines of the segments in order. -/
theorem sublist_hunks (n : Nat) (segs : List Segment) :
    ((hunks n segs).flatMap fun h => shown h.segments).Sublist (shown segs) := by
  refine (List.filter_sublist.flatMap _).trans ?_
  split
  · next ls rest =>
    refine (sublist_hunksFrom n _ _).trans ((sublist_trimEnd n _).trans ?_)
    exact ((List.drop_sublist _ ls).map (0x20 :: ·)).append (List.Sublist.refl (shown rest))
  · exact (sublist_hunksFrom n _ _).trans (sublist_trimEnd n segs)

theorem mem_of_mem_hunksFrom {segs : List Segment} {h h' : Hunk} {s : Segment}
    (hh : h' ∈ hunksFrom n i j h segs) (hs : s ∈ h'.segments) (hchange : s.isKeep = false) :
    s ∈ h.segments ∨ s ∈ segs := by
  induction segs generalizing h i j with
  | nil =>
      obtain rfl := List.mem_singleton.mp hh
      exact Or.inl hs
  | cons s' segs ih =>
      have hmore : ∀ i' j', h' ∈ hunksFrom n i' j' { h with segments := h.segments ++ [s'] } segs →
          s ∈ h.segments ∨ s ∈ s' :: segs := by
        intro i' j' hh
        rcases ih hh with hfront | hback
        · rcases List.mem_append.mp hfront with hfront | hlast
          · exact Or.inl hfront
          · exact Or.inr (List.mem_singleton.mp hlast ▸ List.mem_cons_self)
        · exact Or.inr (List.mem_cons_of_mem _ hback)
      cases s' with
      | change old new => exact hmore _ _ hh
      | keep ls =>
          rw [hunksFrom] at hh
          split_ifs at hh with hlong
          · rcases List.mem_cons.mp hh with rfl | hh
            · rcases List.mem_append.mp hs with hs | hs
              · exact Or.inl hs
              · rw [List.mem_singleton.mp hs] at hchange
                cases hchange
            · rcases ih hh with hs | hs
              · rw [List.mem_singleton.mp hs] at hchange
                cases hchange
              · exact Or.inr (List.mem_cons_of_mem _ hs)
          · exact hmore _ _ hh

theorem mem_of_mem_trimEnd {segs : List Segment} {s : Segment} (hs : s ∈ trimEnd n segs)
    (hchange : s.isKeep = false) : s ∈ segs := by
  induction segs with
  | nil => exact hs
  | cons s' segs ih =>
      have hmore : s ∈ s' :: trimEnd n segs → s ∈ s' :: segs := fun hs =>
        (List.mem_cons.mp hs).elim (fun h => h ▸ List.mem_cons_self)
          fun h => List.mem_cons_of_mem _ (ih h)
      cases segs with
      | cons s'' segs => cases s' <;> exact hmore hs
      | nil =>
          cases s' with
          | change old new => exact hmore hs
          | keep ls =>
              rw [List.mem_singleton.mp hs] at hchange
              cases hchange

/-- Every hunk shows a change of the segments. -/
theorem exists_change_of_mem_hunks {segs : List Segment} {h : Hunk} (hh : h ∈ hunks n segs) :
    ∃ s ∈ h.segments, s.isKeep = false ∧ s ∈ segs := by
  obtain ⟨hh, hchanges⟩ := List.mem_filter.mp hh
  obtain ⟨s, hs, hchange⟩ := List.any_eq_true.mp hchanges
  rw [Bool.not_eq_true'] at hchange
  refine ⟨s, hs, hchange, ?_⟩
  split at hh
  · next ls rest =>
    have hmem := (mem_of_mem_hunksFrom hh hs hchange).resolve_left List.not_mem_nil
    rcases List.mem_cons.mp (mem_of_mem_trimEnd hmem hchange) with rfl | hrest
    · cases hchange
    · exact List.mem_cons_of_mem _ hrest
  · exact mem_of_mem_trimEnd ((mem_of_mem_hunksFrom hh hs hchange).resolve_left List.not_mem_nil)
      hchange

end Hunks

end Diff
end InstallerLint
