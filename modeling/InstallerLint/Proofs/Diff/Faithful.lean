import InstallerLint.Proofs.Diff.Reading
import InstallerLint.Proofs.Text.LineEnds

/-!
# Patches that say what changes

A patch is empty exactly when the texts are equal; otherwise it has two lines with the names and then
hunks.

**Last lines.**  Lines are written with the line feeds that they have, and the last line of a text has
none.  When both texts end with the same line, it is kept and written last (`standing_of_same`);
when one of the texts is empty, the last line of the other one is written last.  Then the lines of the
patch stand as they were written (`standing_lines`), and applied to the old text it gives the new one.

**Glued lines.**  Otherwise the last line of the old text is removed and lines of the new text are
written right behind it, so the patch removes a line that the old text does not have (`read_glued`).
-/

namespace InstallerLint
namespace Diff

open Lines (Full Standing physical)

/-- Applies a patch with two lines of names to the lines of a text. -/
def applied (body : Bytes) (old : List Bytes) : Option (List Bytes) :=
  match physical body with
  | first :: second :: lines =>
    if first.startsWith (Bytes.ofString "--- ") ∧ second.startsWith (Bytes.ofString "+++ ") then
      (lines.foldlM Cursor.read ⟨0, [], old, 0, 0⟩).bind Cursor.finish
    else none
  | _ => none

section Written

variable {h : Hunk} {hs : List Hunk}

theorem full_headline (old new : Range) : Full (headline old new) := by
  have hrange : ∀ r : Range, '\n' ∉ (rangeText r.before r.size).toList := by
    intro r hc
    rcases mem_rangeText hc with hdigit | hcomma
    · exact absurd hdigit (by decide)
    · exact absurd hcomma (by decide)
  have hfull := Lines.full_ofString (s := "@@ -" ++ rangeText old.before old.size ++ " +" ++
    rangeText new.before new.size ++ " @@") (by simp [hrange])
  rw [String.append_assoc] at hfull
  exact hfull

theorem total_length (f : Segment → List Bytes) (segs : List Segment) :
    Numbers.total (segs.map fun s => (f s).length) = (segs.flatMap f).length := by
  induction segs with
  | nil => rfl
  | cons s segs ih => rw [List.map_cons, Numbers.total, ih, List.flatMap_cons, List.length_append]

theorem flatten_lines (s : Segment) : s.lines.flatten = s.body := by
  cases s with
  | keep ls => rfl
  | change old new => exact List.flatten_append

/-- The lines of a hunk make up its body. -/
theorem Hunk.flatten_lines (h : Hunk) : h.lines.flatten = h.body := by
  have hshown : (shown h.segments).flatten = h.segments.flatMap (·.body) := by
    induction h.segments with
    | nil => rfl
    | cons s segs ih =>
        rw [shown_cons, List.flatten_append, ih, Diff.flatten_lines, List.flatMap_cons]
  rw [Hunk.lines, List.flatten_cons, hshown]
  unfold Hunk.body headline
  rw [total_length Segment.old, total_length Segment.new]
  rfl

theorem flatten_hunks (hs : List Hunk) : (hs.flatMap Hunk.lines).flatten = hs.flatMap (·.body) := by
  induction hs with
  | nil => rfl
  | cons h hs ih =>
      rw [List.flatMap_cons, List.flatten_append, ih, Hunk.flatten_lines, List.flatMap_cons]

/-- Lines of hunks stand as they are when the lines that they show do. -/
theorem standing_lines (hne : ∀ h ∈ hs, shown h.segments ≠ [])
    (h : Standing (hs.flatMap fun h => shown h.segments)) : Standing (hs.flatMap Hunk.lines) := by
  induction hs with
  | nil => exact .full (by simp)
  | cons hunk hs ih =>
      have hhead : ∀ ls, (∀ l ∈ ls, Full l) →
          ∀ l ∈ headline ⟨hunk.oldStart, (olds hunk.segments).length⟩
            ⟨hunk.newStart, (news hunk.segments).length⟩ :: ls, Full l := by
        intro ls h l hl
        rcases List.mem_cons.mp hl with rfl | hl
        · exact full_headline _ _
        · exact h l hl
      rw [List.flatMap_cons] at h ⊢
      cases hs with
      | nil =>
          rw [List.flatMap_nil, List.append_nil] at h ⊢
          exact h.append (hhead [] (by simp))
      | cons next hs =>
          have hrest : (List.flatMap (fun h => shown h.segments) (next :: hs)) ≠ [] := by
            rw [List.flatMap_cons]
            exact List.append_ne_nil_of_left_ne_nil (hne next (by simp)) _
          -- only the last hunk may show a line without its line feed
          have hfull := h.full_of_append hrest
          exact (ih (fun h hh => hne h (List.mem_cons_of_mem _ hh))
            (h.sublist (List.sublist_append_right _ _))).append (hhead _ hfull)

theorem shown_ne_nil {segs : List Segment} {old new : List Bytes}
    (hs : Segment.change old new ∈ segs) (hne : ¬ (old = [] ∧ new = [])) : shown segs ≠ [] := by
  intro hnil
  have hlines := List.flatMap_eq_nil_iff.mp hnil _ hs
  rw [Segment.lines, List.append_eq_nil_iff, List.map_eq_nil_iff, List.map_eq_nil_iff] at hlines
  exact hne hlines

/-- Between texts of full lines every line of a patch is full. -/
theorem full_of_mem_shown {segs : List Segment} (hold : ∀ l ∈ olds segs, Full l)
    (hnew : ∀ l ∈ news segs, Full l) : ∀ l ∈ shown segs, Full l := by
  have hsigned : ∀ {ls : List Bytes} (sign : UInt8), sign ≠ 0x0A → (∀ l ∈ ls, Full l) →
      ∀ l ∈ ls.map (sign :: ·), Full l := by
    intro ls sign hsign h l hl
    obtain ⟨l', hl', rfl⟩ := List.mem_map.mp hl
    exact (h l' hl').cons hsign
  intro l hl
  obtain ⟨s, hs, hl⟩ := List.mem_flatMap.mp hl
  have hsold : ∀ l ∈ s.old, Full l := fun l hl => hold l (List.mem_flatMap.mpr ⟨s, hs, hl⟩)
  have hsnew : ∀ l ∈ s.new, Full l := fun l hl => hnew l (List.mem_flatMap.mpr ⟨s, hs, hl⟩)
  cases s with
  | keep ls => exact hsigned 0x20 (by decide) hsold l hl
  | change old new =>
      exact (List.mem_append.mp hl).elim (hsigned 0x2D (by decide) hsold l)
        (hsigned 0x2B (by decide) hsnew l)

end Written

section Ends

variable {a b : List Bytes} {x y : Bytes}

theorem not_mem_of_full (ha : ∀ l ∈ a, Full l) (hx : 0x0A ∉ x) : x ∉ a :=
  fun hmem => hx (ha x hmem).mem

/-- Segments that show one more line at the end. -/
theorem standing_shown {segs : List Segment} (segs' : List Segment) {sign : UInt8} (hsign : 0x0A ≠ sign)
    (hx : 0x0A ∉ x) (hshown : shown segs = shown segs' ++ [sign :: x])
    (hold : ∀ l ∈ olds segs', Full l) (hnew : ∀ l ∈ news segs', Full l) : Standing (shown segs) := by
  rw [hshown]
  exact .last (full_of_mem_shown hold hnew) (by simp [hx, hsign]) (List.cons_ne_nil _ _)

/-- When both texts end with the same line, it is shown last. -/
theorem standing_of_same (ha : ∀ l ∈ a, Full l) (hb : ∀ l ∈ b, Full l) (hx : 0x0A ∉ x) :
    Standing (shown (segments (a ++ [x]) (b ++ [x]))) := by
  obtain ⟨init, ls, hsegs, hne⟩ :=
    exists_keep_of_last (not_mem_of_full ha hx) (not_mem_of_full hb hx)
  have hold := olds_segments (a ++ [x]) (b ++ [x])
  have hnew := news_segments (a ++ [x]) (b ++ [x])
  -- the last kept line is the last one of both texts
  obtain ⟨ls, y, rfl⟩ := (List.eq_nil_or_concat ls).resolve_left hne
  simp only [hsegs, olds_append, news_append, olds_cons, news_cons, olds_nil, news_nil, Segment.old,
    Segment.new, List.append_nil, List.concat_eq_append, ← List.append_assoc,
    List.append_singleton_inj] at hold hnew
  obtain ⟨hold, rfl⟩ := hold
  have hsign : (0x0A : UInt8) ≠ 0x20 := by decide
  refine standing_shown (init ++ [.keep ls]) hsign hx ?_ ?_ ?_
  · simp [hsegs, shown, Segment.lines]
  · simpa [Segment.old, hold] using ha
  · simpa [Segment.new, hnew.1] using hb

/-- When one text is empty, the last line of the other one is shown last. -/
theorem standing_of_empty (ha : ∀ l ∈ a, Full l) (hx : 0x0A ∉ x) :
    Standing (shown (segments [] (a ++ [x]))) ∧ Standing (shown (segments (a ++ [x]) [])) := by
  rw [segments_of_empty (Or.inl rfl), segments_of_empty (Or.inr rfl)]
  have hplus : (0x0A : UInt8) ≠ 0x2B := by decide
  have hminus : (0x0A : UInt8) ≠ 0x2D := by decide
  constructor
  · refine standing_shown [.change [] a] hplus hx ?_ ?_ ?_
    · simp [gap, shown, Segment.lines]
    · simp [Segment.old]
    · simpa [Segment.new] using ha
  · refine standing_shown [.change a []] hminus hx ?_ ?_ ?_
    · simp [gap, shown, Segment.lines]
    · simpa [Segment.old] using ha
    · simp [Segment.new]

/-- An item that stands in another list, which ends with `y`, is before the end of `a ++ [x]`. -/
theorem lt_of_getElem?_concat {i : Nat} {z : Bytes} (hz : (a ++ [x])[i]? = some z)
    (hz' : z ∈ b ++ [y]) (hxb : x ∉ b) (hxy : x ≠ y) : i < a.length := by
  by_contra hle
  have hlt := (List.getElem?_eq_some_iff.mp hz).1
  rw [List.length_append, List.length_singleton] at hlt
  have hlast : i = a.length := by omega
  rw [hlast, List.getElem?_concat_length] at hz
  obtain rfl := Option.some.inj hz
  exact (List.mem_append.mp hz').elim hxb fun h => hxy (List.mem_singleton.mp h)

/-- When the last lines differ and none is a line of the other text, both are changed last. -/
theorem exists_change_last {i j : Nat} {l : List Run} (hxy : x ≠ y) (hxb : x ∉ b) (hya : y ∉ a)
    (h : Pair.Chain (Pair.ofLists (a ++ [x]) (b ++ [y])) (a ++ [x]).length (b ++ [y]).length i j l)
    (hi : i ≤ a.length) (hj : j ≤ b.length) :
    ∃ init old new, segmentsFrom i j ((a ++ [x]).drop i) ((b ++ [y]).drop j) l =
      init ++ [.change (old ++ [x]) (new ++ [y])] := by
  induction h with
  | @nil i j _ _ =>
      refine ⟨[], a.drop i, b.drop j, ?_⟩
      rw [segmentsFrom_nil, List.drop_append_of_le_length hi, List.drop_append_of_le_length hj]
      simp [gap]
  | @cons i j r rest hi' hj' hpos hsame _ ih =>
      -- a run that goes on to the end of one text finds its last line in the other one
      obtain ⟨z, hz, hz'⟩ := (Pair.same_ofLists _ _ _ _).mp (hsame (r.size - 1) (by omega))
      have hleft := lt_of_getElem?_concat hz (List.mem_of_getElem? hz') hxb hxy
      have hright := lt_of_getElem?_concat hz' (List.mem_of_getElem? hz) hya hxy.symm
      obtain ⟨init, old, new, hsegs⟩ := ih (by omega) (by omega)
      rw [segmentsFrom_cons hi' hj', hsegs, ← List.cons_append, ← List.append_assoc]
      exact ⟨_, old, new, rfl⟩

theorem exists_change_of_last (ha : ∀ l ∈ a, Full l) (hb : ∀ l ∈ b, Full l) (hx : 0x0A ∉ x)
    (hy : 0x0A ∉ y) (hxy : x ≠ y) :
    ∃ init old new, segments (a ++ [x]) (b ++ [y]) =
      init ++ [.change (old ++ [x]) (new ++ [y])] :=
  exists_change_last hxy (not_mem_of_full hb hx) (not_mem_of_full ha hy)
    (chain_runs _ _) (Nat.zero_le _) (Nat.zero_le _)

end Ends

section Glued

variable {n : Nat} {old new : List Bytes}

/-- A change at the end is shown at the end of the last hunk. -/
theorem exists_hunksFrom_last (n i j : Nat) (h : Hunk) (init : List Segment) :
    ∃ hs last front, hunksFrom n i j h (init ++ [.change old new]) = hs ++ [last] ∧
      last.segments = front ++ [.change old new] := by
  induction init generalizing h i j with
  | nil => exact ⟨[], _, h.segments, rfl, rfl⟩
  | cons s init ih =>
      cases s with
      | change old' new' => exact ih _ _ _
      | keep ls =>
          rw [List.cons_append, hunksFrom]
          split_ifs with hlong
          · obtain ⟨hs, last, front, heq, hlast⟩ := ih (i + ls.length) (j + ls.length)
              ⟨i + (ls.length - n), j + (ls.length - n), [.keep (ls.drop (ls.length - n))]⟩
            exact ⟨_ :: hs, last, front, congrArg (List.cons _) heq, hlast⟩
          · exact ih _ _ _

theorem trimEnd_append_change (n : Nat) (init : List Segment) :
    trimEnd n (init ++ [.change old new]) = init ++ [.change old new] := by
  induction init with
  | nil => rfl
  | cons s init ih =>
      have hne : init ++ [.change old new] ≠ [] := by simp
      obtain ⟨s', rest, heq⟩ := List.exists_cons_of_ne_nil hne
      rw [heq] at ih
      rw [List.cons_append, heq]
      cases s with
      | keep ls => exact congrArg (List.cons _) ih
      | change old' new' => exact congrArg (List.cons _) ih

/-- The last hunk ends with the last change. -/
theorem exists_hunks_last (n : Nat) (init : List Segment) (old new : List Bytes) :
    ∃ hs last front, hunks n (init ++ [.change old new]) = hs ++ [last] ∧
      last.segments = front ++ [.change old new] := by
  have hfilter : ∀ {all : List Hunk}, (∃ hs last front, all = hs ++ [last] ∧
      last.segments = front ++ [.change old new]) →
      ∃ hs last front, all.filter Hunk.changes = hs ++ [last] ∧
        last.segments = front ++ [.change old new] := by
    rintro all ⟨hs, last, front, rfl, hlast⟩
    refine ⟨hs.filter Hunk.changes, last, front, ?_, hlast⟩
    rw [List.filter_append, List.filter_cons_of_pos (by simp [Hunk.changes, hlast, Segment.isKeep]),
      List.filter_nil]
  have hall : ∀ segs : List Segment, (∃ init, segs = init ++ [.change old new]) → ∀ k,
      ∃ hs last front, hunksFrom n k k ⟨k, k, []⟩ (trimEnd n segs) = hs ++ [last] ∧
        last.segments = front ++ [.change old new] := by
    rintro segs ⟨init, rfl⟩ k
    rw [trimEnd_append_change]
    exact exists_hunksFrom_last n k k _ init
  refine hfilter ?_
  split
  · next ls rest hsegs =>
    refine hall _ ?_ _
    cases init with
    | nil => cases hsegs
    | cons s init =>
        obtain ⟨-, rfl⟩ := List.cons.inj hsegs
        exact ⟨_ :: init, rfl⟩
  · exact hall _ ⟨init, rfl⟩ 0

/-- What is written before a line without a line feed that is removed in the last hunk. -/
def beforeLast (hs : List Hunk) (last : Hunk) (front : List Segment) (old : List Bytes) :
    List Bytes :=
  hs.flatMap Hunk.lines ++ headline ⟨last.oldStart, (olds last.segments).length⟩
    ⟨last.newStart, (news last.segments).length⟩ :: shown (front ++ [.change old []])

/-- **A line that is glued to the next one is not a line of the old text.** -/
theorem read_glued {hs : List Hunk} {last : Hunk} {front : List Segment} {a b : List Bytes}
    {x more : Bytes} {rest : List Bytes} (hcuts : Cuts 0 0 a b (hs ++ [last]))
    (hlast : last.segments = front ++ [.change (old ++ [x]) new]) (hmore : more ≠ []) :
    (beforeLast hs last front old ++ (0x2D :: x ++ more) :: rest).foldlM Cursor.read
      ⟨0, [], a, 0, 0⟩ = none := by
  have hall : Cuts 0 ([] : List Bytes).length a b (hs ++ [last]) := hcuts
  obtain ⟨taken, written, old', new', hread, hcuts, -⟩ :=
    exists_read_hunks hs [last] hall
  cases hcuts with
  | @hunk _ _ old' new' _ equal _ hold hnew _ =>
      have holds : olds last.segments = olds (front ++ [.change old []]) ++ [x] := by
        simp [hlast, Segment.old]
      have hnews : (news last.segments).length =
          (news (front ++ [.change old []])).length + new.length := by
        simp [hlast, Segment.new]
      -- the old text goes on with `x`, and the line that is removed is longer
      have hglued : ∀ (taken : Nat) (written : List Bytes), Cursor.read
          ⟨taken, written, [x] ++ old', [x].length, new.length⟩ (0x2D :: x ++ more) = none := by
        intro taken written
        simp [Cursor.read, Cursor.take, hmore]
      rw [beforeLast, List.append_assoc, read_append hread, List.cons_append,
        read_cons (read_headline _ _ hold hnew)]
      dsimp only
      rw [hnews, holds, List.append_assoc, List.length_append, read_append (read_segments _),
        List.foldlM_cons, hglued]
      rfl

theorem full_beforeLast {a b : List Bytes} {x y : Bytes} {init front : List Segment} {hs : List Hunk}
    {last : Hunk} (ha : ∀ l ∈ a, Full l) (hb : ∀ l ∈ b, Full l)
    (hsegs : segments (a ++ [x]) (b ++ [y]) = init ++ [.change (old ++ [x]) (new ++ [y])])
    (hhunks : hunks n (segments (a ++ [x]) (b ++ [y])) = hs ++ [last])
    (hlast : last.segments = front ++ [.change (old ++ [x]) (new ++ [y])]) :
    ∀ l ∈ beforeLast hs last front old, Full l := by
  have hold := olds_segments (a ++ [x]) (b ++ [y])
  have hnew := news_segments (a ++ [x]) (b ++ [y])
  rw [hsegs, olds_append, olds_cons, olds_nil, List.append_nil, Segment.old, ← List.append_assoc,
    List.append_singleton_inj] at hold
  rw [hsegs, news_append, news_cons, news_nil, List.append_nil, Segment.new, ← List.append_assoc,
    List.append_singleton_inj] at hnew
  have hcut : ∀ segs : List Segment, shown (segs ++ [.change (old ++ [x]) (new ++ [y])]) =
      shown (segs ++ [.change old []]) ++ (0x2D :: x) :: (new ++ [y]).map (0x2B :: ·) := by
    intro segs
    simp [shown, Segment.lines]
  have hfull : ∀ l ∈ shown (init ++ [.change old []]), Full l := by
    refine full_of_mem_shown (fun l hl => ha l ?_) (fun l hl => hb l ?_)
    · simpa [← hold.1, Segment.old] using hl
    · rw [← hnew.1]
      exact List.mem_append_left _ (by simpa [Segment.new] using hl)
  have hsub : (hs.flatMap (fun h => shown h.segments) ++ shown (front ++ [.change old []])).Sublist
      (shown (init ++ [.change old []])) := by
    -- both lists end with the last change, whose lines cancel from the glued one on
    have hall := sublist_hunks n (segments (a ++ [x]) (b ++ [y]))
    rw [hhunks, hsegs, List.flatMap_append, List.flatMap_singleton, hlast, hcut, hcut,
      ← List.append_assoc] at hall
    exact (List.append_sublist_append_right _).mp hall
  intro l hl
  rcases List.mem_append.mp hl with hl | hl
  · obtain ⟨h, hh, hl⟩ := List.mem_flatMap.mp hl
    rcases List.mem_cons.mp hl with rfl | hl
    · exact full_headline _ _
    · exact hfull l (hsub.subset (List.mem_append_left _ (List.mem_flatMap.mpr ⟨h, hh, hl⟩)))
  · rcases List.mem_cons.mp hl with rfl | hl
    · exact full_headline _ _
    · exact hfull l (hsub.subset (List.mem_append_right _ hl))

end Glued

section Patches

variable {aName bName : String} {a b : List Bytes} {x y : Bytes}

/-- Applies hunks, as they are written, to the lines of a text. -/
def readHunks (hs : List Hunk) (old : List Bytes) : Option (List Bytes) :=
  ((physical (hs.flatMap (·.body))).foldlM Cursor.read ⟨0, [], old, 0, 0⟩).bind Cursor.finish

/-- There are no hunks exactly when the texts are equal. -/
theorem hunks_eq_nil_iff (n : Nat) (a b : List Bytes) : hunks n (segments a b) = [] ↔ a = b := by
  constructor
  · intro hnil
    have hcuts := cuts_hunks n (segments a b)
    rw [olds_segments, news_segments, hnil] at hcuts
    cases hcuts with
    | done _ => rfl
  · rintro rfl
    by_contra hne
    obtain ⟨h, hh⟩ := List.exists_mem_of_ne_nil _ hne
    obtain ⟨s, -, hchange, hs⟩ := exists_change_of_mem_hunks hh
    rw [isKeep_segments_self a s hs] at hchange
    cases hchange

theorem shown_hunk_ne_nil {n : Nat} {h : Hunk} (hh : h ∈ hunks n (segments a b)) :
    shown h.segments ≠ [] := by
  obtain ⟨s, hs, hchange, hmem⟩ := exists_change_of_mem_hunks hh
  cases s with
  | keep ls => cases hchange
  | change old new => exact shown_ne_nil hs (change_ne_nil hmem)

/-- Hunks whose lines stand as they are lead from the old text to the new one. -/
theorem readHunks_of_standing (n : Nat) (h : Standing (shown (segments a b))) :
    readHunks (hunks n (segments a b)) a = some b := by
  have hlines := standing_lines (fun _ => shown_hunk_ne_nil) (h.sublist (sublist_hunks n _))
  have hcuts := cuts_hunks n (segments a b)
  rw [olds_segments, news_segments] at hcuts
  rw [readHunks, ← flatten_hunks, hlines.physical]
  exact read_cuts hcuts

/-- Hunks that glue a line to the next one cannot be applied. -/
theorem readHunks_of_ne_last (n : Nat) (ha : ∀ l ∈ a, Full l) (hb : ∀ l ∈ b, Full l) (hx : 0x0A ∉ x)
    (hy : 0x0A ∉ y) (hxy : x ≠ y) :
    readHunks (hunks n (segments (a ++ [x]) (b ++ [y]))) (a ++ [x]) = none := by
  obtain ⟨init, old, new, hsegs⟩ := exists_change_of_last ha hb hx hy hxy
  obtain ⟨hs, last, front, hhunks, hlast⟩ :=
    exists_hunks_last n init (old ++ [x]) (new ++ [y])
  rw [← hsegs] at hhunks
  have hcuts := cuts_hunks n (segments (a ++ [x]) (b ++ [y]))
  rw [olds_segments, news_segments, hhunks] at hcuts
  have hfull := full_beforeLast ha hb hsegs hhunks hlast
  have hlines : (hs ++ [last]).flatMap Hunk.lines =
      beforeLast hs last front old ++ (0x2D :: x) :: (new ++ [y]).map (0x2B :: ·) := by
    rw [beforeLast, List.flatMap_append, List.flatMap_singleton, Hunk.lines, hlast]
    simp [shown, Segment.lines]
  obtain ⟨l, ls, hl, hphysical⟩ := Lines.exists_physical_append (x := 0x2D :: x)
    (s := ((new ++ [y]).map (0x2B :: ·)).flatten) (by simp [hx]) (by simp)
  rw [readHunks, hhunks, ← flatten_hunks, hlines, List.flatten_append, List.flatten_cons,
    Lines.physical_flatten_append hfull, hphysical, read_glued hcuts hlast hl]
  rfl

theorem header_eq (h : ¬ (aName = "" ∧ bName = "")) :
    header aName bName =
      Bytes.ofString ("--- " ++ aName ++ "\n") ++ Bytes.ofString ("+++ " ++ bName ++ "\n") := by
  rw [header, if_neg (by simpa using h), ← Bytes.ofString_append]
  refine congrArg Bytes.ofString ?_
  simp [← String.toList_inj, String.toList_append]

theorem applied_header (h : ¬ (aName = "" ∧ bName = "")) (ha : '\n' ∉ aName.toList)
    (hb : '\n' ∉ bName.toList) (hs : List Hunk) (old : List Bytes) :
    applied (header aName bName ++ hs.flatMap (·.body)) old = readHunks hs old := by
  have hline : ∀ mark name : String, '\n' ∉ mark.toList → '\n' ∉ name.toList →
      Full (Bytes.ofString (mark ++ name ++ "\n")) ∧
        (Bytes.ofString (mark ++ name ++ "\n")).startsWith (Bytes.ofString mark) = true := by
    intro mark name hmark hname
    refine ⟨Lines.full_ofString (by simp [hmark, hname]), ?_⟩
    rw [Bytes.ofString_append, Bytes.ofString_append, Bytes.startsWith, List.isPrefixOf_iff_prefix,
      List.append_assoc]
    exact List.prefix_append _ _
  obtain ⟨hold, holdMark⟩ := hline "--- " aName (by decide) ha
  obtain ⟨hnew, hnewMark⟩ := hline "+++ " bName (by decide) hb
  rw [applied, header_eq h, List.append_assoc, Lines.physical_full hold, Lines.physical_full hnew]
  exact if_pos ⟨holdMark, hnewMark⟩

/-- A patch is empty exactly when the texts are equal. -/
theorem patch_eq_nil_iff (hnames : ¬ (aName = "" ∧ bName = "")) (a b : List Bytes) (context : Int) :
    patch aName bName a b context = [] ↔ a = b := by
  rw [← hunks_eq_nil_iff (contextOf context) a b, patch]
  cases hunks (contextOf context) (segments a b) with
  | nil => exact ⟨fun _ => rfl, fun _ => rfl⟩
  | cons h hs =>
      refine ⟨fun hnil => absurd hnil ?_, fun hnil => absurd hnil (List.cons_ne_nil _ _)⟩
      rw [header_eq hnames]
      simp [Bytes.ofString]

theorem applied_patch (hnames : ¬ (aName = "" ∧ bName = "")) (haName : '\n' ∉ aName.toList)
    (hbName : '\n' ∉ bName.toList) (hne : a ≠ b) (context : Int) :
    applied (patch aName bName a b context) a =
      readHunks (hunks (contextOf context) (segments a b)) a := by
  have hsome := mt (hunks_eq_nil_iff (contextOf context) a b).mp hne
  rw [← applied_header hnames haName hbName, patch]
  cases hhunks : hunks (contextOf context) (segments a b) with
  | nil => exact absurd hhunks hsome
  | cons h hs => rfl

/-- The hunks between two texts lead from the one to the other exactly when no line is glued. -/
theorem readHunks_eq_some_iff (n : Nat) (a b : Bytes) :
    readHunks (hunks n (segments (Lines.split a) (Lines.split b))) (Lines.split a) =
        some (Lines.split b) ↔
      a = [] ∨ b = [] ∨ (Lines.split a).getLast? = (Lines.split b).getLast? := by
  by_cases ha : a = []
  · subst ha
    refine iff_of_true (readHunks_of_standing n ?_) (Or.inl rfl)
    by_cases hb : b = []
    · subst hb
      exact .full (by simp [segments_of_empty, gap, shown, Lines.split])
    · obtain ⟨ls, y, hsplit, hfull, hy⟩ := Lines.exists_split hb
      rw [hsplit]
      exact (standing_of_empty hfull hy).1
  · obtain ⟨ls, x, hsplit, hfull, hx⟩ := Lines.exists_split ha
    rw [hsplit]
    by_cases hb : b = []
    · subst hb
      exact iff_of_true (readHunks_of_standing n (standing_of_empty hfull hx).2) (Or.inr (Or.inl rfl))
    · obtain ⟨ls', y, hsplit', hfull', hy⟩ := Lines.exists_split hb
      rw [hsplit', List.getLast?_concat, List.getLast?_concat, Option.some.injEq]
      by_cases hxy : x = y
      · subst hxy
        exact iff_of_true (readHunks_of_standing n (standing_of_same hfull hfull' hx))
          (Or.inr (Or.inr rfl))
      · rw [readHunks_of_ne_last n hfull hfull' hx hy hxy]
        simp [ha, hb, hxy]

/-- **A preview is empty exactly when nothing changes, and otherwise it turns the old text into the new
one exactly when no line is glued**: when one of the texts is empty, or the same line stands behind the
last line feed of both.  Applying a patch checks its two lines of names, the places and counts in the
headers of its hunks, the sign of every line and the old lines that are shown. -/
theorem unified_faithful (hnames : ¬ (aName = "" ∧ bName = "")) (haName : '\n' ∉ aName.toList)
    (hbName : '\n' ∉ bName.toList) (a b : Bytes) {maxBytes : Int} (hmax : maxBytes ≤ 0)
    (context : Int) :
    ∃ body, unified aName bName a b maxBytes context = (body, false) ∧ (body = [] ↔ a = b) ∧
      (a ≠ b → (applied body (Lines.split a) = some (Lines.split b) ↔
        a = [] ∨ b = [] ∨ (Lines.split a).getLast? = (Lines.split b).getLast?)) := by
  have hsize : isOversize maxBytes (a.length + b.length) = false := by
    rw [isOversize, decide_eq_false (by omega), Bool.false_and]
  have hsplit : Lines.split a = Lines.split b ↔ a = b :=
    ⟨Lines.split_injective, fun h => congrArg Lines.split h⟩
  refine ⟨patch aName bName (Lines.split a) (Lines.split b) context, ?_, ?_, fun hne => ?_⟩
  · rw [unified, hsize]
    rfl
  · rw [patch_eq_nil_iff hnames, hsplit]
  · rw [applied_patch hnames haName hbName (mt hsplit.mp hne)]
    exact readHunks_eq_some_iff _ a b

/-- A line that changes in the middle of a text, and a line feed that is added at its end: the first
patch gives the new text, the second one does not. -/
theorem unified_faithful_twoChanges :
    (∃ body, unified "a" "b" (Bytes.ofString "x\ny\nz") (Bytes.ofString "x\nw\nz") 0 3 =
        (body, false) ∧ body ≠ [] ∧
      applied body (Lines.split (Bytes.ofString "x\ny\nz")) =
        some (Lines.split (Bytes.ofString "x\nw\nz"))) ∧
    (∃ body, unified "a" "b" (Bytes.ofString "x") (Bytes.ofString "x\n") 0 3 = (body, false) ∧
      body ≠ [] ∧ applied body (Lines.split (Bytes.ofString "x")) ≠
        some (Lines.split (Bytes.ofString "x\n"))) := by
  have hnames : ¬ ("a" = "" ∧ "b" = "") := by decide
  have hmax : (0 : Int) ≤ 0 := by decide
  constructor
  · obtain ⟨body, hunified, hempty, happly⟩ := unified_faithful hnames (by decide) (by decide)
      (Bytes.ofString "x\ny\nz") (Bytes.ofString "x\nw\nz") hmax 3
    exact ⟨body, hunified, mt hempty.mp (by decide), (happly (by decide)).mpr (by decide)⟩
  · obtain ⟨body, hunified, hempty, happly⟩ := unified_faithful hnames (by decide) (by decide)
      (Bytes.ofString "x") (Bytes.ofString "x\n") hmax 3
    exact ⟨body, hunified, mt hempty.mp (by decide), mt (happly (by decide)).mp (by decide)⟩

/-- The removed line and the added one are glued. -/
example : unified "a" "b" (Bytes.ofString "x") (Bytes.ofString "y") 0 3 =
    (Bytes.ofString "--- a\n+++ b\n@@ -1 +1 @@\n-x+y", false) := by
  decide +kernel

end Patches

end Diff
end InstallerLint
