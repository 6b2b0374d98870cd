import InstallerLint.Proofs.Text.Lines
import InstallerLint.Proofs.Text.Utf8
import Mathlib.Algebra.GroupWithZero.Nat
import Mathlib.Data.List.DropRight

/-!
# Positions count

A position is looked up among the line starts of a text; it says what a plain scan of the text up to
the offset finds.

**Scanning.**  The text in front of an offset ends with an open line (`openLine`).  The look-up finds
the line feeds in front of the offset and the characters of the open line (`position_eq_scan`).

**Pieces.**  When a text is split at its line feeds, every offset stands in one piece, and its line is
the number of that piece (`line_eq_iff`).

**Order.**  What stands in front of a boundary between characters is read as if the text ended there
(`Boundary.charCount_take`), so positions increase from a boundary on (`before_of_boundary`).
-/

namespace InstallerLint
namespace Bytes

/-- What stands behind the last line feed. -/
def openLine (s : Bytes) : Bytes := s.rtakeWhile (· ≠ 0x0A)

/-- Piece number `n` of a text that is split at its line feeds, and the offset at which it starts. -/
def IsPiece (s : Bytes) (n start : Nat) (piece : Bytes) : Prop :=
  ∃ before after, s.splitLF = before ++ piece :: after ∧ n = before.length + 1 ∧
    start = (before.map (·.length + 1)).sum

/-- An offset stands in a piece; the line feed at its end still belongs to it. -/
def StandsIn (s : Bytes) (n offset : Nat) : Prop :=
  ∃ start piece, s.IsPiece n start piece ∧ start ≤ offset ∧ offset ≤ start + piece.length

/-- Offsets between the characters of a text; a stray byte is one. -/
inductive Boundary : (s : Bytes) → (offset : Nat) → Prop where
  | front (s : Bytes) : Boundary s 0
  | char {a : UInt8} {s : Bytes} {c : Char} {width k : Nat}
      (read : headChar? (a :: s) = some (c, width)) (more : Boundary (s.drop (width - 1)) k) :
      Boundary (a :: s) (width + k)
  | stray {a : UInt8} {s : Bytes} {k : Nat} (read : headChar? (a :: s) = none)
      (more : Boundary s k) : Boundary (a :: s) (k + 1)

section OpenLine

theorem not_mem_openLine (s : Bytes) : 0x0A ∉ openLine s := by
  intro h
  simpa using List.mem_rtakeWhile_imp h

theorem openLine_concat (s : Bytes) (b : UInt8) :
    openLine (s ++ [b]) = if b = 0x0A then [] else openLine s ++ [b] := by
  rw [openLine, List.rtakeWhile_concat]
  by_cases hb : b = 0x0A <;> simp [hb, openLine]

/-- The open line is what there is, or it stands behind a line feed. -/
theorem exists_openLine (s : Bytes) : openLine s = s ∨ ∃ lines, s = lines ++ 0x0A :: openLine s := by
  induction s using List.reverseRecOn with
  | nil => exact .inl rfl
  | append_singleton s b ih =>
      rw [openLine_concat]
      split_ifs with hb
      · exact .inr ⟨s, by rw [hb]⟩
      · rcases ih with h | ⟨lines, h⟩
        · exact .inl (by rw [h])
        · exact .inr ⟨lines, by rw [← List.cons_append, ← List.append_assoc, ← h]⟩

theorem openLine_append (s t : Bytes) :
    openLine (s ++ t) = if 0x0A ∈ t then openLine t else openLine s ++ t := by
  induction t using List.reverseRecOn with
  | nil => simp
  | append_singleton t b ih =>
      rw [← List.append_assoc, openLine_concat, openLine_concat, ih]
      by_cases hb : b = 0x0A
      · simp [hb]
      · rw [if_neg hb, if_neg hb]
        by_cases ht : 0x0A ∈ t <;> simp [ht, Ne.symm hb]

end OpenLine

section Pieces

variable {s front back piece : Bytes}

theorem splitLF_ne_nil (s : Bytes) : splitLF s ≠ [] := by
  cases s with
  | nil => exact List.cons_ne_nil _ _
  | cons b s =>
      rw [splitLF]
      split
      · exact List.cons_ne_nil _ _
      · split_ifs <;> exact List.cons_ne_nil _ _

theorem splitLF_cons (b : UInt8) (s : Bytes) : splitLF (b :: s) =
    if b = 0x0A then [] :: splitLF s else (splitLF s).modifyHead (b :: ·) := by
  rw [splitLF]
  cases hs : splitLF s with
  | nil => exact absurd hs (splitLF_ne_nil s)
  | cons piece pieces => rfl

/-- Bytes without a line feed belong to the first piece. -/
theorem splitLF_append (hfront : 0x0A ∉ front) (back : Bytes) :
    splitLF (front ++ back) = (splitLF back).modifyHead (front ++ ·) := by
  induction front with
  | nil =>
      rw [List.nil_append]
      cases splitLF back <;> rfl
  | cons b front ih =>
      have hb : b ≠ 0x0A := fun h => hfront (h ▸ List.mem_cons_self)
      rw [List.cons_append, splitLF_cons, if_neg hb, ih fun h => hfront (List.mem_cons_of_mem _ h)]
      cases splitLF back <;> rfl

/-- A line feed separates pieces. -/
theorem splitLF_append_lf (front back : Bytes) :
    splitLF (front ++ 0x0A :: back) = splitLF front ++ splitLF back := by
  induction front with
  | nil =>
      rw [List.nil_append, splitLF_cons, if_pos rfl]
      rfl
  | cons b front ih =>
      rw [List.cons_append, splitLF_cons, splitLF_cons, ih]
      split_ifs with hb
      · rfl
      · cases hs : splitLF front with
        | nil => exact absurd hs (splitLF_ne_nil front)
        | cons piece pieces => rfl

/-- The pieces of a text, with line feeds between them, are the text. -/
theorem intercalate_splitLF (s : Bytes) : List.intercalate [0x0A] (splitLF s) = s := by
  induction s with
  | nil => rfl
  | cons b s ih =>
      rw [splitLF_cons]
      cases hs : splitLF s with
      | nil => exact absurd hs (splitLF_ne_nil s)
      | cons piece pieces =>
          rw [hs] at ih
          split_ifs with hb
          · rw [List.intercalate_cons_cons, ih, hb]
            rfl
          · rw [List.modifyHead_cons, ← ih]
            cases pieces with
            | nil => simp
            | cons piece' pieces =>
                rw [List.intercalate_cons_cons, List.intercalate_cons_cons]
                rfl

/-- A piece holds bytes of the text, but no line feed. -/
theorem of_mem_splitLF (h : piece ∈ splitLF s) : 0x0A ∉ piece ∧ piece ⊆ s := by
  induction s generalizing piece with
  | nil =>
      obtain rfl : piece = [] := List.mem_singleton.mp h
      exact ⟨List.not_mem_nil, List.Subset.refl _⟩
  | cons b s ih =>
      rw [splitLF_cons] at h
      cases hs : splitLF s with
      | nil => exact absurd hs (splitLF_ne_nil s)
      | cons first pieces =>
          rw [hs] at h ih
          split_ifs at h with hb
          · rcases List.mem_cons.mp h with rfl | h
            · exact ⟨List.not_mem_nil, List.nil_subset _⟩
            · exact (ih h).imp id (List.subset_cons_of_subset b)
          · rcases List.mem_cons.mp h with rfl | h
            · obtain ⟨hlf, hsubset⟩ := ih List.mem_cons_self
              exact ⟨by simpa [Ne.symm hb] using hlf, List.cons_subset_cons b hsubset⟩
            · exact (ih (List.mem_cons_of_mem _ h)).imp id (List.subset_cons_of_subset b)

/-- The pieces hold the text without its line feeds, one less than there are pieces. -/
theorem splitLF_sizes (s : Bytes) : (splitLF s).length = s.count 0x0A + 1 ∧
    ((splitLF s).map (·.length + 1)).sum = s.length + 1 := by
  induction s with
  | nil => exact ⟨rfl, rfl⟩
  | cons b s ih =>
      obtain ⟨hcount, hsum⟩ := ih
      rw [splitLF_cons]
      split_ifs with hb
      · subst hb
        simp [hcount, hsum]
        omega
      · cases hs : splitLF s with
        | nil => exact absurd hs (splitLF_ne_nil s)
        | cons piece pieces =>
            rw [hs] at hcount hsum
            simp [hb] at hcount hsum ⊢
            omega

/-- The piece in which the text in front of an offset ends. -/
theorem exists_piece (front back : Bytes) : ∃ before rest after,
    splitLF (front ++ back) = before ++ (openLine front ++ rest) :: after ∧
      before.length = front.count 0x0A ∧
      (before.map (·.length + 1)).sum + (openLine front).length = front.length := by
  obtain ⟨piece, pieces, hback⟩ := List.exists_cons_of_ne_nil (splitLF_ne_nil back)
  have hopen : splitLF (openLine front ++ back) = (openLine front ++ piece) :: pieces := by
    rw [splitLF_append (not_mem_openLine front), hback]
    rfl
  have hcount : (openLine front).count 0x0A = 0 := List.count_eq_zero.mpr (not_mem_openLine front)
  rcases exists_openLine front with h | ⟨lines, h⟩
  · rw [h] at hopen hcount ⊢
    exact ⟨[], piece, pieces, hopen, hcount.symm, Nat.zero_add _⟩
  · obtain ⟨hlength, hsum⟩ := splitLF_sizes lines
    refine ⟨splitLF lines, piece, pieces, ?_, ?_, ?_⟩
    · rw [← hopen, ← splitLF_append_lf, ← List.cons_append, ← List.append_assoc, ← h]
    · have := congrArg (List.count 0x0A) h
      rw [List.count_append, List.count_cons_self, hcount] at this
      omega
    · have := congrArg List.length h
      rw [List.length_append, List.length_cons] at this
      omega

/-- An earlier piece ends before a later one starts. -/
theorem IsPiece.lt {n n' start start' : Nat} {piece' : Bytes} (h : IsPiece s n start piece)
    (h' : IsPiece s n' start' piece') (hlt : n < n') : start + piece.length < start' := by
  obtain ⟨before, after, hsplit, rfl, rfl⟩ := h
  obtain ⟨before', after', hsplit', rfl, rfl⟩ := h'
  rw [hsplit] at hsplit'
  rcases List.append_eq_append_iff.mp hsplit' with ⟨mid, rfl, hmid⟩ | ⟨mid, rfl, -⟩
  · cases mid with
    | nil => simp at hlt
    | cons first mid =>
        obtain ⟨rfl, -⟩ := List.cons.inj hmid
        simp only [List.map_append, List.map_cons, List.sum_append, List.sum_cons]
        omega
  · rw [List.length_append] at hlt
    omega

/-- No offset stands in two pieces. -/
theorem StandsIn.unique {n n' offset : Nat} (h : StandsIn s n offset) (h' : StandsIn s n' offset) :
    n = n' := by
  obtain ⟨start, piece, hpiece, hlo, hhi⟩ := h
  obtain ⟨start', piece', hpiece', hlo', hhi'⟩ := h'
  rcases Nat.lt_trichotomy n n' with hlt | heq | hlt
  · have := hpiece.lt hpiece' hlt
    omega
  · exact heq
  · have := hpiece'.lt hpiece hlt
    omega

theorem StandsIn.le_length {n offset : Nat} (h : StandsIn s n offset) : n ≤ (splitLF s).length := by
  obtain ⟨_, _, ⟨before, after, hsplit, rfl, rfl⟩, -⟩ := h
  rw [hsplit, List.length_append, List.length_cons]
  omega

/-- The number of the piece in which an offset stands counts the line feeds in front of it. -/
theorem standsIn_iff {n : Nat} : StandsIn (front ++ back) n front.length ↔
    n = front.count 0x0A + 1 := by
  obtain ⟨before, rest, after, hsplit, hcount, hsum⟩ := exists_piece front back
  have hstands : StandsIn (front ++ back) (front.count 0x0A + 1) front.length := by
    refine ⟨_, _, ⟨before, after, hsplit, by rw [hcount], rfl⟩, ?_, ?_⟩
    · omega
    · rw [List.length_append]
      omega
  exact ⟨fun h => h.unique hstands, fun h => h ▸ hstands⟩

end Pieces

section Boundary

variable {a : UInt8} {c : Char} {s p q : Bytes} {k m : Nat}

theorem charCount_char {tail rest : Bytes}
    (h : headChar? (a :: (tail ++ rest)) = some (c, tail.length + 1)) :
    charCount (a :: (tail ++ rest)) = charCount rest + 1 := by
  rw [charCount, chars, charsAfter, h]
  simp only [Nat.add_sub_cancel, charsAfter_length, List.length_cons]
  rfl

theorem charCount_stray (h : headChar? (a :: s) = none) :
    charCount (a :: s) = charCount s + 1 := by
  rw [charCount, chars, charsAfter, h]
  rfl

theorem charCount_pos (h : s ≠ []) : 0 < charCount s := by
  cases s with
  | nil => exact absurd rfl h
  | cons a s =>
      rw [charCount, chars, charsAfter]
      split <;> exact Nat.succ_pos _

/-- A stray byte stays one when the text is cut. -/
theorem headChar?_take_eq_none (h : headChar? (a :: s) = none) (m : Nat) :
    headChar? (a :: s.take m) = none := by
  cases hread : headChar? (a :: s.take m) with
  | none => rfl
  | some r =>
      obtain ⟨tail, rest, htake, -, -, hall⟩ := headChar?_eq_some hread
      have hlong := hall (rest ++ s.drop m)
      rw [← List.append_assoc, ← htake, List.take_append_drop, h] at hlong
      cases hlong

/-- A character ends in front of a line feed or behind it. -/
theorem Boundary.behind_lf (h : Boundary (p ++ 0x0A :: q) k) (hle : p.length + 1 ≤ k) :
    Boundary q (k - (p.length + 1)) := by
  generalize hs : p ++ 0x0A :: q = s at h
  induction h generalizing p with
  | front s => omega
  | @char a s c width k read more ih =>
      cases p with
      | nil =>
          obtain ⟨rfl, rfl⟩ := List.cons.inj hs
          rw [headChar?_ascii (by decide)] at read
          cases read
          simpa [Nat.add_comm] using more
      | cons b p =>
          rw [List.cons_append] at hs
          obtain ⟨rfl, rfl⟩ := List.cons.inj hs
          rw [headChar?_append_ascii (by decide)] at read
          obtain ⟨tail, rest, rfl, rfl, -⟩ := headChar?_eq_some read
          simp only [List.length_cons, List.length_append] at hle ⊢
          have hrest := ih (p := rest) (by omega) (by simp)
          rwa [show tail.length + 1 + k - (tail.length + rest.length + 1 + 1) =
            k - (rest.length + 1) by omega]
  | @stray a s k read more ih =>
      cases p with
      | nil =>
          obtain ⟨rfl, rfl⟩ := List.cons.inj hs
          rw [headChar?_ascii (by decide)] at read
          cases read
      | cons b p =>
          rw [List.cons_append] at hs
          obtain ⟨rfl, rfl⟩ := List.cons.inj hs
          rw [List.length_cons, Nat.add_sub_add_right]
          exact ih (Nat.le_of_succ_le_succ hle) rfl

/-- Text in front of a boundary is read as if it ended there. -/
theorem Boundary.charCount_take (h : Boundary s k) (hle : k ≤ m) :
    charCount (s.take m) = charCount (s.take k) + charCount ((s.drop k).take (m - k)) := by
  induction h generalizing m with
  | front s =>
      rw [List.take_zero, List.drop_zero, Nat.sub_zero]
      exact (Nat.zero_add _).symm
  | @char a s c width k read more ih =>
      obtain ⟨tail, rest, rfl, rfl, -, hread⟩ := headChar?_eq_some read
      obtain ⟨m, rfl⟩ : ∃ m', m = tail.length + 1 + m' := ⟨m - (tail.length + 1), by omega⟩
      have htake : ∀ n, (a :: (tail ++ rest)).take (tail.length + 1 + n) = a :: (tail ++ rest.take n) := by
        intro n
        rw [Nat.add_right_comm, List.take_succ_cons, List.take_length_add_append]
      have hdrop : (a :: (tail ++ rest)).drop (tail.length + 1 + k) = rest.drop k := by
        rw [Nat.add_right_comm, List.drop_succ_cons, List.drop_length_add_append]
      rw [htake, htake, hdrop, charCount_char (hread _), charCount_char (hread _),
        Nat.add_sub_add_left]
      have hrest := ih (m := m) (by omega)
      simp only [Nat.add_sub_cancel, List.drop_left] at hrest
      omega
  | @stray a s k read more ih =>
      obtain ⟨m, rfl⟩ : ∃ m', m = m' + 1 := ⟨m - 1, by omega⟩
      rw [List.take_succ_cons, List.take_succ_cons, List.drop_succ_cons, Nat.add_sub_add_right,
        charCount_stray (headChar?_take_eq_none read m), charCount_stray (headChar?_take_eq_none read k),
        ih (Nat.le_of_succ_le_succ hle)]
      omega

/-- A boundary is one of its line. -/
theorem Boundary.openLine {front back : Bytes} (h : Boundary (front ++ back) front.length) :
    Boundary (openLine front ++ back) (openLine front).length := by
  rcases exists_openLine front with heq | ⟨lines, heq⟩
  · rwa [heq]
  · have hlength := congrArg List.length heq
    rw [List.length_append, List.length_cons] at hlength
    have hsplit : front ++ back = lines ++ 0x0A :: (Bytes.openLine front ++ back) := by
      rw [← List.cons_append, ← List.append_assoc, ← heq]
    rw [hsplit] at h
    have hline := h.behind_lf (by omega)
    rwa [show front.length - (lines.length + 1) = (Bytes.openLine front).length by omega] at hline

end Boundary

end Bytes

/-- A position stands in front of another one: on an earlier line, or in an earlier column. -/
def Position.Before (p q : Position) : Prop := p.line < q.line ∨ p.line = q.line ∧ p.col < q.col

namespace LineIndex

section Scan

variable {source front back : Bytes} {i j : Nat}

theorem startsAfter_append (base : Nat) (front back : Bytes) :
    startsAfter base (front ++ back) =
      (startsAfter base front).map (fun start => (start.1, start.2 ++ back)) ++
        startsAfter (base + front.length) back := by
  induction front generalizing base with
  | nil => rfl
  | cons b front ih =>
      rw [List.cons_append, startsAfter, startsAfter, ih (base + 1), List.length_cons,
        Nat.add_assoc, Nat.add_comm 1]
      split_ifs <;> rfl

theorem length_startsAfter (base : Nat) (s : Bytes) :
    (startsAfter base s).length = s.count 0x0A := by
  induction s generalizing base with
  | nil => rfl
  | cons b s ih =>
      rw [startsAfter]
      split_ifs with hb
      · rw [List.length_cons, ih, hb, List.count_cons_self]
      · rw [ih, List.count_cons_of_ne hb]

/-- A line starts behind its line feed. -/
theorem lt_of_mem_startsAfter {base : Nat} {s : Bytes} {start : Nat × Bytes}
    (h : start ∈ startsAfter base s) : base < start.1 := by
  induction s generalizing base with
  | nil => cases h
  | cons b s ih =>
      rw [startsAfter] at h
      split_ifs at h
      · rcases List.mem_cons.mp h with rfl | h
        · exact Nat.lt_succ_self base
        · exact (Nat.lt_succ_self base).trans (ih h)
      · exact (Nat.lt_succ_self base).trans (ih h)

/-- The lines that start in front of an offset are those of the text in front of it. -/
theorem startsUpTo_append (front back : Bytes) :
    startsUpTo (front ++ back) front.length =
      (startsAfter 0 front).map fun start => (start.1, start.2 ++ back) := by
  have hnone : (startsAfter (0 + front.length) back).takeWhile (·.1 ≤ front.length) = [] := by
    cases hback : startsAfter (0 + front.length) back with
    | nil => rfl
    | cons start starts =>
        have := lt_of_mem_startsAfter
          (hback ▸ List.mem_cons_self : start ∈ startsAfter (0 + front.length) back)
        exact List.takeWhile_cons_of_neg (by simp; omega)
  rw [startsUpTo, startsAfter_append, List.takeWhile_append_of_pos, hnone, List.append_nil]
  intro start hstart
  obtain ⟨start, hmem, rfl⟩ := List.mem_map.mp hstart
  obtain ⟨before, hfront, hlength⟩ := exists_front_of_mem hmem
  have := congrArg List.length hfront
  rw [List.length_append] at this
  exact decide_eq_true (by simp only; omega)

/-- The last line of a text is its open line. -/
theorem getLast_startsAfter (s : Bytes) :
    ((0, s) :: startsAfter 0 s).getLast (List.cons_ne_nil _ _) =
      (s.length - (Bytes.openLine s).length, Bytes.openLine s) := by
  have hnone : ∀ base, startsAfter base (Bytes.openLine s) = [] := by
    intro base
    rw [← List.length_eq_zero_iff, length_startsAfter, List.count_eq_zero]
    exact Bytes.not_mem_openLine s
  rcases Bytes.exists_openLine s with h | ⟨lines, h⟩
  · rw [h] at hnone ⊢
    simp [hnone]
  · have hstarts : ∃ starts, startsAfter 0 s =
        starts ++ [(lines.length + 1, Bytes.openLine s)] := by
      refine ⟨(startsAfter 0 lines).map fun start => (start.1, start.2 ++ 0x0A :: Bytes.openLine s), ?_⟩
      conv_lhs => rw [h]
      rw [startsAfter_append, startsAfter, if_pos rfl, hnone, Nat.zero_add]
    obtain ⟨starts, hstarts⟩ := hstarts
    have hlength := congrArg List.length h
    rw [List.length_append, List.length_cons] at hlength
    simp only [hstarts, ← List.cons_append, List.getLast_append_singleton]
    congr 1
    omega

/-- A position counts the line feeds in front of an offset, and the characters of the open line. -/
theorem position_append (front back : Bytes) :
    (ofSource (front ++ back)).position front.length =
      ⟨front.count 0x0A + 1, Bytes.charCount (Bytes.openLine front) + 1⟩ := by
  have hstart : lineStart (front ++ back) front.length =
      (front.length - (Bytes.openLine front).length, Bytes.openLine front ++ back) := by
    have hmap : ((0, front ++ back) :: startsUpTo (front ++ back) front.length) =
        ((0, front) :: startsAfter 0 front).map fun start => (start.1, start.2 ++ back) := by
      rw [startsUpTo_append, List.map_cons]
    simp only [lineStart, hmap, List.getLast_map, getLast_startsAfter]
  have hle : (Bytes.openLine front).length ≤ front.length :=
    List.IsSuffix.length_le (List.rtakeWhile_suffix _ _)
  rw [position_eq (by simp), hstart, startsUpTo_append, List.length_map, length_startsAfter,
    Nat.sub_sub_self hle, List.take_left, Nat.add_comm 1]
  rfl

/-- Offsets outside of the text count as its nearer end. -/
theorem position_clamp (source : Bytes) (offset : Int) : (ofSource source).position offset =
    (ofSource source).position (min offset.toNat source.length : Nat) := by
  have hplace : min (Int.toNat (min offset.toNat source.length : Nat)) source.length =
      min offset.toNat source.length := by
    rw [Int.toNat_natCast]
    exact min_eq_left (min_le_right _ _)
  simp only [position, ofSource, hplace]

/-- **A position is that of a plain scan.** -/
theorem position_eq_scan (hi : i ≤ source.length) : (ofSource source).position i =
    ⟨(source.take i).count 0x0A + 1, Bytes.charCount (Bytes.openLine (source.take i)) + 1⟩ := by
  have hscan := position_append (source.take i) (source.drop i)
  rwa [List.take_append_drop, List.length_take_of_le hi] at hscan

/-- **The line of an offset is the number of its piece.** -/
theorem line_eq_iff {n : Nat} (hi : i ≤ source.length) :
    ((ofSource source).position i).line = n ↔ source.StandsIn n i := by
  have hpiece := @Bytes.standsIn_iff (source.take i) (source.drop i) n
  rw [List.take_append_drop, List.length_take_of_le hi] at hpiece
  rw [hpiece, position_eq_scan hi, eq_comm]

/-- Behind a character boundary positions increase. -/
theorem before_of_boundary (hi : source.Boundary i) (hlt : i < j) (hj : j ≤ source.length) :
    ((ofSource source).position i).Before ((ofSource source).position j) := by
  obtain ⟨front, mid, back, rfl, rfl, rfl⟩ :
      ∃ front mid back, source = front ++ (mid ++ back) ∧ i = front.length ∧
        j = (front ++ mid).length := by
    refine ⟨source.take i, (source.drop i).take (j - i), (source.drop i).drop (j - i), ?_, ?_, ?_⟩
    · rw [List.take_append_drop, List.take_append_drop]
    · rw [List.length_take]
      omega
    · simp
      omega
  have hlater := position_append (front ++ mid) back
  rw [List.append_assoc] at hlater
  rw [hlater, position_append, Bytes.openLine_append, List.count_append]
  split_ifs with hmid
  · exact .inl (by have := List.count_pos_iff.mpr hmid; simp only; omega)
  · have hopen := (hi.openLine).charCount_take (Nat.le_add_right _ mid.length)
    rw [List.take_length_add_append, List.take_left, List.take_left, List.drop_left,
      Nat.add_sub_cancel_left, List.take_left] at hopen
    have hpos : 0 < Bytes.charCount mid := Bytes.charCount_pos (by rintro rfl; simp at hlt)
    refine .inr ⟨by rw [List.count_eq_zero.mpr hmid, Nat.add_zero], ?_⟩
    simp only
    omega

end Scan

end LineIndex
end InstallerLint
