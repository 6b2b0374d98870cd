import InstallerLint.Proofs.Diff.Script
import InstallerLint.Proofs.Json.Number
import InstallerLint.Proofs.Text.Utf8

/-!
# Applying patches

A patch is applied line by line.  Outside of a hunk the line that opens one is expected; the lines in
front of the hunk are copied.  Inside, a kept line is taken from the old text and written, a removed one
is taken and an added one is written, until the hunk has shown as many lines as it says.

**Headers.**  The line that opens a hunk is read back as the two ranges that it was written for
(`headline?_headline`).

**Run.**  The lines of a segment take its old lines and write its new ones (`read_segment`).  So the
hunks that cut two texts lead from the one to the other (`read_cuts`).
-/

namespace InstallerLint
namespace Diff

/-- Where a hunk stands in one of the texts. -/
structure Range where
  /-- The number of lines before it. -/
  before : Nat
  size : Nat
  deriving DecidableEq, Repr

/-- Reads a range: its first line and its size, which may be left out when it is one.  A range without
lines is named by the line before it. -/
def Range.ofChars? (cs : List Char) : Option Range :=
  match cs.splitOn ',' with
  | [first] => do
    let n ← Json.digits? first
    if n = 0 then none else some ⟨n - 1, 1⟩
  | [first, size] => do
    let n ← Json.digits? first
    let size ← Json.digits? size
    if size = 0 then some ⟨n, 0⟩ else if n = 0 then none else some ⟨n - 1, size⟩
  | _ => none

/-- Reads a range behind its mark. -/
def Range.behind? (mark : Char) (s : String) : Option Range :=
  match s.toList with
  | [] => none
  | c :: cs => if c = mark then Range.ofChars? cs else none

/-- The line that opens a hunk. -/
def headline (old new : Range) : Bytes :=
  Bytes.ofString ("@@ -" ++ rangeText old.before old.size ++ " +" ++ rangeText new.before new.size
    ++ " @@\n")

/-- Reads the line that opens a hunk. -/
def headline? (line : Bytes) : Option (Range × Range) :=
  match Find.pieces ' ' line.toText with
  | [front, old, new, back] =>
    if front = "@@" ∧ back = "@@\n" then do
      let old ← Range.behind? '-' old
      let new ← Range.behind? '+' new
      return (old, new)
    else none
  | _ => none

section Headers

/-- A range is written with digits and a comma. -/
theorem mem_rangeText {start size : Nat} {c : Char} (h : c ∈ (rangeText start size).toList) :
    c.isDigit = true ∨ c = ',' := by
  have hnumber : ∀ {n : Nat}, c ∈ (toString n).toList → c.isDigit = true := by
    intro n hc
    rw [Json.toList_toString] at hc
    exact Json.isDigit_of_mem hc
  unfold rangeText at h
  split_ifs at h with hone hzero
  · exact Or.inl (hnumber h)
  all_goals
    rw [String.toList_append, String.toList_append] at h
    rcases List.mem_append.mp h with h | h
    · rcases List.mem_append.mp h with h | h
      · exact Or.inl (hnumber h)
      · exact Or.inr (List.mem_singleton.mp h)
    · exact Or.inl (hnumber h)

/-- A written range is read back. -/
theorem ofChars?_rangeText (r : Range) :
    Range.ofChars? (rangeText r.before r.size).toList = some r := by
  have hcomma : ∀ n : Nat, ',' ∉ Nat.toDigits 10 n := by
    intro n hc
    exact absurd (Json.isDigit_of_mem hc) (by decide)
  have hpair : ∀ m n : Nat, (toString m ++ "," ++ toString n).toList.splitOn ',' =
      [Nat.toDigits 10 m, Nat.toDigits 10 n] := by
    intro m n
    rw [String.toList_append, String.toList_append, Json.toList_toString, Json.toList_toString,
      List.append_assoc]
    show (Nat.toDigits 10 m ++ ',' :: Nat.toDigits 10 n).splitOn ',' = _
    rw [List.splitOn_append_cons_self, List.splitOn_eq_singleton (hcomma m),
      List.splitOn_eq_singleton (hcomma n)]
    rfl
  unfold rangeText Range.ofChars?
  obtain ⟨start, size⟩ := r
  by_cases hone : size = 1
  · subst hone
    rw [if_pos rfl, Json.toList_toString, List.splitOn_eq_singleton (hcomma _)]
    simp [Json.digits?_toDigits]
  · rw [if_neg hone, hpair]
    simp only [Json.digits?_toDigits, Option.bind_eq_bind, Option.bind_some]
    by_cases hzero : size = 0
    · rw [if_pos hzero, if_pos hzero, hzero]
    · rw [if_neg hzero, if_neg hzero, if_neg (Nat.succ_ne_zero start)]
      rfl

theorem headline?_headline (old new : Range) : headline? (headline old new) = some (old, new) := by
  have hblank : ∀ r : Range, ' ' ∉ (rangeText r.before r.size).toList := by
    intro r hc
    rcases mem_rangeText hc with hdigit | hcomma
    · exact absurd hdigit (by decide)
    · exact absurd hcomma (by decide)
  have hpieces : Find.pieces ' ' (headline old new).toText =
      ["@@", "-" ++ rangeText old.before old.size, "+" ++ rangeText new.before new.size, "@@\n"] := by
    have hchars : (headline old new).toText.toList = [' '].intercalate
        ["@@".toList, '-' :: (rangeText old.before old.size).toList,
          '+' :: (rangeText new.before new.size).toList, "@@\n".toList] := by
      rw [headline, Bytes.toText_ofString]
      simp [String.toList_append, List.intercalate]
    rw [Find.pieces, hchars, List.splitOn_intercalate ' ' (by simp [hblank]) (by simp)]
    simp
  have hbehind : ∀ (mark : Char) (r : Range),
      Range.behind? mark (String.singleton mark ++ rangeText r.before r.size) = some r := by
    intro mark r
    simp [Range.behind?, ofChars?_rangeText]
  rw [headline?, hpieces]
  show (do
    let old ← Range.behind? '-' (String.singleton '-' ++ rangeText old.before old.size)
    let new ← Range.behind? '+' (String.singleton '+' ++ rangeText new.before new.size)
    return (old, new)) = some (old, new)
  rw [hbehind, hbehind]
  rfl

end Headers

/-- How far a reader of a patch has come. -/
structure Cursor where
  /-- The number of old lines that are taken. -/
  taken : Nat
  /-- The new lines that are written. -/
  written : List Bytes
  rest : List Bytes
  /-- How many old lines the open hunk has still to show. -/
  oldLeft : Nat
  /-- How many new lines it has still to show. -/
  newLeft : Nat
  deriving DecidableEq, Repr

namespace Cursor

/-- Copies the lines in front of a hunk and opens it. -/
def enter (c : Cursor) (old new : Range) : Option Cursor :=
  let equal := old.before - c.taken
  if c.taken ≤ old.before ∧ equal ≤ c.rest.length ∧ new.before = c.written.length + equal then
    some ⟨old.before, c.written ++ c.rest.take equal, c.rest.drop equal, old.size, new.size⟩
  else none

/-- Takes an old line, which must be the next one. -/
def take (c : Cursor) (line : Bytes) : Option Cursor :=
  match c.rest, c.oldLeft with
  | next :: rest, left + 1 =>
    if next = line then some { c with taken := c.taken + 1, rest := rest, oldLeft := left } else none
  | _, _ => none

/-- Writes a new line. -/
def write (c : Cursor) (line : Bytes) : Option Cursor :=
  match c.newLeft with
  | left + 1 => some { c with written := c.written ++ [line], newLeft := left }
  | 0 => none

/-- Reads a line of a patch. -/
def read (c : Cursor) (line : Bytes) : Option Cursor :=
  if c.oldLeft = 0 ∧ c.newLeft = 0 then (headline? line).bind fun (old, new) => c.enter old new
  else
    match line with
    | [] => none
    | sign :: line =>
      if sign = 0x20 then (c.take line).bind (·.write line)
      else if sign = 0x2D then c.take line
      else if sign = 0x2B then c.write line
      else none

/-- The new text at the end of a patch; the last hunk must be complete. -/
def finish (c : Cursor) : Option (List Bytes) :=
  if c.oldLeft = 0 ∧ c.newLeft = 0 then some (c.written ++ c.rest) else none

end Cursor

/-- The lines of a hunk. -/
def Hunk.lines (h : Hunk) : List Bytes :=
  headline ⟨h.oldStart, (olds h.segments).length⟩ ⟨h.newStart, (news h.segments).length⟩
    :: shown h.segments

section Run

variable {m n taken : Nat} {written rest : List Bytes}

/-- A reading goes on from where it has come. -/
theorem read_append {c c' : Cursor} {lines : List Bytes} (h : lines.foldlM Cursor.read c = some c')
    (more : List Bytes) :
    (lines ++ more).foldlM Cursor.read c = more.foldlM Cursor.read c' := by
  rw [List.foldlM_append, h]
  rfl

theorem read_cons {c c' : Cursor} {line : Bytes} (h : c.read line = some c') (lines : List Bytes) :
    (line :: lines).foldlM Cursor.read c = lines.foldlM Cursor.read c' := by
  rw [List.foldlM_cons, h]
  rfl

theorem read_kept (ls : List Bytes) :
    (ls.map (0x20 :: ·)).foldlM Cursor.read
        ⟨taken, written, ls ++ rest, ls.length + m, ls.length + n⟩ =
      some ⟨taken + ls.length, written ++ ls, rest, m, n⟩ := by
  induction ls generalizing taken written with
  | nil => simp
  | cons l ls ih =>
      have hread : Cursor.read
          ⟨taken, written, l :: (ls ++ rest), (ls.length + m) + 1, (ls.length + n) + 1⟩ (0x20 :: l) =
          some ⟨taken + 1, written ++ [l], ls ++ rest, ls.length + m, ls.length + n⟩ := by
        simp [Cursor.read, Cursor.take, Cursor.write]
      rw [List.map_cons, List.cons_append, List.length_cons, Nat.add_right_comm,
        Nat.add_right_comm ls.length 1 n, read_cons hread, ih, List.append_assoc, Nat.add_assoc,
        Nat.add_comm 1]
      rfl

theorem read_removed (ls : List Bytes) :
    (ls.map (0x2D :: ·)).foldlM Cursor.read ⟨taken, written, ls ++ rest, ls.length + m, n⟩ =
      some ⟨taken + ls.length, written, rest, m, n⟩ := by
  induction ls generalizing taken with
  | nil => simp
  | cons l ls ih =>
      have hread : Cursor.read ⟨taken, written, l :: (ls ++ rest), (ls.length + m) + 1, n⟩
          (0x2D :: l) = some ⟨taken + 1, written, ls ++ rest, ls.length + m, n⟩ := by
        simp [Cursor.read, Cursor.take]
      rw [List.map_cons, List.cons_append, List.length_cons, Nat.add_right_comm, read_cons hread, ih,
        Nat.add_assoc, Nat.add_comm 1]

theorem read_added (ls : List Bytes) :
    (ls.map (0x2B :: ·)).foldlM Cursor.read ⟨taken, written, rest, m, ls.length + n⟩ =
      some ⟨taken, written ++ ls, rest, m, n⟩ := by
  induction ls generalizing written with
  | nil => simp
  | cons l ls ih =>
      have hread : Cursor.read ⟨taken, written, rest, m, (ls.length + n) + 1⟩ (0x2B :: l) =
          some ⟨taken, written ++ [l], rest, m, ls.length + n⟩ := by
        simp [Cursor.read, Cursor.write]
      rw [List.map_cons, List.length_cons, Nat.add_right_comm, read_cons hread, ih, List.append_assoc]
      rfl

/-- The lines of a segment take its old lines and write its new ones. -/
theorem read_segment (s : Segment) :
    s.lines.foldlM Cursor.read ⟨taken, written, s.old ++ rest, s.old.length + m, s.new.length + n⟩ =
      some ⟨taken + s.old.length, written ++ s.new, rest, m, n⟩ := by
  cases s with
  | keep ls => exact read_kept ls
  | change old new => exact (read_append (read_removed old) _).trans (read_added new)

theorem read_segments (segs : List Segment) :
    (shown segs).foldlM Cursor.read
        ⟨taken, written, olds segs ++ rest, (olds segs).length + m, (news segs).length + n⟩ =
      some ⟨taken + (olds segs).length, written ++ news segs, rest, m, n⟩ := by
  induction segs generalizing taken written with
  | nil => simp [shown]
  | cons s segs ih =>
      rw [shown_cons, olds_cons, news_cons, List.append_assoc, List.length_append,
        List.length_append, Nat.add_assoc, Nat.add_assoc s.new.length, read_append (read_segment s),
        ih, List.append_assoc, Nat.add_assoc]

/-- A hunk behind equal lines. -/
theorem read_headline {equal : List Bytes} (old new : Range)
    (hold : old.before = taken + equal.length) (hnew : new.before = written.length + equal.length) :
    Cursor.read ⟨taken, written, equal ++ rest, 0, 0⟩ (headline old new) =
      some ⟨old.before, written ++ equal, rest, old.size, new.size⟩ := by
  have hequal : old.before - taken = equal.length := by omega
  simp only [Cursor.read, and_self, ↓reduceIte, headline?_headline, Option.bind_some, Cursor.enter,
    hequal, List.length_append, List.take_left, List.drop_left]
  exact if_pos ⟨by omega, by omega, hnew⟩

theorem read_hunk {equal : List Bytes} {h : Hunk} (hold : h.oldStart = taken + equal.length)
    (hnew : h.newStart = written.length + equal.length) :
    h.lines.foldlM Cursor.read ⟨taken, written, equal ++ (olds h.segments ++ rest), 0, 0⟩ =
      some ⟨h.oldStart + (olds h.segments).length, written ++ equal ++ news h.segments, rest, 0, 0⟩ := by
  rw [Hunk.lines, read_cons (read_headline _ _ hold hnew)]
  exact read_segments (m := 0) (n := 0) h.segments

/-- The first hunks lead to a place from which the other ones cut what follows. -/
theorem exists_read_hunks (hs hs' : List Hunk) {old new : List Bytes}
    (h : Cuts taken written.length old new (hs ++ hs')) :
    ∃ (taken' : Nat) (written' old' new' : List Bytes),
      (hs.flatMap Hunk.lines).foldlM Cursor.read ⟨taken, written, old, 0, 0⟩ =
          some ⟨taken', written', old', 0, 0⟩ ∧
        Cuts taken' written'.length old' new' hs' ∧ written' ++ new' = written ++ new := by
  induction hs generalizing taken written old new with
  | nil => exact ⟨taken, written, old, new, rfl, h, rfl⟩
  | cons hunk hs ih =>
      cases h with
      | @hunk _ _ old new _ equal _ hold hnew hrest =>
          have hlength : hunk.newStart + (news hunk.segments).length =
              (written ++ equal ++ news hunk.segments).length := by
            rw [hnew, List.length_append, List.length_append]
          rw [hlength] at hrest
          obtain ⟨taken', written', old', new', hread, hcuts, hnews⟩ := ih hrest
          refine ⟨taken', written', old', new', ?_, hcuts, ?_⟩
          · rw [List.flatMap_cons, read_append (read_hunk hold hnew), hread]
          · rw [hnews, List.append_assoc, List.append_assoc]

/-- **Hunks that cut two texts lead from the one to the other.** -/
theorem read_cuts {hs : List Hunk} {old new : List Bytes} (h : Cuts 0 0 old new hs) :
    ((hs.flatMap Hunk.lines).foldlM Cursor.read ⟨0, [], old, 0, 0⟩).bind Cursor.finish = some new := by
  have hall : Cuts 0 ([] : List Bytes).length old new (hs ++ []) := by simpa using h
  obtain ⟨taken, written, old', new', hread, hcuts, hnews⟩ := exists_read_hunks hs [] hall
  cases hcuts with
  | done equal =>
      -- behind the last hunk both texts go on with the same lines
      rw [hread]
      exact congrArg some hnews

end Run

end Diff
end InstallerLint
