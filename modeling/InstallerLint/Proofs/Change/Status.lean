import InstallerLint.Change.Basic
import InstallerLint.Proofs.Assoc
import InstallerLint.Proofs.Rule.Message
import InstallerLint.Proofs.Text.Utf8
import Mathlib.Data.List.DropRight
import Mathlib.Data.List.TakeDrop
import Mathlib.Tactic.SplitIfs

/-!
# Status listings

A version control system lists changes, one a line, and `ChangeScope.readStatus` reads the list.
The writing side is given here, so that the two can be compared.

**Paths.**  A path is a list of bytes.  It is shown as it is when all of its bytes are printing
ASCII other than the double quote and the backslash; any other path is shown between double quotes,
with the escapes of C strings (`shown`).

**Reading.**  The fields of a line are read back as they stand (`parse?_line`).  A plain path is
shown as its own text.  A quoted one ends in a double quote, which no ending of a source does, so
the reader leaves its change out (`takes_shown`).  The reader of patches, which meets the same quoted
form in the header of a file, takes the quotes off (`plainName_headerName_shown`).
-/

namespace InstallerLint
namespace Listing

/-- Bytes that are shown as they are. -/
def isPlain (b : UInt8) : Bool := 0x20 ≤ b && b < 0x7F && b != 0x22 && b != 0x5C

/-- Paths that are shown as they are. -/
def Plain (path : Bytes) : Prop := path.all isPlain = true

instance (path : Bytes) : Decidable (Plain path) := inferInstanceAs (Decidable (_ = true))

/-- The escapes that are letters or signs. -/
def letters : List (UInt8 × Char) := [(7, 'a'), (8, 'b'), (9, 't'), (10, 'n'), (11, 'v'), (12, 'f'),
  (13, 'r'), (0x22, '"'), (0x5C, '\\')]

/-- The last octal digit of a number. -/
def octal (n : Nat) : Char := Char.ofNat (48 + n % 8)

/-- A byte between quotes. -/
def escape (b : UInt8) : List Char :=
  if isPlain b then [Char.ofNat b.toNat]
  else
    match letters.lookup b with
    | some c => ['\\', c]
    | none => ['\\', octal (b.toNat / 64), octal (b.toNat / 8), octal b.toNat]

/-- A path between double quotes. -/
def quoted (path : Bytes) : List Char := '"' :: (path.flatMap escape ++ ['"'])

/-- A path as it stands in a listing. -/
def shown (path : Bytes) : List Char :=
  if Plain path then path.map fun b => Char.ofNat b.toNat else quoted path

/-- A change as it is listed. -/
structure Change where
  letter : Char
  /-- The digits of the score, if there is one. -/
  score : List Char := []
  /-- The path that a renamed or copied file had. -/
  old : Option Bytes := none
  /-- The path that the change leaves. -/
  path : Bytes
  isUpper_letter : letter.isUpper = true
  isDigit_score : score.all Char.isDigit = true
  moved_of_old : old ≠ none → letter = 'R' ∨ letter = 'C'

namespace Change

/-- The fields of a line. -/
def fields (c : Change) : List (List Char) :=
  (c.letter :: c.score) :: (c.old.toList.map shown ++ [shown c.path])

/-- The line of a change. -/
def line (c : Change) : List Char := ['\t'].intercalate c.fields

/-- Where the file of a change is, if the file counts. -/
def place? (s : ChangeScope) (c : Change) : Option String :=
  if s.takes c.path.toText then some (s.place c.path.toText) else none

end Change

/-- The text of a listing. -/
def text (changes : List Change) : String :=
  String.ofList (changes.flatMap fun c => c.line ++ ['\n'])

/-- The sources under a directory. -/
def sources (dir : String) : ChangeScope := { dir := dir }

/-- What a listing tells. -/
def told (s : ChangeScope) (changes : List Change) : ChangeSet where
  added := (changes.filter (·.letter = 'A')).filterMap (·.place? s)
  modified := (changes.filter fun c => c.letter ≠ 'A' ∧ c.letter ≠ 'D').filterMap (·.place? s)
  deleted := (changes.filter (·.letter = 'D')).filterMap (·.place? s)

section Paths

theorem isPlain_iff {b : UInt8} :
    isPlain b = true ↔ 0x20 ≤ b.toNat ∧ b.toNat < 0x7F ∧ b.toNat ≠ 0x22 ∧ b.toNat ≠ 0x5C := by
  simp [isPlain, UInt8.le_iff_toNat_le, UInt8.lt_iff_toNat_lt, ← UInt8.toNat_inj, and_assoc]

/-- A byte as a character has its own number. -/
theorem toNat_char (b : UInt8) : (Char.ofNat b.toNat).toNat = b.toNat := by
  have hlt := b.toNat_lt
  have hvalid : b.toNat.isValidChar := Or.inl (by omega)
  rw [Char.ofNat, dif_pos hvalid]
  rfl

/-- The last octal digit of a number is one of eight. -/
theorem octal_eq (n : Nat) : ∃ m : Fin 8, octal n = octal m ∧ n % 8 = m := by
  refine ⟨⟨n % 8, Nat.mod_lt n (by decide)⟩, ?_, rfl⟩
  rw [octal, octal, Nat.mod_mod]

theorem toText_of_plain {path : Bytes} (h : Plain path) :
    path.toText = String.ofList (path.map fun b => Char.ofNat b.toNat) := by
  have hbytes := List.all_eq_true.mp h
  have hchars : Bytes.chars path = path.map fun b => some (Char.ofNat b.toNat) := by
    unfold Bytes.chars
    clear h
    induction path with
    | nil => rfl
    | cons b path ih =>
        have hb : b < 0x80 := by
          have hplain := isPlain_iff.mp (hbytes b List.mem_cons_self)
          rw [UInt8.lt_iff_toNat_lt]
          exact Nat.lt_trans hplain.2.1 (by decide)
        rw [Bytes.charsAfter, Bytes.headChar?_ascii hb, List.map_cons]
        exact congrArg _ (ih fun b hb => hbytes b (List.mem_cons_of_mem _ hb))
  rw [Bytes.toText, hchars, List.map_map]
  rfl

theorem le_octal (n : Nat) : 0x20 ≤ (octal n).toNat := by
  have hall : ∀ m : Fin 8, 0x20 ≤ (octal m).toNat := by decide
  obtain ⟨m, hm, -⟩ := octal_eq n
  rw [hm]
  exact hall m

/-- No control character is shown. -/
theorem le_of_mem_escape {b : UInt8} {c : Char} (h : c ∈ escape b) : 0x20 ≤ c.toNat := by
  unfold escape at h
  split_ifs at h with hplain
  · rw [List.mem_singleton.mp h, toNat_char]
    exact (isPlain_iff.mp hplain).1
  · cases hletter : letters.lookup b with
    | some l =>
        have hletters : ∀ p ∈ letters, 0x20 ≤ p.2.toNat := by simp [letters]
        simp only [hletter, List.mem_cons, List.not_mem_nil, or_false] at h
        rcases h with rfl | rfl
        · decide
        · exact hletters _ (Assoc.mem_of_lookup_eq_some hletter)
    | none =>
        simp only [hletter, List.mem_cons, List.not_mem_nil, or_false] at h
        rcases h with rfl | rfl | rfl | rfl
        · decide
        all_goals exact le_octal _

theorem le_of_mem_shown {path : Bytes} {c : Char} (h : c ∈ shown path) : 0x20 ≤ c.toNat := by
  unfold shown at h
  split_ifs at h with hplain
  · obtain ⟨b, hb, rfl⟩ := List.mem_map.mp h
    refine le_of_mem_escape (b := b) ?_
    rw [escape, if_pos (List.all_eq_true.mp hplain b hb)]
    exact List.mem_singleton_self _
  · rcases List.mem_cons.mp h with rfl | h
    · decide
    · rcases List.mem_append.mp h with h | h
      · obtain ⟨b, -, hc⟩ := List.mem_flatMap.mp h
        exact le_of_mem_escape hc
      · rw [List.mem_singleton.mp h]
        decide

/-- The ending of a text that ends in a double quote does so too, if there is one. -/
theorem ending_quote (cs : List Char) :
    SourceFile.ending (String.ofList (cs ++ ['"'])) = "" ∨
      '"' ∈ (SourceFile.ending (String.ofList (cs ++ ['"']))).toList := by
  have hlast : (String.ofList (cs ++ ['"'])).toList.reverse.takeWhile (· ≠ '/') =
      '"' :: cs.reverse.takeWhile (· ≠ '/') := by
    simp
  simp only [SourceFile.ending, Path.ext, hlast, List.reverse_reverse,
    List.span_eq_takeWhile_dropWhile]
  cases (('"' :: cs.reverse.takeWhile (· ≠ '/')).dropWhile (· ≠ '.')) with
  | nil => exact Or.inl rfl
  | cons dot front =>
      right
      have hquote : Case.lowerChar '"' = '"' := by decide
      simp only [Case.lower, String.toList_ofList, List.map_cons, List.map_reverse]
      refine List.mem_cons_of_mem _ (List.mem_reverse.mpr ?_)
      simp [hquote]

theorem shown_of_plain {path : Bytes} (h : Plain path) :
    String.ofList (shown path) = path.toText := by
  rw [shown, if_pos h, toText_of_plain h]

/-- A path that is shown between quotes has no ending of a source. -/
theorem takes_shown (dir : String) {path : Bytes} (h : ¬ Plain path) :
    (sources dir).takes (String.ofList (shown path)) = false := by
  have hquoted : shown path = ('"' :: path.flatMap escape) ++ ['"'] := by
    rw [shown, if_neg h, quoted, List.cons_append]
  have hextensions : ∀ e ∈ SourceFile.extensions, e ≠ "" ∧ '"' ∉ e.toList := by decide
  rw [ChangeScope.takes, SourceFile.hasExtension, hquoted, Bool.eq_false_iff, ne_eq,
    List.contains_iff_mem]
  intro hmem
  rcases ending_quote ('"' :: path.flatMap escape) with hempty | hquote
  · exact (hextensions _ hmem).1 hempty
  · exact (hextensions _ hmem).2 hquote

end Paths

section Lines

theorem le_of_mem_fields {c : Change} {f : List Char} {d : Char} (hf : f ∈ c.fields) (hd : d ∈ f) :
    0x20 ≤ d.toNat := by
  rcases List.mem_cons.mp hf with rfl | hf
  · rcases List.mem_cons.mp hd with rfl | hd
    · have hupper : 'A'.val ≤ c.letter.val ∧ c.letter.val ≤ 'Z'.val :=
        of_decide_eq_true c.isUpper_letter
      exact Nat.le_trans (by decide) (UInt32.le_iff_toNat_le.mp hupper.1)
    · have hdigit := List.all_eq_true.mp c.isDigit_score d hd
      simp only [Char.isDigit, Bool.and_eq_true, decide_eq_true_eq, UInt32.le_iff_toNat_le] at hdigit
      exact Nat.le_trans (by decide) hdigit.1
  · have hshown : ∃ path, f = shown path := by
      rcases List.mem_append.mp hf with hf | hf
      · obtain ⟨path, -, rfl⟩ := List.mem_map.mp hf
        exact ⟨path, rfl⟩
      · exact ⟨c.path, List.mem_singleton.mp hf⟩
    obtain ⟨path, rfl⟩ := hshown
    exact le_of_mem_shown hd

theorem mem_intercalate {x d : Char} : ∀ {fs : List (List Char)}, d ∈ [x].intercalate fs →
    d = x ∨ ∃ f ∈ fs, d ∈ f
  | [], h => by simp at h
  | [f], h => Or.inr ⟨f, List.mem_singleton_self f, by simpa using h⟩
  | f :: g :: fs, h => by
      rw [List.intercalate_cons_cons, List.append_assoc, List.singleton_append] at h
      rcases List.mem_append.mp h with hf | h
      · exact Or.inr ⟨f, List.mem_cons_self, hf⟩
      · rcases List.mem_cons.mp h with rfl | h
        · exact Or.inl rfl
        · rcases mem_intercalate h with hx | ⟨f', hf', hd⟩
          · exact Or.inl hx
          · exact Or.inr ⟨f', List.mem_cons_of_mem f hf', hd⟩

/-- The only control character of a line is the tab. -/
theorem mem_line {c : Change} {d : Char} (hd : d ∈ c.line) : d = '\t' ∨ 0x20 ≤ d.toNat := by
  rcases mem_intercalate hd with htab | ⟨f, hf, hd⟩
  · exact Or.inl htab
  · exact Or.inr (le_of_mem_fields hf hd)

/-- The fields of a line are read back, and the last path counts. -/
theorem parse?_line (c : Change) :
    ChangeScope.StatusLine.parse? (String.ofList c.line) =
      some ⟨c.letter, String.ofList (shown c.path)⟩ := by
  have htab : ∀ f ∈ c.fields, '\t' ∉ f := fun f hf hmem =>
    absurd (le_of_mem_fields hf hmem) (by decide)
  have hreturn : Blank.dropEndWhile (· = '\r') c.line = c.line := by
    refine List.rdropWhile_eq_self_iff.mpr fun hne hlast => ?_
    rw [decide_eq_true_eq] at hlast
    have hmem : '\r' ∈ c.line := hlast ▸ List.getLast_mem hne
    exact (mem_line hmem).elim (by decide) (by decide)
  have hpieces : Find.pieces '\t' (String.ofList (Blank.dropEndWhile (· = '\r')
      (String.ofList c.line).toList)) = c.fields.map String.ofList := by
    rw [String.toList_ofList, hreturn, Find.pieces, String.toList_ofList, Change.line,
      List.splitOn_intercalate '\t' htab (List.cons_ne_nil _ _)]
  simp only [ChangeScope.StatusLine.parse?, hpieces, Change.fields]
  cases hold : c.old with
  | none => simp
  | some old =>
      have hmoved : c.letter = 'R' ∨ c.letter = 'C' := c.moved_of_old (by simp [hold])
      simp [hmoved]

/-- The lines of a listing, and the empty text behind the last of them. -/
theorem pieces_text (changes : List Change) :
    Find.pieces '\n' (text changes) = changes.map (String.ofList ·.line) ++ [""] := by
  have hfeed : ∀ c : Change, '\n' ∉ c.line := fun c hmem =>
    (mem_line hmem).elim (by decide) (by decide)
  rw [Find.pieces, text, String.toList_ofList]
  induction changes with
  | nil => rfl
  | cons c changes ih =>
      rw [List.flatMap_cons, List.append_assoc]
      show (List.splitOn '\n' (c.line ++ '\n' :: changes.flatMap fun c => c.line ++ ['\n'])).map
        String.ofList = _
      rw [List.splitOn_append_cons_self, List.splitOn_eq_singleton (hfeed c), List.map_append, ih]
      rfl

/-- A listing is read line by line. -/
theorem readStatus_text (s : ChangeScope) (changes : List Change) :
    s.readStatus (text changes) =
      (changes.map fun c => ⟨c.letter, String.ofList (shown c.path)⟩).foldl s.record {} := by
  have hread : ChangeScope.StatusLine.parse? ∘ (fun c : Change => String.ofList c.line) =
      some ∘ fun c => ⟨c.letter, String.ofList (shown c.path)⟩ := by
    funext c
    rw [Function.comp_apply, parse?_line, Function.comp_apply]
  have hempty : ChangeScope.StatusLine.parse? "" = none := by decide
  rw [ChangeScope.readStatus, pieces_text, List.filterMap_append, List.filterMap_map, hread,
    List.filterMap_eq_map, List.filterMap_cons_none hempty, List.filterMap_nil, List.append_nil]

end Lines

section Told

/-- One line adds what its change tells. -/
theorem record_told (s : ChangeScope) (before : List Change) (c : Change) :
    s.record (told s before) ⟨c.letter, c.path.toText⟩ = told s (before ++ [c]) := by
  unfold ChangeScope.record told Change.place?
  by_cases htakes : s.takes c.path.toText = true
  · by_cases hadded : c.letter = 'A'
    · simp [htakes, hadded]
    · by_cases hdeleted : c.letter = 'D'
      · simp [htakes, hdeleted]
      · simp [htakes, hadded, hdeleted]
  · simp [htakes]

/-- A line with a quoted path adds nothing. -/
theorem record_shown (dir : String) (before : List Change) (c : Change) :
    (sources dir).record (told (sources dir) before) ⟨c.letter, String.ofList (shown c.path)⟩ =
      told (sources dir) (before ++ [c].filter (Plain ·.path)) := by
  by_cases hplain : Plain c.path
  · have hkept : [c].filter (Plain ·.path) = [c] := by simp [hplain]
    rw [shown_of_plain hplain, record_told, hkept]
  · have hleft : [c].filter (Plain ·.path) = [] := by simp [hplain]
    rw [hleft, List.append_nil, ChangeScope.record, takes_shown dir hplain]
    rfl

theorem foldl_record (dir : String) (changes before : List Change) :
    (changes.map fun c => ⟨c.letter, String.ofList (shown c.path)⟩).foldl (sources dir).record
        (told (sources dir) before) =
      told (sources dir) (before ++ changes.filter (Plain ·.path)) := by
  induction changes generalizing before with
  | nil => rw [List.map_nil, List.foldl_nil, List.filter_nil, List.append_nil]
  | cons c changes ih =>
      rw [List.map_cons, List.foldl_cons, record_shown, ih, List.append_assoc, ← List.filter_append,
        List.singleton_append]

/-- How many places stand in the lists of a change set. -/
def size (c : ChangeSet) : Nat := c.added.length + c.modified.length + c.deleted.length

/-- A change of a file that counts stands in exactly one of the lists. -/
theorem size_told (s : ChangeScope) (changes : List Change) :
    size (told s changes) = changes.countP fun c => s.takes c.path.toText := by
  unfold size told Change.place?
  induction changes with
  | nil => rfl
  | cons c changes ih =>
      rw [List.countP_cons, ← ih]
      by_cases htakes : s.takes c.path.toText = true
      · by_cases hadded : c.letter = 'A'
        · simp [htakes, hadded]
          omega
        · by_cases hdeleted : c.letter = 'D'
          · simp [htakes, hdeleted]
            omega
          · simp [htakes, hadded, hdeleted]
            omega
      · by_cases hadded : c.letter = 'A' <;> by_cases hdeleted : c.letter = 'D' <;>
          simp [htakes, hadded, hdeleted]

/-- Only the changes of files that count matter. -/
theorem told_filter (s : ChangeScope) {p : Change → Bool} {changes : List Change}
    (h : ∀ c ∈ changes, s.takes c.path.toText = true → p c = true) :
    told s (changes.filter p) = told s changes := by
  have hlist : ∀ q : Change → Bool, ((changes.filter p).filter q).filterMap (·.place? s) =
      (changes.filter q).filterMap (·.place? s) := by
    intro q
    rw [List.filter_comm, List.filterMap_filter]
    refine List.filterMap_congr fun c hc => ?_
    by_cases htakes : s.takes c.path.toText = true
    · rw [if_pos (h c (List.mem_of_mem_filter hc) htakes)]
    · rw [Change.place?, if_neg htakes, ite_self]
  unfold told
  rw [hlist, hlist, hlist]

end Told

/-- Of a listing the changes with plain paths are read, each once and in order.  The reading is
complete if and only if no source has a path that is shown between quotes. -/
theorem readStatus_listing (dir : String) (changes : List Change) :
    let read := (sources dir).readStatus (text changes)
    read = told (sources dir) (changes.filter (Plain ·.path)) ∧
      size read =
        (changes.filter (Plain ·.path)).countP (fun c => (sources dir).takes c.path.toText) ∧
      (read = told (sources dir) changes ↔
        ∀ c ∈ changes, (sources dir).takes c.path.toText = true → Plain c.path) := by
  have hread : (sources dir).readStatus (text changes) =
      told (sources dir) (changes.filter (Plain ·.path)) := by
    rw [readStatus_text]
    exact foldl_record dir changes []
  refine ⟨hread, by rw [hread, size_told], ?_⟩
  rw [hread]
  constructor
  · intro heq
    have hcount := congrArg size heq
    rw [size_told, size_told, List.countP_eq_countP_filter_add changes _ (Plain ·.path)] at hcount
    -- the counts agree, so no file that counts is among the changes with quoted paths
    have hnone : ∀ c ∈ changes.filter (fun c => !decide (Plain c.path)),
        ¬ (sources dir).takes c.path.toText = true := by
      refine List.countP_eq_zero.mp ?_
      omega
    intro c hc htakes
    by_contra hplain
    exact hnone c (List.mem_filter.mpr ⟨hc, by simpa using hplain⟩) htakes
  · intro hall
    exact told_filter _ fun c hc htakes => decide_eq_true (hall c hc htakes)

example :
    let ofText := Bytes.ofString
    (sources "src").readStatus (text [
      ⟨'A', [], none, ofText "a b.wxs", by decide, by decide, by decide⟩,
      ⟨'M', [], none, ofText "café.wxs", by decide, by decide, by decide⟩,
      ⟨'R', ['9', '0'], some (ofText "é.wxl"), ofText "e.wxl", by decide, by decide, by decide⟩]) =
      { added := ["src/a b.wxs"], modified := ["src/e.wxl"] } := by
  decide +kernel

section Quotes

/-- A digit tells what it was written for. -/
theorem digit?_octal (n : Nat) : Quoted.digit? 8 (octal n) = some (n % 8) := by
  have hall : ∀ m : Fin 8, Quoted.digit? 8 (octal m) = some m.val := by decide
  obtain ⟨m, hm, hn⟩ := octal_eq n
  rw [hm, hn]
  exact hall m

theorem number?_octal (b : UInt8) (rest : List Char) :
    Quoted.number? 8 3 0 (octal (b.toNat / 64) :: octal (b.toNat / 8) :: octal b.toNat :: rest) =
      some (b.toNat, rest) := by
  have hlt := b.toNat_lt
  simp only [Quoted.number?, digit?_octal, Option.bind_some, Option.some.injEq, Prod.mk.injEq,
    and_true]
  omega

theorem escape?_letter {b : UInt8} {c : Char} (h : (b, c) ∈ letters) (rest : List Char) :
    Quoted.escape? '"' (c :: rest) = some ([b], rest) := by
  simp only [letters, List.mem_cons, Prod.mk.injEq, List.not_mem_nil, or_false] at h
  rcases h with ⟨rfl, rfl⟩ | ⟨rfl, rfl⟩ | ⟨rfl, rfl⟩ | ⟨rfl, rfl⟩ | ⟨rfl, rfl⟩ | ⟨rfl, rfl⟩ |
    ⟨rfl, rfl⟩ | ⟨rfl, rfl⟩ | ⟨rfl, rfl⟩ <;> rfl

theorem escape?_octal (b : UInt8) (rest : List Char) :
    Quoted.escape? '"' (octal (b.toNat / 64) :: octal (b.toNat / 8) :: octal b.toNat :: rest) =
      some ([b], rest) := by
  have hlt := b.toNat_lt
  -- the first of three digits is none of the letters that stand for other escapes
  have hdigit : ∀ m, m < 4 → ∀ cs, Quoted.escape? '"' (octal m :: cs) =
      (Quoted.number? 8 3 0 (octal m :: cs)).bind fun p =>
        if p.1 < 256 then some ([UInt8.ofNat p.1], p.2) else none := by
    intro m hm cs
    obtain rfl | rfl | rfl | rfl : m = 0 ∨ m = 1 ∨ m = 2 ∨ m = 3 := by omega
    all_goals rfl
  rw [hdigit _ (by omega), number?_octal, Option.bind_some]
  simp only [hlt, if_true, UInt8.ofNat_toNat]

theorem char_of_isPlain {b : UInt8} (h : isPlain b = true) :
    Char.ofNat b.toNat ≠ '"' ∧ Char.ofNat b.toNat ≠ '\n' ∧ Char.ofNat b.toNat ≠ '\\' ∧
      Bytes.ofString (String.ofList [Char.ofNat b.toNat]) = [b] := by
  obtain ⟨hlow, hhigh, hquote, hslash⟩ := isPlain_iff.mp h
  have hne : ∀ c : Char, b.toNat ≠ c.toNat → Char.ofNat b.toNat ≠ c := fun c hc heq =>
    hc (by rw [← heq, toNat_char])
  have hfeed : b.toNat ≠ '\n'.toNat := Nat.ne_of_gt (Nat.lt_of_lt_of_le (by decide) hlow)
  have hascii : (Char.ofNat b.toNat).toNat < 0x80 := by
    rw [toNat_char]
    omega
  refine ⟨hne _ hquote, hne _ hfeed, hne _ hslash, ?_⟩
  rw [Bytes.ofString, String.toList_ofList, List.flatMap_singleton,
    Bytes.utf8EncodeChar_ascii hascii, toNat_char, UInt8.ofNat_toNat]

/-- A byte is read from the way it is shown between quotes. -/
theorem inside?_escape (b : UInt8) (rest : List Char) (fuel : Nat) :
    Quoted.inside? '"' (fuel + 1) (escape b ++ rest) =
      (Quoted.inside? '"' fuel rest).map ([b] :: ·) := by
  by_cases hplain : isPlain b = true
  · obtain ⟨hquote, hfeed, hslash, hb⟩ := char_of_isPlain hplain
    rw [escape, if_pos hplain, List.singleton_append, Quoted.inside?, if_neg hquote, if_neg hfeed,
      if_neg hslash, hb]
  · have hescape : ∃ cs, escape b ++ rest = '\\' :: cs ∧
        Quoted.escape? '"' cs = some ([b], rest) := by
      rw [escape, if_neg hplain]
      cases hletter : letters.lookup b with
      | some c => exact ⟨_, rfl, escape?_letter (Assoc.mem_of_lookup_eq_some hletter) rest⟩
      | none => exact ⟨_, rfl, escape?_octal b rest⟩
    obtain ⟨cs, hcs, hread⟩ := hescape
    rw [hcs, Quoted.inside?, if_neg (by decide), if_neg (by decide), if_pos rfl, hread,
      Option.bind_some]

/-- The escapes of a path are read up to the closing quote. -/
theorem inside?_escapes (path : Bytes) {fuel : Nat} (h : path.length < fuel) :
    Quoted.inside? '"' fuel (path.flatMap escape ++ ['"']) = some (path.map fun b => [b]) := by
  induction path generalizing fuel with
  | nil =>
      cases fuel with
      | zero => exact absurd h (Nat.not_lt_zero _)
      | succ fuel => rfl
  | cons b path ih =>
      cases fuel with
      | zero => exact absurd h (Nat.not_lt_zero _)
      | succ fuel =>
          rw [List.flatMap_cons, List.append_assoc, inside?_escape, ih (Nat.lt_of_succ_lt_succ h)]
          rfl

/-- The quoted form of a path tells its bytes. -/
theorem unquote?_quoted (path : Bytes) :
    Quoted.unquote? (String.ofList (quoted path)) = some path := by
  have hlength : path.length ≤ (path.flatMap escape).length := by
    induction path with
    | nil => exact Nat.zero_le _
    | cons b path ih =>
        have hne : 1 ≤ (escape b).length := by
          unfold escape
          split_ifs
          · exact Nat.le_refl 1
          · split <;> simp
        rw [List.flatMap_cons, List.length_append, List.length_cons]
        omega
  rw [Quoted.unquote?, String.toList_ofList, quoted]
  show (Quoted.inside? '"' _ _).map List.flatten = some path
  rw [inside?_escapes path (by rw [List.length_append]; omega), Option.map_some, ← List.flatMap_def,
    List.flatMap_singleton']

/-- A path between quotes has no blanks at its ends. -/
theorem trim_quoted (path : Bytes) :
    Blank.trim (String.ofList (quoted path)) = String.ofList (quoted path) := by
  have hquote : Blank.isBlank '"' = false := by decide
  rw [Blank.trim, String.toList_ofList, quoted, Blank.trimBy, Blank.dropEndWhile]
  simp [hquote]

/-- **A patch recovers what a listing hides.**  A path that is shown between quotes in the header of
a file is read as its own text, whatever its bytes are. -/
theorem plainName_headerName_shown {path : Bytes} (h : ¬ Plain path) :
    (Patch.headerName (Bytes.ofString (String.ofList (shown path)))).map Patch.plainName =
      .ok path.toText := by
  have hcut : Find.cutText? (String.ofList (shown path)) "\t" = none := by
    rw [Find.cutText?, Option.map_eq_none_iff, Find.cut?_eq_none_iff]
    rintro ⟨before, after, heq⟩
    have htab : '\t' ∈ (String.ofList (shown path)).toList := by
      rw [← heq]
      simp
    rw [String.toList_ofList] at htab
    exact absurd (le_of_mem_shown htab) (by decide)
  have hshown : shown path = quoted path := if_neg h
  rw [hshown] at hcut ⊢
  rw [Patch.headerName, Bytes.toText_ofString, trim_quoted, hcut]
  exact congrArg Except.ok (by rw [Patch.plainName, unquote?_quoted]; rfl)

end Quotes

end Listing
end InstallerLint
