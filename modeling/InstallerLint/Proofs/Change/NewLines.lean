import InstallerLint.Change.Basic
import InstallerLint.Proofs.Diagnostic.Listing
import InstallerLint.Proofs.Text.LineEnds
import InstallerLint.Proofs.Text.Positions
import InstallerLint.Proofs.Xml.Pieces

/-!
# New lines

A hunk shows an edit script: lines that are kept, deleted and inserted, each behind its mark.  The
lines that are found to be new are the inserted ones, by their numbers in the new file.

**Hunks.**  A line that is kept or inserted has a number in the new file, so every line moves the
count as it moves the new file (`inserts_cons_iff`).  What stands behind the mark of a line plays no
role, nor do the marks that a line break is missing, whether they are shown or left out
(`mem_added_iff`).

**Patches.**  The new lines of a file are those of all changes that have its place
(`mem_linesOf_foldl_iff`), and findings are kept by them (`limit_readPatch`).  Only files that are
there afterwards and have one of the endings count.
-/

namespace InstallerLint

namespace Patch

/-- What becomes of a line. -/
inductive LineKind where
  | kept
  /-- It is in the old file. -/
  | deleted
  /-- It is in the new file. -/
  | inserted
  deriving DecidableEq

/-- How a line is marked. -/
def LineKind.mark : LineKind → UInt8
  | .kept => 32
  | .deleted => 45
  | .inserted => 43

/-- How many lines of the new file a line is. -/
def LineKind.width : LineKind → Int
  | .deleted => 0
  | _ => 1

/-- A line of an edit script. -/
structure ScriptLine where
  kind : LineKind
  text : Bytes
  /-- Whether it is said that no line break follows. -/
  isLast : Bool := false
  single : 0x0A ∉ text

/-- A line as a hunk shows it. -/
def ScriptLine.shown (l : ScriptLine) : Bytes :=
  l.kind.mark :: l.text ++ [0x0A] ++ (if l.isLast then noNewline ++ [0x0A] else [])

/-- A line about which nothing else is said. -/
def ScriptLine.plain (l : ScriptLine) : ScriptLine := { l with isLast := false }

/-- A script as a hunk shows it. -/
def render (script : List ScriptLine) : Bytes := script.flatMap ScriptLine.shown

/-- A body shows a script.  A reader of patches may leave out what is said of missing line breaks, and
then also the line break at the end. -/
inductive Shows (script : List ScriptLine) : (body : Bytes) → Prop where
  | whole : Shows script (render script)
  | plain : Shows script (render (script.map ScriptLine.plain))
  | cut {body : Bytes} (h : body ++ [0x0A] = render (script.map ScriptLine.plain)) :
      Shows script body

/-- A script that starts at a line of the new file inserts the line with a number. -/
def Inserts (script : List ScriptLine) (start n : Int) : Prop :=
  ∃ before l after, script = before ++ l :: after ∧ l.kind = .inserted ∧
    n = start + (before.filter (·.kind ≠ .deleted)).length

section Hunks

variable {l : ScriptLine} {script : List ScriptLine} {body s : Bytes} {start n : Int}

theorem not_inserts_nil : ¬Inserts [] start n := by
  rintro ⟨before, l, after, h, -⟩
  simp at h

/-- The lines that a script inserts, line by line. -/
theorem inserts_cons_iff : Inserts (l :: script) start n ↔
    (l.kind = .inserted ∧ n = start) ∨ Inserts script (start + l.kind.width) n := by
  have hwidth : ∀ before : List ScriptLine,
      start + ((l :: before).filter (·.kind ≠ .deleted)).length =
        start + l.kind.width + (before.filter (·.kind ≠ .deleted)).length := by
    intro before
    cases hkind : l.kind <;> simp [hkind, LineKind.width] <;> omega
  constructor
  · rintro ⟨before, l', after, heq, hkind, hn⟩
    cases before with
    | nil =>
        obtain ⟨rfl, rfl⟩ := List.cons.inj heq
        exact .inl ⟨hkind, by simpa using hn⟩
    | cons first before =>
        obtain ⟨rfl, rfl⟩ := List.cons.inj heq
        exact .inr ⟨before, l', after, rfl, hkind, hn.trans (hwidth before)⟩
  · rintro (⟨hkind, rfl⟩ | ⟨before, l', after, rfl, hkind, hn⟩)
    · exact ⟨[], l, script, rfl, hkind, by simp⟩
    · exact ⟨l :: before, l', after, rfl, hkind, hn.trans (hwidth before).symm⟩

theorem inserts_map_plain_iff :
    Inserts (script.map ScriptLine.plain) start n ↔ Inserts script start n := by
  induction script generalizing start with
  | nil => exact Iff.rfl
  | cons l script ih =>
      rw [List.map_cons, inserts_cons_iff, inserts_cons_iff, ih]
      rfl

/-- A shown line adds its number when it is inserted, and moves the count as it moves the new file. -/
theorem addedFrom_shown (l : ScriptLine) (start : Int) (s : Bytes) :
    addedFrom start (l.shown ++ s).splitAfterLF =
      (if l.kind = .inserted then [start] else []) ++
        addedFrom (start + l.kind.width) s.splitAfterLF := by
  have hfull : Lines.Full (l.kind.mark :: l.text ++ [0x0A]) := by
    refine ⟨l.kind.mark :: l.text, ?_, rfl⟩
    cases hkind : l.kind <;> simp [LineKind.mark, l.single]
  have hmark : Lines.Full (noNewline ++ [0x0A]) := ⟨noNewline, by decide +kernel, rfl⟩
  have hrest : ∀ line, addedFrom line
      (Bytes.splitAfterLF ((if l.isLast then noNewline ++ [0x0A] else []) ++ s)) =
        addedFrom line s.splitAfterLF := by
    intro line
    split_ifs
    · rw [Lines.splitAfterLF_full hmark]
      rfl
    · rfl
  rw [ScriptLine.shown, List.append_assoc, Lines.splitAfterLF_full hfull, addedFrom, List.cons_append,
    List.head?_cons]
  cases hkind : l.kind <;> simp [LineKind.mark, LineKind.width, hrest]

theorem mem_added_render_iff :
    n ∈ addedFrom start (render script).splitAfterLF ↔ Inserts script start n := by
  induction script generalizing start with
  | nil => simp [render, Bytes.splitAfterLF, addedFrom, not_inserts_nil]
  | cons l script ih =>
      rw [render, List.flatMap_cons, addedFrom_shown, List.mem_append, inserts_cons_iff, ← ih]
      split_ifs with hkind <;> simp [hkind, render]

/-- A line break at the end adds no line. -/
theorem addedFrom_concat (line : Int) (body : Bytes) :
    addedFrom line (body ++ [0x0A]).splitAfterLF = addedFrom line body.splitAfterLF := by
  have hlast : ∀ (ls : List Bytes) (x : Bytes) (line : Int),
      addedFrom line (ls ++ [x ++ [0x0A], []]) = addedFrom line (ls ++ [x]) := by
    intro ls x
    induction ls with
    | nil => cases x <;> simp [addedFrom]
    | cons l ls ih => simp [addedFrom, ih]
  cases body with
  | nil => rfl
  | cons b body =>
      obtain ⟨ls, x, hsplit, hfull, hx⟩ := Lines.exists_split (List.cons_ne_nil b body)
      have hsplit : Bytes.splitAfterLF (b :: body) = ls ++ [x] := hsplit
      have hbody := Lines.flatten_splitAfterLF (b :: body)
      rw [hsplit, List.flatten_append, List.flatten_singleton] at hbody
      have hlonger : Bytes.splitAfterLF (b :: body ++ [0x0A]) = ls ++ [x ++ [0x0A], []] := by
        have hopen := Lines.splitAfterLF_full ⟨x, hx, rfl⟩ []
        rw [List.append_nil] at hopen
        rw [← hbody, List.append_assoc, Lines.splitAfterLF_flatten_append hfull, hopen]
        rfl
      rw [hlonger, hsplit, hlast]

/-- **New lines of a hunk.** -/
theorem mem_added_iff (h : Shows script body) :
    n ∈ (⟨start, body⟩ : Hunk).added ↔ Inserts script start n := by
  show n ∈ addedFrom start body.splitAfterLF ↔ _
  cases h with
  | whole => exact mem_added_render_iff
  | plain => rw [mem_added_render_iff, inserts_map_plain_iff]
  | cut h => rw [← addedFrom_concat, h, mem_added_render_iff, inserts_map_plain_iff]

end Hunks

section Blank

variable {ls : List Bytes} {line : Bytes} {b : UInt8}

/-- The lines of a text hold its bytes. -/
theorem mem_of_mem_lines {s : Bytes} (h : line ∈ lines s) (hb : b ∈ line) : b ∈ s := by
  have hreturn : ∀ piece : Bytes, b ∈ dropReturn piece → b ∈ piece := by
    intro piece hb
    rw [dropReturn] at hb
    split_ifs at hb
    · exact List.mem_of_mem_dropLast hb
    · exact hb
  rw [lines] at h
  split at h
  · cases h
  · rename_i last front hsplit
    have hpiece : ∀ piece ∈ last :: front, b ∈ piece → b ∈ s := by
      intro piece hpiece hb
      exact (Bytes.of_mem_splitLF (List.mem_reverse.mp (hsplit ▸ hpiece))).2 hb
    rcases List.mem_append.mp h with h | h
    · obtain ⟨piece, hmem, rfl⟩ := List.mem_map.mp (List.mem_reverse.mp h)
      exact hpiece piece (List.mem_cons_of_mem last hmem) (hreturn piece hb)
    · split_ifs at h
      · cases h
      · rw [List.mem_singleton.mp h] at hb
        exact hpiece last List.mem_cons_self hb

/-- Lines in which no header starts are all before the first file. -/
theorem opening_eq_done (h : ∀ line ∈ ls, begins line "diff --git " = false ∧
    begins line "--- " = false ∧ isOnlyIn line = false) (seen : Bool) (before : List Bytes) (p : Place) :
    Patch.opening seen before p ls = .done (before.reverse ++ ls) := by
  induction ls generalizing seen before p with
  | nil => simp [Patch.opening]
  | cons line ls ih =>
      obtain ⟨hgit, hfile, honly⟩ := h line List.mem_cons_self
      have hrest := ih fun l hl => h l (List.mem_cons_of_mem line hl)
      rw [Patch.opening, hgit, hfile, honly]
      simp [hrest]

/-- A patch of blanks has no files. -/
theorem parse_blank {patch : Bytes} (h : Blank.isAllBlank patch.toText = true) :
    parse patch = .ok [] := by
  have hnot : ∀ line ∈ lines patch, ∀ start : Bytes, ∀ b ∈ start, b < 0x80 →
      Blank.isBlank (Char.ofNat b.toNat) = false → ¬start <+: line := by
    intro line hline start b hb hascii hblank hstart
    have hchar := Bytes.mem_toText_of_ascii hascii (mem_of_mem_lines hline (hstart.subset hb))
    have := List.all_eq_true.mp h _ hchar
    rw [hblank] at this
    cases this
  have hgit : ∀ line ∈ lines patch, ¬Bytes.ofString "diff --git " <+: line := fun line hline =>
    hnot line hline _ 0x64 (by decide) (by decide) (by decide)
  have hfile : ∀ line ∈ lines patch, ¬Bytes.ofString "--- " <+: line := fun line hline =>
    hnot line hline _ 0x2D (by decide) (by decide) (by decide)
  have honly : ∀ line ∈ lines patch, ¬Bytes.ofString "Only in " <+: line := fun line hline =>
    hnot line hline _ 0x4F (by decide) (by decide) (by decide)
  have hbegins : ∀ {line : Bytes} {start : String}, ¬Bytes.ofString start <+: line →
      begins line start = false := fun h =>
    Bool.eq_false_iff.mpr fun hbegins => h (List.isPrefixOf_iff_prefix.mp hbegins)
  have hnone : ∀ line ∈ lines patch, begins line "diff --git " = false ∧
      begins line "--- " = false ∧ isOnlyIn line = false := by
    intro line hline
    refine ⟨hbegins (hgit line hline), hbegins (hfile line hline), ?_⟩
    rw [isOnlyIn, Xml.stripFront?_eq_none.mpr (honly line hline)]
    rfl
  rw [parse, files, opening_eq_done hnone false [] {}]
  cases hlines : lines patch with
  | nil => rfl
  | cons first more =>
      have hname := Xml.stripFront?_eq_none.mpr (hgit first (hlines ▸ List.mem_cons_self))
      simp [unchangedName?, hname]

end Blank

end Patch

namespace LineSet

variable {ls : LineSet} {file key : String} {new : List Int} {n : Int}

theorem linesOf_cons (file : String) (new : List Int) (ls : LineSet) (key : String) :
    LineSet.linesOf ((file, new) :: ls) key = if file = key then new else ls.linesOf key := by
  rw [linesOf, List.lookup_cons]
  by_cases hkey : file = key
  · simp [hkey]
  · rw [beq_eq_false_iff_ne.mpr (Ne.symm hkey), if_neg hkey]
    rfl

/-- Lines are added to those of one file. -/
theorem mem_linesOf_add_iff : n ∈ LineSet.linesOf (ls.add file new) key ↔
    n ∈ ls.linesOf key ∨ file = key ∧ n ∈ new := by
  induction ls with
  | nil =>
      rw [LineSet.add, linesOf_cons]
      by_cases hkey : file = key <;> simp [hkey, linesOf]
  | cons entry ls ih =>
      obtain ⟨f, old⟩ := entry
      rw [LineSet.add]
      split_ifs with hf
      · rw [linesOf_cons, linesOf_cons, hf]
        by_cases hkey : file = key <;> simp [hkey]
      · rw [linesOf_cons, linesOf_cons]
        by_cases hkey : f = key
        · rw [if_pos hkey, if_pos hkey]
          exact (or_iff_left fun h => hf (hkey.trans h.1.symm)).symm
        · rw [if_neg hkey, if_neg hkey]
          exact ih

theorem mem_linesOf_foldl_iff {news : List (String × List Int)} :
    n ∈ LineSet.linesOf (news.foldl (fun ls (f, new) => LineSet.add f new ls) ls) key ↔
      n ∈ ls.linesOf key ∨ ∃ new, (key, new) ∈ news ∧ n ∈ new := by
  induction news generalizing ls with
  | nil => simp
  | cons entry news ih =>
      obtain ⟨f, new⟩ := entry
      rw [List.foldl_cons, ih, mem_linesOf_add_iff, or_assoc]
      refine or_congr_right ?_
      simp only [List.mem_cons, Prod.mk.injEq, or_and_right, exists_or, and_assoc, exists_and_left,
        exists_eq_left, eq_comm (a := f)]

end LineSet

namespace ChangeScope

/-- A hunk and the script that it shows. -/
structure EditedHunk where
  hunk : Patch.Hunk
  script : List Patch.ScriptLine
  shows : Patch.Shows script hunk.body

/-- A file of a patch by its edit scripts. -/
structure EditedFile where
  newName : String
  hunks : List EditedHunk

/-- A file as it is read from a patch. -/
def EditedFile.change (f : EditedFile) : Patch.FileChange := ⟨f.newName, f.hunks.map (·.hunk)⟩

/-- The path of a file. -/
def EditedFile.path (f : EditedFile) : String := Find.stripFront f.newName "b/"

/-- A file counts when it is there afterwards and has one of the endings. -/
def EditedFile.Counts (f : EditedFile) (s : ChangeScope) : Prop :=
  f.newName ≠ "/dev/null" ∧ s.takes f.path = true

/-- A line of a file is inserted by a script of the file, if the file counts. -/
def InsertedIn (s : ChangeScope) (cwd : String) (files : List EditedFile) (file : String) (n : Int) :
    Prop :=
  ∃ f ∈ files, f.Counts s ∧ Path.resolve cwd (s.place f.path) = Path.resolve cwd file ∧
    ∃ h ∈ f.hunks, Patch.Inserts h.script h.hunk.newStart n

section Files

variable {s : ChangeScope} {cwd : String} {patch : Bytes} {files : List EditedFile}

theorem patchLines?_change {f : EditedFile} {key : String} {new : List Int} :
    s.patchLines? cwd f.change = some (key, new) ↔
      f.Counts s ∧ key = Path.resolve cwd (s.place f.path) ∧ new = f.change.hunks.flatMap (·.added) := by
  rw [patchLines?, Option.ite_none_right_eq_some, Bool.and_eq_true, decide_eq_true_eq,
    Option.some.injEq, Prod.mk.injEq]
  exact and_congr_right fun _ => and_congr eq_comm eq_comm

theorem mem_added_change_iff {f : EditedFile} {n : Int} : n ∈ f.change.hunks.flatMap (·.added) ↔
    ∃ h ∈ f.hunks, Patch.Inserts h.script h.hunk.newStart n := by
  rw [EditedFile.change, List.flatMap_map, List.mem_flatMap]
  exact exists_congr fun h => and_congr_right fun _ => Patch.mem_added_iff h.shows

/-- **What a patch says is new.** -/
theorem exists_readPatch (h : Patch.parse patch = .ok (files.map (·.change))) :
    ∃ ls, s.readPatch cwd patch = .ok ls ∧
      ∀ file n, ls.has cwd file n = true ↔ s.InsertedIn cwd files file n := by
  rw [readPatch]
  split_ifs with hblank
  · rw [Patch.parse_blank hblank, Except.ok.injEq] at h
    obtain rfl : files = [] := List.map_eq_nil_iff.mp h.symm
    exact ⟨[], rfl, fun file n => by simp [LineSet.has, LineSet.linesOf, InsertedIn]⟩
  · rw [h]
    refine ⟨_, rfl, fun file n => ?_⟩
    rw [LineSet.has, List.contains_iff_mem, LineSet.mem_linesOf_foldl_iff, List.filterMap_map]
    constructor
    · rintro (hmem | ⟨new, hnew, hmem⟩)
      · cases hmem
      · obtain ⟨f, hf, hlines⟩ := List.mem_filterMap.mp hnew
        obtain ⟨hcounts, hplace, rfl⟩ := patchLines?_change.mp hlines
        exact ⟨f, hf, hcounts, hplace.symm, mem_added_change_iff.mp hmem⟩
    · rintro ⟨f, hf, hcounts, hplace, hinserts⟩
      exact .inr ⟨_, List.mem_filterMap.mpr ⟨f, hf, patchLines?_change.mpr ⟨hcounts, hplace.symm, rfl⟩⟩,
        mem_added_change_iff.mpr hinserts⟩

/-- **New lines are exact.**  A hunk adds to the new lines of a file the numbers of the lines that its
script inserts and nothing else, whatever stands in the lines.  So of the findings in all results those
are kept that start on a line that the patch inserts in their file, when the file counts: it is there
afterwards and has one of the endings. -/
theorem limit_readPatch (h : Patch.parse patch = .ok (files.map (·.change))) :
    (∀ (script : List Patch.ScriptLine) (body : Bytes), Patch.Shows script body →
      ∀ (start : Int) (ls : LineSet) (file key : String) (n : Int),
        n ∈ (ls.add file (⟨start, body⟩ : Patch.Hunk).added).linesOf key ↔
          n ∈ ls.linesOf key ∨ file = key ∧ Patch.Inserts script start n) ∧
    ∃ ls keeps, s.readPatch cwd patch = .ok ls ∧
      (∀ d : Diagnostic, keeps d = true ↔ s.InsertedIn cwd files d.location.file d.location.line) ∧
      ∀ rs : List FileResult, ls.limit cwd rs =
        (rs.map fun r => { r with diagnostics := r.diagnostics.filter keeps },
          ((rs.flatMap (·.diagnostics)).filter fun d => !keeps d).length) := by
  constructor
  · intro script body hshows start ls file key n
    rw [LineSet.mem_linesOf_add_iff, Patch.mem_added_iff hshows]
  · obtain ⟨ls, hread, hnew⟩ := exists_readPatch h
    exact ⟨ls, _, hread, fun d => hnew d.location.file d.location.line,
      fun rs => FileResult.keep_eq _ rs⟩

/-- Lines that look like headers of files count like others, and so does a last one without a line
break: the finding on line 5 stays, the one on line 6 does not. -/
theorem limit_readPatch_lookalike :
    let at_ (line : Int) : Diagnostic := { (default : Diagnostic) with
      location := ⟨"a.wxs", line, 1, line, 2⟩ }
    ∃ ls, ChangeScope.readPatch { dir := "" } "/" (Bytes.ofString ("--- a/a.wxs\n+++ b/a.wxs\n" ++
        "@@ -3,2 +3,3 @@\n x\n--- y\n+++ y\n+z\n\\ No newline at end of file\n")) = .ok ls ∧
      ls.limit "/" [⟨"a.wxs", [at_ 5, at_ 6], 0, false⟩] = ([⟨"a.wxs", [at_ 5], 0, false⟩], 1) := by
  intro at_
  let script : List Patch.ScriptLine := [⟨.kept, [120], false, by decide⟩,
    ⟨.deleted, [45, 45, 32, 121], false, by decide⟩, ⟨.inserted, [43, 43, 32, 121], false, by decide⟩,
    ⟨.inserted, [122], true, by decide⟩]
  let hunk : EditedHunk := ⟨⟨3, Bytes.ofString " x\n--- y\n+++ y\n+z"⟩, script, .cut (by decide)⟩
  have hparse : Patch.parse (Bytes.ofString ("--- a/a.wxs\n+++ b/a.wxs\n" ++
      "@@ -3,2 +3,3 @@\n x\n--- y\n+++ y\n+z\n\\ No newline at end of file\n")) =
      .ok ([⟨"b/a.wxs", [hunk]⟩].map EditedFile.change) := rfl
  obtain ⟨-, ls, keeps, hread, hkeeps, hlimit⟩ :=
    @limit_readPatch { dir := "" } "/" _ [⟨"b/a.wxs", [hunk]⟩] hparse
  have hkeep : keeps (at_ 5) = true := (hkeeps _).mpr
    ⟨_, List.mem_cons_self, ⟨by decide, by decide +kernel⟩, by decide +kernel, hunk,
      List.mem_cons_self, script.take 3, _, [], rfl, rfl, rfl⟩
  have hdrop : keeps (at_ 6) = false := by
    rw [Bool.eq_false_iff]
    intro h
    obtain ⟨f, hf, -, -, h', hh', hinserts⟩ := (hkeeps _).mp h
    obtain rfl := List.mem_singleton.mp hf
    obtain rfl := List.mem_singleton.mp hh'
    simp [hunk, script, at_, Patch.inserts_cons_iff, Patch.not_inserts_nil, Patch.LineKind.width]
      at hinserts
  refine ⟨ls, hread, ?_⟩
  rw [hlimit]
  simp [hkeep, hdrop]

/-- An inserted line of a file with another ending is not among the new lines, so the finding that
starts on it is dropped. -/
theorem limit_drops_otherEnding :
    let d : Diagnostic := { (default : Diagnostic) with location := ⟨"notes.md", 1, 1, 1, 2⟩ }
    ∃ (f : EditedFile) (ls : LineSet),
      Patch.parse (Bytes.ofString "--- a/notes.md\n+++ b/notes.md\n@@ -1 +1 @@\n-a\n+b\n") =
        .ok [f.change] ∧
      f.path = d.location.file ∧
      (∃ h ∈ f.hunks, Patch.Inserts h.script h.hunk.newStart d.location.line) ∧
      ChangeScope.readPatch { dir := "" } "/"
        (Bytes.ofString "--- a/notes.md\n+++ b/notes.md\n@@ -1 +1 @@\n-a\n+b\n") = .ok ls ∧
      ls.limit "/" [⟨"notes.md", [d], 0, false⟩] = ([⟨"notes.md", [], 0, false⟩], 1) := by
  intro d
  let script : List Patch.ScriptLine :=
    [⟨.deleted, [97], false, by decide⟩, ⟨.inserted, [98], false, by decide⟩]
  let hunk : EditedHunk := ⟨⟨1, Bytes.ofString "-a\n+b\n"⟩, script, .whole⟩
  refine ⟨⟨"b/notes.md", [hunk]⟩, [], rfl, by decide, ⟨hunk, List.mem_cons_self, script.take 1, _, [],
    rfl, rfl, rfl⟩, rfl, rfl⟩

end Files

end ChangeScope
end InstallerLint
