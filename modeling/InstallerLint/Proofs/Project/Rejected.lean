import InstallerLint.Proofs.Project.Schedule

/-!
# A file that is no document

One more file is given to a run.  If it is left out, cannot be read or is no document, then nothing
of it is indexed, not even what stands before its fault.

**Files.**  The new file takes its place among the others in the order of the paths, and these stay
as they are (`exists_insert`).

**Documents.**  The documents of the run are the same (`documents_insert`), so every other file is
analysed against the same symbols.

**Result.**  The results are those without the file, with its parse failure at its place if it was
read (`run_insert`).
-/

namespace InstallerLint
namespace Project

section Insert

variable {front back : List String} {x : String}

/-- Only the clean paths of the files themselves count among those that were seen. -/
theorem go_congr {seen seen' files : List String}
    (h : ∀ f ∈ files, Path.clean f ∈ seen ↔ Path.clean f ∈ seen') :
    distinctFiles.go seen files = distinctFiles.go seen' files := by
  induction files generalizing seen seen' with
  | nil => rfl
  | cons f files ih =>
      have hrest : ∀ g ∈ files, Path.clean g ∈ seen ↔ Path.clean g ∈ seen' :=
        fun g hg => h g (List.mem_cons_of_mem _ hg)
      have hf := h f List.mem_cons_self
      unfold distinctFiles.go
      by_cases hseen : Path.clean f ∈ seen
      · rw [if_pos (by simpa using hseen), if_pos (by simpa using hf.mp hseen), ih hrest]
      · have hseen' : Path.clean f ∉ seen' := fun hmem => hseen (hf.mpr hmem)
        rw [if_neg (by simpa using hseen), if_neg (by simpa using hseen')]
        refine congrArg (f :: ·) (ih fun g hg => ?_)
        rw [List.mem_cons, List.mem_cons, hrest g hg]

theorem go_insert {seen : List String} (hnew : ∀ f ∈ front ++ back, Path.clean f ≠ Path.clean x)
    (hx : Path.clean x ∉ seen) :
    (distinctFiles.go seen (front ++ x :: back)).Perm
      (x :: distinctFiles.go seen (front ++ back)) := by
  induction front generalizing seen with
  | nil =>
      have hsame : distinctFiles.go (Path.clean x :: seen) back = distinctFiles.go seen back := by
        refine go_congr fun f hf => ?_
        simp [hnew f hf]
      rw [List.nil_append, List.nil_append, distinctFiles.go, if_neg (by simpa using hx), hsame]
  | cons f front ih =>
      have hrest : ∀ g ∈ front ++ back, Path.clean g ≠ Path.clean x :=
        fun g hg => hnew g (List.mem_cons_of_mem _ hg)
      rw [List.cons_append, List.cons_append, distinctFiles.go, distinctFiles.go]
      by_cases hseen : seen.contains (Path.clean f) = true
      · rw [if_pos hseen, if_pos hseen]
        exact ih hrest hx
      · rw [if_neg hseen, if_neg hseen]
        have hx' : Path.clean x ∉ Path.clean f :: seen := by
          rw [List.mem_cons, not_or]
          exact ⟨(hnew f List.mem_cons_self).symm, hx⟩
        exact ((ih hrest hx').cons f).trans (List.Perm.swap x f _)

/-- A new file takes its place and moves no other. -/
theorem exists_insert (hnew : ∀ f ∈ front ++ back, Path.clean f ≠ Path.clean x) :
    ∃ before after, distinctFiles (front ++ x :: back) = before ++ x :: after ∧
      distinctFiles (front ++ back) = before ++ after := by
  have hperm : (distinctFiles (front ++ x :: back)).Perm (x :: distinctFiles (front ++ back)) :=
    (Order.sort_perm _).trans
      ((go_insert hnew List.not_mem_nil).trans ((Order.sort_perm _).symm.cons x))
  obtain ⟨before, after, hsplit⟩ := List.append_of_mem (hperm.mem_iff.mpr List.mem_cons_self)
  refine ⟨before, after, hsplit, ?_⟩
  have hsorted := pairwise_distinctFiles (front ++ x :: back)
  rw [hsplit] at hperm hsorted
  refine List.Perm.eq_of_pairwise (fun a b _ _ hab hba => ?_)
    (pairwise_distinctFiles (front ++ back)) ?_ ?_
  · exact absurd hba (String.lt_asymm hab)
  · exact hsorted.sublist ((List.sublist_cons_self x after).append_left before)
  · exact ((List.perm_middle.symm.trans hperm).cons_inv).symm

variable {cfg : Config} {disk : Disk}

/-- A file that is no document leaves the documents of a run as they are. -/
theorem documents_insert (hnew : ∀ f ∈ front ++ back, Path.clean f ≠ Path.clean x)
    (hx : (readFile disk cfg x).document? = none) :
    documents cfg (front ++ x :: back) disk = documents cfg (front ++ back) disk := by
  obtain ⟨before, after, hwith, hwithout⟩ := exists_insert hnew
  simp [documents, hwith, hwithout, hx]

/-- The answers for a run and for one with one more file. -/
theorem exists_answers_insert (cfg : Config) (disk : Disk) (a : Analyzer) (r : Resolver)
    (hnew : ∀ f ∈ front ++ back, Path.clean f ≠ Path.clean x) :
    ∃ before after, answers a r cfg (front ++ back) disk = before ++ after ∧
      answers a r cfg (front ++ x :: back) disk =
        before ++ (((readFile disk cfg x).answer? a r).toList ++ after) ∧
      (∀ f ∈ before, f.file < x) ∧ ∀ f ∈ after, x < f.file := by
  obtain ⟨before, after, hwith, hwithout⟩ := exists_insert hnew
  have hsorted := pairwise_distinctFiles (front ++ x :: back)
  rw [hwith, List.pairwise_append, List.pairwise_cons] at hsorted
  obtain ⟨-, ⟨hafter, -⟩, hbefore⟩ := hsorted
  let answer (path : String) : Option FileResult := (readFile disk cfg path).answer? a r
  have hfile {f : FileResult} {l : List String} (hf : f ∈ l.filterMap answer) : f.file ∈ l := by
    obtain ⟨path, hpath, hanswer⟩ := List.mem_filterMap.mp hf
    rwa [(answer?_readFile path).1 f hanswer]
  refine ⟨before.filterMap answer, after.filterMap answer, ?_, ?_, ?_, ?_⟩
  · rw [answers, hwithout, List.filterMap_map, List.filterMap_append]
    rfl
  · have hx : (x :: after).filterMap answer = (answer x).toList ++ after.filterMap answer := by
      rw [List.filterMap_cons]
      cases answer x <;> rfl
    rw [answers, hwith, List.filterMap_map, List.filterMap_append]
    exact congrArg (before.filterMap answer ++ ·) hx
  · exact fun f hf => hbefore f.file (hfile hf) x List.mem_cons_self
  · exact fun f hf => hafter f.file (hfile hf)

end Insert

/-- The results of a run without a cache are the answers for its files. -/
theorem results_run_answers (rules : List Rule) (cfg : Config) (files : List String) (disk : Disk) :
    (run rules cfg none files disk false).results =
      answers (Analyzer.new rules cfg) (resolverOf cfg files disk) cfg files disk :=
  (results_run_uncached rules cfg files disk).trans (sort_eq_answers answers_perm)

theorem index_run (rules : List Rule) (cfg : Config) (cache : Option Cache) (files : List String)
    (disk : Disk) :
    (run rules cfg cache files disk false).index = indexOf (documents cfg files disk) := by
  simp only [run, documents]

/-- The level of a check in a bound analyser is the one that the settings give it. -/
theorem lookup_checks (rules : List Rule) (cfg : Config) (c : Check) :
    (Analyzer.new rules cfg).checks.lookup c = Analyzer.checkLevel? cfg c := by
  have hall : ∀ l : List Check, (l.filterMap fun c' =>
      (Analyzer.checkLevel? cfg c').map fun level => (c', level)).lookup c =
        if c ∈ l then Analyzer.checkLevel? cfg c else none := by
    intro l
    induction l with
    | nil => rfl
    | cons c' l ih =>
        rw [List.filterMap_cons]
        by_cases hc : c = c'
        · subst hc
          cases hlevel : Analyzer.checkLevel? cfg c with
          | none =>
              rw [Option.map_none, ih]
              simp [hlevel]
          | some level => simp
        · cases Analyzer.checkLevel? cfg c' with
          | none => simp [ih, hc]
          | some level => simp [List.lookup_cons, beq_false_of_ne hc, ih, hc]
  refine (hall Check.all).trans (if_pos ?_)
  cases c <;> decide

/-- A file that is left out or cannot be read is no document and has no result. -/
theorem readFile_of_skipped {cfg : Config} {disk : Disk} {x : String}
    (h : cfg.excludes x = true ∨ ∃ e, disk.read x = .error e) (a : Analyzer) (r : Resolver) :
    (readFile disk cfg x).document? = none ∧ (readFile disk cfg x).answer? a r = none := by
  unfold readFile
  rcases h with hex | ⟨e, he⟩
  · rw [if_pos hex]
    exact ⟨rfl, rfl⟩
  · rw [he]
    split_ifs <;> exact ⟨rfl, rfl⟩

/-- The finding that says why a file is no document, at the place where reading it ended. -/
def parseFinding (level : Severity) (path : String) (line col : Nat) (reason : String) :
    Diagnostic where
  ruleId := "PARSE-001"
  severity := level
  category := "validation"
  message := "Malformed XML: " ++ reason
  location := ⟨path, line, col, line, col⟩
  help := "Fix the XML syntax error; no other check can run on this file"
  fix := none
  related := []
  tags := []
  effortMinutes := 0
  docUrl := ""

/-- A parse failure has one finding, or none when its check does not run. -/
theorem diagnostics_parseFailure (rules : List Rule) (cfg : Config) (path : String)
    (e : ParseError) :
    (Analyzer.checkLevel? cfg .malformed = none →
      ((Analyzer.new rules cfg).parseFailure path e).diagnostics = []) ∧
    (∀ level, Analyzer.checkLevel? cfg .malformed = some level →
      ((Analyzer.new rules cfg).parseFailure path e).diagnostics =
        [parseFinding level path (max e.line 1) (max e.col 1) e.reason]) := by
  simp only [Analyzer.parseFailure, lookup_checks]
  constructor
  · intro hoff
    rw [hoff]
    rfl
  · intro level hlevel
    rw [hlevel]
    rfl

/-- The results of two runs of which one has one more file, when this is no document. -/
theorem results_insert (rules : List Rule) (cfg : Config) (disk : Disk) {front back : List String}
    {x : String} (hnew : ∀ f ∈ front ++ back, Path.clean f ≠ Path.clean x)
    (hx : (readFile disk cfg x).document? = none) :
    ∃ before after, (run rules cfg none (front ++ back) disk false).results = before ++ after ∧
      (run rules cfg none (front ++ x :: back) disk false).results =
        before ++ (((readFile disk cfg x).answer? (Analyzer.new rules cfg)
          (resolverOf cfg (front ++ back) disk)).toList ++ after) ∧
      (∀ f ∈ before, f.file < x) ∧ ∀ f ∈ after, x < f.file := by
  have hresolver :
      resolverOf cfg (front ++ x :: back) disk = resolverOf cfg (front ++ back) disk := by
    rw [resolverOf, documents_insert hnew hx]
  obtain ⟨before, after, hwithout, hwith, hsides⟩ := exists_answers_insert cfg disk
    (Analyzer.new rules cfg) (resolverOf cfg (front ++ back) disk) hnew
  refine ⟨before, after, (results_run_answers ..).trans hwithout, ?_, hsides⟩
  rw [← hwith, ← hresolver]
  exact results_run_answers ..

/-- **A bad file affects only itself.**  Give a run one more file, at any place in the list, with a
path that no other file has.  If the file is left out or cannot be read the results stay as they
are.  If it is no document one result is put in, between the results of the files before and behind
it; this has the finding that says why and where the file is no document, or none when that check
does not run.  The symbols are the same in all cases. -/
theorem run_insert (rules : List Rule) (cfg : Config) (disk : Disk) {front back : List String}
    {x : String} (hnew : ∀ f ∈ front ++ back, Path.clean f ≠ Path.clean x) :
    let R := run rules cfg none (front ++ back) disk false
    let R' := run rules cfg none (front ++ x :: back) disk false
    ((cfg.excludes x = true ∨ ∃ e, disk.read x = .error e) →
      R'.index = R.index ∧ R'.results = R.results) ∧
    ∀ source e, cfg.excludes x = false → disk.read x = .ok source →
      Document.parse source x = .error e →
      R'.index = R.index ∧
      ∃ before found after, R.results = before ++ after ∧
        R'.results = before ++ ⟨x, found, 0, false⟩ :: after ∧
        (∀ f ∈ before, f.file < x) ∧ (∀ f ∈ after, x < f.file) ∧
        (Analyzer.checkLevel? cfg .malformed = none → found = []) ∧
        ∀ level, Analyzer.checkLevel? cfg .malformed = some level →
          found = [parseFinding level x (max e.line 1) (max e.col 1) e.reason] := by
  intro R R'
  have hindex (hx : (readFile disk cfg x).document? = none) : R'.index = R.index := by
    rw [index_run, index_run, documents_insert hnew hx]
  constructor
  · intro hskip
    obtain ⟨hnone, hanswer⟩ :=
      readFile_of_skipped hskip (Analyzer.new rules cfg) (resolverOf cfg (front ++ back) disk)
    obtain ⟨before, after, hwithout, hwith, -⟩ := results_insert rules cfg disk hnew hnone
    refine ⟨hindex hnone, hwith.trans ?_⟩
    rw [hwithout, hanswer]
    rfl
  · intro source e hex hsource hparse
    have hread : readFile disk cfg x = .malformed x e := by
      simp [readFile, hex, hsource, hparse]
    have hnone : (readFile disk cfg x).document? = none := by
      rw [hread]
      rfl
    obtain ⟨before, after, hwithout, hwith, hbefore, hafter⟩ :=
      results_insert rules cfg disk hnew hnone
    obtain ⟨hoff, hon⟩ := diagnostics_parseFailure rules cfg x e
    rw [hread] at hwith
    exact ⟨hindex hnone, before, _, after, hwithout, hwith, hbefore, hafter, hoff, hon⟩

/-- Two documents, and between them a file that ends inside of a tag. -/
def strayFile : Disk where
  root := .dir [
    ("a.wxs", .file (Bytes.ofString "<Wix><Component Id='X'/></Wix>") 0),
    ("b.wxs", .file (Bytes.ofString "<a") 0),
    ("c.wxs", .file (Bytes.ofString "<Wix><ComponentRef Id='X'/></Wix>") 0)]

/-- The file that is no document comes between the two others. -/
theorem run_insert_strayFile :
    let R := run [] {} none ["/a.wxs", "/c.wxs"] strayFile false
    let R' := run [] {} none ["/a.wxs", "/b.wxs", "/c.wxs"] strayFile false
    (∀ f ∈ ["/a.wxs"] ++ ["/c.wxs"], Path.clean f ≠ Path.clean "/b.wxs") ∧
    R'.index = R.index ∧
    ∃ before after, R.results = before ++ after ∧
      R'.results = before ++ ⟨"/b.wxs",
        [parseFinding .blocker "/b.wxs" 1 1 "unexpected EOF"], 0, false⟩ :: after ∧
      (∀ f ∈ before, f.file < "/b.wxs") ∧ ∀ f ∈ after, "/b.wxs" < f.file := by
  intro R R'
  have hnew : ∀ f ∈ ["/a.wxs"] ++ ["/c.wxs"], Path.clean f ≠ Path.clean "/b.wxs" := by
    decide +kernel
  have hin : (({} : Config).excludes "/b.wxs") = false := by decide +kernel
  have hsource : strayFile.read "/b.wxs" = .ok (Bytes.ofString "<a") := rfl
  have hparse : Document.parse (Bytes.ofString "<a") "/b.wxs" =
      .error ⟨"/b.wxs", 1, 0, "unexpected EOF"⟩ := rfl
  have hlevel : Analyzer.checkLevel? {} .malformed = some .blocker := by decide +kernel
  obtain ⟨hindex, before, found, after, hwithout, hwith, hbefore, hafter, -, hon⟩ :=
    (run_insert [] {} strayFile hnew).2 (Bytes.ofString "<a") _ hin hsource hparse
  obtain rfl : found = [parseFinding .blocker "/b.wxs" 1 1 "unexpected EOF"] := hon .blocker hlevel
  exact ⟨hnew, hindex, before, after, hwithout, hwith, hbefore, hafter⟩

end Project
end InstallerLint
