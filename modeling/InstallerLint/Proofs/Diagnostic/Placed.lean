import InstallerLint.Baseline
import InstallerLint.Config.Basic
import InstallerLint.Proofs.Path
import InstallerLint.Report

/-!
# Where a project stands

Inside a project a file is known by its path from the project's directory (`Path.Inner`).  Joined
with the directory and seen from it again, the file has this path (`relativeFile_join`).

**Two dots.**  What starts with two dots is taken for a way out of the directory, also when it is a
name such as `..data`: such a file keeps its whole path.  All other files are `Visible`.

**Consequences.**  Fingerprints, baselines, reports and exclusion are made from what is seen, so
those of a project do not depend on the directory that it stands in (`seen_placed`).
-/

namespace InstallerLint

namespace Path

/-- A clean path that starts at the root. -/
structure Rooted (base : String) : Prop where
  isAbs : isAbs base = true
  clean : clean base = base

/-- A clean relative path that stays inside the directory it counts from and has no backslash. -/
structure Inner (rel : String) : Prop where
  relative : isAbs rel = false
  clean : clean rel = rel
  ne_up : rel ≠ ".."
  not_above : Find.startsWith rel "../" = false
  no_backslash : '\\' ∉ rel.toList

variable {base rel : String}

theorem Inner.eq_ofParts (h : Inner rel) : rel = ofParts false (cleanParts rel) := by
  have hclean := h.clean
  rw [Path.clean, h.relative] at hclean
  exact hclean.symm

/-- A path that stays inside has only names. -/
theorem Inner.proper (h : Inner rel) : ∀ n ∈ cleanParts rel, Proper n := by
  have hrel := h.eq_ofParts
  have hform := clean_cleanParts rel
  rw [h.relative] at hform
  obtain ⟨ups, names, hparts, hups, hnames, -⟩ := hform
  cases ups with
  | nil =>
      rw [hparts]
      exact hnames
  | cons up ups =>
      obtain rfl := hups up List.mem_cons_self
      rw [hparts, List.cons_append, ofParts_of_ne_nil (List.cons_ne_nil _ _), if_neg (by decide)]
        at hrel
      cases hrest : ups ++ names with
      | nil =>
          rw [hrest, String.intercalate_singleton] at hrel
          exact absurd hrel h.ne_up
      | cons next rest =>
          have habove := h.not_above
          rw [hrel, hrest, String.intercalate_cons_cons] at habove
          simp [Find.startsWith, String.toList_append] at habove

theorem dropCommon_append (front back : List String) :
    dropCommon front (front ++ back) = ([], back) := by
  induction front with
  | nil => cases back <;> rfl
  | cons part front ih => rw [List.cons_append, dropCommon, if_pos rfl, ih]

/-- A joined path has the parts of both. -/
theorem join_inner (hbase : Rooted base) (h : Inner rel) :
    join [base, rel] = ofParts true (cleanParts base ++ cleanParts rel) := by
  have hself : ofParts true (cleanParts base) = base := by
    have hclean := hbase.clean
    rwa [Path.clean, hbase.isAbs] at hclean
  by_cases hnil : cleanParts rel = []
  · have hrel : rel = "." := by
      have heq := h.eq_ofParts
      rwa [hnil] at heq
    have hne : base ≠ "" := by
      rintro rfl
      exact absurd hbase.isAbs (by decide)
    have hfilter : [base, "."].filter (· ≠ "") = [base, "."] := by simp [hne]
    have hjoined : "/".intercalate [base, "."] = base ++ "/" ++ "." := by
      rw [String.intercalate_cons_cons, String.intercalate_singleton]
    have habs : isAbs (base ++ "/" ++ ".") = true := by
      rw [String.append_assoc, isAbs_append hne, hbase.isAbs]
    rw [hnil, hrel, join, hfilter]
    dsimp only
    rw [hjoined, Path.clean, cleanParts, habs, parts_append, show parts "." = ["."] from rfl,
      List.foldl_append, List.append_nil, cleanParts, hbase.isAbs]
    rfl
  · have htext : rel = "/".intercalate (cleanParts rel) := by
      have heq := h.eq_ofParts
      rwa [ofParts_of_ne_nil hnil, if_neg (by decide)] at heq
    rw [← hbase.isAbs, ← join_names base hnil h.proper, ← htext]

/-- A path that was joined with a directory is reached from it. -/
theorem relative?_join (hbase : Rooted base) (h : Inner rel) :
    relative? base (join [base, rel]) = some rel := by
  have hform : Clean true (cleanParts base ++ cleanParts rel) :=
    (hbase.isAbs ▸ clean_cleanParts base).append h.proper
  have hjoin := join_inner hbase h
  have habs : isAbs (join [base, rel]) = true := by rw [hjoin, isAbs_ofParts hform]
  have hparts : cleanParts (join [base, rel]) = cleanParts base ++ cleanParts rel := by
    rw [hjoin, cleanParts_ofParts hform]
  have hclean : Path.clean (join [base, rel]) = join [base, rel] := by
    rw [Path.clean, habs, hparts, ← hjoin]
  rw [relative?, hbase.clean, hclean]
  by_cases hnil : cleanParts rel = []
  · have hrel : rel = "." := by
      have heq := h.eq_ofParts
      rwa [hnil] at heq
    have hsame : base = join [base, rel] := by
      rw [hjoin, hnil, List.append_nil, ← hbase.isAbs]
      exact hbase.clean.symm
    rw [if_pos hsame, hrel]
  · have hother : base ≠ join [base, rel] := by
      intro heq
      have hlen := congrArg List.length hparts
      rw [← heq, List.length_append] at hlen
      exact hnil (List.length_eq_zero_iff.mp (by omega))
    have hdot : join [base, rel] ≠ "." := by
      intro heq
      rw [heq] at habs
      exact absurd habs (by decide)
    rw [if_neg hother, if_neg (by simp [habs, hbase.isAbs]), if_neg hdot, baseParts, hparts]
    dsimp only
    rw [dropCommon_append]
    have heq := h.eq_ofParts
    rw [ofParts_of_ne_nil hnil, if_neg (by decide)] at heq
    simpa using heq.symm

end Path

/-- A location in a project that stands in a directory. -/
def Location.placed (base : String) (l : Location) : Location :=
  { l with file := Path.join [base, l.file] }

namespace Diagnostic

/-- A finding in a project that stands in a directory. -/
def placed (base : String) (d : Diagnostic) : Diagnostic :=
  { d with
    location := d.location.placed base
    related := d.related.map fun r => { r with location := r.location.placed base } }

/-- The files that a finding names. -/
def files (d : Diagnostic) : List String := d.location.file :: d.related.map (·.location.file)

/-- A path inside that is recognised as one. -/
structure Visible (rel : String) : Prop extends Path.Inner rel where
  stays : leavesBase rel = false

variable {base base' rel : String}

theorem slashes_eq (h : '\\' ∉ rel.toList) : slashes rel = rel := by
  have hmap : rel.toList.map (fun c => if c = '\\' then '/' else c) = rel.toList.map id := by
    refine List.map_congr_left fun c hc => if_neg ?_
    rintro rfl
    exact h hc
  rw [slashes, hmap, List.map_id, String.ofList_toList]

/-- A file of the project is seen by its path, unless that starts like one that leads outside. -/
theorem relativeFile_join (hbase : Path.Rooted base) (h : Path.Inner rel) :
    relativeFile (Path.join [base, rel]) base =
      if leavesBase rel then slashes (Path.join [base, rel]) else rel := by
  have hne : base ≠ "" := by
    rintro rfl
    exact absurd hbase.isAbs (by decide)
  rw [relativeFile, if_neg hne, Path.relative?_join hbase h]
  dsimp only
  split_ifs
  · rfl
  · exact slashes_eq h.no_backslash

/-- A visible file below a base is shown by its name below the base. -/
theorem relativeFile_visible (hbase : Path.Rooted base) (h : Visible rel) :
    relativeFile (Path.join [base, rel]) base = rel := by
  rw [relativeFile_join hbase h.toInner, h.stays, if_neg Bool.false_ne_true]

/-- A location below a base is seen from it as it was before. -/
theorem seenFrom_placed (hbase : Path.Rooted base) {l : Location} (h : Visible l.file) :
    Report.seenFrom base (l.placed base) = l := by
  show { l with file := relativeFile (Path.join [base, l.file]) base } = l
  rw [relativeFile_visible hbase h]

variable {d : Diagnostic}

/-- A finding below a base is seen from it as it was before. -/
theorem diagnosticFrom_placed (hbase : Path.Rooted base) (h : ∀ file ∈ d.files, Visible file) :
    Report.diagnosticFrom base (d.placed base) = d := by
  have hrelated : (d.placed base).related.map
      (fun r => { r with location := Report.seenFrom base r.location }) = d.related := by
    rw [placed, List.map_map]
    refine (List.map_congr_left fun r hr => ?_).trans (List.map_id _)
    have hfile := h r.location.file (List.mem_cons_of_mem _ (List.mem_map_of_mem hr))
    show { r with location := Report.seenFrom base (r.location.placed base) } = r
    rw [seenFrom_placed hbase hfile]
  rw [Report.diagnosticFrom, hrelated]
  show { d with location := Report.seenFrom base (d.location.placed base) } = d
  rw [seenFrom_placed hbase (h d.location.file List.mem_cons_self)]

theorem fingerprintText_placed (hbase : Path.Rooted base) (h : Visible d.location.file) :
    fingerprintText (d.placed base) base = fingerprintText d "" := by
  have hempty : relativeFile d.location.file "" = d.location.file := by
    rw [relativeFile, if_pos rfl, slashes_eq h.no_backslash]
  have hplaced : relativeFile (d.placed base).location.file base = d.location.file :=
    relativeFile_visible hbase h
  rw [fingerprintText, fingerprintText, hplaced, hempty]
  rfl

/-- The fingerprint does not depend on the base a project stands at. -/
theorem fingerprint_placed (hbase : Path.Rooted base) (h : Visible d.location.file) :
    (d.placed base).fingerprint base = d.fingerprint "" := by
  rw [fingerprint, fingerprint, fingerprintBy, fingerprintBy, fingerprintText_placed hbase h]

/-- Neither does the entry of a baseline. -/
theorem entry_placed (hbase : Path.Rooted base) (h : Visible d.location.file) :
    BaselineEntry.of (d.placed base) base = BaselineEntry.of d "" := by
  have hempty : relativeFile d.location.file "" = d.location.file := by
    rw [relativeFile, if_pos rfl, slashes_eq h.no_backslash]
  have hplaced : relativeFile (d.placed base).location.file base = d.location.file :=
    relativeFile_visible hbase h
  rw [BaselineEntry.of, BaselineEntry.of, fingerprint_placed hbase h, hplaced, hempty]
  rfl

end Diagnostic

open Diagnostic

namespace FileResult

/-- A result of a project that stands in a directory. -/
def placed (base : String) (r : FileResult) : FileResult :=
  { r with
    file := Path.join [base, r.file]
    diagnostics := r.diagnostics.map (·.placed base) }

/-- The files that a result names. -/
def files (r : FileResult) : List String := r.file :: r.diagnostics.flatMap (·.files)

variable {base : String} {r : FileResult} {rs : List FileResult}

theorem visible_of_mem (h : ∀ file ∈ r.files, Visible file) {d : Diagnostic}
    (hd : d ∈ r.diagnostics) : ∀ file ∈ d.files, Visible file :=
  fun file hfile => h file (List.mem_cons_of_mem _ (List.mem_flatMap.mpr ⟨d, hd, hfile⟩))

/-- Neither does the result of a file. -/
theorem resultFrom_placed (hbase : Path.Rooted base) (h : ∀ file ∈ r.files, Visible file) :
    Report.resultFrom base (r.placed base) = r := by
  have hdiagnostics : (r.placed base).diagnostics.map (Report.diagnosticFrom base) =
      r.diagnostics := by
    rw [placed, List.map_map]
    refine (List.map_congr_left fun d hd => ?_).trans (List.map_id _)
    exact diagnosticFrom_placed hbase (visible_of_mem h hd)
  have hfile : relativeFile (r.placed base).file base = r.file :=
    relativeFile_visible hbase (h r.file List.mem_cons_self)
  rw [Report.resultFrom, hdiagnostics, hfile]
  rfl

theorem flatMap_placed (base : String) (rs : List FileResult) :
    (rs.map (placed base)).flatMap (·.diagnostics) =
      (rs.flatMap (·.diagnostics)).map (·.placed base) := by
  rw [List.flatMap_map, List.map_flatMap]
  rfl

/-- Neither do the counts of a report. -/
theorem summary_placed (base : String) (rs : List FileResult) (filtered : Int) :
    Report.Summary.of (rs.map (placed base)) filtered = Report.Summary.of rs filtered := by
  have hissues : ((rs.map (placed base)).filter fun r => !r.diagnostics.isEmpty).length =
      (rs.filter fun r => !r.diagnostics.isEmpty).length := by
    rw [List.filter_map, List.length_map]
    simp [Function.comp_def, placed]
  have htotal : total (rs.map (placed base)) = total rs := by
    simp [total, Function.comp_def, placed]
  have hsuppressed : (rs.map (placed base)).map (·.suppressed) = rs.map (·.suppressed) := by
    rw [List.map_map]
    rfl
  have hlevels : ((rs.map (placed base)).flatMap (·.diagnostics)).map (·.severity.text) =
      (rs.flatMap (·.diagnostics)).map (·.severity.text) := by
    rw [flatMap_placed, List.map_map]
    rfl
  rw [Report.Summary.of, hissues, htotal, hsuppressed, hlevels, List.length_map]
  rfl

/-- A baseline is the same for a project wherever it stands. -/
theorem ofResults_placed (hbase : Path.Rooted base)
    (h : ∀ r ∈ rs, ∀ file ∈ r.files, Visible file) (now : Int) :
    Baseline.ofResults (rs.map (placed base)) base now = Baseline.ofResults rs "" now := by
  have hentries : ((rs.map (placed base)).flatMap (·.diagnostics)).map (BaselineEntry.of · base) =
      (rs.flatMap (·.diagnostics)).map (BaselineEntry.of · "") := by
    rw [flatMap_placed, List.map_map]
    refine List.map_congr_left fun d hd => ?_
    obtain ⟨r, hr, hd⟩ := List.mem_flatMap.mp hd
    exact entry_placed hbase (visible_of_mem (h r hr) hd _ List.mem_cons_self)
  rw [Baseline.ofResults, hentries]
  rfl

variable {base' : String} {o o' : ReportOptions}

/-- A finding is printed alike from two places when its preview is. -/
theorem findingText_placed (hbase : Path.Rooted base) (hbase' : Path.Rooted base')
    (ho : o.base = base) (ho' : o'.base = base') (hcolor : o.color = o'.color) {d : Diagnostic}
    (hpreview : o.preview (d.placed base) = o'.preview (d.placed base'))
    (h : ∀ file ∈ d.files, Visible file) :
    Report.findingText o (d.placed base) = Report.findingText o' (d.placed base') := by
  rw [Report.findingText, Report.findingText, ho, ho', diagnosticFrom_placed hbase h,
    diagnosticFrom_placed hbase' h, hpreview, hcolor]
  rfl

/-- A report tells the same of a project wherever it stands. -/
theorem render_placed (hbase : Path.Rooted base) (hbase' : Path.Rooted base')
    (h : ∀ r ∈ rs, ∀ file ∈ r.files, Visible file) (ho : o.base = base) (ho' : o'.base = base')
    (hcolor : o.color = o'.color) (hfiltered : o.filtered = o'.filtered)
    (hpreview : ∀ d : Diagnostic, o.preview (d.placed base) = o'.preview (d.placed base'))
    (format : ReportFormat) :
    Report.render format (rs.map (placed base)) o =
      Report.render format (rs.map (placed base')) o' := by
  cases format with
  | json =>
      have hjson {place : String} (hplace : Path.Rooted place) :
          (rs.map (placed place)).map (fun r => (Report.resultFrom place r).toJson) =
            rs.map (·.toJson) := by
        rw [List.map_map]
        refine List.map_congr_left fun r hr => ?_
        rw [Function.comp_apply, resultFrom_placed hplace (h r hr)]
      rw [Report.render, Report.render, Report.asJson, Report.asJson, summary_placed,
        summary_placed, ho, ho', hjson hbase, hjson hbase', hfiltered]
  | text =>
      have htexts : ((rs.map (placed base)).flatMap (·.diagnostics)).map
            (fun d => Report.findingText o d ++ "\n") =
          ((rs.map (placed base')).flatMap (·.diagnostics)).map
            (fun d => Report.findingText o' d ++ "\n") := by
        rw [flatMap_placed, flatMap_placed, List.map_map, List.map_map]
        refine List.map_congr_left fun d hd => ?_
        obtain ⟨r, hr, hd⟩ := List.mem_flatMap.mp hd
        rw [Function.comp_apply, Function.comp_apply, findingText_placed hbase hbase' ho ho' hcolor
          (hpreview d) (visible_of_mem (h r hr) hd)]
      rw [Report.render, Report.render, Report.asText, Report.asText, summary_placed,
        summary_placed, htexts, hfiltered]

end FileResult

/-- What is left out is the same from two places. -/
theorem Config.excludes_placed {base base' rel : String} (hbase : Path.Rooted base)
    (hbase' : Path.Rooted base') (h : Visible rel) {c c' : Config} (hroot : c.root = base)
    (hroot' : c'.root = base') (hexclude : c.exclude = c'.exclude) :
    c.excludes (Path.join [base, rel]) = c'.excludes (Path.join [base', rel]) := by
  rw [excludes, excludes, patternPath, patternPath, hroot, hroot', relativeFile_visible hbase h,
    relativeFile_visible hbase' h, hexclude]

namespace Diagnostic

/-- **Places of a project.**  A file that is joined with the directory of its project is seen by
its path in the project, unless this path starts with two dots.  So fingerprints, baselines,
reports and exclusion are the same for a project that stands in two directories. -/
theorem seen_placed {base base' : String} (hbase : Path.Rooted base) (hbase' : Path.Rooted base') :
    (∀ rel, Path.Inner rel → relativeFile (Path.join [base, rel]) base =
      if leavesBase rel then slashes (Path.join [base, rel]) else rel) ∧
    (∀ d : Diagnostic, Visible d.location.file →
      (d.placed base).fingerprint base = (d.placed base').fingerprint base' ∧
      BaselineEntry.of (d.placed base) base = BaselineEntry.of (d.placed base') base' ∧
      ∀ b : Baseline, b.accepts (d.placed base) base = b.accepts (d.placed base') base') ∧
    (∀ rs : List FileResult, (∀ r ∈ rs, ∀ file ∈ r.files, Visible file) →
      (∀ now, Baseline.ofResults (rs.map (·.placed base)) base now =
        Baseline.ofResults (rs.map (·.placed base')) base' now) ∧
      (∀ r ∈ rs, Report.resultFrom base (r.placed base) = r) ∧
      ∀ (o o' : ReportOptions) (format : ReportFormat), o.base = base → o'.base = base' →
        o.color = o'.color → o.filtered = o'.filtered →
        (∀ d : Diagnostic, o.preview (d.placed base) = o'.preview (d.placed base')) →
        Report.render format (rs.map (·.placed base)) o =
          Report.render format (rs.map (·.placed base')) o') ∧
    (∀ (c c' : Config) (rel : String), c.root = base → c'.root = base' → c.exclude = c'.exclude →
      Visible rel → c.excludes (Path.join [base, rel]) = c'.excludes (Path.join [base', rel])) := by
  refine ⟨fun rel h => relativeFile_join hbase h, fun d h => ?_, fun rs h => ?_, ?_⟩
  · have hfingerprint : (d.placed base).fingerprint base = (d.placed base').fingerprint base' := by
      rw [fingerprint_placed hbase h, fingerprint_placed hbase' h]
    refine ⟨hfingerprint, by rw [entry_placed hbase h, entry_placed hbase' h], fun b => ?_⟩
    rw [Baseline.accepts, Baseline.accepts, hfingerprint]
  · refine ⟨fun now => ?_, fun r hr => FileResult.resultFrom_placed hbase (h r hr), ?_⟩
    · rw [FileResult.ofResults_placed hbase h, FileResult.ofResults_placed hbase' h]
    · intro o o' format ho ho' hcolor hfiltered hpreview
      exact FileResult.render_placed hbase hbase' h ho ho' hcolor hfiltered hpreview format
  · intro c c' rel hroot hroot' hexclude h
    exact Config.excludes_placed hbase hbase' h hroot hroot' hexclude

theorem seen_placed_twoPlaces :
    relativeFile "/proj/src/a.wxs" "/proj" = "src/a.wxs" ∧
    relativeFile "/proj/..data/a.wxs" "/proj" = "/proj/..data/a.wxs" ∧
    ∀ d : Diagnostic, d.location.file = "src/a.wxs" →
      (d.placed "/proj").fingerprint "/proj" = (d.placed "/srv/work").fingerprint "/srv/work" := by
  have hsrc : Path.Inner "src/a.wxs" := ⟨by decide, by decide, by decide, by decide, by decide⟩
  have hdata : Path.Inner "..data/a.wxs" := ⟨by decide, by decide, by decide, by decide, by decide⟩
  have hproj : Path.Rooted "/proj" := ⟨by decide, by decide⟩
  have hwork : Path.Rooted "/srv/work" := ⟨by decide, by decide⟩
  obtain ⟨hseen, hsame, -⟩ := seen_placed hproj hwork
  refine ⟨?_, ?_, fun d hd => (hsame d ?_).1⟩
  · rw [show "/proj/src/a.wxs" = Path.join ["/proj", "src/a.wxs"] by decide, hseen _ hsrc]
    decide
  · rw [show "/proj/..data/a.wxs" = Path.join ["/proj", "..data/a.wxs"] by decide, hseen _ hdata]
    decide
  · rw [hd]
    exact ⟨hsrc, by decide⟩

end Diagnostic
end InstallerLint
