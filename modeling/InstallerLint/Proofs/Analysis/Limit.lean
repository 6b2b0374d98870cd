import InstallerLint.Proofs.Rule.Engine

/-!
# Limits and findings that are turned off

A document is asked all rules and all checks.  What a comment turns off is taken away, what is left
is listed in order, and only then a limit keeps the front of the list.

**Nothing is lost before the limit.**  What is listed without a limit and what is turned off are
together what was found (`listed_append_perm`), and this is what the rules and the checks have to say
(`findings_perm`).

**A limit only cuts.**  It changes neither the order nor the number of what is turned off, and the
statistics count what it leaves (`analyze_limited`).
-/

namespace InstallerLint

/-- Settings without a limit. -/
def Config.unlimited (cfg : Config) : Config := { cfg with maxDiagnostics := 0 }

/-- Statistics give the numbers of some findings by rule and by level, and no other numbers. -/
structure Stats.Counts (s : Stats) (ds : List Diagnostic) : Prop where
  byRule : ∀ id, s.byRule.lookup id = Engine.entry (ds.countP (·.ruleId = id))
  byLevel : ∀ level : Severity,
    s.bySeverity.lookup level.text = Engine.entry (ds.countP (·.severity = level))
  noOther : ∀ name, (∀ level : Severity, name ≠ level.text) → s.bySeverity.lookup name = none

theorem Stats.counts_recount (s : Stats) (ds : List Diagnostic) : (s.recount ds).Counts ds where
  byRule := fun id => Engine.lookup_ofNames_map (·.ruleId) ds id
  byLevel := by
    intro level
    have hlevel (x : Diagnostic) : x.severity = level ↔ x.severity.text = level.text :=
      ⟨congrArg _, Severity.text_injective⟩
    simp only [hlevel]
    exact Engine.lookup_ofNames_map (·.severity.text) ds level.text
  noOther := by
    intro name hname
    have hnone : ds.countP (·.severity.text = name) = 0 :=
      List.countP_eq_zero.mpr fun x _ => by simpa using (hname x.severity).symm
    refine (Engine.lookup_ofNames_map (·.severity.text) ds name).trans ?_
    rw [hnone]
    rfl

namespace Analyzer

/-- A comment in a document turns a finding off. -/
def isOff (d : Document) (x : Diagnostic) : Bool :=
  (Suppression.Set.ofSource d.source).isSuppressed x.ruleId x.location.line

/-- What the checks find that run under some settings. -/
def checked (cfg : Config) (d : Document) (r : Resolver) : List Diagnostic :=
  Check.all.flatMap fun c => ((checkLevel? cfg c).map fun level => c.run level d r).getD []

/-- What rules and checks find under some settings: the findings of all pairs of an element and a
rule, and those of the checks. -/
def reported (rules : List Rule) (cfg : Config) (d : Document) (r : Resolver) : List Diagnostic :=
  Engine.naive rules (cfg.selection (byDefault rules)) d ++ checked cfg d r

variable {rules : List Rule} {cfg : Config} {d : Document} {r : Resolver} {m : Memo}

/-- The findings of the checks are those of the selected checks, in their order. -/
theorem checkFindings_new (rules : List Rule) (cfg : Config) (d : Document) (r : Resolver) :
    (new rules cfg).checkFindings d r = checked cfg d r := by
  have hlist (cs : List Check) :
      (cs.filterMap fun c => (checkLevel? cfg c).map fun level => (c, level)).flatMap
          (fun p => p.1.run p.2 d r) =
        cs.flatMap fun c => ((checkLevel? cfg c).map fun level => c.run level d r).getD [] := by
    induction cs with
    | nil => rfl
    | cons c cs ih =>
        rw [List.filterMap_cons, List.flatMap_cons, ← ih]
        cases checkLevel? cfg c with
        | none => rfl
        | some level => rfl
  exact hlist Check.all

/-- What is found is what rules and checks report, in some order. -/
theorem findings_perm (hd : d.IsMade) (hm : m.Faithful) :
    ((new rules cfg).findings d r m).1.Perm (reported rules cfg d r) := by
  have hrules : ((new rules cfg).engine.evaluate d m).1.Perm
      (Engine.naive rules (cfg.selection (byDefault rules)) d) := by
    refine (Engine.evaluate_perm (Int.le_refl 0) d m).trans ?_
    have hemitted : ((new rules cfg).engine.askAll d d.ids m).1 =
        Engine.emitted rules (cfg.selection (byDefault rules)) d := Engine.askAll_eq_emitted hm
    exact (List.Perm.of_eq hemitted).trans (Engine.emitted_perm_naive hd.forest)
  exact hrules.append (List.Perm.of_eq (checkFindings_new rules cfg d r))

/-- Findings do not depend on the patterns that were read before. -/
theorem findings_fst (a : Analyzer) (d : Document) (r : Resolver) (hm : m.Faithful) :
    (a.findings d r m).1 = (a.findings d r []).1 := by
  have hengine := (Engine.transparent_evaluate a.engine d m hm).1
  exact congrArg (· ++ a.checkFindings d r) hengine

/-- What is listed for a document when there is no limit. -/
def listed (a : Analyzer) (d : Document) (r : Resolver) : List Diagnostic :=
  Diagnostic.sort ((a.findings d r []).1.filter fun x => !isOff d x)

/-- Suppression splits the findings in two filters. -/
theorem split_findings (ds : List Diagnostic) :
    (Suppression.Set.ofSource d.source).split ds =
      (ds.filter fun x => !isOff d x, ds.filter (isOff d)) := by
  unfold Suppression.Set.split
  rw [List.partition_eq_filter_filter]
  congr 1
  exact List.filter_congr fun x _ => Bool.not_not (isOff d x)

/-- The result of a file: what is listed up to the limit, and how many are off. -/
theorem analyze_fst (a : Analyzer) (d : Document) (r : Resolver) (hm : m.Faithful) :
    (a.analyze d r m).1 = ⟨d.path, Selection.cap a.maxDiagnostics (a.listed d r),
      ((a.findings d r []).1.filter (isOff d)).length, false⟩ := by
  simp only [analyze, split_findings, findings_fst a d r hm]
  rfl

/-- The counts of a file are those of the findings it shows. -/
theorem analyze_stats (a : Analyzer) (d : Document) (r : Resolver) (m : Memo) :
    (a.analyze d r m).2.1.Counts (a.analyze d r m).1.diagnostics :=
  Stats.counts_recount _ _

theorem isOff_of_mem_listed {a : Analyzer} {x : Diagnostic} (h : x ∈ a.listed d r) :
    isOff d x = false := by
  have hmem := (Diagnostic.sort_perm _).mem_iff.mp h
  simpa using (List.mem_filter.mp hmem).2

/-- What is listed and what is suppressed make up what is found. -/
theorem listed_append_perm (a : Analyzer) (d : Document) (r : Resolver) :
    (a.listed d r ++ (a.findings d r []).1.filter (isOff d)).Perm (a.findings d r []).1 := by
  have hkept : (a.listed d r ++ (a.findings d r []).1.filter (isOff d)).Perm
      (((a.findings d r []).1.filter fun x => !isOff d x) ++
        (a.findings d r []).1.filter (isOff d)) :=
    (Diagnostic.sort_perm _).append_right _
  exact hkept.trans (List.perm_append_comm.trans (List.filter_append_perm (isOff d) _))

/-- **A limit only cuts.**  Without a limit the findings that are listed and those that are turned
off are together what the rules and the checks find, each as often as it is found, and the list is
in order.  With a limit the list is the front of this one and as much is turned off.  Statistics
count what is listed, and it does not matter which patterns were read before. -/
theorem analyze_limited (rules : List Rule) (cfg : Config) (hd : d.IsMade) (r : Resolver)
    {m m' : Memo} (hm : m.Faithful) (hm' : m'.Faithful) {whole front : FileResult}
    {counts counts' : Stats} {k k' : Memo}
    (hwhole : (new rules cfg.unlimited).analyze d r m = (whole, counts, k))
    (hfront : (new rules cfg).analyze d r m' = (front, counts', k')) :
    (whole.diagnostics ++ (reported rules cfg d r).filter (isOff d)).Perm
        (reported rules cfg d r) ∧
      (∀ x ∈ whole.diagnostics, isOff d x = false) ∧
      whole.suppressed = ((reported rules cfg d r).filter (isOff d)).length ∧
      whole.diagnostics.Pairwise Diagnostic.Precedes ∧
      front.diagnostics = (if 0 < cfg.maxDiagnostics then
        whole.diagnostics.take cfg.maxDiagnostics.toNat else whole.diagnostics) ∧
      front.suppressed = whole.suppressed ∧
      counts.Counts whole.diagnostics ∧ counts'.Counts front.diagnostics := by
  have hfound : ((new rules cfg).findings d r []).1.Perm (reported rules cfg d r) :=
    findings_perm hd Memo.faithful_nil
  have hoff := hfound.filter (isOff d)
  obtain rfl : whole = ⟨d.path, (new rules cfg).listed d r,
      (((new rules cfg).findings d r []).1.filter (isOff d)).length, false⟩ :=
    (congrArg Prod.fst hwhole).symm.trans (analyze_fst (new rules cfg.unlimited) d r hm)
  obtain rfl : front = ⟨d.path, Selection.cap cfg.maxDiagnostics ((new rules cfg).listed d r),
      (((new rules cfg).findings d r []).1.filter (isOff d)).length, false⟩ :=
    (congrArg Prod.fst hfront).symm.trans (analyze_fst (new rules cfg) d r hm')
  have hcounts := analyze_stats (new rules cfg.unlimited) d r m
  have hcounts' := analyze_stats (new rules cfg) d r m'
  rw [hwhole] at hcounts
  rw [hfront] at hcounts'
  have hlisted := listed_append_perm (new rules cfg) d r
  refine ⟨?_, fun x hx => isOff_of_mem_listed hx, hoff.length_eq, Diagnostic.pairwise_sort _, rfl,
    rfl, hcounts, hcounts'⟩
  exact ((hoff.symm.append_left _).trans hlisted).trans hfound

/-- What is turned off does not use up the limit. -/
theorem analyze_limited_turnedOff :
    let source := Bytes.ofString "<a><!--wix-analyzer-disable-line WIX-1--><b/><b/></a>"
    let rules : List Rule := [
      { id := "WIX-1", element := "*", message := "any" },
      { id := "WIX-2", element := "b", message := "leaf" }]
    let cfg : Config := { maxDiagnostics := 1, rules := { enabled := ["WIX-*"] } }
    let r : Resolver := SymbolIndex.resolver {}
    ∃ d, Document.parse source "x.wxs" = .ok d ∧
      ((new rules cfg.unlimited).analyze d r []).1.diagnostics.length = 2 ∧
      ((new rules cfg).analyze d r []).1.diagnostics.length = 1 ∧
      ((new rules cfg).analyze d r []).1.suppressed = 3 := by
  intro source rules cfg r
  obtain ⟨d, hparse, hfound, hoff⟩ : ∃ d, Document.parse source "x.wxs" = .ok d ∧
      (reported rules cfg d r).length = 5 ∧
      ((reported rules cfg d r).filter (isOff d)).length = 3 := by
    let outer := Xml.WrittenTag.bare
      (Xml.isPlainName_of_letters rfl (by decide) : Xml.IsPlainName "a") false
    let leaf := Xml.WrittenTag.bare
      (Xml.isPlainName_of_letters rfl (by decide) : Xml.IsPlainName "b") true
    let comment : Xml.Piece :=
      .other (Bytes.ofString "!--wix-analyzer-disable-line WIX-1-->") fun _ _ _ => rfl
    let c : Xml.Content := .element outer rfl
      (.leaf comment rfl (.closed leaf rfl (.closed leaf rfl .done))) outer.endTag rfl .done
    refine ⟨_, Document.parse_eq_ok.mpr ⟨c, _, rfl, ⟨?_, rfl, rfl⟩, rfl⟩, ?_, ?_⟩
    · simp [c, comment, Xml.Apart, Xml.Content.pieces, Xml.Piece.isBare]
    · decide +kernel
    · decide +kernel
  have hd : d.IsMade := Or.inl ⟨source, "x.wxs", hparse⟩
  refine ⟨d, hparse, ?_⟩
  rcases hwhole : (new rules cfg.unlimited).analyze d r [] with ⟨whole, counts, k⟩
  rcases hfront : (new rules cfg).analyze d r [] with ⟨front, counts', k'⟩
  obtain ⟨hperm, -, hoff', -, hkept, hsame, -⟩ :=
    analyze_limited rules cfg hd r Memo.faithful_nil Memo.faithful_nil hwhole hfront
  have hlength := hperm.length_eq
  rw [List.length_append, hfound, hoff] at hlength
  have hwhole' : whole.diagnostics.length = 2 := by omega
  refine ⟨hwhole', ?_, hsame.trans (hoff'.trans hoff)⟩
  rw [hkept, if_pos (by decide), List.length_take, hwhole']
  rfl

end Analyzer

end InstallerLint
