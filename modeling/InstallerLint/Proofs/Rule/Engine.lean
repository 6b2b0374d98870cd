import InstallerLint.Proofs.Analysis.Verdict
import InstallerLint.Proofs.Diagnostic.Listing
import InstallerLint.Proofs.Document.Shape
import Mathlib.Algebra.GroupWithZero.Nat
import Mathlib.Data.List.Flatten
import Mathlib.Data.List.ProdSigma

/-!
# The engine asks every rule about every element

An engine groups its rules by kind before it is asked.  What it finds is nevertheless what one gets
by asking each rule about each element, without any grouping.

**The rules as they stand.**  `Fires` says when a rule raises a finding at an element and `report`
which one; `naive` tries all pairs of an element and a rule.  None of them knows of groups.

**From groups to rules.**  The group of a kind holds the rules that name it, in order
(`rulesFor_eq`).  So the findings come element by element, first those of the rules for its kind and
then those of the rules for all kinds (`askAll_eq_emitted`).

**The main result** is `evaluate_spec`.
-/

namespace InstallerLint

/-- A document that was read or built. -/
def Document.IsMade (d : Document) : Prop :=
  (∃ source path, Document.parse source path = .ok d) ∨
    ∃ path steps, (Document.blank path).buildAll steps = .ok d

theorem Document.IsMade.forest {d : Document} (h : d.IsMade) : d.Forest := by
  rcases h with ⟨source, path, h⟩ | ⟨path, steps, h⟩
  · exact Document.forest_of_parse h
  · exact ((Document.forest_blank path).buildAll h).1

namespace Selection

/-- A selection without its limit. -/
def unlimited (s : Selection) : Selection := { s with maxDiagnostics := 0 }

/-- The level that a rule has under a selection. -/
def levelOf (s : Selection) (r : Rule) : Severity := (s.severityOverride r.id).getD r.severity

/-- A rule with the level that it has under a selection. -/
def grade (s : Selection) (r : Rule) : Rule := { r with severity := s.levelOf r }

/-- A rule is on, in a category that counts and serious enough. -/
structure Admits (s : Selection) (r : Rule) : Prop where
  chosen : ∀ answer, s.enabled = some answer → answer r.id = true
  unchosen : s.enabled = none → r.enabled ≠ some false
  category : s.categories = [] ∨ r.category ∈ s.categories
  level : s.minSeverity.level ≤ (s.levelOf r).level

/-- A rule raises a finding at an element. -/
structure Fires (s : Selection) (d : Document) (id : Nat) (r : Rule) : Prop where
  admitted : s.Admits r
  targets : r.targets (d.kind id) = true
  holds : (r.condition.eval d id []).1 = true

/-- The finding that a rule raises at an element. -/
def report (s : Selection) (d : Document) (id : Nat) (r : Rule) : Diagnostic where
  ruleId := r.id
  severity := s.levelOf r
  category := r.category
  message := Message.render r.message d id
  location := d.location id
  help := r.help
  fix := r.fix
  related := []
  tags := r.tags
  effortMinutes := r.effortMinutes
  docUrl := r.docUrl

theorem admits_iff (s : Selection) (r : Rule) :
    s.Admits r ↔ s.selects r = true ∧ (s.levelOf r).atLeast s.minSeverity = true := by
  have hcategory : (s.categories = [] ∨ r.category ∈ s.categories) ↔
      (s.categories.isEmpty || s.categories.contains r.category) = true := by
    rw [Bool.or_eq_true, List.isEmpty_iff, List.contains_iff_mem]
  have hlevel : s.minSeverity.level ≤ (s.levelOf r).level ↔
      (s.levelOf r).atLeast s.minSeverity = true := decide_eq_true_iff.symm
  rw [selects, Bool.and_eq_true, ← hcategory, ← hlevel]
  cases henabled : s.enabled with
  | some answer =>
      constructor
      · exact fun h => ⟨⟨h.chosen answer henabled, h.category⟩, h.level⟩
      · rintro ⟨⟨hon, hcat⟩, hlev⟩
        refine ⟨fun f hf => ?_, fun hnone => ?_, hcat, hlev⟩
        · cases henabled.symm.trans hf
          exact hon
        · cases henabled.symm.trans hnone
  | none =>
      have hon : r.isEnabled = true ↔ r.enabled ≠ some false := by
        unfold Rule.isEnabled
        cases r.enabled with
        | none => decide
        | some b => cases b <;> decide
      constructor
      · exact fun h => ⟨⟨hon.mpr (h.unchosen henabled), h.category⟩, h.level⟩
      · rintro ⟨⟨hr, hcat⟩, hlev⟩
        refine ⟨fun f hf => ?_, fun _ => hon.mp hr, hcat, hlev⟩
        cases henabled.symm.trans hf

instance (s : Selection) (r : Rule) : Decidable (s.Admits r) :=
  decidable_of_iff _ (s.admits_iff r).symm

theorem fires_iff (s : Selection) (d : Document) (id : Nat) (r : Rule) :
    s.Fires d id r ↔
      s.Admits r ∧ r.targets (d.kind id) = true ∧ (r.condition.eval d id []).1 = true :=
  ⟨fun h => ⟨h.admitted, h.targets, h.holds⟩, fun h => ⟨h.1, h.2.1, h.2.2⟩⟩

instance (s : Selection) (d : Document) (id : Nat) (r : Rule) : Decidable (s.Fires d id r) :=
  decidable_of_iff _ (s.fires_iff d id r).symm

theorem admit?_eq (s : Selection) (r : Rule) :
    s.admit? r = if s.Admits r then some (s.grade r) else none := by
  unfold admit? grade levelOf
  simp only [admits_iff, levelOf]
  by_cases hselects : s.selects r = true
  · by_cases hlevel : ((s.severityOverride r.id).getD r.severity).atLeast s.minSeverity = true
    · simp [hselects, hlevel]
    · simp [hselects, hlevel]
  · simp [hselects]

end Selection

namespace Engine

/-- The findings of all pairs of an element and a rule. -/
def naive (rules : List Rule) (s : Selection) (d : Document) : List Diagnostic :=
  ((List.range d.size ×ˢ rules).filter fun p => s.Fires d p.1 p.2).map fun p => s.report d p.1 p.2

/-- The findings in the order in which they are made: element by element in document order, and at
an element first the rules for its kind and then those for every kind. -/
def emitted (rules : List Rule) (s : Selection) (d : Document) : List Diagnostic :=
  d.ids.flatMap fun id =>
    (rules.filter fun r => r.element ≠ Rule.anyElement ∧ s.Fires d id r).map (s.report d id) ++
      (rules.filter fun r => r.element = Rule.anyElement ∧ s.Fires d id r).map (s.report d id)

/-- How a tally shows a number of occurrences: what does not occur has no entry. -/
def entry (n : Nat) : Option Nat := if n = 0 then none else some n

section Groups

theorem lookup_addTo (r : Rule) (kind : String) (g : List (String × List Rule)) :
    ((addTo r g).lookup kind).getD [] =
      (g.lookup kind).getD [] ++ (if r.element = kind then [r] else []) := by
  induction g with
  | nil =>
      by_cases h : r.element = kind
      · subst h
        simp [addTo]
      · simp [addTo, List.lookup_cons, beq_false_of_ne (Ne.symm h), h]
  | cons p g ih =>
      obtain ⟨k, rs⟩ := p
      unfold addTo
      by_cases hk : k = r.element
      · subst hk
        rw [if_pos rfl, List.lookup_cons, List.lookup_cons]
        by_cases h : r.element = kind
        · subst h
          simp
        · simp [beq_false_of_ne (Ne.symm h), h]
      · rw [if_neg hk, List.lookup_cons, List.lookup_cons]
        by_cases h : kind = k
        · subst h
          simp [Ne.symm hk]
        · rw [beq_false_of_ne h]
          exact ih

theorem lookup_group (rules : List Rule) (kind : String) :
    ((group rules).lookup kind).getD [] =
      rules.filter fun r => r.element ≠ Rule.anyElement ∧ r.element = kind := by
  have hfold : ∀ (l : List Rule) (g : List (String × List Rule)),
      ((l.foldl (fun g r => addTo r g) g).lookup kind).getD [] =
        (g.lookup kind).getD [] ++ l.filter fun r => r.element = kind := by
    intro l
    induction l with
    | nil => exact fun g => (List.append_nil _).symm
    | cons r l ih =>
        intro g
        rw [List.foldl_cons, ih, lookup_addTo, List.append_assoc, List.filter_cons]
        by_cases h : r.element = kind
        · simp [h]
        · simp [h]
  rw [group, hfold, List.filter_filter]
  simp [and_comm]

theorem active_new (rules : List Rule) (s : Selection) :
    (new rules s).active = (rules.filter (s.Admits ·)).map s.grade := by
  show rules.filterMap s.admit? = _
  induction rules with
  | nil => rfl
  | cons r rules ih =>
      rw [List.filterMap_cons, s.admit?_eq, List.filter_cons, ih]
      by_cases h : s.Admits r
      · simp [h]
      · simp [h]

/-- The rules that an engine asks about a kind. -/
theorem rulesFor_eq (rules : List Rule) (s : Selection) (kind : String) :
    (new rules s).rulesFor kind =
      ((rules.filter fun r => r.element ≠ Rule.anyElement ∧ s.Admits r ∧ r.targets kind = true) ++
        rules.filter fun r => r.element = Rule.anyElement ∧ s.Admits r ∧ r.targets kind = true).map
        s.grade := by
  have hnew : (new rules s).rulesFor kind =
      ((group (new rules s).active).lookup kind).getD [] ++
        (new rules s).active.filter (·.element = Rule.anyElement) := rfl
  rw [hnew, lookup_group, active_new, List.filter_map, List.filter_map, ← List.map_append,
    List.filter_filter, List.filter_filter]
  congr 2
  · refine List.filter_congr fun r _ => ?_
    rw [Bool.eq_iff_iff]
    simp only [Rule.targets, Function.comp_apply, Bool.and_eq_true, Bool.or_eq_true,
      decide_eq_true_eq]
    simp only [Selection.grade]
    tauto
  · refine List.filter_congr fun r _ => ?_
    rw [Bool.eq_iff_iff]
    simp only [Rule.targets, Function.comp_apply, Bool.and_eq_true, Bool.or_eq_true,
      decide_eq_true_eq]
    simp only [Selection.grade]
    tauto

end Groups

section Asking

variable {d : Document} {rules : List Rule} {s : Selection}

theorem ask_spec (id : Nat) (rs : List Rule) {m : Memo} (hm : m.Faithful) :
    (ask d id rs m).1 =
        (rs.filter fun r => (r.condition.eval d id []).1).map (finding · d id) ∧
      (ask d id rs m).2.Faithful := by
  induction rs generalizing m with
  | nil => exact ⟨rfl, hm⟩
  | cons r rs ih =>
      obtain ⟨hfst, hsnd⟩ := Condition.transparent_eval d id r.condition m hm
      obtain ⟨hrest, hfaithful⟩ := ih hsnd
      simp only [ask]
      refine ⟨?_, hfaithful⟩
      rw [hrest, hfst, List.filter_cons]
      split <;> rfl

theorem askAll_spec (e : Engine) (ids : List Nat) {m : Memo} (hm : m.Faithful) :
    (e.askAll d ids m).1 =
        (ids.flatMap fun (id : Nat) => ((e.rulesFor (d.kind id)).filter fun r =>
          (r.condition.eval d id []).1).map (finding · d id)) ∧
      (e.askAll d ids m).2.Faithful := by
  induction ids generalizing m with
  | nil => exact ⟨rfl, hm⟩
  | cons id ids ih =>
      obtain ⟨hhere, hsnd⟩ := ask_spec (d := d) id (e.rulesFor (d.kind id)) hm
      obtain ⟨hrest, hfaithful⟩ := ih hsnd
      simp only [askAll]
      exact ⟨by rw [hhere, hrest, List.flatMap_cons], hfaithful⟩

/-- What the rules for a kind find at an element. -/
theorem findings_rulesFor (id : Nat) :
    (((new rules s).rulesFor (d.kind id)).filter fun r => (r.condition.eval d id []).1).map
        (finding · d id) =
      (rules.filter fun r => r.element ≠ Rule.anyElement ∧ s.Fires d id r).map (s.report d id) ++
        (rules.filter fun r => r.element = Rule.anyElement ∧ s.Fires d id r).map
          (s.report d id) := by
  rw [rulesFor_eq, List.filter_map, List.map_map, List.filter_append, List.filter_filter,
    List.filter_filter, List.map_append]
  congr 2
  · refine List.filter_congr fun r _ => ?_
    rw [Bool.eq_iff_iff]
    simp only [Selection.fires_iff, Selection.grade, Function.comp_apply, Bool.and_eq_true,
      decide_eq_true_eq]
    tauto
  · refine List.filter_congr fun r _ => ?_
    rw [Bool.eq_iff_iff]
    simp only [Selection.fires_iff, Selection.grade, Function.comp_apply, Bool.and_eq_true,
      decide_eq_true_eq]
    tauto

theorem askAll_eq_emitted {m : Memo} (hm : m.Faithful) :
    ((new rules s).askAll d d.ids m).1 = emitted rules s d := by
  rw [(askAll_spec _ _ hm).1, emitted]
  exact List.flatMap_congr fun id _ => findings_rulesFor id

/-- Grouping changes the order of the findings, and nothing else. -/
theorem emitted_perm_naive (h : d.Forest) : (emitted rules s d).Perm (naive rules s d) := by
  have hnaive : naive rules s d = (List.range d.size).flatMap fun id =>
      (rules.filter fun r => s.Fires d id r).map (s.report d id) := by
    show ((((List.range d.size).flatMap fun id => rules.map (Prod.mk id)).filter _).map _) = _
    rw [List.filter_flatMap, List.map_flatMap]
    refine List.flatMap_congr fun id _ => ?_
    rw [List.filter_map, List.map_map]
    rfl
  rw [hnaive, emitted]
  refine List.Perm.flatMap h.perm_walk fun id _ => ?_
  rw [← List.map_append]
  refine List.Perm.map _ ?_
  have hsplit := List.filter_append_perm (fun r : Rule => r.element ≠ Rule.anyElement)
    (rules.filter fun r => s.Fires d id r)
  rw [List.filter_filter, List.filter_filter] at hsplit
  simpa using hsplit

theorem total_eq_sum (l : List Nat) : Numbers.total l = l.sum := by
  induction l with
  | nil => rfl
  | cons n l ih => rw [Numbers.total, ih, List.sum_cons]

/-- The questions asked are the pairs of an element and a rule that counts and applies to it. -/
theorem asked_eq (h : d.Forest) :
    Numbers.total (d.ids.map fun (id : Nat) => ((new rules s).rulesFor (d.kind id)).length) =
      (List.range d.size ×ˢ rules).countP fun p => s.Admits p.2 ∧ p.2.targets (d.kind p.1) := by
  have hrules (id : Nat) : ((new rules s).rulesFor (d.kind id)).length =
      rules.countP fun r => s.Admits r ∧ r.targets (d.kind id) = true := by
    rw [rulesFor_eq, List.length_map, List.countP_eq_length_filter]
    have hsplit := List.filter_append_perm (fun r : Rule => r.element ≠ Rule.anyElement)
      (rules.filter fun r => s.Admits r ∧ r.targets (d.kind id) = true)
    rw [List.filter_filter, List.filter_filter] at hsplit
    rw [← hsplit.length_eq]
    simp
  have hpairs : (List.range d.size ×ˢ rules).countP
      (fun p => s.Admits p.2 ∧ p.2.targets (d.kind p.1)) =
      ((List.range d.size).map fun (id : Nat) =>
        rules.countP fun r => s.Admits r ∧ r.targets (d.kind id) = true).sum := by
    show ((List.range d.size).flatMap fun id => rules.map (Prod.mk id)).countP _ = _
    rw [List.countP_flatMap]
    simp only [Function.comp_def, List.countP_map]
  rw [total_eq_sum, hpairs]
  simp only [hrules]
  exact (h.perm_walk.map _).sum_nat

theorem askAll_unlimited {m : Memo} (hm : m.Faithful) :
    ((new rules s.unlimited).askAll d d.ids m).1 = ((new rules s).askAll d d.ids m).1 := by
  rw [(askAll_spec _ _ hm).1, (askAll_spec _ _ hm).1]
  rfl

/-- A tally of what findings are called counts the findings of each name. -/
theorem lookup_ofNames_map (name : Diagnostic → String) (ds : List Diagnostic) (k : String) :
    (Tally.ofNames (ds.map name)).lookup k = entry (ds.countP (name · = k)) := by
  rw [Tally.lookup_ofNames, List.count, List.countP_map, entry]
  rfl

/-- **What an engine finds.**  Without a limit an engine finds what the pairs of an element and a
rule have to say, sorted, and the first found first among findings with the same keys.  A limit
keeps the front of this list; the numbers count all of it. -/
theorem evaluate_spec (rules : List Rule) (s : Selection) {d : Document} (hd : d.IsMade) {m : Memo}
    (hm : m.Faithful) {found kept : List Diagnostic} {stats : Stats} {m' : Memo}
    (hfound : ((new rules s.unlimited).evaluate d m).1 = found)
    (h : (new rules s).evaluate d m = (kept, stats, m')) :
    found.Perm (naive rules s d) ∧ found.Pairwise Diagnostic.Precedes ∧
      (∀ x, found.filter (Diagnostic.Tied x ·) = (emitted rules s d).filter (Diagnostic.Tied x ·)) ∧
      kept = (if 0 < s.maxDiagnostics then found.take s.maxDiagnostics.toNat else found) ∧
      stats.filesAnalyzed = 1 ∧ stats.nodesChecked = d.size ∧
      stats.rulesEvaluated =
        ((List.range d.size ×ˢ rules).countP fun p =>
          s.Admits p.2 ∧ p.2.targets (d.kind p.1) = true) ∧
      (∀ id, stats.byRule.lookup id = entry (found.countP (·.ruleId = id))) ∧
      (∀ level : Severity,
        stats.bySeverity.lookup level.text = entry (found.countP (·.severity = level))) ∧
      (∀ name, (∀ level : Severity, name ≠ level.text) → stats.bySeverity.lookup name = none) ∧
      m'.Faithful := by
  have hforest := hd.forest
  have hlist : found = Diagnostic.sort (emitted rules s d) := by
    rw [← hfound, ← askAll_eq_emitted hm, ← askAll_unlimited hm]
    rfl
  have hperm : found.Perm (emitted rules s d) := hlist ▸ Diagnostic.sort_perm _
  have hask : ((new rules s).askAll d d.ids m).1 = emitted rules s d := askAll_eq_emitted hm
  have hkept : kept = Selection.cap s.maxDiagnostics found := by
    rw [hlist, ← hask]
    exact (congrArg Prod.fst h).symm
  have hstats : stats = Stats.recount
      { filesAnalyzed := 1
        rulesEvaluated := Numbers.total
          (d.ids.map fun (id : Nat) => ((new rules s).rulesFor (d.kind id)).length)
        nodesChecked := d.ids.length } (emitted rules s d) := by
    rw [← hask]
    exact (congrArg (·.2.1) h).symm
  refine ⟨hperm.trans (emitted_perm_naive hforest), ?_, ?_, ?_, ?_, ?_, ?_, ?_, ?_, ?_, ?_⟩
  · exact hlist ▸ Diagnostic.pairwise_sort _
  · exact fun x => hlist ▸ Diagnostic.filter_tied_sort x _
  · exact hkept
  · rw [hstats]
    rfl
  · rw [hstats]
    exact hforest.perm_walk.length_eq.trans List.length_range
  · rw [hstats]
    exact asked_eq hforest
  · intro id
    rw [hstats, hperm.countP_eq]
    exact lookup_ofNames_map _ _ _
  · intro level
    have hlevel (x : Diagnostic) : x.severity = level ↔ x.severity.text = level.text :=
      ⟨congrArg _, Severity.text_injective⟩
    rw [hstats, hperm.countP_eq]
    simp only [hlevel]
    exact lookup_ofNames_map _ _ _
  · intro name hname
    have hnone : (emitted rules s d).countP (·.severity.text = name) = 0 :=
      List.countP_eq_zero.mpr fun x _ => by simpa using (hname x.severity).symm
    rw [hstats]
    refine (lookup_ofNames_map _ _ _).trans ?_
    rw [hnone]
    rfl
  · have hmemo : ((new rules s).askAll d d.ids m).2 = m' := congrArg (·.2.2) h
    exact hmemo ▸ (askAll_spec _ _ hm).2

theorem evaluate_spec_twoKinds :
    let rules : List Rule := [
      { id := "any", element := "*", message := "x" },
      { id := "leaf", element := "b", message := "y", severity := .low },
      { id := "quiet", element := "b", message := "z", severity := .info }]
    let s : Selection := { minSeverity := .low, maxDiagnostics := 1 }
    ∃ d, (Document.blank "x.wxs").buildAll [.root "a" [], .add 0 "b" []] = .ok d ∧
      ((new rules s.unlimited).evaluate d []).1.length = 3 ∧
      ((new rules s).evaluate d []).1.length = 1 ∧
      ((new rules s).evaluate d []).2.1.rulesEvaluated = 3 := by
  intro rules s
  have hbuild : (Document.blank "x.wxs").buildAll [.root "a" [], .add 0 "b" []] = .ok _ := rfl
  refine ⟨_, hbuild, ?_⟩
  obtain ⟨hperm, -, -, hkept, -, -, hasked, -⟩ :=
    evaluate_spec rules s (Or.inr ⟨_, _, hbuild⟩) Memo.faithful_nil rfl rfl
  have hlength := hperm.length_eq.trans (by decide : (naive rules s _).length = 3)
  refine ⟨hlength, (congrArg List.length hkept).trans ?_, hasked.trans (by decide)⟩
  rw [if_pos (by decide), List.length_take, hlength]
  rfl

end Asking

end Engine

end InstallerLint
