import InstallerLint.Proofs.Project.Rejected
import InstallerLint.Proofs.Rule.Engine

/-!
# Checks and rules are selected alike

The settings are read twice.  A check is bound to them on its own; rules go through the selection of
an engine, which asks the settings by id and takes from the rules what they say themselves.

**What settings admit.**  `Config.Admits` says what is on, and at which level, by the patterns,
categories and levels as they are written.  It knows of an id, a category and a level only, and so
not whether these are of a check or of a rule.

**Both ways of reading** come to it: `checkLevel?_eq_some` for checks and `mem_active_iff` for rules
that are on by default.  Together they are `lookup_checks_iff_active`.
-/

namespace InstallerLint

namespace Config

/-- Some pattern is the id or matches it. -/
def Hits (patterns : List String) (id : String) : Prop :=
  ∃ p ∈ patterns, p = id ∨ Glob.isMatch p id = true

/-- The level that is written for an id, or else for the id in small letters. -/
def writtenLevel? (cfg : Config) (id : String) : Option String :=
  (cfg.rules.severity.lookup id).or (cfg.rules.severity.lookup (Case.lower id))

/-- A level takes the place of the own one if one is written that can be read. -/
inductive Grades (cfg : Config) (id : String) (own : Severity) : Severity → Prop
  | replaced {name : String} {level : Severity} (written : cfg.writtenLevel? id = some name)
      (known : Severity.parse? name = some level) : Grades cfg id own level
  | unreadable {name : String} (written : cfg.writtenLevel? id = some name)
      (unknown : Severity.parse? name = none) : Grades cfg id own own
  | unwritten (none : cfg.writtenLevel? id = none) : Grades cfg id own own

/-- What has an id, a category and an own level is on, at some level. -/
structure Admits (cfg : Config) (id category : String) (own level : Severity) : Prop where
  not_disabled : ¬ Hits cfg.rules.disabled id
  enabled : cfg.rules.enabled = [] ∨ Hits cfg.rules.enabled id
  category : cfg.rules.categories = [] ∨ category ∈ cfg.rules.categories
  graded : cfg.Grades id own level
  minimum : cfg.minLevel.level ≤ level.level

section Admits

variable {cfg : Config} {id category : String} {own level : Severity}

theorem anyMatches_iff {patterns : List String} :
    anyMatches patterns id = true ↔ Hits patterns id := by
  simp [anyMatches, Hits]

theorem runs_iff : cfg.runs id true = true ↔
    ¬ Hits cfg.rules.disabled id ∧ (cfg.rules.enabled = [] ∨ Hits cfg.rules.enabled id) := by
  rw [runs, ← anyMatches_iff, ← anyMatches_iff]
  split_ifs with hdisabled henabled
  · simp [hdisabled]
  · simp [hdisabled, List.isEmpty_iff.mp henabled]
  · have hne : cfg.rules.enabled ≠ [] := fun h => henabled (List.isEmpty_iff.mpr h)
    simp [hdisabled, hne]

theorem hasCategory_iff : cfg.hasCategory category = true ↔
    (cfg.rules.categories = [] ∨ category ∈ cfg.rules.categories) := by
  rw [hasCategory, Bool.or_eq_true, List.isEmpty_iff, List.contains_iff_mem]

theorem levelOf?_eq (cfg : Config) (id : String) :
    cfg.levelOf? id = (cfg.writtenLevel? id).bind Severity.parse? := by
  unfold levelOf? writtenLevel?
  cases cfg.rules.severity.lookup id with
  | some name => rw [Option.some_or, Option.bind_some]
  | none => rw [Option.none_or]

theorem grades_iff : cfg.Grades id own level ↔ (cfg.levelOf? id).getD own = level := by
  rw [levelOf?_eq]
  constructor
  · rintro (⟨hwritten, hknown⟩ | ⟨hwritten, hunknown⟩ | hnone)
    · rw [hwritten, Option.bind_some, hknown, Option.getD_some]
    · rw [hwritten, Option.bind_some, hunknown, Option.getD_none]
    · rw [hnone, Option.bind_none, Option.getD_none]
  · cases hwritten : cfg.writtenLevel? id with
    | none =>
        rintro rfl
        exact .unwritten hwritten
    | some name =>
        rw [Option.bind_some]
        cases hread : Severity.parse? name with
        | none =>
            rintro rfl
            exact .unreadable hwritten hread
        | some found =>
            rintro rfl
            exact .replaced hwritten hread

theorem atLeast_minLevel_iff :
    level.atLeast cfg.minLevel = true ↔ cfg.minLevel.level ≤ level.level := decide_eq_true_iff

theorem admits_iff : cfg.Admits id category own level ↔
    (cfg.runs id true = true ∧ cfg.hasCategory category = true) ∧
      (cfg.levelOf? id).getD own = level ∧ level.atLeast cfg.minLevel = true := by
  rw [runs_iff, hasCategory_iff, ← grades_iff, atLeast_minLevel_iff]
  constructor
  · rintro ⟨hdisabled, henabled, hcategory, hgraded, hminimum⟩
    exact ⟨⟨⟨hdisabled, henabled⟩, hcategory⟩, hgraded, hminimum⟩
  · rintro ⟨⟨⟨hdisabled, henabled⟩, hcategory⟩, hgraded, hminimum⟩
    exact ⟨hdisabled, henabled, hcategory, hgraded, hminimum⟩

end Admits

end Config

namespace Analyzer

variable {cfg : Config} {s : Severity}

theorem checkLevel?_eq_some {c : Check} :
    checkLevel? cfg c = some s ↔ cfg.Admits c.id c.category c.severity s := by
  rw [Config.admits_iff, checkLevel?, ← Bool.and_eq_true]
  by_cases hon : (cfg.runs c.id true && cfg.hasCategory c.category) = true
  · rw [if_pos hon]
    dsimp only
    split_ifs with hlevel
    · rw [Option.some.injEq]
      constructor
      · rintro rfl
        exact ⟨hon, rfl, hlevel⟩
      · exact fun h => h.2.1
    · refine iff_of_false (fun h => by cases h) ?_
      rintro ⟨-, heq, hmin⟩
      rw [heq] at hlevel
      exact hlevel hmin
  · rw [if_neg hon]
    exact iff_of_false (fun h => by cases h) fun h => hon h.1

/-- A rule that is on by default runs as the settings admit. -/
theorem admits_selection {f : String → Bool} {r : Rule} (h : f r.id = true) :
    (cfg.selection f).Admits r ∧ (cfg.selection f).levelOf r = s ↔
      cfg.Admits r.id r.category r.severity s := by
  rw [Config.admits_iff, Selection.admits_iff]
  have hselects : (cfg.selection f).selects r =
      (cfg.runs r.id true && cfg.hasCategory r.category) := by
    simp only [Selection.selects, Config.selection, Config.hasCategory, h]
  have hlevel : (cfg.selection f).levelOf r = (cfg.levelOf? r.id).getD r.severity := by
    simp only [Selection.levelOf, Config.selection]
  have hminimum : (cfg.selection f).minSeverity = cfg.minLevel := by
    simp only [Config.selection]
  rw [hselects, hlevel, hminimum, Bool.and_eq_true, and_assoc]
  refine and_congr_right fun _ => ?_
  constructor
  · rintro ⟨hmin, rfl⟩
    exact ⟨rfl, hmin⟩
  · rintro ⟨rfl, hmin⟩
    exact ⟨hmin, rfl⟩

theorem byDefault_eq_true {rules : List Rule} {id : String} (hid : ∃ r ∈ rules, r.id = id)
    (hon : ∀ r ∈ rules, r.id = id → r.isEnabled = true) : byDefault rules id = true := by
  unfold byDefault
  cases hlast : rules.reverse.find? (·.id = id) with
  | none =>
      obtain ⟨r, hr, heq⟩ := hid
      exact absurd heq (by simpa using List.find?_eq_none.mp hlast r (List.mem_reverse.mpr hr))
  | some r =>
      exact hon r (List.mem_reverse.mp (List.mem_of_find?_eq_some hlast))
        (by simpa using List.find?_some hlast)

end Analyzer

/-- A rule with the id, level and category of a check, and on by default. -/
structure Check.Twin (c : Check) (r : Rule) : Prop where
  id : r.id = c.id
  severity : r.severity = c.severity
  category : r.category = c.category
  enabled : r.isEnabled = true

namespace Analyzer

/-- Rules that share with a check what the settings look at run as the settings admit. -/
theorem mem_active_iff {twins : List Rule} {cfg : Config} {c : Check} {s : Severity}
    (hid : ∃ r ∈ twins, r.id = c.id) (htwins : ∀ r ∈ twins, r.id = c.id → c.Twin r) :
    (∃ a ∈ (new twins cfg).engine.active, a.id = c.id ∧ a.severity = s) ↔
      cfg.Admits c.id c.category c.severity s := by
  have hon : byDefault twins c.id = true :=
    byDefault_eq_true hid fun r hr heq => (htwins r hr heq).enabled
  have hrule {r : Rule} (h : c.Twin r) :
      (cfg.selection (byDefault twins)).Admits r ∧ (cfg.selection (byDefault twins)).levelOf r = s ↔
        cfg.Admits c.id c.category c.severity s := by
    rw [← h.id, ← h.category, ← h.severity]
    exact admits_selection (h.id ▸ hon)
  have hactive : (new twins cfg).engine.active =
      (twins.filter ((cfg.selection (byDefault twins)).Admits ·)).map
        (cfg.selection (byDefault twins)).grade := Engine.active_new _ _
  rw [hactive]
  constructor
  · rintro ⟨a, ha, heq, hlevel⟩
    obtain ⟨r, hr, rfl⟩ := List.mem_map.mp ha
    obtain ⟨hmem, hadmits⟩ := List.mem_filter.mp hr
    exact (hrule (htwins r hmem heq)).mp ⟨of_decide_eq_true hadmits, hlevel⟩
  · intro hadmits
    obtain ⟨r, hr, heq⟩ := hid
    obtain ⟨hr', hlevel⟩ := (hrule (htwins r hr heq)).mpr hadmits
    exact ⟨_, List.mem_map_of_mem (List.mem_filter.mpr ⟨hr, decide_eq_true hr'⟩), heq, hlevel⟩

/-- **Checks obey the same selection as rules.**  Under any settings and among any rules, a check is
on at a level exactly if the rules of its id would be on at this level, in an engine for the same
settings, when these have its own level and its category and are on by default.  Both is the case
exactly if no pattern that turns rules off hits the id, the patterns that turn rules on hit it or
there are none, the category runs, and the level, which is the one that is written for the id if it
can be read, reaches the least one. -/
theorem lookup_checks_iff_active (rules : List Rule) (cfg : Config) (c : Check) (s : Severity)
    {twins : List Rule} (hid : ∃ r ∈ twins, r.id = c.id)
    (htwins : ∀ r ∈ twins, r.id = c.id → c.Twin r) :
    ((new rules cfg).checks.lookup c = some s ↔
      ∃ a ∈ (new twins cfg).engine.active, a.id = c.id ∧ a.severity = s) ∧
    ((new rules cfg).checks.lookup c = some s ↔ cfg.Admits c.id c.category c.severity s) := by
  have hcheck : (new rules cfg).checks.lookup c = some s ↔
      cfg.Admits c.id c.category c.severity s := by
    rw [Project.lookup_checks, checkLevel?_eq_some]
  exact ⟨hcheck.trans (mem_active_iff hid htwins).symm, hcheck⟩

/-- The level is written for the id in small letters, and by its older name. -/
theorem lookup_checks_iff_active_smallLetters :
    let selected : RuleSettings := {
      enabled := ["VAL-*"]
      disabled := ["VAL-DUP-*"]
      categories := ["validation"]
      severity := [("val-ref-001", "critical")] }
    let cfg : Config := { rules := selected, minSeverity := "blocker" }
    let twin : Rule := {
      id := "VAL-REF-001"
      severity := .high
      category := "validation"
      element := "File"
      message := "m" }
    Check.unresolved.Twin twin ∧ (new [] cfg).checks = [(.unresolved, .blocker)] ∧
      (∃ a ∈ (new [twin] cfg).engine.active, a.id = "VAL-REF-001" ∧ a.severity = .blocker) ∧
      cfg.Admits "VAL-REF-001" "validation" .high .blocker := by
  intro selected cfg twin
  have htwin : Check.unresolved.Twin twin := ⟨rfl, rfl, rfl, rfl⟩
  have hchecks : (new [] cfg).checks = [(.unresolved, .blocker)] := by decide +kernel
  have hlookup : (new [] cfg).checks.lookup .unresolved = some .blocker := by
    rw [hchecks]
    rfl
  have hid : ∃ r ∈ [twin], r.id = Check.unresolved.id := ⟨twin, List.mem_singleton_self _, rfl⟩
  obtain ⟨hactive, hadmits⟩ := lookup_checks_iff_active [] cfg .unresolved .blocker hid
    (by simpa using fun _ => htwin)
  exact ⟨htwin, hchecks, hactive.mp hlookup, hadmits.mp hlookup⟩

end Analyzer
end InstallerLint
