import InstallerLint.Document.Builder
import InstallerLint.Proofs.Condition.Consulted
import InstallerLint.Rule.Load

/-!
# Rules that were loaded strictly

Loading warns of each pattern of a rule that cannot be read.  Loading strictly refuses a rule file
with a warning, so all patterns of the rules that it gives can be read (`isSome_of_load`).

**Nothing is found out late.**  An evaluator looks at patterns of its conditions only, therefore it
never meets an unreadable pattern in such rules (`askEach_transparent`).
-/

namespace InstallerLint

namespace RuleSpec

/-- There are no warnings when all patterns are readable. -/
theorem warnings_eq_nil_iff (specs : List RuleSpec) :
    warnings specs = [] ↔
      ∀ s ∈ specs, ∀ text ∈ s.patterns, (Pattern.parse? text).isSome = true := by
  unfold warnings
  rw [List.flatMap_eq_nil_iff]
  refine forall₂_congr fun s _ => ?_
  rw [List.flatMap_eq_nil_iff]
  refine forall₂_congr fun text _ => ?_
  unfold Pattern.parse?
  cases Pattern.parse text with
  | ok rx => simp [Except.toOption]
  | error e => simp [Except.toOption]

end RuleSpec

namespace RuleSet

/-- Written rules are taken when there are no problems and, in strict loading, no warnings. -/
theorem ofWritten_eq_ok {w : WrittenRules} {strict : Bool} {source : String} {loaded : Loaded} :
    ofWritten w strict source = .ok loaded ↔
      RuleSpec.problems w.specs = [] ∧ (strict = true → RuleSpec.warnings w.specs = []) ∧
        ⟨{ w.header with rules := w.rules.map (·.finished) }, RuleSpec.warnings w.specs⟩ =
          loaded := by
  unfold ofWritten
  cases hproblems : RuleSpec.problems w.specs with
  | cons p ps => simp
  | nil =>
      cases strict with
      | false => simp
      | true =>
          by_cases hwarnings : RuleSpec.warnings w.specs = []
          · simp [hwarnings]
          · simp [hwarnings]

/-- A file loads when it decodes and its rules are taken. -/
theorem load_eq_ok {text : Bytes} {strict : Bool} {source : String} {loaded : Loaded} :
    load text strict source = .ok loaded ↔
      ∃ w, Yaml.decode text {} WrittenRules.ofYaml = .ok w ∧
        ofWritten w strict (sourceName source) = .ok loaded := by
  unfold load
  cases Yaml.decode text {} WrittenRules.ofYaml with
  | error e => simp
  | ok w => simp

theorem patterns_of_mem {w : WrittenRules} {r : WrittenRule} (h : r ∈ w.rules) :
    ∃ s ∈ w.specs, s.patterns = r.rule.condition.patterns := by
  obtain ⟨i, hi, rfl⟩ := List.mem_iff_getElem.mp h
  exact ⟨w.rules[i].spec i, List.mem_mapIdx.mpr ⟨i, hi, rfl⟩, rfl⟩

/-- The patterns of rules that were loaded strictly are readable. -/
theorem isSome_of_load {text : Bytes} {source : String} {loaded : Loaded}
    (h : load text true source = .ok loaded) :
    ∀ r ∈ loaded.set.rules, ∀ t ∈ r.condition.patterns, (Pattern.parse? t).isSome = true := by
  obtain ⟨w, -, hwritten⟩ := load_eq_ok.mp h
  obtain ⟨-, hstrict, rfl⟩ := ofWritten_eq_ok.mp hwritten
  have hread := (RuleSpec.warnings_eq_nil_iff w.specs).mp (hstrict rfl)
  intro r hr
  obtain ⟨written, hmem, rfl⟩ := List.mem_map.mp hr
  obtain ⟨s, hs, hpatterns⟩ := patterns_of_mem hmem
  intro t ht
  refine hread s hs t ?_
  rw [hpatterns]
  exact ht

end RuleSet

namespace Question

/-- **Remembering patterns does not show, and strict loading finds every unreadable one.**  An
evaluator that was asked any questions has answered each as a new one does.  It remembers each
pattern that it looked at once, with what reading gives, and these are patterns of the conditions it
was asked about.  When the conditions are those of strictly loaded rules, it never looked at a
pattern that cannot be read. -/
theorem askEach_transparent (qs : List Question) :
    (askEach qs []).1 = (qs.map fun q => (q.condition.eval q.document q.element []).1) ∧
    (∀ e ∈ (askEach qs []).2, e.2 = Pattern.parse? e.1) ∧
    (askEach qs []).2.texts.Nodup ∧
    (∀ t, t ∈ (askEach qs []).2.texts ↔ ∃ q ∈ qs, t ∈ q.consulted) ∧
    (∀ t ∈ (askEach qs []).2.texts, ∃ q ∈ qs, t ∈ q.condition.patterns) ∧
    ∀ (text : Bytes) (source : String) (loaded : Loaded),
      RuleSet.load text true source = .ok loaded →
      (∀ q ∈ qs, ∃ r ∈ loaded.set.rules, r.condition = q.condition) →
      ∀ q ∈ qs, ∀ t ∈ q.consulted, (Pattern.parse? t).isSome = true := by
  obtain ⟨hnodup, hmem⟩ := texts_askEach qs
  have hpatterns (q : Question) : q.consulted ⊆ q.condition.patterns :=
    Condition.consulted_subset q.document q.element q.condition
  refine ⟨askEach_fst qs Memo.faithful_nil, fun e he => ?_, hnodup, hmem, fun t ht => ?_,
    fun text source loaded hload hrules q hq t ht => ?_⟩
  · exact faithful_askEach qs Memo.faithful_nil e.1 e.2 (Assoc.lookup_eq_some_of_mem hnodup he)
  · obtain ⟨q, hq, ht⟩ := (hmem t).mp ht
    exact ⟨q, hq, hpatterns q ht⟩
  · obtain ⟨r, hr, hcondition⟩ := hrules q hq
    refine RuleSet.isSome_of_load hload r hr t ?_
    rw [hcondition]
    exact hpatterns q ht

/-- The first part of a combination decides it, so the pattern of the second one is not read. -/
theorem askEach_transparent_loaded :
    let text := Bytes.ofString ("rules:\n- id: A\n  element: F\n  message: m\n  condition:\n" ++
      "    any: [text_matches: a*, text_matches: b]\n")
    let d := (Document.blank "x.wxs").append none "F" []
    ∃ loaded, RuleSet.load text true "" = .ok loaded ∧
      (loaded.set.rules.flatMap (·.condition.patterns)) = ["a*", "b"] ∧
      (askEach (loaded.set.rules.map fun r => ⟨r.condition, d, 0⟩) []).2.texts = ["a*"] ∧
      ∀ q ∈ loaded.set.rules.map fun r => Question.mk r.condition d 0,
        ∀ t ∈ q.consulted, (Pattern.parse? t).isSome = true := by
  intro text d
  have hread : ((RuleSet.load text true "").toOption.map fun loaded =>
      (loaded.set.rules.flatMap (·.condition.patterns),
        (askEach (loaded.set.rules.map fun r => ⟨r.condition, d, 0⟩) []).2.texts)) =
      some (["a*", "b"], ["a*"]) := by decide +kernel
  cases hload : RuleSet.load text true "" with
  | error e =>
      rw [hload] at hread
      cases hread
  | ok loaded =>
      rw [hload] at hread
      obtain ⟨hpatterns, htexts⟩ := Prod.mk.inj (Option.some.inj hread)
      obtain ⟨-, -, -, -, -, hstrict⟩ :=
        askEach_transparent (loaded.set.rules.map fun r => ⟨r.condition, d, 0⟩)
      refine ⟨loaded, rfl, hpatterns, htexts, hstrict text "" loaded hload fun q hq => ?_⟩
      obtain ⟨r, hr, rfl⟩ := List.mem_map.mp hq
      exact ⟨r, hr, rfl⟩

end Question

end InstallerLint
