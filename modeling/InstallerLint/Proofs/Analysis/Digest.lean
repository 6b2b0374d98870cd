import InstallerLint.Proofs.Project.Schedule
import InstallerLint.Proofs.Rule.Engine
import InstallerLint.Proofs.Rule.Saved
import InstallerLint.Proofs.Text.Fields

/-!
# Digests of analysers

A digest stands for everything that shapes the output of an analyser besides the document and the
answers about symbols.

**Payload.**  The payload holds the rules that run with their levels and conditions, the checks that
run with their levels, and the limit.  Nothing else is in an analyser that was made from rules and
settings, so analysers with one payload are equal (`new_eq_of_payload_eq`).

**Text.**  The payload is read back from the text that is hashed (`payload_eq_of_bytes_eq`).

**Levels.**  Settings only give levels that have a name.  So when all rules have a level there is a
digest, and it is not empty (`digest_ne_empty`).

**The main result** is `analyze_eq_of_digest_eq`.
-/

namespace InstallerLint

theorem Severity.ne_unset_of_parse? {name : String} {level : Severity}
    (h : parse? name = some level) : level ≠ .unset := by
  have hall : ∀ e ∈ aliases, e.2 ≠ .unset := by decide
  unfold parse? parse at h
  split at h
  · next level' hfound =>
    obtain rfl : level' = level := Option.some.inj h
    exact hall _ (Assoc.mem_of_lookup_eq_some hfound)
  · cases h

theorem Config.ne_unset_of_levelOf? {cfg : Config} {id : String} {level : Severity}
    (h : cfg.levelOf? id = some level) : level ≠ .unset := by
  unfold levelOf? at h
  split at h
  · exact Severity.ne_unset_of_parse? h
  · obtain ⟨name, -, hname⟩ := Option.bind_eq_some_iff.mp h
    exact Severity.ne_unset_of_parse? hname

theorem Hash.xxh64_ne_empty (s : Bytes) : xxh64 s ≠ "" := by
  intro h
  have hnil : Quoted.hexWidth 16 (Xxh3.digest64 s.toArray).toNat = [] :=
    String.ofList_eq_empty_iff.mp h
  rw [Quoted.hexWidth] at hnil
  exact List.append_ne_nil_of_right_ne_nil _ (List.cons_ne_nil _ _) hnil

namespace Analyzer

open Json

variable {rules rules' : List Rule} {cfg cfg' : Config}

section Payload

/-- A check with its level in the payload. -/
theorem line_inj {p p' : Check × Severity}
    (h : p.1.id ++ "=" ++ toString p.2.level = p'.1.id ++ "=" ++ toString p'.2.level) : p = p' := by
  have hfree : ∀ c : Check, '=' ∉ c.id.toList := fun c => by cases c <;> decide
  have hcut : p.1.id.toList ++ '=' :: (toString p.2.level).toList =
      p'.1.id.toList ++ '=' :: (toString p'.2.level).toList := by
    simpa [String.toList_append] using congrArg String.toList h
  obtain ⟨hid, hlevel⟩ := (Fields.append_cons_inj (hfree p.1) (hfree p'.1)).mp hcut
  refine Prod.ext (Check.id_injective (String.toList_inj.mp hid)) ?_
  exact Severity.level_injective (Json.toString_nat_inj (String.toList_inj.mp hlevel))

theorem exact_payload (a : Analyzer) : Exact a.payload :=
  ⟨exact_arr_map fun r _ => r.exact_toJson, exact_arr_map fun r _ => r.condition.exact_toJson,
    exact_arr_map fun _ _ => trivial, ⟨a.maxDiagnostics, rfl⟩, trivial⟩

theorem payload_eq_of_bytes_eq {a a' : Analyzer} (h : a.payloadBytes = a'.payloadBytes) :
    a.payload = a'.payload := by
  have hread := congrArg parseBytes h
  unfold payloadBytes at hread
  rw [parseBytes_compact true a.exact_payload, parseBytes_compact true a'.exact_payload] at hread
  exact Except.ok.inj hread

/-- The groups of an engine are made from the rules that run. -/
theorem engine_new (rules : List Rule) (cfg : Config) :
    (new rules cfg).engine = {
      active := (new rules cfg).engine.active
      byKind := Engine.group (new rules cfg).engine.active
      forAny := (new rules cfg).engine.active.filter (·.element = Rule.anyElement)
      maxDiagnostics := 0 } := rfl

/-- **The payload says all that an analyser is made of.** -/
theorem new_eq_of_payload_eq (h : (new rules cfg).payload = (new rules' cfg').payload) :
    new rules cfg = new rules' cfg' := by
  simp only [payload, obj.injEq, List.cons.injEq, Prod.mk.injEq, true_and, and_true] at h
  obtain ⟨hrules, hconditions, hchecks, hmax⟩ := h
  have hactive : (new rules cfg).engine.active = (new rules' cfg').engine.active := by
    have hpairs := congrArg₂ List.zip (arr.inj hrules) (arr.inj hconditions)
    rw [List.zip_map', List.zip_map'] at hpairs
    refine List.map_injective_iff.mpr (fun r r' heq => ?_) hpairs
    obtain ⟨hrule, hcondition⟩ := Prod.mk.inj heq
    exact Rule.eq_of_toJson_eq hrule (Condition.toJson_inj hcondition)
  have hengine : (new rules cfg).engine = (new rules' cfg').engine := by
    rw [engine_new rules cfg, hactive]
    exact (engine_new rules' cfg').symm
  have hlines : (new rules cfg).checks = (new rules' cfg').checks :=
    List.map_injective_iff.mpr (fun _ _ => line_inj) (strs_inj hchecks)
  show mk (new rules cfg).engine (new rules cfg).checks (new rules cfg).maxDiagnostics = _
  rw [hengine, hlines, int_inj hmax]

end Payload

section Digest

/-- When all rules have a level, those that run have one under all settings. -/
theorem isGraded_new (cfg : Config) (h : ∀ r ∈ rules, r.severity ≠ .unset) :
    (new rules cfg).isGraded = true := by
  have hactive : (new rules cfg).engine.active = _ :=
    Engine.active_new rules (cfg.selection (byDefault rules))
  unfold isGraded
  rw [hactive, List.all_map, List.all_eq_true]
  intro r hr
  refine decide_eq_true ?_
  show ((cfg.levelOf? r.id).getD r.severity) ≠ .unset
  cases hlevel : cfg.levelOf? r.id with
  | none => exact h r (List.mem_filter.mp hr).1
  | some level => exact Config.ne_unset_of_levelOf? hlevel

theorem digest_new (cfg : Config) (h : ∀ r ∈ rules, r.severity ≠ .unset) :
    (new rules cfg).digest = Hash.xxh64 (new rules cfg).payloadBytes :=
  if_pos (isGraded_new cfg h)

theorem digest_ne_empty (cfg : Config) (h : ∀ r ∈ rules, r.severity ≠ .unset) :
    (new rules cfg).digest ≠ "" := by
  rw [digest_new cfg h]
  exact Hash.xxh64_ne_empty _

/-- **Equal digests mean equal output.**  When all rules have a level, no analyser has the empty
digest, whatever the settings are.  If two of them have one digest, and their payloads do not happen
to collide, they return the same for every document and all answers about symbols: the same findings
in the same order, the same number of findings that are turned off and the same statistics. -/
theorem analyze_eq_of_digest_eq (hrules : ∀ r ∈ rules, r.severity ≠ .unset)
    (hrules' : ∀ r ∈ rules', r.severity ≠ .unset) :
    (new rules cfg).digest ≠ "" ∧ (new rules' cfg').digest ≠ "" ∧
    ((Hash.xxh64 (new rules cfg).payloadBytes = Hash.xxh64 (new rules' cfg').payloadBytes →
        (new rules cfg).payloadBytes = (new rules' cfg').payloadBytes) →
      (new rules cfg).digest = (new rules' cfg').digest →
      ∀ (d : Document) (r : Resolver) (m m' : Memo), m.Faithful → m'.Faithful →
        ((new rules cfg).analyze d r m).1 = ((new rules' cfg').analyze d r m').1 ∧
        ((new rules cfg).analyze d r m).2.1 = ((new rules' cfg').analyze d r m').2.1) := by
  refine ⟨digest_ne_empty cfg hrules, digest_ne_empty cfg' hrules', ?_⟩
  intro hcollide hdigest d r m m' hm hm'
  rw [digest_new cfg hrules, digest_new cfg' hrules'] at hdigest
  have hsame : new rules cfg = new rules' cfg' :=
    new_eq_of_payload_eq (payload_eq_of_bytes_eq (hcollide hdigest))
  rw [hsame, (analyze_of_faithful _ d r hm).1, (analyze_of_faithful _ d r hm').1,
    census_of_faithful _ d r hm, census_of_faithful _ d r hm']
  exact ⟨rfl, rfl⟩

/-- A rule that is off and the number of workers are in no digest. -/
theorem analyze_eq_of_digest_eq_disabled :
    let rule : Rule := { id := "WIX-1", element := "*", message := "any" }
    let quiet : Rule := { id := "WIX-2", element := "*", message := "other", enabled := some false }
    (∀ r ∈ [rule, quiet], r.severity ≠ .unset) ∧ (∀ r ∈ [rule], r.severity ≠ .unset) ∧
      (new [rule, quiet] {}).digest = (new [rule] { workers := 4 }).digest ∧
      (new [rule, quiet] {}).digest ≠ "" ∧
      ∀ (d : Document) (r : Resolver), ((new [rule, quiet] {}).analyze d r []).1 =
        ((new [rule] { workers := 4 }).analyze d r []).1 := by
  intro rule quiet
  have hboth : ∀ r ∈ [rule, quiet], r.severity ≠ .unset := by simp [rule, quiet]
  have hone : ∀ r ∈ [rule], r.severity ≠ .unset := by simp [rule]
  have hsame : new [rule, quiet] {} = new [rule] { workers := 4 } := rfl
  obtain ⟨hne, -, hresult⟩ := analyze_eq_of_digest_eq hboth hone
  refine ⟨hboth, hone, congrArg digest hsame, hne, fun d r => ?_⟩
  exact (hresult (fun _ => congrArg payloadBytes hsame) (congrArg digest hsame) d r [] []
    Memo.faithful_nil Memo.faithful_nil).1

end Digest

end Analyzer

end InstallerLint
