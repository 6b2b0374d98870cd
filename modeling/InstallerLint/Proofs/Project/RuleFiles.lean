import Mathlib.Data.List.Nodup
import InstallerLint.Project
import InstallerLint.Proofs.Assoc
import InstallerLint.Proofs.Rule.WellFormed

/-!
# Rules from several files

The standard rules are read first and then each rule file of the settings.  A rule of a later source
takes the place of the one with its id.

**What a table tracks.**  A table is compared with the list of all rules that it has taken in
(`Tracks`): the place that it keeps for an id is where the rule of this id stands, that rule is the
last one taken in, and ids stand in the order in which they came first.  One rule more keeps this
(`Tracks.add`), so it holds after all files.

**Sources.**  No source has an id twice, therefore the last rule of an id is that of the last source
with this id (`fromLast_iff`).  `Layered` says what sources give together without a table, and there
is one such list only (`Layered.unique`).
-/

namespace InstallerLint

/-- Loading gives no two rules of one id. -/
theorem RuleSet.nodup_ids_of_load {text : Bytes} {strict : Bool} {source : String} {loaded : Loaded}
    (h : load text strict source = .ok loaded) : (loaded.set.rules.map (·.id)).Nodup := by
  obtain ⟨w, -, hwritten⟩ := load_eq_ok.mp h
  obtain ⟨hnil, -, rfl⟩ := ofWritten_eq_ok.mp hwritten
  have hids : ((w.rules.map (·.finished)).map (·.id)) = w.rules.map fun r => Blank.trim r.rule.id :=
    List.map_map
  rw [hids]
  exact (WrittenRules.problems_eq_nil_iff.mp hnil).ids_distinct

theorem RuleSet.nodup_ids_standard : (standard.rules.map (·.id)).Nodup := by decide +kernel

/-- The last of some rules that has an id. -/
def Rule.lastNamed (rules : List Rule) (id : String) : Option Rule := rules.reverse.find? (·.id = id)

namespace Rule

variable {rules more : List Rule} {r : Rule} {id : String}

theorem id_of_lastNamed (h : lastNamed rules id = some r) : r.id = id := by
  simpa using List.find?_some h

theorem mem_of_lastNamed (h : lastNamed rules id = some r) : r ∈ rules :=
  List.mem_reverse.mp (List.mem_of_find?_eq_some h)

/-- No rule has an id exactly when none is the last to have it. -/
theorem lastNamed_eq_none : lastNamed rules id = none ↔ ∀ other ∈ rules, other.id ≠ id := by
  simp [lastNamed, List.find?_eq_none]

/-- The last rule of an id stands in the second list when it is there at all. -/
theorem lastNamed_append :
    lastNamed (rules ++ more) id = (lastNamed more id).or (lastNamed rules id) := by
  rw [lastNamed, List.reverse_append, List.find?_append]
  rfl

theorem lastNamed_concat_self : lastNamed (rules ++ [r]) r.id = some r := by
  rw [lastNamed_append]
  simp [lastNamed]

theorem lastNamed_concat_of_ne (h : r.id ≠ id) : lastNamed (rules ++ [r]) id = lastNamed rules id := by
  rw [lastNamed_append]
  simp [lastNamed, h]

/-- Among rules of distinct ids each one is the last of its id. -/
theorem lastNamed_eq_some (h : (rules.map (·.id)).Nodup) :
    lastNamed rules r.id = some r ↔ r ∈ rules := by
  refine ⟨mem_of_lastNamed, fun hmem => ?_⟩
  cases hlast : lastNamed rules r.id with
  | none => exact absurd rfl (lastNamed_eq_none.mp hlast r hmem)
  | some other =>
      have hsame : other = r :=
        List.inj_on_of_nodup_map h (mem_of_lastNamed hlast) hmem (id_of_lastNamed hlast)
      rw [hsame]

end Rule

namespace RuleTable

/-- What a table knows about all rules that it has taken in. -/
structure Tracks (history : List Rule) (t : RuleTable) : Prop where
  placed : ∀ id i, t.places.lookup id = some i ↔ (t.rules.map (·.id))[i]? = some id
  ids : ∀ id, id ∈ t.rules.map (·.id) ↔ id ∈ history.map (·.id)
  last : ∀ r ∈ t.rules, Rule.lastNamed history r.id = some r
  order : (t.rules.map (·.id)).Pairwise fun a b =>
    (history.map (·.id)).idxOf a < (history.map (·.id)).idxOf b

section Tracks

variable {history : List Rule} {t : RuleTable} {r : Rule}

/-- The places of a table are those of its rules. -/
theorem lookup_ofRules {rules : List Rule} (h : (rules.map (·.id)).Nodup) {id : String} {i : Nat} :
    (ofRules rules).places.lookup id = some i ↔ (rules.map (·.id))[i]? = some id := by
  have hkeys : (ofRules rules).places.map Prod.fst = (rules.map (·.id)).reverse := by
    rw [ofRules, List.map_reverse, List.map_map, ← List.zipIdx_map_fst 0 rules, List.map_map,
      List.zipIdx_map_fst]
    rfl
  have hnodup : ((ofRules rules).places.map Prod.fst).Nodup := by
    rw [hkeys]
    exact List.nodup_reverse.mpr h
  rw [Assoc.lookup_eq_some_iff_mem hnodup]
  simp [ofRules, List.mem_zipIdx_iff_getElem?]

/-- A table of rules with distinct ids. -/
theorem tracks_ofRules {rules : List Rule} (h : (rules.map (·.id)).Nodup) :
    Tracks rules (ofRules rules) where
  placed _ _ := lookup_ofRules h
  ids _ := Iff.rfl
  last _ hr := (Rule.lastNamed_eq_some h).mpr hr
  order := by
    change (rules.map (·.id)).Pairwise _
    refine List.pairwise_iff_getElem.mpr fun i j hi hj hlt => ?_
    rw [h.idxOf_getElem i hi, h.idxOf_getElem j hj]
    exact hlt

theorem Tracks.nodup (h : Tracks history t) : (t.rules.map (·.id)).Nodup := by
  refine h.order.imp fun hlt heq => ?_
  rw [heq] at hlt
  exact Nat.lt_irrefl _ hlt

/-- The order of ids is that of their first places, which further rules do not change. -/
theorem Tracks.order_concat (h : Tracks history t) (r : Rule) :
    (t.rules.map (·.id)).Pairwise fun a b =>
      ((history ++ [r]).map (·.id)).idxOf a < ((history ++ [r]).map (·.id)).idxOf b := by
  refine h.order.imp_of_mem fun {a b} ha hb hlt => ?_
  rw [List.map_append, List.idxOf_append_of_mem ((h.ids a).mp ha),
    List.idxOf_append_of_mem ((h.ids b).mp hb)]
  exact hlt

/-- A rule of a known id is put in the place of the old one. -/
theorem Tracks.replace (h : Tracks history t) {i : Nat} (hi : t.places.lookup r.id = some i) :
    Tracks (history ++ [r]) { t with rules := t.rules.set i r } := by
  obtain ⟨hlt, hat⟩ := List.getElem?_eq_some_iff.mp ((h.placed r.id i).mp hi)
  have hids : (t.rules.set i r).map (·.id) = t.rules.map (·.id) := by
    rw [List.map_set, ← hat, List.set_getElem_self]
  refine ⟨fun id j => ?_, fun id => ?_, fun r' hr' => ?_, ?_⟩
  · rw [hids]
    exact h.placed id j
  · have hknown : r.id ∈ history.map (·.id) := (h.ids r.id).mp (hat ▸ List.getElem_mem hlt)
    rw [hids, h.ids, List.map_append, List.mem_append]
    refine ⟨.inl, ?_⟩
    rintro (hid | hid)
    · exact hid
    · rw [List.mem_singleton.mp hid]
      exact hknown
  · obtain ⟨j, hj⟩ := List.mem_iff_getElem?.mp hr'
    rw [List.getElem?_set] at hj
    split_ifs at hj with hij
    · obtain rfl := Option.some.inj hj
      exact Rule.lastNamed_concat_self
    · -- The rule at another place has another id.
      have hne : r.id ≠ r'.id := by
        intro heq
        have hat' : (t.rules.map (·.id))[j]? = some r.id := by
          rw [List.getElem?_map, hj, Option.map_some, heq]
        rw [(h.placed r.id j).mpr hat'] at hi
        exact hij (Option.some.inj hi).symm
      rw [Rule.lastNamed_concat_of_ne hne]
      exact h.last r' (List.mem_of_getElem? hj)
  · rw [hids]
    exact h.order_concat r

/-- A rule of a new id comes behind all others. -/
theorem Tracks.append (h : Tracks history t) (hnone : t.places.lookup r.id = none) :
    Tracks (history ++ [r]) ⟨t.rules ++ [r], (r.id, t.rules.length) :: t.places⟩ := by
  have hnew : r.id ∉ t.rules.map (·.id) := by
    intro hmem
    obtain ⟨i, hi⟩ := List.mem_iff_getElem?.mp hmem
    rw [(h.placed r.id i).mpr hi] at hnone
    cases hnone
  have hnew' : r.id ∉ history.map (·.id) := fun hmem => hnew ((h.ids r.id).mpr hmem)
  refine ⟨fun id i => ?_, fun id => ?_, fun r' hr' => ?_, ?_⟩
  · rw [List.lookup_cons, List.map_append, List.getElem?_append, List.length_map]
    by_cases hid : id = r.id
    · rw [hid, beq_self_eq_true]
      split_ifs with hi
      · refine ⟨fun heq => ?_, fun hat => absurd (List.mem_of_getElem? hat) hnew⟩
        exact absurd (Option.some.inj heq) (Nat.ne_of_gt hi)
      · rw [Option.some.injEq]
        grind
    · rw [beq_false_of_ne hid, h.placed]
      split_ifs with hi
      · exact Iff.rfl
      · have hnone : (t.rules.map (·.id))[i]? = none := by
          simpa using hi
        rw [hnone, List.map_singleton, List.getElem?_singleton]
        grind
  · rw [List.map_append, List.map_append, List.mem_append, List.mem_append, h.ids]
  · rcases List.mem_append.mp hr' with hr' | hr'
    · have hne : r.id ≠ r'.id := fun heq => hnew (heq ▸ List.mem_map_of_mem hr')
      rw [Rule.lastNamed_concat_of_ne hne]
      exact h.last r' hr'
    · rw [List.mem_singleton.mp hr']
      exact Rule.lastNamed_concat_self
  · have hids : (t.rules ++ [r]).map (·.id) = t.rules.map (·.id) ++ [r.id] := List.map_append
    rw [hids]
    refine List.pairwise_append.mpr ⟨h.order_concat r, List.pairwise_singleton _ _, ?_⟩
    intro a ha b hb
    have hold := (h.ids a).mp ha
    obtain rfl := List.mem_singleton.mp hb
    rw [List.map_append, List.idxOf_append_of_mem hold, List.idxOf_append_of_notMem hnew']
    exact Nat.lt_add_right _ (List.idxOf_lt_length_iff.mpr hold)

/-- One rule more replaces its namesake or comes last. -/
theorem Tracks.add (h : Tracks history t) (r : Rule) : Tracks (history ++ [r]) (t.add r) := by
  unfold RuleTable.add
  split
  · next i hi => exact h.replace hi
  · next hnone => exact h.append hnone

/-- The rules of a file go in one after the other. -/
theorem Tracks.addAll (h : Tracks history t) (more : List Rule) :
    Tracks (history ++ more) (t.addAll more) := by
  unfold RuleTable.addAll
  induction more generalizing history t with
  | nil =>
      rw [List.append_nil]
      exact h
  | cons r more ih =>
      rw [List.foldl_cons, List.append_cons]
      exact ih (h.add r)

/-- The files go in one after the other. -/
theorem Tracks.foldl_addAll (h : Tracks history t) (sources : List (List Rule)) :
    Tracks (history ++ sources.flatten) (sources.foldl RuleTable.addAll t) := by
  induction sources generalizing history t with
  | nil =>
      rw [List.flatten_nil, List.append_nil]
      exact h
  | cons source sources ih =>
      rw [List.flatten_cons, ← List.append_assoc]
      exact ih (h.addAll source)

end Tracks

end RuleTable

/-!
## What sources give together
-/

/-- A rule is that of the last source that has its id. -/
def Rule.FromLast (sources : List (List Rule)) (r : Rule) : Prop :=
  ∃ before source after, sources = before ++ source :: after ∧ r ∈ source ∧
    ∀ later ∈ after, ∀ other ∈ later, other.id ≠ r.id

/-- Rules with which sources override each other. -/
structure Layered (sources : List (List Rule)) (rules : List Rule) : Prop where
  ids_distinct : (rules.map (·.id)).Nodup
  mem_ids : ∀ id, id ∈ rules.map (·.id) ↔ ∃ source ∈ sources, ∃ r ∈ source, r.id = id
  from_last : ∀ r ∈ rules, r.FromLast sources
  /-- The ids stand in the order of their first places in all sources. -/
  first_order : (rules.map (·.id)).Pairwise fun a b =>
    (sources.flatten.map (·.id)).idxOf a < (sources.flatten.map (·.id)).idxOf b

section Layered

variable {sources : List (List Rule)} {rules : List Rule} {r : Rule}

/-- A rule stands in the last of the sources that has its id. -/
theorem fromLast_cons {source : List Rule} : r.FromLast (source :: sources) ↔
    r.FromLast sources ∨ r ∈ source ∧ ∀ later ∈ sources, ∀ other ∈ later, other.id ≠ r.id := by
  constructor
  · rintro ⟨before, last, after, heq, hmem, hafter⟩
    cases before with
    | nil =>
        obtain ⟨rfl, rfl⟩ := List.cons.inj heq
        exact .inr ⟨hmem, hafter⟩
    | cons first before => exact .inl ⟨before, last, after, (List.cons.inj heq).2, hmem, hafter⟩
  · rintro (⟨before, last, after, rfl, hmem, hafter⟩ | ⟨hmem, hafter⟩)
    · exact ⟨source :: before, last, after, rfl, hmem, hafter⟩
    · exact ⟨[], source, sources, rfl, hmem, hafter⟩

/-- The last rule of an id is that of the last source with this id. -/
theorem fromLast_iff (h : ∀ source ∈ sources, (source.map (·.id)).Nodup) :
    r.FromLast sources ↔ Rule.lastNamed sources.flatten r.id = some r := by
  induction sources with
  | nil => simp [Rule.FromLast, Rule.lastNamed]
  | cons source sources ih =>
      obtain ⟨hsource, hrest⟩ := List.forall_mem_cons.mp h
      rw [fromLast_cons, ih hrest, List.flatten_cons, Rule.lastNamed_append, Option.or_eq_some_iff,
        Rule.lastNamed_eq_some hsource, Rule.lastNamed_eq_none, and_comm (a := r ∈ source)]
      simp only [List.mem_flatten]
      grind

/-- There is one way to layer the sources. -/
theorem Layered.unique {rules' : List Rule} (hs : ∀ source ∈ sources, (source.map (·.id)).Nodup)
    (h : Layered sources rules) (h' : Layered sources rules') : rules = rules' := by
  have hperm : (rules.map (·.id)).Perm (rules'.map (·.id)) :=
    (List.perm_ext_iff_of_nodup h.ids_distinct h'.ids_distinct).mpr fun id => by
      rw [h.mem_ids, h'.mem_ids]
  have hids : rules.map (·.id) = rules'.map (·.id) :=
    hperm.eq_of_pairwise (fun a b _ _ hlt hgt => absurd hgt (Nat.lt_asymm hlt)) h.first_order
      h'.first_order
  -- An id determines its rule, so lists of the same ids are equal.
  have hnamed {l : List Rule} (hl : Layered sources l) :
      l.map some = (l.map (·.id)).map (Rule.lastNamed sources.flatten) := by
    rw [List.map_map]
    exact List.map_congr_left fun r hr => ((fromLast_iff hs).mp (hl.from_last r hr)).symm
  refine List.map_injective_iff.mpr (fun _ _ heq => Option.some.inj heq) ?_
  rw [hnamed h, hnamed h', hids]

/-- A table that has taken in all sources holds what they give together. -/
theorem RuleTable.Tracks.layered {t : RuleTable} (hs : ∀ source ∈ sources, (source.map (·.id)).Nodup)
    (h : t.Tracks sources.flatten) : Layered sources t.rules where
  ids_distinct := h.nodup
  mem_ids id := by
    rw [h.ids]
    simp only [List.mem_map, List.mem_flatten]
    grind
  from_last r hr := (fromLast_iff hs).mpr (h.last r hr)
  first_order := h.order

end Layered

namespace Project

variable {disk : Disk}

/-- A file loads and gives some rules. -/
def Supplies (disk : Disk) (path : String) (rules : List Rule) : Prop :=
  ∃ loaded, loadFile disk path false = .ok loaded ∧ loaded.set.rules = rules

theorem Supplies.nodup {path : String} {rules : List Rule} (h : Supplies disk path rules) :
    (rules.map (·.id)).Nodup := by
  obtain ⟨loaded, hload, rfl⟩ := h
  unfold loadFile at hload
  split at hload
  · cases hload
  · exact RuleSet.nodup_ids_of_load hload

theorem nodup_of_supplies {paths : List String} {sources : List (List Rule)}
    (h : List.Forall₂ (Supplies disk) paths sources) :
    ∀ source ∈ sources, (source.map (·.id)).Nodup := by
  induction h with
  | nil => simp
  | cons hfirst _ ih => exact List.forall_mem_cons.mpr ⟨hfirst.nodup, ih⟩

/-- Files that all load give the layered rules. -/
theorem loadRules_of_supplies {paths : List String} {sources : List (List Rule)}
    (h : List.Forall₂ (Supplies disk) paths sources) (t : RuleTable) :
    (loadRules disk t paths).2 = .ok (sources.foldl RuleTable.addAll t).rules := by
  induction h generalizing t with
  | nil => rfl
  | cons hfirst _ ih =>
      obtain ⟨loaded, hload, rfl⟩ := hfirst
      rw [loadRules, hload]
      exact ih _

/-- Loading stops at the first file that does not load. -/
theorem loadRules_eq_error {paths : List String} {t : RuleTable} {e : LoadError} :
    (loadRules disk t paths).2 = .error e ↔ ∃ before path after, paths = before ++ path :: after ∧
      (∀ p ∈ before, ∃ rules, Supplies disk p rules) ∧ loadFile disk path false = .error e := by
  induction paths generalizing t with
  | nil => simp [loadRules]
  | cons first paths ih =>
      rw [loadRules]
      cases hload : loadFile disk first false with
      | error e' =>
          constructor
          · intro heq
            cases heq
            exact ⟨[], first, paths, rfl, by simp, hload⟩
          · rintro ⟨before, path, after, heq, hbefore, herror⟩
            cases before with
            | nil =>
                obtain ⟨rfl, -⟩ := List.cons.inj heq
                rw [hload] at herror
                cases herror
                rfl
            | cons p before =>
                obtain ⟨rfl, -⟩ := List.cons.inj heq
                obtain ⟨rules, loaded, hok, -⟩ := hbefore first List.mem_cons_self
                rw [hload] at hok
                cases hok
      | ok loaded =>
          refine ih.trans ?_
          constructor
          · rintro ⟨before, path, after, rfl, hbefore, herror⟩
            refine ⟨first :: before, path, after, rfl, ?_, herror⟩
            exact List.forall_mem_cons.mpr ⟨⟨_, loaded, hload, rfl⟩, hbefore⟩
          · rintro ⟨before, path, after, heq, hbefore, herror⟩
            cases before with
            | nil =>
                obtain ⟨rfl, -⟩ := List.cons.inj heq
                rw [hload] at herror
                cases herror
            | cons p before =>
                obtain ⟨rfl, rfl⟩ := List.cons.inj heq
                exact ⟨before, path, after, rfl, (List.forall_mem_cons.mp hbefore).2, herror⟩

/-- Loading succeeds only when every file loads. -/
theorem supplies_of_loadRules {paths : List String} {t : RuleTable} {rules : List Rule}
    (h : (loadRules disk t paths).2 = .ok rules) :
    ∀ path ∈ paths, ∃ rules, Supplies disk path rules := by
  induction paths generalizing t with
  | nil => simp
  | cons first paths ih =>
      rw [loadRules] at h
      cases hload : loadFile disk first false with
      | error e =>
          rw [hload] at h
          cases h
      | ok loaded =>
          rw [hload] at h
          exact List.forall_mem_cons.mpr ⟨⟨_, loaded, hload, rfl⟩, ih h⟩

/-- **Rule files override by id.**  When all rule files of the settings load, their rules and the
standard ones give the one list in which ids are distinct, all ids of the sources occur, each id
has the rule of the last source with this id, and ids stand in the order of their first places.
When a file does not load there are no rules, and the first such file tells why. -/
theorem rulesOf_layered (disk : Disk) (cfg : Config) :
    (∀ sources, List.Forall₂ (Supplies disk) cfg.ruleFiles sources →
      ∃ rules, (rulesOf disk cfg).2 = .ok rules ∧
        ∀ other, Layered (RuleSet.standard.rules :: sources) other ↔ other = rules) ∧
    (∀ path ∈ cfg.ruleFiles, (∀ rules, ¬ Supplies disk path rules) →
      ∃ e, (rulesOf disk cfg).2 = .error e) ∧
    ∀ e, (rulesOf disk cfg).2 = .error e ↔
      ∃ before path after, cfg.ruleFiles = before ++ path :: after ∧
        (∀ p ∈ before, ∃ rules, Supplies disk p rules) ∧ loadFile disk path false = .error e := by
  refine ⟨fun sources hsources => ?_, fun path hpath hno => ?_, fun e => loadRules_eq_error⟩
  · have hnodup : ∀ source ∈ RuleSet.standard.rules :: sources, (source.map (·.id)).Nodup :=
      List.forall_mem_cons.mpr ⟨RuleSet.nodup_ids_standard, nodup_of_supplies hsources⟩
    have htracks := (RuleTable.tracks_ofRules RuleSet.nodup_ids_standard).foldl_addAll sources
    have hlayered := RuleTable.Tracks.layered hnodup htracks
    refine ⟨_, loadRules_of_supplies hsources _, fun other =>
      ⟨fun h => h.unique hnodup hlayered, ?_⟩⟩
    rintro rfl
    exact hlayered
  · cases hresult : (rulesOf disk cfg).2 with
    | error e => exact ⟨e, rfl⟩
    | ok rules =>
        obtain ⟨rules', hsupplies⟩ := supplies_of_loadRules hresult path hpath
        exact absurd hsupplies (hno rules')

/-- Two rule files; the second one has another rule for an id that the first one brings in. -/
def overridingFiles : Disk where
  root := .dir [
    ("a.yaml", .file (Bytes.ofString "rules: [\x7bid: N-1, element: E, message: a\x7d]") 0),
    ("b.yaml", .file (Bytes.ofString ("rules:\n- \x7bid: N-1, element: E, message: b\x7d\n" ++
      "- \x7bid: SEC-001, element: E, message: c\x7d")) 0)]

theorem rulesOf_layered_overriding :
    let cfg : Config := { rules := { files := ["a.yaml", "b.yaml"] } }
    ∃ first second rules,
      List.Forall₂ (Supplies overridingFiles) cfg.ruleFiles [first, second] ∧
      (rulesOf overridingFiles cfg).2 = .ok rules ∧
      (∀ other, Layered [RuleSet.standard.rules, first, second] other ↔ other = rules) ∧
      rules.map (·.id) = RuleSet.standard.rules.map (·.id) ++ ["N-1"] ∧
      (rules.filter (·.element = "E")).map (fun r => (r.id, r.message)) =
        [("SEC-001", "c"), ("N-1", "b")] := by
  intro cfg
  have hpaths : cfg.ruleFiles = ["/a.yaml", "/b.yaml"] := by decide +kernel
  have hread : ((rulesOf overridingFiles cfg).2.toOption.map fun rules => (rules.map (·.id),
      (rules.filter (·.element = "E")).map fun r => (r.id, r.message))) =
      some (RuleSet.standard.rules.map (·.id) ++ ["N-1"],
        [("SEC-001", "c"), ("N-1", "b")]) := by decide +kernel
  cases hresult : (rulesOf overridingFiles cfg).2 with
  | error e =>
      rw [hresult] at hread
      cases hread
  | ok rules =>
      have hloads := supplies_of_loadRules hresult
      obtain ⟨first, hfirst⟩ := hloads "/a.yaml" (by simp [hpaths])
      obtain ⟨second, hsecond⟩ := hloads "/b.yaml" (by simp [hpaths])
      have hsources : List.Forall₂ (Supplies overridingFiles) cfg.ruleFiles [first, second] := by
        rw [hpaths]
        exact .cons hfirst (.cons hsecond .nil)
      obtain ⟨rules', hrules', hlayered⟩ := (rulesOf_layered overridingFiles cfg).1 _ hsources
      rw [hresult] at hrules' hread
      obtain rfl := Except.ok.inj hrules'
      obtain ⟨hids, hnew⟩ := Prod.mk.inj (Option.some.inj hread)
      exact ⟨first, second, rules, hsources, rfl, hlayered, hids, hnew⟩

end Project
end InstallerLint
