import InstallerLint.Proofs.Document.Starts
import InstallerLint.Proofs.Project.Schedule
import InstallerLint.Proofs.Rule.Engine

/-!
# The order of rules

The rules of a project are listed in some order, and every list of the same rules gives the same
output.

**Keys.**  When the rules have different ids, no two findings of an engine have the same line,
column and rule, since no two elements start at the same place (`nodup_keys_emitted`).

**Sorting.**  Findings in another order with different keys are the same list when they are sorted
(`sort_eq_of_perm`).  So an engine that asks its rules in another order returns the same
(`evaluate_perm_rules`), and what is added to this does not depend on the rules.

**The main result** is `analyze_perm_rules`.
-/

namespace InstallerLint

namespace Diagnostic

/-- What findings of one file are sorted by. -/
def key (x : Diagnostic) : Int × Int × String := (x.location.line, x.location.col, x.ruleId)

theorem keys_antisymm {α : Type} [LinearOrder α] {a b : α} {p q : Prop}
    (hab : a < b ∨ a = b ∧ p) (hba : b < a ∨ b = a ∧ q) : a = b ∧ p ∧ q := by
  rcases hab with hlt | ⟨heq, hp⟩
  · rcases hba with hgt | ⟨heq, -⟩
    · exact absurd (hlt.trans hgt) (lt_irrefl a)
    · exact absurd heq hlt.ne'
  · rcases hba with hgt | ⟨-, hq⟩
    · exact absurd heq hgt.ne'
    · exact ⟨heq, hp, hq⟩

theorem tied_of_precedes {a b : Diagnostic} (hab : Precedes a b) (hba : Precedes b a) :
    Tied a b := by
  obtain ⟨hfile, hab, hba⟩ := keys_antisymm hab hba
  obtain ⟨hline, hab, hba⟩ := keys_antisymm hab hba
  obtain ⟨hcol, hab, hba⟩ := keys_antisymm hab hba
  exact ⟨hfile, hline, hcol, le_antisymm hab hba⟩

/-- Findings with different keys are sorted in one way. -/
theorem sort_eq_of_perm {l l' : List Diagnostic} (h : l.Perm l') (hkeys : (l.map key).Nodup) :
    sort l = sort l' := by
  have hperm : (sort l).Perm (sort l') := (sort_perm l).trans (h.trans (sort_perm l').symm)
  refine hperm.eq_of_pairwise ?_ (pairwise_sort l) (pairwise_sort l')
  intro a b ha hb hab hba
  obtain ⟨-, hline, hcol, hid⟩ := tied_of_precedes hab hba
  have ha' : a ∈ l := (sort_perm l).mem_iff.mp ha
  have hb' : b ∈ l := h.mem_iff.mpr ((sort_perm l').mem_iff.mp hb)
  refine List.inj_on_of_nodup_map hkeys ha' hb' ?_
  unfold key
  rw [hline, hcol, hid]

end Diagnostic

theorem Tally.ofNames_perm {l l' : List String} (h : l.Perm l') : ofNames l = ofNames l' := by
  have hcomm : RightCommutative fun (t : Tally) (k : String) => add k 1 t :=
    ⟨fun t k k' => add_right_comm k' k 1 1 t⟩
  exact h.foldl_eq []

theorem Stats.recount_perm (stats : Stats) {ds ds' : List Diagnostic} (h : ds.Perm ds') :
    stats.recount ds = stats.recount ds' := by
  unfold recount
  rw [Tally.ofNames_perm (h.map _), Tally.ofNames_perm (h.map _)]

namespace Engine

variable {rules rules' : List Rule} {s : Selection} {d : Document} {source : Bytes} {path : String}

/-- At an element that no other one shares its place with, a rule that no other one shares its id
with raises a finding with a key of its own. -/
theorem nodup_keys_emitted (hd : Document.parse source path = .ok d)
    (hids : (rules.map (·.id)).Nodup) : ((emitted rules s d).map Diagnostic.key).Nodup := by
  have hforest : d.Forest := Document.forest_of_parse hd
  refine ((emitted_perm_naive hforest).map Diagnostic.key).nodup_iff.mpr ?_
  have hpairs : (List.range d.size ×ˢ rules).Nodup := List.nodup_range.product hids.of_map
  unfold naive
  rw [List.map_map]
  refine (hpairs.filter _).map_on fun p hp q hq heq => ?_
  obtain ⟨hp, hr⟩ := List.mem_product.mp (List.mem_filter.mp hp).1
  obtain ⟨hq, hr'⟩ := List.mem_product.mp (List.mem_filter.mp hq).1
  simp only [Function.comp_apply, Diagnostic.key, Selection.report, Document.location,
    Prod.mk.injEq, Int.ofNat_inj] at heq
  obtain ⟨hline, hcol, hid⟩ := heq
  refine Prod.ext ?_ (List.inj_on_of_nodup_map hids hr hr' hid)
  exact Document.start_injective hd (List.mem_range.mp hp) (List.mem_range.mp hq) hline hcol

theorem emitted_perm (h : rules.Perm rules') : (emitted rules s d).Perm (emitted rules' s d) :=
  List.Perm.flatMap (.refl _) fun _ _ => ((h.filter _).map _).append ((h.filter _).map _)

/-- An engine returns the same findings and numbers for the same rules in another order. -/
theorem evaluate_perm_rules (hd : Document.parse source path = .ok d) (h : rules.Perm rules')
    (hids : (rules.map (·.id)).Nodup) {m m' : Memo} (hm : m.Faithful) (hm' : m'.Faithful) :
    ((new rules s).evaluate d m).1 = ((new rules' s).evaluate d m').1 ∧
      ((new rules s).evaluate d m).2.1 = ((new rules' s).evaluate d m').2.1 := by
  have hforest : d.Forest := Document.forest_of_parse hd
  have hfound : (emitted rules s d).Perm (emitted rules' s d) := emitted_perm h
  have hsort := Diagnostic.sort_eq_of_perm hfound (nodup_keys_emitted hd hids)
  have hasked : Numbers.total
        (d.ids.map fun (id : Nat) => ((new rules s).rulesFor (d.kind id)).length) =
      Numbers.total
        (d.ids.map fun (id : Nat) => ((new rules' s).rulesFor (d.kind id)).length) := by
    rw [asked_eq hforest, asked_eq hforest]
    exact (List.Perm.product (.refl _) h).countP_eq _
  simp only [evaluate, askAll_eq_emitted hm, askAll_eq_emitted hm', hsort, hasked]
  exact ⟨rfl, Stats.recount_perm _ hfound⟩

end Engine

namespace Analyzer

variable {rules rules' : List Rule} {d : Document} {source : Bytes} {path : String}

/-- Rules with different ids say whether they run in any order. -/
theorem byDefault_perm (h : rules.Perm rules') (hids : (rules.map (·.id)).Nodup) :
    byDefault rules = byDefault rules' := by
  have hreverse : rules.reverse.Perm rules'.reverse :=
    (List.reverse_perm rules).trans (h.trans (List.reverse_perm rules').symm)
  funext id
  have hfind : rules.reverse.find? (·.id = id) = rules'.reverse.find? (·.id = id) := by
    cases hfound : rules.reverse.find? (·.id = id) with
    | none =>
        refine (List.find?_eq_none.mpr fun r hr => ?_).symm
        exact List.find?_eq_none.mp hfound r (hreverse.mem_iff.mpr hr)
    | some r =>
        have hr := List.mem_of_find?_eq_some hfound
        have hid : r.id = id := by simpa using List.find?_some hfound
        have hsome : (rules'.reverse.find? (·.id = id)).isSome = true :=
          List.find?_isSome.mpr ⟨r, hreverse.mem_iff.mp hr, decide_eq_true hid⟩
        obtain ⟨r', hfound'⟩ := Option.isSome_iff_exists.mp hsome
        have hid' : r'.id = id := by simpa using List.find?_some hfound'
        have hr' := hreverse.mem_iff.mpr (List.mem_of_find?_eq_some hfound')
        rw [hfound', List.inj_on_of_nodup_map hids (List.mem_reverse.mp hr)
          (List.mem_reverse.mp hr') (hid.trans hid'.symm)]
  unfold byDefault
  rw [hfind]

/-- **The order of rules does not matter.**  Under all settings and with all answers about symbols,
rules with different ids give the same result and the same numbers for a document in every order,
whatever patterns were read before. -/
theorem analyze_perm_rules (h : rules.Perm rules') (hids : (rules.map (·.id)).Nodup) (cfg : Config)
    (hd : Document.parse source path = .ok d) (r : Resolver) {m m' : Memo} (hm : m.Faithful)
    (hm' : m'.Faithful) :
    ((new rules cfg).analyze d r m).1 = ((new rules' cfg).analyze d r m').1 ∧
      ((new rules cfg).analyze d r m).2.1 = ((new rules' cfg).analyze d r m').2.1 := by
  obtain ⟨hfound, hstats⟩ := Engine.evaluate_perm_rules
    (s := cfg.selection (byDefault rules)) hd h hids hm hm'
  have hengine : (new rules' cfg).engine =
      Engine.new rules' (cfg.selection (byDefault rules)) := by
    rw [byDefault_perm h hids]
    rfl
  have hengine' : (new rules cfg).engine =
      Engine.new rules (cfg.selection (byDefault rules)) := rfl
  have hchecks : (new rules' cfg).checkFindings d r = (new rules cfg).checkFindings d r := rfl
  simp only [analyze, findings, hengine, hengine', hchecks, hfound, hstats]
  exact ⟨rfl, rfl⟩

theorem analyze_perm_rules_swap :
    let rules : List Rule := [
      { id := "WIX-1", element := "*", message := "any" },
      { id := "WIX-2", element := "b", message := "leaf" }]
    let cfg : Config := { maxDiagnostics := 2 }
    let r : Resolver := (SymbolIndex.resolver {})
    ∃ d, Document.parse (Bytes.ofString "<a><b/></a>") "x.wxs" = .ok d ∧
      rules.Perm rules.reverse ∧ (rules.map (·.id)).Nodup ∧
      ((new rules cfg).analyze d r []).1 = ((new rules.reverse cfg).analyze d r []).1 ∧
      ((new rules cfg).analyze d r []).2.1 = ((new rules.reverse cfg).analyze d r []).2.1 := by
  intro rules cfg r
  have ha : Xml.IsPlainName "a" := Xml.isPlainName_of_letters rfl (by decide)
  have hb : Xml.IsPlainName "b" := Xml.isPlainName_of_letters rfl (by decide)
  let outer := Xml.WrittenTag.bare ha false
  let c : Xml.Content :=
    .element outer rfl (.closed (.bare hb true) rfl .done) outer.endTag rfl .done
  have hparse : Document.parse (Bytes.ofString "<a><b/></a>") "x.wxs" = .ok _ :=
    Document.parse_eq_ok.mpr ⟨c, _, rfl,
      ⟨by simp [c, Xml.Apart, Xml.Content.pieces, Xml.Piece.isBare], rfl, rfl⟩, rfl⟩
  have hperm : rules.Perm rules.reverse := (List.reverse_perm rules).symm
  have hids : (rules.map (·.id)).Nodup := by decide
  have hresult := analyze_perm_rules hperm hids cfg hparse r Memo.faithful_nil Memo.faithful_nil
  exact ⟨_, hparse, hperm, hids, hresult.1, hresult.2⟩

end Analyzer

end InstallerLint
