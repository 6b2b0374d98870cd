import InstallerLint.Condition.Eval
import InstallerLint.Proofs.Condition.Operands

/-!
# Conditions are read as they were written

A condition is written as a mapping from its predicate's name, with the conditions that it combines
inside.

**From a condition to its tree.**  Every well-formed condition can be written.  Where it was written,
a condition is read with the operands that are written for its predicate (`kept`); nothing else of
it shows in its text or in where it holds.

**Levels.**  A tree is read down to its own depth, and nothing lies deeper: reading goes on inside
a tree as it began (`ofYaml_eq`).

**From a tree to its condition.**  Whatever is read in the form of conditions is well formed
(`sound_ofYaml`), so that it can be written and read again.  A mapping with the tag of null does not
get to the form, and may give a negation of nothing.

**The main result** is `ofTree_toYaml`.
-/

namespace InstallerLint

open Yaml (DataTree Decode Rereads RereadsAll)
open Yaml.Decode

namespace Condition

mutual

/-- Every predicate in the condition has a meaning and the operands it cannot do without, and every
negation has one part. -/
def WellFormed : Condition → Prop
  | mk p o cs =>
    (∀ n, p ≠ .unknown n) ∧ o.Meets p ∧ (p = .not → cs.length = 1) ∧ AllWellFormed cs

/-- All conditions of a list are well formed. -/
def AllWellFormed : List Condition → Prop
  | [] => True
  | c :: cs => WellFormed c ∧ AllWellFormed cs

end

mutual

/-- What is left of a condition when it is written and read again: predicates keep the operands that
are written for them. -/
def kept : Condition → Condition
  | mk p o cs =>
    match p with
    | .all | .any | .not => mk p (keptOperands p o) (keptAll cs)
    | _ => mk p (keptOperands p o) []

/-- What is left of some conditions. -/
def keptAll : List Condition → List Condition
  | [] => []
  | c :: cs => kept c :: keptAll cs

end

/-! ### Levels -/

section Levels

variable {item item' : DataTree → Decode (Option Condition)}

/-- A field of a condition depends on the decoder below its node only. -/
theorem fieldOf_congr {n : DataTree} (h : ∀ t, t.depth < n.depth → item t = item' t)
    (c : Condition) (name : String) : fieldOf item c name n = fieldOf item' c name n := by
  have hlist : list "[]condition.Condition" item n = list "[]condition.Condition" item' n :=
    list_congr h
  obtain ⟨p, o, cs⟩ := c
  simp only [fieldOf, hlist]

/-- The same for the parts of a connective. -/
theorem ofParts_congr {p : Predicate} {n : DataTree} (h : ∀ t, t.depth < n.depth → item t = item' t) :
    ofParts item p n = ofParts item' p n := by
  cases n with
  | list line tag items =>
      rw [ofParts, ofParts, collect_congr fun m hm => h m (Nat.lt_succ_of_le (depth_le_of_mem hm))]
  | _ => rfl

/-- The same for a whole form, by cases on it. -/
theorem ofForm_congr : ∀ {n : DataTree}, (∀ t, t.depth < n.depth → item t = item' t) →
    ofForm item n = ofForm item' n
  | .reference .., _ | .scalar .., _ | .list .., _ => rfl
  | .mapping _ _ [], _ | .mapping _ _ (_ :: _ :: _), _ => rfl
  | .mapping line tag [(key, value)], h => by
      have hvalue : value.depth < (DataTree.mapping line tag [(key, value)]).depth :=
        Nat.lt_succ_of_le (Nat.le_max_left _ _)
      have hparts : ∀ p, ofParts item p value = ofParts item' p value := fun p =>
        ofParts_congr fun t ht => h t (Nat.lt_trans ht hvalue)
      have hnegated : ofNegated item value = ofNegated item' value := by
        rw [ofNegated, ofNegated, h value hvalue]
      simp only [ofForm, hparts, hnegated]

theorem depth_pos (n : DataTree) : 0 < n.depth := by
  cases n with
  | reference line name target => cases target <;> exact Nat.succ_pos _
  | _ => exact Nat.succ_pos _

/-- Levels below a tree are never reached. -/
theorem ofLevels_eq {k : Nat} {n : DataTree} (h : n.depth ≤ k) (strict : Bool) :
    ofLevels k strict n = ofYaml strict n := by
  suffices hsame : ∀ k k' n strict, DataTree.depth n ≤ k → n.depth ≤ k' →
      ofLevels k strict n = ofLevels k' strict n from hsame k n.depth n strict h (Nat.le_refl _)
  intro k
  induction k with
  | zero => exact fun k' n strict h => absurd (depth_pos n) (Nat.not_lt.mpr h)
  | succ k ih =>
      intro k' n strict h h'
      obtain ⟨k', rfl⟩ := Nat.exists_eq_succ_of_ne_zero (Nat.ne_of_gt (Nat.lt_of_lt_of_le (depth_pos n) h'))
      unfold ofLevels
      refine bind_congr_of_yields (depth_le_of_deref n) fun t ht => ?_
      have hitem : ∀ strict u, DataTree.depth u < t.depth →
          ofLevels k strict u = ofLevels k' strict u := fun strict u hu =>
        ih k' u strict (Nat.le_of_lt_succ (Nat.lt_of_lt_of_le hu (Nat.le_trans ht h)))
          (Nat.le_of_lt_succ (Nat.lt_of_lt_of_le hu (Nat.le_trans ht h')))
      rw [record_congr fun c name u hu => fieldOf_congr
          (fun w hw => hitem strict w (Nat.lt_trans hw hu)) c name,
        ofForm_congr (hitem false)]

/-- **How a condition is read.**  Inside a tree conditions are read in the same way. -/
theorem ofYaml_eq (strict : Bool) (n : DataTree) :
    ofYaml strict n = (do
      let t ← deref n
      if t.tag = nullTag then record "condition.Condition" strict always (fieldOf (ofYaml strict)) t
      else ofForm (ofYaml false) t) := by
  obtain ⟨k, hk⟩ := Nat.exists_eq_succ_of_ne_zero (Nat.ne_of_gt (depth_pos n))
  unfold ofYaml
  rw [hk, ofLevels]
  refine bind_congr_of_yields (depth_le_of_deref n) fun t ht => ?_
  have hitem : ∀ strict u, DataTree.depth u < t.depth → ofLevels k strict u = ofYaml strict u :=
    fun strict u hu =>
      ofLevels_eq (Nat.le_of_lt_succ (Nat.lt_of_lt_of_le hu (hk ▸ ht))) strict
  rw [record_congr fun c name u hu => fieldOf_congr
      (fun w hw => hitem strict w (Nat.lt_trans hw hu)) c name,
    ofForm_congr (hitem false)]
  rfl

/-- A scalar that is not tagged as null is read by its word. -/
theorem ofYaml_scalar (strict : Bool) (line : Nat) {tag : String} (text : String)
    (htag : tag ≠ nullTag) :
    ofYaml strict (.scalar line tag text) = ofForm (ofYaml false) (.scalar line tag text) := by
  rw [ofYaml_eq]
  exact if_neg htag

/-- A mapping that is not tagged as null is read by its keys. -/
theorem ofYaml_mapping (strict : Bool) (line : Nat) {tag : String}
    (entries : List (DataTree × DataTree)) (htag : tag ≠ nullTag) :
    ofYaml strict (.mapping line tag entries) = ofForm (ofYaml false) (.mapping line tag entries) := by
  rw [ofYaml_eq]
  exact if_neg htag

end Levels

/-! ### From a condition to its tree -/

/-- The condition can be written, and what is read where it was written is what it keeps. -/
def Reads (c : Condition) : Prop :=
  ∃ v, toYaml? c = some v ∧ (∃ t, Rereads v t) ∧
    ∀ strict t, Rereads v t → Gives (ofYaml strict t) (some (kept c))

/-- A condition written under one key is read again when its value is. -/
theorem reads_of_single {c : Condition} {name : String} {v : Json}
    (hwrite : toYaml? c = some (.obj [(name, v)])) (hv : ∃ t, Rereads v t)
    (hread : ∀ line tag l value, Rereads v value →
      Gives (ofForm (ofYaml false) (.mapping line tag [(.scalar l "!!str" name, value)]))
        (some (kept c))) :
    Reads c := by
  refine ⟨_, hwrite, Yaml.exists_rereads_obj fun m hm => ?_, fun strict t ht => ?_⟩
  · cases List.mem_singleton.mp hm
    exact hv
  · obtain ⟨line, l, value, rfl, hvalue⟩ := Yaml.rereads_single ht
    rw [ofYaml_mapping strict line _ (by decide)]
    exact hread line _ l value hvalue

/-- A condition written as a word is read again when the word is. -/
theorem reads_of_word {c : Condition} {word : String} (hwrite : toYaml? c = some (.str word))
    (hread : ∀ line, Gives (ofForm (ofYaml false) (.scalar line "!!str" word)) (some (kept c))) :
    Reads c := by
  refine ⟨_, hwrite, ⟨.scalar 1 "!!str" word, rfl, rfl⟩, fun strict t ht => ?_⟩
  obtain ⟨line, rfl⟩ := Yaml.rereads_str ht
  rw [ofYaml_scalar strict line _ (by decide)]
  exact hread line

/-- What is written for a part is read again as some node. -/
theorem Part.exists_rereads_written : ∀ x : Part, ∃ t, Rereads x.written t
  | name s | value s | pattern s | element s | substring s => ⟨.scalar 1 "!!str" s, rfl, rfl⟩
  | values l | elements l => Yaml.exists_rereads_strs l
  | max n => ⟨.scalar 1 "!!int" (toString n), rfl, rfl, n, rfl⟩

theorem CountPart.exists_rereads_written : ∀ x : CountPart, ∃ t, Rereads x.written t
  | element s | op s => ⟨.scalar 1 "!!str" s, rfl, rfl⟩
  | value n => ⟨.scalar 1 "!!int" (toString n), rfl, rfl, n, rfl⟩

/-- A predicate with operands is read again. -/
theorem reads_of_operands {p : Predicate} {o : Operands} (hp : p.takesOperands = true)
    (ho : o.Meets p) (cs : List Condition) : Reads (mk p o cs) := by
  have hknown : ∀ n, p ≠ .unknown n := by
    rintro n rfl
    cases hp
  have hwrite : toYaml? (mk p o cs) = some (.obj [(p.name, operandsToYaml p o)]) := by
    cases p <;> first | rfl | exact absurd hp Bool.false_ne_true
  have hkept : kept (mk p o cs) = mk p (keptOperands p o) [] := by
    cases p <;> first | rfl | exact absurd hp Bool.false_ne_true
  refine reads_of_single hwrite ?_ fun line tag l value hvalue => ?_
  · rw [operandsToYaml_eq]
    refine Yaml.exists_rereads_obj fun m hm => ?_
    obtain ⟨x, -, rfl⟩ := List.mem_map.mp hm
    exact x.exists_rereads_written
  · have hname : Predicate.ofName? (DataTree.text (.scalar l "!!str" p.name)) = some p :=
      Predicate.ofName?_name hknown
    have hread : ofForm (ofYaml false) (.mapping line tag [(.scalar l "!!str" p.name, value)]) =
        ofOperands p value := by
      rw [ofForm, hname]
      cases p <;> first | rfl | exact absurd hp Bool.false_ne_true
    rw [hread, hkept]
    exact gives_ofOperands hp ho hvalue

/-- A count of children is read again. -/
theorem reads_of_childCount {o : Operands} (ho : o.Meets .childCount) (cs : List Condition) :
    Reads (mk .childCount o cs) := by
  have hwrite : toYaml? (mk .childCount o cs) =
      some (.obj [("child_count", .obj ((countParts o).map fun x => (x.key, x.written)))]) := rfl
  refine reads_of_single hwrite (Yaml.exists_rereads_obj fun m hm => ?_)
    fun line tag l value hvalue => ?_
  · obtain ⟨x, -, rfl⟩ := List.mem_map.mp hm
    exact x.exists_rereads_written
  · rw [ofForm]
    exact gives_countOf ho hvalue

/-- A bound on the depth is read again. -/
theorem reads_of_depthExceeds {o : Operands} (ho : o.Meets .depthExceeds) (cs : List Condition) :
    Reads (mk .depthExceeds o cs) := by
  have hwrite : toYaml? (mk .depthExceeds o cs) =
      some (.obj [("depth_exceeds", .obj [("max", .int o.count)])]) := rfl
  refine reads_of_single hwrite (Yaml.exists_rereads_obj fun m hm => ?_)
    fun line tag l value hvalue => ?_
  · cases List.mem_singleton.mp hm
    exact Part.exists_rereads_written (.max o.count)
  · rw [ofForm]
    exact gives_depthOf (ho.count (Or.inr rfl)) hvalue

/-- The parts of a condition can be written, and what is read where they were written is what they
keep. -/
def ReadAll (cs : List Condition) : Prop :=
  ∃ vs, toYamls? cs = some vs ∧ (∃ ts, RereadsAll vs ts) ∧
    ∀ ts, RereadsAll vs ts → Gives (collect (ofYaml false) ts) (keptAll cs)

/-- The parts of a connective are read again in order. -/
theorem gives_ofParts {p : Predicate} {vs : List Json} {cs : List Condition} {t : DataTree}
    (h : ∀ ts, RereadsAll vs ts → Gives (collect (ofYaml false) ts) cs)
    (ht : Rereads (.arr vs) t) : Gives (ofParts (ofYaml false) p t) (some (mk p {} cs)) := by
  obtain ⟨line, items, rfl, hitems⟩ := Yaml.rereads_arr ht
  rw [ofParts]
  exact (h items hitems).nested.bind (gives_pure _)

/-- A conjunction or disjunction is read again when its parts are. -/
theorem reads_of_parts {p : Predicate} {cs : List Condition} (hp : p = .all ∨ p = .any)
    (h : ReadAll cs) (o : Operands) : Reads (mk p o cs) := by
  obtain ⟨vs, hvs, hex, hback⟩ := h
  have hwrite : toYaml? (mk p o cs) = some (.obj [(p.name, .arr vs)]) := by
    rcases hp with rfl | rfl
    all_goals
      rw [toYaml?, hvs]
      rfl
  refine reads_of_single hwrite (Yaml.exists_rereads_arr hex) fun line tag l value hvalue => ?_
  rcases hp with rfl | rfl
  all_goals
    rw [ofForm]
    exact gives_ofParts hback hvalue

/-- A negation is read again when its operand is. -/
theorem reads_of_not {c : Condition} (h : Reads c) (o : Operands) : Reads (mk .not o [c]) := by
  obtain ⟨v, hv, hex, hback⟩ := h
  have hwrite : toYaml? (mk .not o [c]) = some (.obj [("not", v)]) := by
    simp only [toYaml?, hv, Option.map_some]
  refine reads_of_single hwrite hex fun line tag l value hvalue => ?_
  rw [ofForm]
  exact (hback false value hvalue).nested.bind (gives_pure _)

mutual

/-- A well-formed condition can be written, and is read as what it keeps. -/
theorem reads_of_wellFormed : ∀ c : Condition, WellFormed c → Reads c
  | mk p o cs, ⟨hknown, ho, hlone, hparts⟩ => by
      cases p with
      | always => exact reads_of_word rfl fun _ => gives_pure _
      | never => exact reads_of_word rfl fun _ => gives_pure _
      | all => exact reads_of_parts (Or.inl rfl) (readAll_of_allWellFormed cs hparts) o
      | any => exact reads_of_parts (Or.inr rfl) (readAll_of_allWellFormed cs hparts) o
      | not =>
          match cs, hlone rfl with
          | [c], _ => exact reads_of_not (reads_of_wellFormed c hparts.1) o
      | childCount => exact reads_of_childCount ho cs
      | depthExceeds => exact reads_of_depthExceeds ho cs
      | unknown n => exact absurd rfl (hknown n)
      | _ => exact reads_of_operands rfl ho cs

/-- Well-formed operands are read again, by recursion on the list. -/
theorem readAll_of_allWellFormed : ∀ cs : List Condition, AllWellFormed cs → ReadAll cs
  | [], _ => by
      refine ⟨[], rfl, ⟨[], trivial⟩, fun ts hts => ?_⟩
      cases ts with
      | nil => exact gives_pure []
      | cons t ts => exact hts.elim
  | c :: cs, h => by
      obtain ⟨v, hv, ⟨t, ht⟩, hback⟩ := reads_of_wellFormed c h.1
      obtain ⟨vs, hvs, ⟨ts, hts⟩, hbacks⟩ := readAll_of_allWellFormed cs h.2
      refine ⟨v :: vs, by rw [toYamls?, hv, hvs], ⟨t :: ts, ht, hts⟩, fun ts' hts' => ?_⟩
      cases ts' with
      | nil => exact hts'.elim
      | cons t' ts' =>
          exact (hback false t' hts'.1).bind ((hbacks ts' hts'.2).bind (gives_pure _))

end

/-! ### What is kept is what matters -/

/-- Keeping the operands a predicate uses keeps its text. -/
theorem operandText_keptOperands (p : Predicate) (o : Operands) :
    operandText p (keptOperands p o) = operandText p o := by
  cases p <;> rfl

/-- Keeping the operands a predicate uses keeps where it holds. -/
theorem holdsPlain_keptOperands (p : Predicate) (o : Operands) (d : Document) (id : Int) :
    holdsPlain p (keptOperands p o) d id = holdsPlain p o d id := by
  cases p <;> rfl

mutual

/-- What is kept of a condition has its text. -/
theorem text_kept : ∀ c : Condition, (kept c).text = c.text
  | mk p o cs => by
      cases p with
      | all | any | not => simp only [kept, text, texts_keptAll cs]
      | always | never | unknown n => rfl
      | _ => simp only [kept, text, operandText_keptOperands]

theorem texts_keptAll : ∀ cs : List Condition, texts (keptAll cs) = texts cs
  | [] => rfl
  | c :: cs => by simp only [keptAll, texts, text_kept c, texts_keptAll cs]

end

section Eval

variable (d : Document) (id : Int)

mutual

/-- What is kept of a condition holds where the condition holds. -/
theorem eval_kept : ∀ (c : Condition) (m : Memo), eval d id (kept c) m = eval d id c m
  | mk p o cs, m => by
      cases p with
      | all => simp only [kept, eval, evalAll_keptAll cs m]
      | any => simp only [kept, eval, evalAny_keptAll cs m]
      | not => simp only [kept, eval, evalLone_keptAll cs m]
      | attributeMatches | attributeNotMatches | textMatches => simp only [kept, eval, keptOperands]
      | _ => simp only [kept, eval, holdsPlain_keptOperands]

/-- A conjunction answers as before when its parts are kept. -/
theorem evalAll_keptAll : ∀ (cs : List Condition) (m : Memo),
    evalAll d id (keptAll cs) m = evalAll d id cs m
  | [], m => rfl
  | c :: cs, m => by simp only [keptAll, evalAll, eval_kept c m, evalAll_keptAll cs]

theorem evalAny_keptAll : ∀ (cs : List Condition) (m : Memo),
    evalAny d id (keptAll cs) m = evalAny d id cs m
  | [], m => rfl
  | c :: cs, m => by simp only [keptAll, evalAny, eval_kept c m, evalAny_keptAll cs]

theorem evalLone_keptAll : ∀ (cs : List Condition) (m : Memo),
    evalLone d id (keptAll cs) m = evalLone d id cs m
  | [], m => rfl
  | [c], m => by simp only [keptAll, evalLone, eval_kept c m]
  | _ :: _ :: _, m => rfl

end

end Eval

/-- The conditions that are put together from the constructors; lists may be absent or empty. -/
inductive Built : Condition → Prop where
  | always : Built always
  | never : Built never
  | attributeMissing (name : String) : Built (attributeMissing name)
  | attributeExists (name : String) : Built (attributeExists name)
  | attributeEquals (name value : String) : Built (attributeEquals name value)
  | attributeNotEquals (name value : String) : Built (attributeNotEquals name value)
  | attributeMatches (name pattern : String) : Built (attributeMatches name pattern)
  | attributeNotMatches (name pattern : String) : Built (attributeNotMatches name pattern)
  | attributeIn (name : String) (values : Option (List String)) :
    Built (mk .attributeIn { name, values } [])
  | attributeNotIn (name : String) (values : Option (List String)) :
    Built (mk .attributeNotIn { name, values } [])
  | hasChild (element : String) : Built (hasChild element)
  | missingChild (element : String) : Built (missingChild element)
  | childCount (element : String) (comparison : Comparison) (count : Int) :
    Built (childCount element comparison count)
  | parentIs (element : String) : Built (parentIs element)
  | parentNot (element : String) : Built (parentNot element)
  | parentIn (elements : Option (List String)) : Built (mk .parentIn { elements } [])
  | parentNotIn (elements : Option (List String)) : Built (mk .parentNotIn { elements } [])
  | depthExceeds (count : Int) : Built (depthExceeds count)
  | textMatches (pattern : String) : Built (textMatches pattern)
  | textContains (value : String) : Built (textContains value)
  | all {cs : List Condition} (h : ∀ c ∈ cs, Built c) : Built (all cs)
  | any {cs : List Condition} (h : ∀ c ∈ cs, Built c) : Built (any cs)
  | not {c : Condition} (h : Built c) : Built (not c)

theorem keptAll_eq_self {cs : List Condition} (h : ∀ c ∈ cs, kept c = c) : keptAll cs = cs := by
  induction cs with
  | nil => rfl
  | cons c cs ih =>
      rw [keptAll, h c List.mem_cons_self, ih fun c' hc' => h c' (List.mem_cons_of_mem _ hc')]

/-- Of what is put together from the constructors nothing is lost. -/
theorem Built.kept_eq {c : Condition} (h : Built c) : kept c = c := by
  induction h with
  | all _ ih =>
      rw [Condition.all, kept, keptAll_eq_self ih]
      rfl
  | any _ ih =>
      rw [Condition.any, kept, keptAll_eq_self ih]
      rfl
  | not _ ih =>
      rw [Condition.not, kept, keptAll_eq_self (by simpa using ih)]
      rfl
  | _ => rfl

/-! ### What is read is well formed -/

/-- A decoder that gives, if anything, a well-formed condition. -/
abbrev Sound (d : Decode (Option Condition)) : Prop := Yields d fun o => ∀ c ∈ o, WellFormed c

theorem sound_none : Sound (pure none) := yields_pure nofun

theorem sound_some {c : Condition} (h : WellFormed c) : Sound (pure (some c)) := by
  refine yields_pure fun c' hc' => ?_
  cases hc'
  exact h

/-- Predicates without operands ask for nothing. -/
theorem meets_of_idle {p : Predicate} (hp : p ∈ [.always, .never, .all, .any, .not])
    (o : Operands) : o.Meets p := by
  have hnone : p ∉ Predicate.ofAttribute ∧ p.usesPattern = false ∧ p ∉ Predicate.ofKind ∧
      p ∉ Predicate.ofKinds ∧ p ≠ .childCount ∧ p ≠ .depthExceeds := by
    revert p
    decide
  obtain ⟨hattribute, hpattern, hkind, hkinds, hcount, hdepth⟩ := hnone
  exact {
    name := fun h => absurd h hattribute
    pattern := fun h => absurd (hpattern.symm.trans h) Bool.false_ne_true
    element := fun h => absurd h hkind
    elements := fun h => absurd h hkinds
    comparison := fun h => absurd h hcount
    count := fun h => absurd h (not_or.mpr ⟨hcount, hdepth⟩) }

theorem wellFormed_always : WellFormed always := ⟨nofun, meets_of_idle (by decide) _, nofun, trivial⟩

theorem wellFormed_never : WellFormed never := ⟨nofun, meets_of_idle (by decide) _, nofun, trivial⟩

theorem wellFormed_childCount {element : String} {c : Comparison} {n : Int} (helement : element ≠ "")
    (hc : ∀ i, c ≠ .unknown i) (hn : isInt64 n = true) : WellFormed (childCount element c n) := by
  refine ⟨nofun, ?_, nofun, trivial⟩
  exact {
    name := fun h => absurd h (by decide)
    pattern := nofun
    element := fun _ => helement
    elements := fun h => absurd h (by decide)
    comparison := fun _ => hc
    count := fun _ => hn }

theorem wellFormed_depthExceeds {n : Int} (hn : isInt64 n = true) : WellFormed (depthExceeds n) := by
  refine ⟨nofun, ?_, nofun, trivial⟩
  exact {
    name := fun h => absurd h (by decide)
    pattern := nofun
    element := fun h => absurd h (by decide)
    elements := fun h => absurd h (by decide)
    comparison := nofun
    count := fun _ => hn }

/-- A predicate that was read with its operands is well formed. -/
theorem sound_ofGiven {p : Predicate} (hp : p.takesOperands = true) (n : DataTree) (g : Given) :
    Sound (some <$> ofGiven p n g) := by
  have hwell : Yields (ofGiven p n g) WellFormed := by
    rw [ofGiven_eq]
    split
    · exact yields_throw _
    · next hnone =>
        refine yields_pure ⟨?_, (lacking?_eq_none_iff hp).mp hnone, ?_, trivial⟩
        · rintro i rfl
          cases hp
        · rintro rfl
          cases hp
  refine hwell.map fun c hc c' hc' => ?_
  cases hc'
  exact hc

theorem sound_ofOperands {p : Predicate} (hp : p.takesOperands = true) (n : DataTree) :
    Sound (ofOperands p n) := by
  unfold ofOperands
  split
  · split
    · exact sound_ofGiven hp _ _
    · exact yields_throw _
  · split
    all_goals
      refine yields_bind fun o => ?_
      split
      · exact sound_ofGiven hp _ _
      · exact sound_none
  · refine yields_bind fun o => ?_
    split
    · exact sound_ofGiven hp _ _
    · exact sound_none

/-- A count of children that was read is well formed. -/
theorem sound_countOf (n : DataTree) : Sound (countOf n) := by
  have hfield : ∀ (g : CountGiven) name n d, isInt64 g.value = true → countField g name n = some d →
      Yields d fun g => isInt64 g.value = true := by
    intro g name n d hg hd
    unfold countField at hd
    split at hd
    · cases hd
      exact yields_map fun _ => hg
    · cases hd
      exact yields_map fun _ => hg
    · cases hd
      refine (yields_int n).map fun v hv => ?_
      cases v with
      | none => exact hg
      | some i => exact hv i rfl
    · cases hd
  have hrecord : Yields (record "condition.countOperands" false {} countField n)
      fun o => ∀ g ∈ o, isInt64 g.value = true := yields_record hfield (by decide)
  have hgiven : Yields ((record "condition.countOperands" false {} countField n).map
      fun g => g.getD {}) fun g => isInt64 g.value = true := by
    refine hrecord.map fun o ho => ?_
    cases o with
    | none => decide
    | some g => exact ho g rfl
  unfold countOf
  refine hgiven.nested.bind fun o ho => ?_
  split
  · exact sound_none
  · next g =>
      split
      · exact yields_throw _
      · next c hc =>
          split
          · exact yields_throw _
          · next helement =>
              exact sound_some (wellFormed_childCount helement (Comparison.ne_unknown_of_parse? hc)
                (ho g rfl))

theorem isInt64_of_decimalInt? {s : String} {n : Int} (h : decimalInt? s = some n) :
    isInt64 n = true := by
  unfold decimalInt? at h
  obtain ⟨k, -, hk⟩ := Option.bind_eq_some_iff.mp h
  obtain ⟨hbits, heq⟩ := Option.ite_none_right_eq_some.mp hk
  exact Option.some.inj heq ▸ hbits

/-- A bound on the depth that was read is well formed. -/
theorem sound_depthOf (n : DataTree) : Sound (depthOf n) := by
  have hfield : ∀ (g : Given) name n d, (∀ i ∈ g.max, isInt64 i = true) →
      givenField g name n = some d → Yields d fun g => ∀ i ∈ g.max, isInt64 i = true := by
    intro g name n d hg hd
    unfold givenField at hd
    split at hd
    case h_8 =>
      cases hd
      exact (yields_int n).map fun v hv => hv
    case h_9 => cases hd
    all_goals
      cases hd
      exact yields_map fun _ => hg
  have hrecord : Yields (record "condition.operands" false {} givenField n)
      fun o => ∀ g ∈ o, ∀ i ∈ g.max, isInt64 i = true := yields_record hfield nofun
  have hgiven : Yields (givenOf n) fun o => ∀ g ∈ o, ∀ i ∈ g.max, isInt64 i = true := by
    refine Yields.nested (hrecord.map fun o ho => ?_)
    cases o with
    | none => exact nofun
    | some g => exact ho g rfl
  unfold depthOf
  split
  · split
    · next v hv => exact sound_some (wellFormed_depthExceeds (isInt64_of_decimalInt? hv))
    · exact yields_throw _
  · refine hgiven.bind fun o ho => ?_
    split
    · exact sound_none
    · next g =>
        split
        · next v hv => exact sound_some (wellFormed_depthExceeds (ho g rfl v hv))
        · exact yields_throw _

theorem sound_reject (line : Nat) (message : String) : Sound (reject line message) :=
  yields_throw _

mutual

/-- No mapping that stands where a condition is read has the tag of null. -/
def Ordinary : DataTree → Prop
  | .scalar .. | .reference _ _ none => True
  | .reference _ _ (some t) => Ordinary t
  | .list _ _ items => AllOrdinary items
  | .mapping _ tag entries => tag ≠ nullTag ∧ OrdinaryEntries entries

/-- All trees of a list are ordinary. -/
def AllOrdinary : List DataTree → Prop
  | [] => True
  | t :: rest => Ordinary t ∧ AllOrdinary rest

/-- The values of all entries that combine conditions are ordinary. -/
def OrdinaryEntries : List (DataTree × DataTree) → Prop
  | [] => True
  | (key, t) :: rest =>
    ((∃ p ∈ [Predicate.all, .any, .not], Predicate.ofName? key.text = some p) → Ordinary t) ∧
      OrdinaryEntries rest

end

/-- What an ordinary node points at is ordinary. -/
theorem Ordinary.deref {n : DataTree} (h : Ordinary n) : Yields (deref n) Ordinary := by
  cases n with
  | reference line name t =>
      cases t with
      | none => exact yields_throw _
      | some t => exact yields_pure h
  | _ => exact yields_pure h

section Sound

variable {item : DataTree → Decode (Option Condition)} {t : DataTree}

/-- Conditions collected from ordinary nodes are well formed. -/
theorem yields_collect {ts : List DataTree} (hts : AllOrdinary ts)
    (h : ∀ u ∈ ts, Ordinary u → Sound (item u)) : Yields (collect item ts) AllWellFormed := by
  induction ts with
  | nil => exact yields_pure trivial
  | cons u ts ih =>
      refine (h u List.mem_cons_self hts.1).bind fun o ho => ?_
      refine (ih hts.2 fun v hv => h v (List.mem_cons_of_mem _ hv)).bind fun cs hcs => ?_
      refine yields_pure ?_
      cases o with
      | none => exact hcs
      | some c => exact ⟨ho c rfl, hcs⟩

/-- A connective that was read is well formed when its parts are. -/
theorem sound_ofParts {p : Predicate} (hp : p = .all ∨ p = .any) (ht : Ordinary t)
    (h : ∀ u, u.depth < t.depth → Ordinary u → Sound (item u)) : Sound (ofParts item p t) := by
  cases t with
  | list line tag items =>
      have hitems := yields_collect ht fun u hu => h u (Nat.lt_succ_of_le (depth_le_of_mem hu))
      refine hitems.nested.bind fun o ho => ?_
      split
      · exact sound_none
      · next cs =>
          refine sound_some ?_
          rcases hp with rfl | rfl
          · exact ⟨nofun, meets_of_idle (by decide) _, nofun, ho cs rfl⟩
          · exact ⟨nofun, meets_of_idle (by decide) _, nofun, ho cs rfl⟩
  | _ => exact sound_reject _ _

theorem sound_ofNegated (h : Sound (item t)) : Sound (ofNegated item t) := by
  refine h.nested.bind fun o ho => ?_
  split
  · exact sound_none
  · next c =>
      have hc : WellFormed (c.getD always) := by
        cases c with
        | none => exact wellFormed_always
        | some c => exact ho _ rfl c rfl
      exact sound_some ⟨nofun, meets_of_idle (by decide) _, fun _ => rfl, hc, trivial⟩

/-- The form of conditions gives well-formed ones, if the conditions inside are. -/
theorem sound_ofForm : ∀ {t : DataTree}, Ordinary t →
    (∀ u, u.depth < t.depth → Ordinary u → Sound (item u)) → Sound (ofForm item t)
  | .reference .., _, _ => yields_throw _
  | .scalar .., _, _ => by
      rw [ofForm]
      split_ifs
      · exact sound_some wellFormed_always
      · exact sound_some wellFormed_never
      · exact sound_reject _ _
  | .list .., _, _ => sound_reject _ _
  | .mapping _ _ [], _, _ | .mapping _ _ (_ :: _ :: _), _, _ => sound_reject _ _
  | .mapping line tag [(key, value)], ht, h => by
      have hvalue : value.depth < (DataTree.mapping line tag [(key, value)]).depth :=
        Nat.lt_succ_of_le (Nat.le_max_left _ _)
      have hdeep : ∀ u, u.depth < value.depth → Ordinary u → Sound (item u) :=
        fun u hu => h u (Nat.lt_trans hu hvalue)
      have hinside : ∀ p ∈ [Predicate.all, .any, .not], Predicate.ofName? key.text = some p →
          Ordinary value := fun p hp hname => ht.2.1 ⟨p, hp, hname⟩
      rw [ofForm]
      split
      · exact sound_reject _ _
      · exact sound_some wellFormed_always
      · exact sound_some wellFormed_never
      · next hname => exact sound_ofParts (Or.inl rfl) (hinside _ (by decide) hname) hdeep
      · next hname => exact sound_ofParts (Or.inr rfl) (hinside _ (by decide) hname) hdeep
      · next hname => exact sound_ofNegated (h value hvalue (hinside _ (by decide) hname))
      · exact sound_countOf value
      · exact sound_depthOf value
      · next p _ _ _ _ _ _ _ hp =>
          have hknown := Predicate.ne_unknown_of_ofName? hp
          refine sound_ofOperands ?_ value
          -- The predicates with a form of their own were the cases before this one.
          cases p <;> first | rfl | exact absurd rfl (hknown _) | contradiction

/-- What is tagged as null gives no condition, unless it is a mapping. -/
theorem sound_record_of_null {strict : Bool} {field : Yaml.Decode.Field Condition}
    (ht : Ordinary t) (htag : t.tag = nullTag) :
    Sound (record "condition.Condition" strict always field t) := by
  have hnone : Yields (scalar (α := Condition) "condition.Condition" (fun _ _ => none) t)
      fun o => ∀ c ∈ o, WellFormed c := yields_scalar nofun
  cases t with
  | mapping line tag entries => exact absurd htag ht.1
  | reference line name u => exact absurd (show "" = nullTag from htag) (by decide)
  | _ => exact hnone

end Sound

/-- **Conditions that are read in their form are well formed.** -/
theorem sound_ofYaml {n : DataTree} (h : Ordinary n) (strict : Bool) : Sound (ofYaml strict n) := by
  suffices hall : ∀ k n strict, DataTree.depth n ≤ k → Ordinary n → Sound (ofYaml strict n) from
    hall n.depth n strict (Nat.le_refl _) h
  intro k
  induction k with
  | zero => exact fun n strict h => absurd (depth_pos n) (Nat.not_lt.mpr h)
  | succ k ih =>
      intro n strict hk hn
      rw [ofYaml_eq]
      refine ((depth_le_of_deref n).and hn.deref).bind fun t ht => ?_
      obtain ⟨hdepth, ht⟩ := ht
      split
      · next htag => exact sound_record_of_null ht htag
      · refine sound_ofForm ht fun u hu => ih u false ?_
        exact Nat.le_of_lt_succ (Nat.lt_of_lt_of_le hu (Nat.le_trans hdepth hk))

/-! ### The round trip -/

/-- Reads a condition from a tree; a null tree gives the one that always holds. -/
def ofTree (n : DataTree) : Except Yaml.Error Condition :=
  (finish (ofYaml false n)).map (·.getD always)

/-- The condition of a text is that of its tree. -/
theorem parseYaml_eq_ofTree {source : Bytes} {n : DataTree} (h : DataTree.parse source = .ok (some n)) :
    parseYaml source = ofTree n := by
  unfold parseYaml Yaml.decode ofTree
  rw [h]

theorem ofTree_of_gives {n : DataTree} {c : Condition} (h : Gives (ofYaml false n) (some c)) :
    ofTree n = .ok c := by
  unfold ofTree
  rw [h.finish]
  rfl

/-- A condition that was read from an ordinary tree is well formed. -/
theorem wellFormed_ofTree {n : DataTree} {c : Condition} (hn : Ordinary n) (h : ofTree n = .ok c) :
    WellFormed c := by
  unfold ofTree at h
  cases hread : finish (ofYaml false n) with
  | error e =>
      rw [hread] at h
      cases h
  | ok o =>
      rw [hread] at h
      cases h
      have ho := (sound_ofYaml hn false).finish hread
      cases o with
      | none => exact wellFormed_always
      | some c => exact ho c rfl

/-- **Conditions are read as they were written.**  A well-formed condition that is put together from
the constructors can be written, and is read back itself.  A condition is well formed if it is read
from a tree in which no mapping that stands for a condition has the tag of null; it can be written,
and when it is read again, the result has the same text and holds for the same elements. -/
theorem ofTree_toYaml (c : Condition) :
    (Built c → WellFormed c →
      ∃ v, toYaml? c = some v ∧ (∃ n, Rereads v n) ∧ ∀ n, Rereads v n → ofTree n = .ok c) ∧
    (∀ n, Ordinary n → ofTree n = .ok c → WellFormed c) ∧
    (WellFormed c →
      ∃ v, toYaml? c = some v ∧ (∃ n, Rereads v n) ∧ ∀ n, Rereads v n →
        ∃ c', ofTree n = .ok c' ∧ c'.text = c.text ∧
          ∀ d id m, eval d id c' m = eval d id c m) := by
  refine ⟨fun hbuilt hc => ?_, fun n => wellFormed_ofTree, fun hc => ?_⟩
  · obtain ⟨v, hv, hex, hback⟩ := reads_of_wellFormed c hc
    refine ⟨v, hv, hex, fun n hn => ?_⟩
    rw [ofTree_of_gives (hback false n hn), hbuilt.kept_eq]
  · obtain ⟨v, hv, hex, hback⟩ := reads_of_wellFormed c hc
    exact ⟨v, hv, hex, fun n hn => ⟨kept c, ofTree_of_gives (hback false n hn), text_kept c,
      fun d id m => eval_kept d id c m⟩⟩

/-- A mapping with the tag of null gives the negation of nothing, which cannot be written. -/
theorem ofTree_nullMapping :
    let inner : DataTree := .mapping 1 nullTag [(.scalar 1 "!!str" "op", .scalar 1 "!!int" "22")]
    ∃ c, ofTree (.mapping 1 "!!map" [(.scalar 1 "!!str" "not", inner)]) = .ok c ∧
      ¬ WellFormed c ∧ toYaml? c = none := by
  refine ⟨not (mk .not {} []), rfl, fun h => ?_, rfl⟩
  obtain ⟨-, -, -, ⟨-, -, hlone, -⟩, -⟩ := h
  exact absurd (hlone rfl) (by decide)

/-- A combination of conditions, and a condition with an operand that it does not use. -/
theorem ofTree_toYaml_guid :
    (∃ v, toYaml? (all [attributeIn "Guid" ["*"], not (childCount "File" .gt 1)]) = some v ∧
      ∀ n, Rereads v n →
        ofTree n = .ok (all [attributeIn "Guid" ["*"], not (childCount "File" .gt 1)])) ∧
    ∃ v, toYaml? (mk .attributeExists { name := "Guid", value := "*" } []) = some v ∧
      ∀ n, Rereads v n → ∃ c, ofTree n = .ok c ∧ c.text = "attribute_exists(Guid)" := by
  have hbuilt : Built (all [attributeIn "Guid" ["*"], not (childCount "File" .gt 1)]) := by
    refine .all fun c hc => ?_
    rcases List.mem_cons.mp hc with rfl | hc
    · exact .attributeIn "Guid" (some ["*"])
    · cases List.mem_singleton.mp hc
      exact .not (.childCount "File" .gt 1)
  have hin : (attributeIn "Guid" ["*"]).operands.Meets .attributeIn :=
    (lacking?_eq_none_iff rfl).mp rfl
  have hcount : WellFormed (childCount "File" .gt 1) :=
    wellFormed_childCount (by decide) nofun (by decide)
  have hwell : WellFormed (all [attributeIn "Guid" ["*"], not (childCount "File" .gt 1)]) :=
    ⟨nofun, meets_of_idle (by decide) _, nofun, ⟨nofun, hin, nofun, trivial⟩,
      ⟨nofun, meets_of_idle (by decide) _, fun _ => rfl, hcount, trivial⟩, trivial⟩
  have hread : ofTree (.mapping 1 "!!map" [(.scalar 1 "!!str" "attribute_exists",
      .mapping 2 "!!map" [(.scalar 2 "!!str" "value", .scalar 2 "!!str" "*"),
        (.scalar 3 "!!str" "name", .scalar 3 "!!str" "Guid")])]) =
      .ok (mk .attributeExists { name := "Guid", value := "*" } []) := rfl
  have hordinary : Ordinary (.mapping 1 "!!map" [(.scalar 1 "!!str" "attribute_exists",
      .mapping 2 "!!map" [(.scalar 2 "!!str" "value", .scalar 2 "!!str" "*"),
        (.scalar 3 "!!str" "name", .scalar 3 "!!str" "Guid")])]) := by
    refine ⟨by decide, ?_, trivial⟩
    rintro ⟨p, hp, hname⟩
    cases hname
    exact absurd hp (by decide)
  obtain ⟨v, hv, -, hback⟩ := (ofTree_toYaml _).1 hbuilt hwell
  obtain ⟨-, hsound, hagain⟩ := ofTree_toYaml (mk .attributeExists { name := "Guid", value := "*" } [])
  obtain ⟨v', hv', -, hback'⟩ := hagain (hsound _ hordinary hread)
  refine ⟨⟨v, hv, hback⟩, v', hv', fun n hn => ?_⟩
  obtain ⟨c, hc, htext, -⟩ := hback' n hn
  exact ⟨c, hc, htext⟩

end Condition
end InstallerLint
