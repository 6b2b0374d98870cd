import Mathlib.Data.List.Induction
import Mathlib.Data.Nat.Find
import InstallerLint.Proofs.Rule.Strict

/-!
# Which rule files load

A rule file loads if its rules are well-formed.  Otherwise all that is wrong with them is listed.

**What is wrong.**  `Violation` says it of the rule at one place, by the rules as they are written.
The ids seen so far, which the check carries along, are where each well-formed id stands first
(`lookup_seenAfter`); so the check lists the violations and nothing else (`mem_problems_iff`), each
of them once, in the order of the rules (`pairwise_problems`).

**What is loaded.**  Conversion trims and fills in defaults on its own.  What it gives for
well-formed rules is graded, of a known category and has an id of its own (`load_iff_wellFormed`).
-/

namespace InstallerLint

namespace Blank

/-- A text of nothing but white space. -/
def Vacant (s : String) : Prop := ∀ c ∈ s.toList, isBlank c = true

theorem isAllBlank_iff {s : String} : isAllBlank s = true ↔ Vacant s := List.all_eq_true

theorem dropWhile_eq_self {p : Char → Bool} {cs : List Char} (h : ∀ c ∈ cs, p c = false) :
    cs.dropWhile p = cs := by
  cases cs with
  | nil => rfl
  | cons c cs => rw [List.dropWhile_cons, h c List.mem_cons_self, if_neg Bool.false_ne_true]

/-- Trimming does nothing to a text without white space. -/
theorem trim_eq_self {s : String} (h : ∀ c ∈ s.toList, isBlank c = false) : trim s = s := by
  have hrev : ∀ c ∈ s.toList.reverse, isBlank c = false := fun c hc => h c (List.mem_reverse.mp hc)
  rw [trim, trimBy, dropWhile_eq_self h, dropEndWhile, dropWhile_eq_self hrev, List.reverse_reverse,
    String.ofList_toList]

end Blank

namespace Condition

/-- Somewhere in a condition a predicate asks for a pattern. -/
inductive Asks (text : String) : Condition → Prop
  | own {p o cs} (uses : p = .attributeMatches ∨ p = .attributeNotMatches ∨ p = .textMatches)
      (eq : o.pattern = text) : Asks text (mk p o cs)
  | part {p o cs c} (mem : c ∈ cs) (asks : Asks text c) : Asks text (mk p o cs)

section Asks

variable {text : String}

theorem asks_mk_iff {p : Predicate} {o : Operands} {cs : List Condition} :
    Asks text (mk p o cs) ↔ p.usesPattern = true ∧ o.pattern = text ∨ ∃ c ∈ cs, Asks text c := by
  have huses : p.usesPattern = true ↔
      p = .attributeMatches ∨ p = .attributeNotMatches ∨ p = .textMatches := by
    simp [Predicate.usesPattern, or_assoc]
  rw [huses]
  constructor
  · rintro (⟨huses, heq⟩ | ⟨hmem, hasks⟩)
    · exact .inl ⟨huses, heq⟩
    · exact .inr ⟨_, hmem, hasks⟩
  · rintro (⟨huses, heq⟩ | ⟨c, hmem, hasks⟩)
    · exact .own huses heq
    · exact .part hmem hasks

mutual

/-- The patterns of a condition are those asked somewhere in it, by recursion on the tree. -/
theorem mem_patterns_iff : ∀ c : Condition, text ∈ c.patterns ↔ Asks text c
  | mk p o cs => by
      rw [patterns, List.mem_append, mem_patternsOf_iff cs, asks_mk_iff]
      refine or_congr_left ?_
      split_ifs with huses
      · simp [huses, eq_comm]
      · simp [huses]

theorem mem_patternsOf_iff : ∀ cs : List Condition,
    text ∈ patternsOf cs ↔ ∃ c ∈ cs, Asks text c
  | [] => by simp [patternsOf]
  | c :: cs => by
      rw [patternsOf, List.mem_append, mem_patterns_iff c, mem_patternsOf_iff cs]
      simp

end

end Asks

end Condition

/-- The place of a problem among those of one rule. -/
def RuleProblem.rank : RuleProblem → Nat
  | idEmpty | idForm _ | idTwice _ => 0
  | elementEmpty => 1
  | severityUnknown _ => 2
  | categoryUnknown _ => 3
  | messageEmpty => 4

theorem Intent.isKnown_eq_false_iff {c : String} : isKnown c = false ↔ c ∉ all := by
  rw [isKnown, ← Bool.not_eq_true, List.contains_iff_mem]

namespace RuleSpec

/-- The form of ids: a letter, then letters and digits, then further words of letters and digits,
each behind a hyphen. -/
def IdForm (id : String) : Prop :=
  ∃ (c : Char) (word : List Char) (words : List (List Char)),
    id.toList = c :: word ++ words.flatMap ('-' :: ·) ∧ c.isAlpha = true ∧
      (∀ x ∈ word, x.isAlphanum = true) ∧ ∀ v ∈ words, v ≠ [] ∧ ∀ x ∈ v, x.isAlphanum = true

section Ids

/-- A word is a text of letters and digits, and not empty. -/
theorem isWord_iff {cs : List Char} :
    isWord cs = true ↔ cs ≠ [] ∧ ∀ c ∈ cs, c.isAlphanum = true := by
  simp [isWord]

theorem isAlphanum_of_isAlpha {c : Char} (h : c.isAlpha = true) : c.isAlphanum = true := by
  simp [Char.isAlphanum, h]

theorem intercalate_cons (sep : Char) (w : List Char) (ws : List (List Char)) :
    [sep].intercalate (w :: ws) = w ++ ws.flatMap (sep :: ·) := by
  induction ws generalizing w with
  | nil => simp
  | cons v ws ih =>
      rw [List.intercalate_cons_cons, ih v]
      simp

/-- The check of an id accepts just the ids of the right form. -/
theorem isId_iff {id : String} : isId id = true ↔ IdForm id := by
  unfold isId
  rw [Bool.and_eq_true, List.all_eq_true]
  constructor
  · rintro ⟨hhead, hwords⟩
    obtain ⟨w, ws, hsplit⟩ := List.exists_cons_of_ne_nil (List.splitOn_ne_nil '-' id.toList)
    rw [hsplit] at hwords
    obtain ⟨hw, hws⟩ := List.forall_mem_cons.mp hwords
    obtain ⟨hne, hall⟩ := isWord_iff.mp hw
    obtain ⟨c, word, rfl⟩ := List.exists_cons_of_ne_nil hne
    have htext : id.toList = c :: word ++ ws.flatMap ('-' :: ·) := by
      have hjoined : ['-'].intercalate (id.toList.splitOn '-') = id.toList :=
        List.intercalate_splitOn '-'
      rw [← hjoined, hsplit, intercalate_cons]
    rw [htext] at hhead
    exact ⟨c, word, ws, htext, by simpa [isLetter] using hhead, (List.forall_mem_cons.mp hall).2,
      fun v hv => isWord_iff.mp (hws v hv)⟩
  · rintro ⟨c, word, words, htext, hc, hword, hwords⟩
    have hall : ∀ v ∈ (c :: word) :: words, isWord v = true :=
      List.forall_mem_cons.mpr ⟨isWord_iff.mpr ⟨List.cons_ne_nil _ _,
        List.forall_mem_cons.mpr ⟨isAlphanum_of_isAlpha hc, hword⟩⟩,
        fun v hv => isWord_iff.mpr (hwords v hv)⟩
    have hhyphen : ∀ v ∈ (c :: word) :: words, '-' ∉ v := fun v hv hmem =>
      absurd ((isWord_iff.mp (hall v hv)).2 '-' hmem) (by decide)
    rw [htext]
    refine ⟨by simpa [isLetter] using hc, ?_⟩
    rw [← intercalate_cons, List.splitOn_intercalate '-' hhyphen (List.cons_ne_nil _ _)]
    exact hall

theorem IdForm.ne_empty {id : String} (h : IdForm id) : id ≠ "" := by
  obtain ⟨c, word, words, htext, -⟩ := h
  rintro rfl
  cases htext

theorem isBlank_eq_false_of_isAlphanum {c : Char} (h : c.isAlphanum = true) :
    Blank.isBlank c = false := by
  have hrange : 48 ≤ c.toNat ∧ c.toNat ≤ 122 := by
    unfold Char.isAlphanum Char.isAlpha Char.isUpper Char.isLower Char.isDigit at h
    simp only [Bool.or_eq_true, Bool.and_eq_true, decide_eq_true_eq, ge_iff_le,
      UInt32.le_iff_toNat_le, Char.toNat_val, Char.reduceToNat] at h
    omega
  simp [Blank.isBlank]
  omega

/-- There is no white space in an id. -/
theorem IdForm.trim_eq_self {id : String} (h : IdForm id) : Blank.trim id = id := by
  obtain ⟨c, word, words, htext, hc, hword, hwords⟩ := h
  refine Blank.trim_eq_self fun x hx => ?_
  rw [htext, List.mem_append, List.mem_cons, List.mem_flatMap] at hx
  rcases hx with (rfl | hx) | ⟨v, hv, hx⟩
  · exact isBlank_eq_false_of_isAlphanum (isAlphanum_of_isAlpha hc)
  · exact isBlank_eq_false_of_isAlphanum (hword x hx)
  · rcases List.mem_cons.mp hx with rfl | hx
    · decide
    · exact isBlank_eq_false_of_isAlphanum ((hwords v hv).2 x hx)

end Ids

section Seen

/-- The ids seen after some rules. -/
def seenAfter (specs : List RuleSpec) : List (String × Int) :=
  specs.foldl (fun seen s => s.see seen) []

/-- Seeing one rule more. -/
theorem see_seenAfter (s : RuleSpec) (specs : List RuleSpec) :
    s.see (seenAfter specs) = seenAfter (specs ++ [s]) := by
  rw [seenAfter, seenAfter, List.foldl_append, List.foldl_cons, List.foldl_nil]

/-- A well-formed id is seen where it stands first. -/
theorem lookup_seenAfter (specs : List RuleSpec) {id : String} (h : isId id = true) :
    (seenAfter specs).lookup id = (specs.find? fun s => Blank.trim s.id = id).map (·.index) := by
  induction specs using List.reverseRecOn with
  | nil => rfl
  | append_singleton specs s ih =>
      rw [← see_seenAfter, List.find?_append, Option.map_or, ← ih, see]
      by_cases heq : Blank.trim s.id = id
      · have hne : id ≠ "" := (isId_iff.mp h).ne_empty
        rw [heq]
        cases hseen : (seenAfter specs).lookup id with
        | some first => simp [hseen]
        | none => simp [hne, h, heq]
      · have hother : [s].find? (fun s => Blank.trim s.id = id) = none := by simp [heq]
        rw [hother, Option.map_none, Option.or_none]
        split_ifs
        · rfl
        · rw [List.lookup_cons, beq_false_of_ne (Ne.symm heq)]

end Seen

section Problems

variable {s : RuleSpec} {p : RuleProblem}

/-- A problem of a list is one of some rule, given what stands before it. -/
theorem mem_problemsAfter_iff (before specs : List RuleSpec) :
    (s, p) ∈ problemsAfter (seenAfter before) specs ↔ ∃ i, specs[i]? = some s ∧
      p ∈ s.idProblems (seenAfter (before ++ specs.take i)) ++ s.ownProblems := by
  induction specs generalizing before with
  | nil => simp [problemsAfter]
  | cons first specs ih =>
      rw [problemsAfter, see_seenAfter, List.mem_append, ih]
      refine Iff.trans (or_congr ?_ (exists_congr fun i => ?_)) Nat.or_exists_add_one
      · rw [List.mem_map]
        constructor
        · rintro ⟨q, hq, heq⟩
          cases heq
          exact ⟨rfl, by simpa using hq⟩
        · rintro ⟨heq, hq⟩
          cases heq
          exact ⟨p, by simpa using hq, rfl⟩
      · rw [List.getElem?_cons_succ, List.take_succ_cons, List.append_assoc, List.singleton_append]

theorem mem_of_mem_problemsAfter {seen : List (String × Int)} {specs : List RuleSpec}
    (h : (s, p) ∈ problemsAfter seen specs) : s ∈ specs := by
  induction specs generalizing seen with
  | nil => cases h
  | cons first specs ih =>
      rcases List.mem_append.mp h with h | h
      · obtain ⟨q, -, heq⟩ := List.mem_map.mp h
        cases heq
        exact List.mem_cons_self
      · exact List.mem_cons_of_mem _ (ih h)

theorem rank_of_mem_idProblems {seen : List (String × Int)} (h : p ∈ s.idProblems seen) :
    p.rank = 0 := by
  unfold idProblems at h
  dsimp only at h
  split_ifs at h
  · rw [List.mem_singleton.mp h, RuleProblem.rank]
  · rw [List.mem_singleton.mp h, RuleProblem.rank]
  · split at h
    · rw [List.mem_singleton.mp h, RuleProblem.rank]
    · cases h

/-- The problems of an id come in order. -/
theorem pairwise_idProblems (seen : List (String × Int)) :
    (s.idProblems seen).Pairwise (fun p q => p.rank < q.rank) := by
  unfold idProblems
  dsimp only
  split_ifs
  · exact List.pairwise_singleton _ _
  · exact List.pairwise_singleton _ _
  · split
    · exact List.pairwise_singleton _ _
    · exact List.Pairwise.nil

/-- The other problems of a rule come in order. -/
theorem ownProblems_sublist (s : RuleSpec) : s.ownProblems.Sublist
    [.elementEmpty, .severityUnknown s.severity, .categoryUnknown s.category, .messageEmpty] := by
  have hif (c : Prop) [Decidable c] (q : RuleProblem) : (if c then [q] else []).Sublist [q] := by
    split_ifs
    · exact List.Sublist.refl _
    · exact List.nil_sublist _
  exact (((hif _ _).append (hif _ _)).append (hif _ _)).append (hif _ _)

/-- The problems of one rule are in the order of their ranks. -/
theorem pairwise_ownProblems (s : RuleSpec) (seen : List (String × Int)) :
    (s.idProblems seen ++ s.ownProblems).Pairwise (fun p q => p.rank < q.rank) := by
  refine List.pairwise_append.mpr ⟨pairwise_idProblems seen, ?_, fun p hp q hq => ?_⟩
  · refine List.Pairwise.sublist (ownProblems_sublist s) ?_
    simp [RuleProblem.rank]
  · rw [rank_of_mem_idProblems hp]
    have hmem := (ownProblems_sublist s).subset hq
    simp only [List.mem_cons, List.not_mem_nil, or_false] at hmem
    rcases hmem with rfl | rfl | rfl | rfl <;> exact Nat.succ_pos _

/-- A problem is listed in front of another. -/
def Before (x y : RuleSpec × RuleProblem) : Prop :=
  x.1.index < y.1.index ∨ x.1.index = y.1.index ∧ x.2.rank < y.2.rank

/-- The problems of a list come rule by rule. -/
theorem pairwise_problemsAfter {specs : List RuleSpec}
    (h : specs.Pairwise fun s s' => s.index < s'.index) (seen : List (String × Int)) :
    (problemsAfter seen specs).Pairwise Before := by
  induction specs generalizing seen with
  | nil => exact List.Pairwise.nil
  | cons first specs ih =>
      obtain ⟨hfirst, hrest⟩ := List.pairwise_cons.mp h
      refine List.pairwise_append.mpr ⟨?_, ih hrest _, ?_⟩
      · have hown := pairwise_ownProblems first seen
        exact List.pairwise_map.mpr (hown.imp fun hlt => .inr ⟨rfl, hlt⟩)
      · rintro x hx ⟨s, p⟩ hy
        obtain ⟨q, -, rfl⟩ := List.mem_map.mp hx
        exact .inl (hfirst s (mem_of_mem_problemsAfter hy))

end Problems

end RuleSpec

/-- Something is wrong with the rule at a place. -/
inductive Violation (rules : List WrittenRule) (i : Nat) (r : WrittenRule) : RuleProblem → Prop
  | idEmpty (empty : Blank.trim r.rule.id = "") : Violation rules i r .idEmpty
  | idForm (nonempty : Blank.trim r.rule.id ≠ "")
      (form : ¬ RuleSpec.IdForm (Blank.trim r.rule.id)) : Violation rules i r (.idForm r.rule.id)
  /-- The id is that of an earlier rule, and of no rule in front of that one. -/
  | idTwice {j : Nat} {first : WrittenRule} (form : RuleSpec.IdForm (Blank.trim r.rule.id))
      (earlier : j < i) (at_first : rules[j]? = some first)
      (same : Blank.trim first.rule.id = Blank.trim r.rule.id)
      (minimal : ∀ k < j, ∀ other, rules[k]? = some other →
        Blank.trim other.rule.id ≠ Blank.trim r.rule.id) : Violation rules i r (.idTwice j)
  | elementEmpty (vacant : Blank.Vacant r.rule.element) : Violation rules i r .elementEmpty
  | severityUnknown (given : r.severity ≠ "") (unknown : Severity.parse? r.severity = none) :
      Violation rules i r (.severityUnknown r.severity)
  | categoryUnknown (given : r.category ≠ "") (unknown : r.category ∉ Intent.all) :
      Violation rules i r (.categoryUnknown r.category)
  | messageEmpty (vacant : Blank.Vacant r.rule.message) : Violation rules i r .messageEmpty

/-- Rules with which nothing is wrong. -/
structure WrittenRules.WellFormed (w : WrittenRules) : Prop where
  id_ne_empty : ∀ r ∈ w.rules, Blank.trim r.rule.id ≠ ""
  id_form : ∀ r ∈ w.rules, RuleSpec.IdForm (Blank.trim r.rule.id)
  ids_distinct : (w.rules.map fun r => Blank.trim r.rule.id).Nodup
  element : ∀ r ∈ w.rules, ¬ Blank.Vacant r.rule.element
  message : ∀ r ∈ w.rules, ¬ Blank.Vacant r.rule.message
  severity : ∀ r ∈ w.rules, r.severity ≠ "" → (Severity.parse? r.severity).isSome = true
  category : ∀ r ∈ w.rules, r.category ≠ "" → r.category ∈ Intent.all

namespace WrittenRules

variable {w : WrittenRules} {i : Nat} {r : WrittenRule} {p : RuleProblem}

theorem specs_getElem? {s : RuleSpec} :
    w.specs[i]? = some s ↔ ∃ r, w.rules[i]? = some r ∧ r.spec i = s := by
  rw [specs, List.getElem?_mapIdx, Option.map_eq_some_iff]

theorem pairwise_specs (w : WrittenRules) :
    w.specs.Pairwise fun s s' => s.index < s'.index := by
  rw [List.pairwise_iff_getElem]
  intro i j hi hj hlt
  simpa [specs, WrittenRule.spec] using hlt

/-- The first of the rules in front of a place that has an id. -/
theorem find?_specs {id : String} {first : Int} :
    ((w.specs.take i).find? fun s => Blank.trim s.id = id).map (·.index) = some first ↔
      ∃ j r, first = (j : Nat) ∧ j < i ∧ w.rules[j]? = some r ∧ Blank.trim r.rule.id = id ∧
        ∀ k < j, ∀ other, w.rules[k]? = some other → Blank.trim other.rule.id ≠ id := by
  rw [Option.map_eq_some_iff]
  constructor
  · rintro ⟨s, hfind, rfl⟩
    obtain ⟨hid, j, hj, hat, hbefore⟩ := List.find?_eq_some_iff_getElem.mp hfind
    have hji : j < i := Nat.lt_of_lt_of_le hj (List.length_take_le ..)
    have hspec : w.specs[j]? = some s := by
      rw [← List.getElem?_take_of_lt hji, List.getElem?_eq_getElem hj, hat]
    obtain ⟨r, hr, rfl⟩ := specs_getElem?.mp hspec
    refine ⟨j, r, rfl, hji, hr, of_decide_eq_true hid, fun k hk other hother heq => ?_⟩
    have hfound : (w.specs.take i)[k]? = some (other.spec k) := by
      rw [List.getElem?_take_of_lt (Nat.lt_trans hk hji)]
      exact specs_getElem?.mpr ⟨other, hother, rfl⟩
    obtain ⟨hlen, hval⟩ := List.getElem?_eq_some_iff.mp hfound
    have hno := hbefore k hk
    rw [hval] at hno
    simp [WrittenRule.spec, heq] at hno
  · rintro ⟨j, r, rfl, hji, hr, hid, hbefore⟩
    refine ⟨r.spec j, List.find?_eq_some_iff_getElem.mpr ⟨decide_eq_true hid, j, ?_⟩, rfl⟩
    have hfound : (w.specs.take i)[j]? = some (r.spec j) := by
      rw [List.getElem?_take_of_lt hji]
      exact specs_getElem?.mpr ⟨r, hr, rfl⟩
    obtain ⟨hlen, hval⟩ := List.getElem?_eq_some_iff.mp hfound
    refine ⟨hlen, hval, fun k hk => ?_⟩
    have hk' : k < w.rules.length := by
      have := (List.getElem?_eq_some_iff.mp hr).1
      omega
    have hother := hbefore k hk _ (List.getElem?_eq_getElem hk')
    simpa [specs, WrittenRule.spec] using hother

/-- The problems of an id are its violations. -/
theorem mem_idProblems_iff :
    p ∈ (r.spec i).idProblems (RuleSpec.seenAfter (w.specs.take i)) ↔
      p.rank = 0 ∧ Violation w.rules i r p := by
  set id := Blank.trim r.rule.id with hid
  have hspec : Blank.trim (r.spec i).id = id := rfl
  rw [RuleSpec.idProblems, hspec]
  by_cases hempty : id = ""
  · rw [if_pos hempty, List.mem_singleton]
    constructor
    · rintro rfl
      exact ⟨rfl, .idEmpty hempty⟩
    · rintro ⟨hrank, hviolation⟩
      cases hviolation with
      | idEmpty => rfl
      | idForm hne => exact absurd hempty hne
      | idTwice form => exact absurd hempty form.ne_empty
      | _ => cases hrank
  · rw [if_neg hempty]
    by_cases hform : RuleSpec.isId id = true
    · have hform' := RuleSpec.isId_iff.mp hform
      rw [hform, if_neg (by simp), RuleSpec.lookup_seenAfter _ hform]
      constructor
      · intro hmem
        split at hmem
        · next first hfirst =>
            obtain ⟨j, other, rfl, hlt, hat, hsame, hminimal⟩ := find?_specs.mp hfirst
            rw [List.mem_singleton.mp hmem]
            exact ⟨rfl, .idTwice hform' hlt hat hsame hminimal⟩
        · cases hmem
      · rintro ⟨hrank, hviolation⟩
        cases hviolation with
        | idEmpty hempty' => exact absurd hempty' hempty
        | idForm _ hno => exact absurd hform' hno
        | idTwice _ hlt hat hsame hminimal =>
            rw [find?_specs.mpr ⟨_, _, rfl, hlt, hat, hsame, hminimal⟩]
            exact List.mem_singleton_self _
        | _ => cases hrank
    · have hform' := fun h => hform (RuleSpec.isId_iff.mpr h)
      rw [if_pos (by simpa using hform), List.mem_singleton]
      constructor
      · rintro rfl
        exact ⟨rfl, .idForm hempty hform'⟩
      · rintro ⟨hrank, hviolation⟩
        cases hviolation with
        | idEmpty hempty' => exact absurd hempty' hempty
        | idForm => rfl
        | idTwice form => exact absurd form hform'
        | _ => cases hrank

/-- The other problems of a rule are its other violations. -/
theorem mem_ownProblems_iff :
    p ∈ (r.spec i).ownProblems ↔ p.rank ≠ 0 ∧ Violation w.rules i r p := by
  have hlisted {c : Prop} [Decidable c] {q : RuleProblem} :
      p ∈ (if c then [q] else []) ↔ c ∧ p = q := by
    split_ifs with hc <;> simp [hc]
  rw [RuleSpec.ownProblems, List.mem_append, List.mem_append, List.mem_append, hlisted, hlisted,
    hlisted, hlisted, or_assoc, or_assoc, Blank.isAllBlank_iff, Blank.isAllBlank_iff]
  simp only [Bool.and_eq_true, decide_eq_true_eq, Option.isNone_iff_eq_none, Bool.not_eq_true',
    Intent.isKnown_eq_false_iff]
  constructor
  · rintro (⟨h, rfl⟩ | ⟨⟨h, h'⟩, rfl⟩ | ⟨⟨h, h'⟩, rfl⟩ | ⟨h, rfl⟩)
    · exact ⟨Nat.succ_ne_zero _, .elementEmpty h⟩
    · exact ⟨Nat.succ_ne_zero _, .severityUnknown h h'⟩
    · exact ⟨Nat.succ_ne_zero _, .categoryUnknown h h'⟩
    · exact ⟨Nat.succ_ne_zero _, .messageEmpty h⟩
  · rintro ⟨hrank, hviolation⟩
    cases hviolation with
    | elementEmpty h => exact .inl ⟨h, rfl⟩
    | severityUnknown h h' => exact .inr (.inl ⟨⟨h, h'⟩, rfl⟩)
    | categoryUnknown h h' => exact .inr (.inr (.inl ⟨⟨h, h'⟩, rfl⟩))
    | messageEmpty h => exact .inr (.inr (.inr ⟨h, rfl⟩))
    | _ => exact absurd rfl hrank

/-- The check lists what is wrong, and nothing else. -/
theorem mem_problems_iff {s : RuleSpec} :
    (s, p) ∈ RuleSpec.problems w.specs ↔
      ∃ i r, w.rules[i]? = some r ∧ r.spec i = s ∧ Violation w.rules i r p := by
  rw [RuleSpec.problems, show ([] : List (String × Int)) = RuleSpec.seenAfter [] from rfl,
    RuleSpec.mem_problemsAfter_iff]
  refine exists_congr fun i => ?_
  rw [specs_getElem?, ← exists_and_right]
  refine exists_congr fun r => ?_
  rw [and_assoc, List.nil_append]
  refine and_congr_right fun _ => and_congr_right ?_
  rintro rfl
  rw [List.mem_append, mem_idProblems_iff, mem_ownProblems_iff, ← or_and_right]
  exact and_iff_right (em _)

theorem pairwise_problems (w : WrittenRules) :
    (RuleSpec.problems w.specs).Pairwise RuleSpec.Before :=
  RuleSpec.pairwise_problemsAfter w.pairwise_specs []

theorem WellFormed.not_violation (h : w.WellFormed) (hat : w.rules[i]? = some r) :
    ¬ Violation w.rules i r p := by
  have hr := List.mem_of_getElem? hat
  intro hviolation
  cases hviolation with
  | idEmpty hempty => exact h.id_ne_empty r hr hempty
  | idForm _ hform => exact hform (h.id_form r hr)
  | idTwice _ hlt hfirst hsame =>
      have hlen := (List.getElem?_eq_some_iff.mp hat).1
      refine List.nodup_iff_getElem?_ne_getElem?.mp h.ids_distinct _ i hlt (by simpa using hlen) ?_
      rw [List.getElem?_map, List.getElem?_map, hat, hfirst, Option.map_some, Option.map_some,
        hsame]
  | elementEmpty hvacant => exact h.element r hr hvacant
  | severityUnknown hgiven hunknown =>
      have hsome := h.severity r hr hgiven
      rw [hunknown] at hsome
      cases hsome
  | categoryUnknown hgiven hunknown => exact hunknown (h.category r hr hgiven)
  | messageEmpty hvacant => exact h.message r hr hvacant

/-- If two rules have the same id, one of them violates that the first one has it. -/
theorem exists_idTwice {j : Nat} {r' : WrittenRule} (hlt : i < j) (hat : w.rules[i]? = some r)
    (hform : RuleSpec.IdForm (Blank.trim r'.rule.id))
    (hsame : Blank.trim r.rule.id = Blank.trim r'.rule.id) :
    ∃ p, Violation w.rules j r' p := by
  classical
  have hexists : ∃ k, ∃ first : WrittenRule, w.rules[k]? = some first ∧
      Blank.trim first.rule.id = Blank.trim r'.rule.id := ⟨i, r, hat, hsame⟩
  obtain ⟨first, hfirst, heq⟩ := Nat.find_spec hexists
  have hle : Nat.find hexists ≤ i := Nat.find_min' hexists ⟨r, hat, hsame⟩
  exact ⟨_, .idTwice hform (Nat.lt_of_le_of_lt hle hlt) hfirst heq fun k hk other hother hother' =>
    Nat.find_min hexists hk ⟨other, hother, hother'⟩⟩

/-- Rules are well-formed exactly if nothing is wrong with one of them. -/
theorem wellFormed_iff :
    w.WellFormed ↔ ∀ i r p, w.rules[i]? = some r → ¬ Violation w.rules i r p := by
  refine ⟨fun h i r p hat => h.not_violation hat, fun h => ?_⟩
  have hno : ∀ r ∈ w.rules, ∃ i, ∀ p, ¬ Violation w.rules i r p := fun r hr => by
    obtain ⟨i, hat⟩ := List.mem_iff_getElem?.mp hr
    exact ⟨i, fun p => h i r p hat⟩
  have hne : ∀ r ∈ w.rules, Blank.trim r.rule.id ≠ "" := fun r hr hempty => by
    obtain ⟨i, hi⟩ := hno r hr
    exact hi _ (.idEmpty hempty)
  have hform : ∀ r ∈ w.rules, RuleSpec.IdForm (Blank.trim r.rule.id) := fun r hr => by
    obtain ⟨i, hi⟩ := hno r hr
    exact not_not.mp fun hnot => hi _ (.idForm (hne r hr) hnot)
  refine ⟨hne, hform, ?_, fun r hr hvacant => ?_, fun r hr hvacant => ?_, fun r hr hgiven => ?_,
    fun r hr hgiven => ?_⟩
  · refine List.nodup_iff_getElem?_ne_getElem?.mpr fun i j hlt hj heq => ?_
    rw [List.length_map] at hj
    rw [List.getElem?_map, List.getElem?_map, List.getElem?_eq_getElem hj,
      List.getElem?_eq_getElem (Nat.lt_trans hlt hj), Option.map_some, Option.map_some] at heq
    obtain ⟨p, hp⟩ := exists_idTwice hlt (List.getElem?_eq_getElem (Nat.lt_trans hlt hj))
      (hform _ (List.getElem_mem hj)) (Option.some.inj heq)
    exact h j _ p (List.getElem?_eq_getElem hj) hp
  · obtain ⟨i, hi⟩ := hno r hr
    exact hi _ (.elementEmpty hvacant)
  · obtain ⟨i, hi⟩ := hno r hr
    exact hi _ (.messageEmpty hvacant)
  · obtain ⟨i, hi⟩ := hno r hr
    rw [← Option.not_isNone, Bool.not_eq_true', ← Bool.not_eq_true, Option.isNone_iff_eq_none]
    exact fun hunknown => hi _ (.severityUnknown hgiven hunknown)
  · obtain ⟨i, hi⟩ := hno r hr
    exact not_not.mp fun hunknown => hi _ (.categoryUnknown hgiven hunknown)

/-- There are no problems just when the rules are well formed. -/
theorem problems_eq_nil_iff : RuleSpec.problems w.specs = [] ↔ w.WellFormed := by
  rw [List.eq_nil_iff_forall_not_mem, wellFormed_iff]
  constructor
  · intro h i r p hat hviolation
    exact h (r.spec i, p) (mem_problems_iff.mpr ⟨i, r, hat, rfl, hviolation⟩)
  · rintro h ⟨s, p⟩ hmem
    obtain ⟨i, r, hat, -, hviolation⟩ := mem_problems_iff.mp hmem
    exact h i r p hat hviolation

/-- There are no warnings exactly if all patterns that are asked for can be read. -/
theorem warnings_eq_nil_iff : RuleSpec.warnings w.specs = [] ↔
    ∀ r ∈ w.rules, ∀ t, r.rule.condition.Asks t → (Pattern.parse? t).isSome = true := by
  rw [RuleSpec.warnings_eq_nil_iff]
  constructor
  · intro h r hr t hasks
    obtain ⟨s, hs, hpatterns⟩ := RuleSet.patterns_of_mem hr
    refine h s hs t ?_
    rw [hpatterns]
    exact (Condition.mem_patterns_iff _).mpr hasks
  · intro h s hs t ht
    obtain ⟨i, hat⟩ := List.mem_iff_getElem?.mp hs
    obtain ⟨r, hr, rfl⟩ := specs_getElem?.mp hat
    exact h r (List.mem_of_getElem? hr) t ((Condition.mem_patterns_iff _).mp ht)

end WrittenRules

theorem Severity.mem_graded_of_parse? {s : String} {level : Severity} (h : parse? s = some level) :
    level ∈ graded := by
  have haliases : ∀ a ∈ aliases, a.2 ∈ graded := by decide
  unfold parse? parse at h
  split at h
  · next found hlookup =>
      obtain rfl := Option.some.inj h
      exact haliases _ (Assoc.mem_of_lookup_eq_some hlookup)
  · cases h

/-- What is loaded for a rule of a well-formed list. -/
theorem WrittenRules.WellFormed.finished {w : WrittenRules} (h : w.WellFormed) {r : WrittenRule}
    (hr : r ∈ w.rules) : Blank.trim r.finished.id = r.finished.id ∧
      r.finished.severity ∈ Severity.graded ∧ r.finished.category ∈ Intent.all := by
  refine ⟨(h.id_form r hr).trim_eq_self, ?_, ?_⟩
  · rw [WrittenRule.finished]
    dsimp only
    split_ifs with hgiven
    · decide
    · obtain ⟨level, hlevel⟩ := Option.isSome_iff_exists.mp (h.severity r hr hgiven)
      rw [hlevel, Option.getD_some]
      exact Severity.mem_graded_of_parse? hlevel
  · rw [WrittenRule.finished]
    dsimp only
    split_ifs with hgiven
    · decide
    · exact h.category r hr hgiven

namespace RuleSet

/-- Rules with problems are refused with all of them. -/
theorem ofWritten_eq_error {w : WrittenRules} (h : RuleSpec.problems w.specs ≠ []) (strict : Bool)
    (source : String) :
    ofWritten w strict source = .error (.invalid source (RuleSpec.problems w.specs)) := by
  unfold ofWritten
  split
  · next hnil => exact absurd hnil h
  · rfl

/-- **Rule files load exactly if their rules are well-formed.**  Strict loading wants in addition
that every pattern can be read that a condition asks for somewhere.  Otherwise the error lists what
is wrong: each violation once, by the order of the rules.  The rules that are loaded are those that
are written, with ids of their own without blanks around them, graded and of a known category. -/
theorem load_iff_wellFormed {text : Bytes} {w : WrittenRules}
    (h : Yaml.decode text {} WrittenRules.ofYaml = .ok w) (source : String) :
    ((∃ loaded, load text false source = .ok loaded) ↔ w.WellFormed) ∧
    ((∃ loaded, load text true source = .ok loaded) ↔ w.WellFormed ∧
      ∀ r ∈ w.rules, ∀ t, r.rule.condition.Asks t → (Pattern.parse? t).isSome = true) ∧
    (¬ w.WellFormed → ∃ problems : List (RuleSpec × RuleProblem),
      (∀ strict, load text strict source = .error (.invalid (sourceName source) problems)) ∧
      (LoadError.invalid (sourceName source) problems).message =
        "rules: invalid rule set " ++ sourceName source ++ ":\n" ++
          "\n".intercalate (problems.map fun x =>
            "rules[" ++ toString x.1.index ++ "] (" ++ x.1.id ++ ")" ++ ": " ++ x.2.message) ∧
      problems.Pairwise RuleSpec.Before ∧
      ∀ s p, (s, p) ∈ problems ↔
        ∃ i r, w.rules[i]? = some r ∧ r.spec i = s ∧ Violation w.rules i r p) ∧
    ∀ strict loaded, load text strict source = .ok loaded →
      loaded.set.rules = w.rules.map (·.finished) ∧ (loaded.set.rules.map (·.id)).Nodup ∧
      ∀ r ∈ loaded.set.rules, Blank.trim r.id = r.id ∧ r.severity ∈ Severity.graded ∧
        r.category ∈ Intent.all := by
  have hload (strict : Bool) :
      load text strict source = ofWritten w strict (sourceName source) := by
    unfold load
    rw [h]
  refine ⟨?_, ?_, fun hbad => ?_, fun strict loaded hok => ?_⟩
  · simp [hload, ofWritten_eq_ok, WrittenRules.problems_eq_nil_iff]
  · simp [hload, ofWritten_eq_ok, WrittenRules.problems_eq_nil_iff,
      WrittenRules.warnings_eq_nil_iff]
  · have hne : RuleSpec.problems w.specs ≠ [] := fun hnil =>
      hbad (WrittenRules.problems_eq_nil_iff.mp hnil)
    refine ⟨RuleSpec.problems w.specs, fun strict => ?_, ?_, w.pairwise_problems,
      fun s p => WrittenRules.mem_problems_iff⟩
    · rw [hload, ofWritten_eq_error hne]
    · rfl
  · rw [hload] at hok
    obtain ⟨hnil, -, rfl⟩ := ofWritten_eq_ok.mp hok
    have hformed := WrittenRules.problems_eq_nil_iff.mp hnil
    refine ⟨rfl, ?_, fun r hr => ?_⟩
    · have hids : ((w.rules.map (·.finished)).map (·.id)) =
          w.rules.map fun r => Blank.trim r.rule.id := List.map_map
      rw [hids]
      exact hformed.ids_distinct
    · obtain ⟨written, hmem, rfl⟩ := List.mem_map.mp hr
      exact hformed.finished hmem

/-- A pattern inside of a combination cannot be read, which strict loading does not allow. -/
theorem load_iff_wellFormed_unreadable :
    let text := Bytes.ofString ("rules:\n- id: ' A-1'\n  element: F\n  message: m\n" ++
      "  condition:\n    not: {text_matches: (}\n")
    ∃ w, Yaml.decode text {} WrittenRules.ofYaml = .ok w ∧ w.WellFormed ∧
      ¬ ∀ r ∈ w.rules, ∀ t, r.rule.condition.Asks t → (Pattern.parse? t).isSome = true := by
  intro text
  have hloose : (load text false "").toOption.isSome = true := by decide +kernel
  have hstrict : (load text true "").toOption.isSome = false := by decide +kernel
  cases hread : Yaml.decode text {} WrittenRules.ofYaml with
  | error e =>
      rw [load, hread] at hloose
      cases hloose
  | ok w =>
      obtain ⟨hload, hload', -⟩ := load_iff_wellFormed hread ""
      have hformed : w.WellFormed := by
        refine hload.mp ?_
        cases hok : load text false "" with
        | ok loaded => exact ⟨loaded, rfl⟩
        | error e =>
            rw [hok] at hloose
            cases hloose
      refine ⟨w, rfl, hformed, fun hall => ?_⟩
      obtain ⟨loaded, hok⟩ := hload'.mpr ⟨hformed, hall⟩
      rw [hok] at hstrict
      cases hstrict

end RuleSet

end InstallerLint
