import InstallerLint.Document.Builder
import InstallerLint.Proofs.Condition.Meaning

/-!
# Patterns that cannot be read

A rule with a pattern that cannot be read is kept, so what its condition says then has to be known.

**One predicate.**  What asks for a match never holds.  What asks that an attribute does not match
still holds where the attribute is absent, because the pattern is not looked at there; where the
attribute is present it does not hold (`holds_of_isUnreadable`).

**Whole conditions.**  So a condition says the same as its `cleared` form, which has no such
predicate any more.  It says the same as its `silenced` form, in which nothing of this kind holds at
all, at every element that has the attributes in question (`eval_cleared`).
-/

namespace InstallerLint

namespace Condition

/-- Whether a predicate needs a pattern that cannot be read. -/
def isUnreadable (p : Predicate) (o : Operands) : Bool :=
  p.usesPattern && (Pattern.parse? o.pattern).isNone

mutual

/-- The predicates of a condition that need a pattern that cannot be read. -/
def unreadable : Condition → List (Predicate × Operands)
  | mk p o cs => (if isUnreadable p o then [(p, o)] else []) ++ unreadableOf cs

/-- The predicates of some conditions that need a pattern that cannot be read. -/
def unreadableOf : List Condition → List (Predicate × Operands)
  | [] => []
  | c :: cs => unreadable c ++ unreadableOf cs

end

section Replace

variable (f : Predicate → Operands → Condition)

mutual

/-- A condition with others in place of the predicates whose patterns cannot be read. -/
def replaced : Condition → Condition
  | mk p o cs => if isUnreadable p o then f p o else mk p o (replacedAll cs)

/-- Some conditions with others in place of the predicates whose patterns cannot be read. -/
def replacedAll : List Condition → List Condition
  | [] => []
  | c :: cs => replaced c :: replacedAll cs

end

end Replace

/-- A condition in which nothing holds that needs a pattern that cannot be read. -/
def silenced (c : Condition) : Condition := c.replaced fun _ _ => never

/-- A condition in which an attribute has to be absent instead of not matching a pattern that cannot
be read, and nothing else holds that needs such a pattern. -/
def cleared (c : Condition) : Condition :=
  c.replaced fun p o => if p = .attributeNotMatches then attributeMissing o.name else never

variable {d : Document} {id : Int} {p : Predicate} {o : Operands}

theorem holds_of_isUnreadable (h : isUnreadable p o = true) (cs : List Condition) :
    holds d id (mk p o cs) = (p == .attributeNotMatches && (d.attr? id o.name).isNone) := by
  obtain ⟨huses, hparse⟩ := Bool.and_eq_true_iff.mp h
  have hnone : Pattern.parse? o.pattern = none := Option.isNone_iff_eq_none.mp hparse
  cases p with
  | attributeMatches =>
      rw [holds_attributeMatches, hnone]
      cases d.attr? id o.name with
      | none => rfl
      | some v => rfl
  | attributeNotMatches =>
      rw [holds_attributeNotMatches, hnone]
      cases d.attr? id o.name with
      | none => rfl
      | some v => rfl
  | textMatches =>
      rw [holds_textMatches, hnone]
      rfl
  | _ => cases huses

section Replace

variable {f : Predicate → Operands → Condition}

/-- What stands in place of a predicate says the same as the predicate. -/
def Fits (f : Predicate → Operands → Condition) (d : Document) (id : Int)
    (x : Predicate × Operands) : Prop :=
  holds d id (f x.1 x.2) = (x.1 == .attributeNotMatches && (d.attr? id x.2.name).isNone)

mutual

theorem holds_replaced : ∀ c : Condition, (∀ x ∈ unreadable c, Fits f d id x) →
    holds d id (replaced f c) = holds d id c
  | mk p o cs, h => by
      rw [unreadable] at h
      obtain ⟨hown, hparts⟩ := List.forall_mem_append.mp h
      rw [replaced]
      split
      · next hbad =>
          rw [if_pos hbad] at hown
          exact (hown _ List.mem_cons_self).trans (holds_of_isUnreadable hbad cs).symm
      · cases p with
        | all => rw [holds_all, holds_all, holds_replacedAll cs hparts]
        | any => rw [holds_any, holds_any, holds_replacedAll cs hparts]
        | not =>
            match cs with
            | [c] =>
                have hpart : holds d id (replaced f c) = holds d id c :=
                  holds_replaced c (List.forall_mem_append.mp hparts).1
                rw [replacedAll, replacedAll, holds_not, holds_not, hpart]
            | [] | _ :: _ :: _ => rfl
        | attributeMatches => rw [holds_attributeMatches, holds_attributeMatches]
        | attributeNotMatches => rw [holds_attributeNotMatches, holds_attributeNotMatches]
        | textMatches => rw [holds_textMatches, holds_textMatches]
        | _ => rfl

theorem holds_replacedAll : ∀ cs : List Condition, (∀ x ∈ unreadableOf cs, Fits f d id x) →
    (replacedAll f cs).map (holds d id) = cs.map (holds d id)
  | [], _ => rfl
  | c :: cs, h => by
      rw [unreadableOf] at h
      obtain ⟨hfirst, hrest⟩ := List.forall_mem_append.mp h
      rw [replacedAll, List.map_cons, List.map_cons, holds_replaced c hfirst,
        holds_replacedAll cs hrest]

end

end Replace

theorem holds_cleared (c : Condition) : holds d id c.cleared = holds d id c := by
  refine holds_replaced c fun x _ => ?_
  obtain ⟨p, o⟩ := x
  unfold Fits
  by_cases hp : p = .attributeNotMatches
  · simp only [hp, BEq.rfl, Bool.true_and]
    rfl
  · simp only [if_neg hp, beq_false_of_ne hp, Bool.false_and]
    rfl

/-- Where the attributes are present, nothing holds that needs a pattern that cannot be read. -/
theorem holds_silenced {c : Condition}
    (h : ∀ x ∈ c.unreadable, x.1 = .attributeNotMatches → (d.attr? id x.2.name).isSome = true) :
    holds d id c.silenced = holds d id c := by
  refine holds_replaced c fun x hx => ?_
  have hfalse : (x.1 == .attributeNotMatches && (d.attr? id x.2.name).isNone) = false := by
    rw [Bool.and_eq_false_imp]
    intro hp
    rw [Option.isNone_eq_false_iff]
    exact h x hx (eq_of_beq hp)
  exact hfalse.symm

/-- **What a condition with an unreadable pattern says.**  A predicate that needs the pattern holds
exactly where an attribute is absent that must not match it.  So clearing such predicates changes no
answer, and silencing them changes none where these attributes are present. -/
theorem eval_cleared (c : Condition) (d : Document) (id : Int) {m m' : Memo} (hm : m.Faithful)
    (hm' : m'.Faithful) :
    (∀ p o cs, isUnreadable p o = true → ((eval d id (mk p o cs) m).1 = true ↔
      p = .attributeNotMatches ∧ d.attr? id o.name = none)) ∧
    (eval d id c m).1 = (eval d id c.cleared m').1 ∧
    ((∀ x ∈ c.unreadable, x.1 = .attributeNotMatches → (d.attr? id x.2.name).isSome = true) →
      (eval d id c m).1 = (eval d id c.silenced m').1) := by
  refine ⟨fun p o cs h => ?_, ?_, fun h => ?_⟩
  · rw [eval_fst _ hm, holds_of_isUnreadable h]
    simp
  · rw [eval_fst _ hm, eval_fst _ hm', holds_cleared]
  · rw [eval_fst _ hm, eval_fst _ hm', holds_silenced h]

/-- An attribute that is absent does not match a pattern that cannot be read. -/
theorem eval_cleared_absent :
    let d := (Document.blank "x.wxs").append none "a" [⟨"Id", "x"⟩]
    let present := not (attributeNotMatches "Id" "(")
    let absent := all [not (textMatches "("), attributeNotMatches "Zip" "("]
    present.unreadable = [(.attributeNotMatches, { name := "Id", pattern := "(" })] ∧
      (d.attr? 0 "Id").isSome = true ∧
      (eval d 0 present []).1 = true ∧ (eval d 0 present.silenced []).1 = true ∧
      (eval d 0 absent []).1 = true ∧ (eval d 0 absent.silenced []).1 = false := by
  intro d present absent
  have hunreadable :
      present.unreadable = [(.attributeNotMatches, { name := "Id", pattern := "(" })] := by
    decide +kernel
  have hid : (d.attr? 0 "Id").isSome = true := by decide
  have hpresent : (eval d 0 present.silenced []).1 = true := by decide +kernel
  have hcleared : (eval d 0 absent.cleared []).1 = true := by decide +kernel
  have hsilenced : (eval d 0 absent.silenced []).1 = false := by decide +kernel
  obtain ⟨-, -, hagree⟩ := eval_cleared present d 0 Memo.faithful_nil Memo.faithful_nil
  obtain ⟨-, habsent, -⟩ := eval_cleared absent d 0 Memo.faithful_nil Memo.faithful_nil
  refine ⟨hunreadable, hid, (hagree fun x hx _ => ?_).trans hpresent, hpresent,
    habsent.trans hcleared, hsilenced⟩
  rw [hunreadable] at hx
  rw [List.mem_singleton.mp hx]
  exact hid

end Condition

end InstallerLint
