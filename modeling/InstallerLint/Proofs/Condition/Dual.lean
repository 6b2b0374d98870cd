import InstallerLint.Document.Builder
import InstallerLint.Proofs.Condition.Meaning

/-!
# Duals of conditions

The dual of a condition asks for the opposite.  A predicate that has a counterpart is replaced by
it, a comparison by its complement, and `all` and `any` change places with the duals of their parts
below them.  A negation gives back its part; everything else, also what has no meaning, is negated
as a whole.

**The main result.**  As long as patterns can be read, the dual holds where the condition does not
(`eval_dual`).  A pattern that cannot be read breaks this law: neither a match nor its counterpart
holds then.
-/

namespace InstallerLint

namespace Comparison

/-- The comparison that holds where another one does not. -/
def complement? : Comparison → Option Comparison
  | eq => some ne
  | ne => some eq
  | lt => some ge
  | le => some gt
  | gt => some le
  | ge => some lt
  | unknown _ => none

/-- The complement of a comparison holds just where the comparison does not. -/
theorem holds_complement? {c c' : Comparison} (h : c.complement? = some c') (a b : Int) :
    c'.holds a b = !c.holds a b := by
  cases c with
  | unknown n => cases h
  | eq | ne =>
      cases h
      simp [holds, bne]
  | lt | le | gt | ge =>
      cases h
      rw [Bool.eq_iff_iff]
      simp [holds]

end Comparison

/-- The predicate that asks the opposite with the same operands. -/
def Predicate.counterpart? : Predicate → Option Predicate
  | always => some never
  | never => some always
  | attributeMissing => some attributeExists
  | attributeExists => some attributeMissing
  | attributeEquals => some attributeNotEquals
  | attributeNotEquals => some attributeEquals
  | attributeMatches => some attributeNotMatches
  | attributeNotMatches => some attributeMatches
  | attributeIn => some attributeNotIn
  | attributeNotIn => some attributeIn
  | hasChild => some missingChild
  | missingChild => some hasChild
  | parentIs => some parentNot
  | parentNot => some parentIs
  | parentIn => some parentNotIn
  | parentNotIn => some parentIn
  | _ => none

namespace Condition

/-- The dual of a condition without regard to its parts. -/
def dualLeaf (p : Predicate) (o : Operands) (cs : List Condition) : Condition :=
  match p.counterpart? with
  | some q => mk q o cs
  | none => not (mk p o cs)

mutual

/-- The condition that asks for the opposite. -/
def dual : Condition → Condition
  | mk .all o cs => mk .any o (duals cs)
  | mk .any o cs => mk .all o (duals cs)
  | mk .not _ [c] => c
  | mk .childCount o cs =>
    match o.comparison.complement? with
    | some comparison => mk .childCount { o with comparison } cs
    | none => not (mk .childCount o cs)
  | mk p o cs => dualLeaf p o cs

/-- The duals of some conditions. -/
def duals : List Condition → List Condition
  | [] => []
  | c :: cs => dual c :: duals cs

end

variable {d : Document} {id : Int} {o : Operands} {cs : List Condition}

/-- A predicate and its counterpart disagree at every node. -/
theorem holdsPlain_counterpart? {p q : Predicate} (h : p.counterpart? = some q)
    (hp : p.isPlain = true) : holdsPlain q o d id = !holdsPlain p o d id := by
  cases p with
  | attributeMatches | attributeNotMatches => cases hp
  | childCount | depthExceeds | textMatches | textContains | all | any | not | unknown n => cases h
  | hasChild | missingChild =>
      cases h
      rw [Bool.eq_iff_iff]
      simp [holdsPlain, Nat.pos_iff_ne_zero]
  | _ =>
      cases h
      simp [holdsPlain, bne]

theorem isPlain_counterpart? {p q : Predicate} (h : p.counterpart? = some q)
    (hp : p.isPlain = true) : q.isPlain = true := by
  cases p with
  | attributeMatches | attributeNotMatches => cases hp
  | childCount | depthExceeds | textMatches | textContains | all | any | not | unknown n => cases h
  | _ =>
      cases h
      rfl

/-- The dual of a leaf is its negation. -/
theorem holds_dualLeaf {p : Predicate} (hp : p.isPlain = true) :
    holds d id (dualLeaf p o cs) = !holds d id (mk p o cs) := by
  unfold dualLeaf
  cases hq : p.counterpart? with
  | none => exact holds_not _
  | some q => rw [holds_plain hp, holds_plain (isPlain_counterpart? hq hp),
      holdsPlain_counterpart? hq hp]

/-- A match and its counterpart exclude each other when the pattern can be read. -/
theorem holds_attributeNotMatches_eq (h : (Pattern.parse? o.pattern).isSome = true) :
    holds d id (mk .attributeNotMatches o cs) = !holds d id (mk .attributeMatches o cs) := by
  obtain ⟨rx, hrx⟩ := Option.isSome_iff_exists.mp h
  rw [holds_attributeNotMatches, holds_attributeMatches, hrx]
  cases d.attr? id o.name with
  | none => rfl
  | some v => rfl

mutual

/-- The dual of a tree with readable patterns is its negation, by recursion on the tree. -/
theorem holds_dual : ∀ c : Condition, (∀ text ∈ patterns c, (Pattern.parse? text).isSome = true) →
    holds d id (dual c) = !holds d id c
  | mk p o cs, h => by
      rw [patterns] at h
      obtain ⟨hown, hparts⟩ := List.forall_mem_append.mp h
      cases p with
      | all =>
          rw [dual, holds_any, holds_all, holds_duals cs hparts, List.any_map, List.all_map,
            List.not_all_eq_any_not]
          rfl
      | any =>
          rw [dual, holds_any, holds_all, holds_duals cs hparts, List.any_map, List.all_map,
            List.not_any_eq_all_not]
          rfl
      | not =>
          match cs with
          | [c] => rw [dual, holds_not, Bool.not_not]
          | [] | _ :: _ :: _ => exact holds_not _
      | childCount =>
          rw [dual]
          cases hcomplement : o.comparison.complement? with
          | none => exact holds_not _
          | some comparison => exact Comparison.holds_complement? hcomplement _ _
      | attributeMatches => exact holds_attributeNotMatches_eq (hown _ List.mem_cons_self)
      | attributeNotMatches =>
          have hpattern := hown _ List.mem_cons_self
          exact ((congrArg _ (holds_attributeNotMatches_eq hpattern)).trans (Bool.not_not _)).symm
      | textMatches => exact holds_not _
      | _ =>
          simp only [dual]
          exact holds_dualLeaf rfl

/-- The same for the operands of a connective, one by one. -/
theorem holds_duals : ∀ cs : List Condition,
    (∀ text ∈ patternsOf cs, (Pattern.parse? text).isSome = true) →
      (duals cs).map (holds d id) = cs.map fun c => !holds d id c
  | [], _ => rfl
  | c :: cs, h => by
      rw [patternsOf] at h
      obtain ⟨hfirst, hrest⟩ := List.forall_mem_append.mp h
      rw [duals, List.map_cons, List.map_cons, holds_dual c hfirst, holds_duals cs hrest]

end

/-- **The dual of a condition is its negation.**  When all patterns of a condition can be read, its
dual holds at exactly the elements where it does not hold itself, whatever was read before. -/
theorem eval_dual (c : Condition) (h : ∀ text ∈ c.patterns, (Pattern.parse? text).isSome = true)
    (d : Document) (id : Int) {m m' : Memo} (hm : m.Faithful) (hm' : m'.Faithful) :
    (eval d id c.dual m).1 = !(eval d id c m').1 := by
  rw [eval_fst _ hm, eval_fst _ hm']
  exact holds_dual c h

theorem eval_dual_nested :
    let c := all [childCount "b" .ge 1, not (attributeNotMatches "Id" "^x"),
      any [parentIs "a", not (depthExceeds 3)]]
    let opposite := any [childCount "b" .lt 1, attributeNotMatches "Id" "^x",
      all [parentNot "a", depthExceeds 3]]
    let d := ((Document.blank "x.wxs").append none "a" [⟨"Id", "x1"⟩]).append (some 0) "b" []
    c.dual = opposite ∧ (∀ text ∈ c.patterns, (Pattern.parse? text).isSome = true) ∧
      (eval d 0 c []).1 = true ∧ (eval d 0 opposite []).1 = false ∧
      (eval d 1 c []).1 = false ∧ (eval d 1 opposite []).1 = true := by
  intro c opposite d
  have hdual : c.dual = opposite := rfl
  have hpatterns : ∀ text ∈ c.patterns, (Pattern.parse? text).isSome = true := by decide +kernel
  have hlaw (id : Int) : (eval d id opposite []).1 = !(eval d id c []).1 :=
    hdual ▸ eval_dual c hpatterns d id Memo.faithful_nil Memo.faithful_nil
  have hroot : (eval d 0 c []).1 = true := by decide +kernel
  have hchild : (eval d 1 c []).1 = false := by decide +kernel
  exact ⟨hdual, hpatterns, hroot, (hlaw 0).trans (by rw [hroot]; rfl), hchild,
    (hlaw 1).trans (by rw [hchild]; rfl)⟩

end Condition

end InstallerLint
