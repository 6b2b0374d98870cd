import InstallerLint.Proofs.Condition.Memo

/-!
# What conditions say

A condition holds at an element or it does not, whatever an evaluator has read before: `holds` is
the answer of an evaluator that has read nothing, and every faithful memo leads to it.

**By form.**  Each form of condition has one equation.  Combinations are told by what their parts
say: an evaluator that stops early gives the same answer as one that asks all parts.
-/

namespace InstallerLint

/-- Predicates that need neither patterns nor other conditions. -/
def Predicate.isPlain (p : Predicate) : Bool :=
  !p.usesPattern && p != all && p != any && p != not

namespace Condition

/-- The answer of an evaluator that has read nothing. -/
def holds (d : Document) (id : Int) (c : Condition) : Bool := (eval d id c []).1

variable {d : Document} {id : Int} {o : Operands} {cs : List Condition} {m : Memo}

/-- With a faithful memo a condition answers as it does without one. -/
theorem eval_fst (c : Condition) (hm : m.Faithful) : (eval d id c m).1 = holds d id c :=
  (transparent_eval d id c m hm).1

/-- The memo stays faithful. -/
theorem eval_snd (c : Condition) (hm : m.Faithful) : (eval d id c m).2.Faithful :=
  (transparent_eval d id c m hm).2

/-- All conditions of a list are asked for as if there were no memo. -/
theorem evalAll_fst (cs : List Condition) (hm : m.Faithful) :
    (evalAll d id cs m).1 = (cs.map (holds d id)).all (·) := by
  induction cs generalizing m with
  | nil => rfl
  | cons c cs ih =>
      simp only [evalAll, List.map_cons, List.all_cons, eval_fst c hm]
      cases holds d id c with
      | true => exact ih (eval_snd c hm)
      | false => rfl

/-- So is whether one of them holds. -/
theorem evalAny_fst (cs : List Condition) (hm : m.Faithful) :
    (evalAny d id cs m).1 = (cs.map (holds d id)).any (·) := by
  induction cs generalizing m with
  | nil => rfl
  | cons c cs ih =>
      simp only [evalAny, List.map_cons, List.any_cons, eval_fst c hm]
      cases holds d id c with
      | true => rfl
      | false => exact ih (eval_snd c hm)

/-- A predicate without a pattern and without parts says what it is about. -/
theorem holds_plain {p : Predicate} (h : p.isPlain = true) :
    holds d id (mk p o cs) = holdsPlain p o d id := by
  cases p with
  | attributeMatches | attributeNotMatches | textMatches | all | any | not => cases h
  | _ => rfl

/-- An attribute matches if it is there, and its pattern is one and matches. -/
theorem holds_attributeMatches :
    holds d id (mk .attributeMatches o cs) =
      (d.attr? id o.name).any fun v => (Pattern.parse? o.pattern).any (·.isMatch v) := by
  simp only [holds, eval]
  cases d.attr? id o.name with
  | none => rfl
  | some v => rfl

/-- An attribute that is missing does not match, whatever the pattern is. -/
theorem holds_attributeNotMatches :
    holds d id (mk .attributeNotMatches o cs) =
      (d.attr? id o.name).all fun v => (Pattern.parse? o.pattern).any fun rx => !rx.isMatch v := by
  simp only [holds, eval]
  cases d.attr? id o.name with
  | none => rfl
  | some v => rfl

/-- A text matches only a pattern that can be read. -/
theorem holds_textMatches :
    holds d id (mk .textMatches o cs) =
      (Pattern.parse? o.pattern).any (·.isMatch (d.text id)) := by
  simp only [holds, eval]
  rfl

/-- A combination by `all` holds if each of its conditions does. -/
theorem holds_all : holds d id (mk .all o cs) = (cs.map (holds d id)).all (·) :=
  evalAll_fst cs Memo.faithful_nil

/-- A combination by `any` holds if one of its conditions does. -/
theorem holds_any : holds d id (mk .any o cs) = (cs.map (holds d id)).any (·) :=
  evalAny_fst cs Memo.faithful_nil

/-- A negation of one condition holds if that does not. -/
theorem holds_not (c : Condition) : holds d id (mk .not o [c]) = !holds d id c := by
  simp only [holds, eval, evalLone]
  rfl

end Condition

end InstallerLint
