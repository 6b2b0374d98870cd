import InstallerLint.Condition.Eval

/-!
# The memo of patterns does not show

Deciding a condition reads each pattern once and remembers what it read.  As long as a memo
remembers only what reading gives (`Memo.Faithful`), answers do not depend on it, and it stays
faithful.
-/

namespace InstallerLint

namespace Memo

/-- Everything remembered is what reading the pattern gives. -/
def Faithful (m : Memo) : Prop := ∀ text p, m.lookup text = some p → p = Pattern.parse? text

/-- An empty memo says nothing wrong. -/
theorem faithful_nil : Faithful [] := by
  intro text p h
  cases h

/-- A faithful memo answers as reading the pattern does. -/
theorem Faithful.pattern_fst {m : Memo} (h : m.Faithful) (text : String) :
    (m.pattern text).1 = Pattern.parse? text := by
  unfold Memo.pattern
  split
  · next p hp => exact h text p hp
  · rfl

/-- Asking for a pattern keeps a memo faithful. -/
theorem Faithful.pattern_snd {m : Memo} (h : m.Faithful) (text : String) :
    (m.pattern text).2.Faithful := by
  unfold Memo.pattern
  split
  · exact h
  · intro other p hp
    rw [List.lookup_cons] at hp
    split at hp
    · next heq =>
        rw [eq_of_beq heq]
        exact (Option.some.inj hp).symm
    · exact h other p hp

end Memo

namespace Condition

/-- An evaluation whose answer does not depend on the memo, and that keeps memos faithful. -/
def Transparent {α : Type} (f : Memo → α × Memo) : Prop :=
  ∀ m, m.Faithful → (f m).1 = (f []).1 ∧ (f m).2.Faithful

theorem transparent_pure {α : Type} (a : α) : Transparent fun m => (a, m) :=
  fun _ h => ⟨rfl, h⟩

theorem transparent_pattern {α : Type} (text : String) (g : Option Pattern → α) :
    Transparent fun m => (g (m.pattern text).1, (m.pattern text).2) := by
  intro m h
  refine ⟨?_, h.pattern_snd text⟩
  show g (m.pattern text).1 = g (Memo.pattern [] text).1
  rw [h.pattern_fst, Memo.faithful_nil.pattern_fst]

/-- Going on after an evaluation, by its answer. -/
theorem Transparent.bind {α β : Type} {f : Memo → α × Memo} {g : α → Memo → β × Memo}
    (hf : Transparent f) (hg : ∀ a, Transparent (g a)) :
    Transparent fun m => g (f m).1 (f m).2 := by
  intro m h
  obtain ⟨hfst, hsnd⟩ := hf m h
  have hnil := (hf [] Memo.faithful_nil).2
  refine ⟨?_, (hg _ _ hsnd).2⟩
  show (g (f m).1 (f m).2).1 = (g (f []).1 (f []).2).1
  rw [(hg _ _ hsnd).1, hfst, (hg _ _ hnil).1]

mutual

/-- Evaluating a condition is the same with every faithful memo, by recursion on the condition. -/
theorem transparent_eval (d : Document) (id : Int) :
    ∀ c : Condition, Transparent fun m => eval d id c m
  | mk p o cs => by
      cases p with
      | attributeMatches =>
          simp only [eval]
          cases d.attr? id o.name with
          | none => exact transparent_pure false
          | some v => exact transparent_pattern o.pattern fun rx => rx.any (·.isMatch v)
      | attributeNotMatches =>
          simp only [eval]
          cases d.attr? id o.name with
          | none => exact transparent_pure true
          | some v => exact transparent_pattern o.pattern fun rx => rx.any fun r => !r.isMatch v
      | textMatches =>
          simp only [eval]
          exact transparent_pattern o.pattern fun rx => rx.any (·.isMatch (d.text id))
      | all =>
          simp only [eval]
          exact transparent_evalAll d id cs
      | any =>
          simp only [eval]
          exact transparent_evalAny d id cs
      | not =>
          simp only [eval]
          exact (transparent_evalLone d id cs).bind fun b => transparent_pure (b.any (!·))
      | _ =>
          simp only [eval]
          exact transparent_pure _

theorem transparent_evalAll (d : Document) (id : Int) :
    ∀ cs : List Condition, Transparent fun m => evalAll d id cs m
  | [] => by
      simp only [evalAll]
      exact transparent_pure true
  | c :: cs => by
      simp only [evalAll]
      refine (transparent_eval d id c).bind (g := fun b m => if b then evalAll d id cs m
        else (false, m)) fun b => ?_
      cases b with
      | true => exact transparent_evalAll d id cs
      | false => exact transparent_pure false

theorem transparent_evalAny (d : Document) (id : Int) :
    ∀ cs : List Condition, Transparent fun m => evalAny d id cs m
  | [] => by
      simp only [evalAny]
      exact transparent_pure false
  | c :: cs => by
      simp only [evalAny]
      refine (transparent_eval d id c).bind (g := fun b m => if b then (true, m)
        else evalAny d id cs m) fun b => ?_
      cases b with
      | true => exact transparent_pure true
      | false => exact transparent_evalAny d id cs

theorem transparent_evalLone (d : Document) (id : Int) :
    ∀ cs : List Condition, Transparent fun m => evalLone d id cs m
  | [] => by
      simp only [evalLone]
      exact transparent_pure none
  | [c] => by
      simp only [evalLone]
      exact (transparent_eval d id c).bind fun b => transparent_pure (some b)
  | _ :: _ :: _ => by
      simp only [evalLone]
      exact transparent_pure none

end

end Condition

end InstallerLint
