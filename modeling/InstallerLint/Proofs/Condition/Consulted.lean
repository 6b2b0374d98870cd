import InstallerLint.Proofs.Assoc
import InstallerLint.Proofs.Condition.Meaning

/-!
# Which patterns an evaluator reads

To decide a condition an evaluator looks at some of its patterns: those of absent attributes are not
needed, and parts behind the one that decides a combination are not asked (`consulted`).  A pattern
that is looked at is read and remembered, unless it was read before.

**One question.**  Deciding a condition adds the patterns that it consults to those that were read,
and nothing else (`adds_eval`).  They all are patterns of the condition (`consulted_subset`).

**A history.**  So an evaluator that was asked many questions has answered each of them as if it
were the first (`askEach_fst`), and remembers the patterns that some of them consulted, each once
and with what reading gives (`texts_askEach`).
-/

namespace InstallerLint

namespace Memo

/-- The patterns that were read. -/
def texts (m : Memo) : List String := m.map Prod.fst

/-- Asking for a pattern adds its text unless it is there. -/
theorem texts_pattern (m : Memo) (text : String) :
    (m.pattern text).2.texts = if text ∈ m.texts then m.texts else text :: m.texts := by
  unfold Memo.pattern
  split
  · next p hp =>
      have hmem : text ∈ m.texts := List.mem_map.mpr ⟨_, Assoc.mem_of_lookup_eq_some hp, rfl⟩
      rw [if_pos hmem]
  · next hnone =>
      have hmem : text ∉ m.texts := Assoc.lookup_eq_none_iff_key.mp hnone
      rw [if_neg hmem]
      rfl

end Memo

namespace Condition

variable (d : Document) (id : Int)

mutual

/-- The patterns that an evaluator looks at to decide a condition at an element. -/
def consulted : Condition → List String
  | mk p o cs =>
    match p with
    | .attributeMatches | .attributeNotMatches =>
      if (d.attr? id o.name).isSome then [o.pattern] else []
    | .textMatches => [o.pattern]
    | .all => consultedUntil false cs
    | .any => consultedUntil true cs
    | .not => consultedLone cs
    | _ => []

/-- The patterns that an evaluator looks at when it asks conditions in order up to the first with a
certain answer. -/
def consultedUntil (stop : Bool) : List Condition → List String
  | [] => []
  | c :: cs => consulted c ++ if holds d id c = stop then [] else consultedUntil stop cs

/-- The patterns that an evaluator looks at for the only condition in a list. -/
def consultedLone : List Condition → List String
  | [c] => consulted c
  | _ => []

end

mutual

/-- Only patterns of a condition are asked for. -/
theorem consulted_subset : ∀ c : Condition, consulted d id c ⊆ patterns c
  | mk p o cs => by
      have hparts (ts : List String) (h : ts ⊆ patternsOf cs) : ts ⊆ patterns (mk p o cs) := by
        rw [patterns]
        exact List.subset_append_of_subset_right _ h
      cases p with
      | attributeMatches | attributeNotMatches =>
          simp only [consulted]
          split
          · exact List.cons_subset.mpr ⟨List.mem_cons_self, List.nil_subset _⟩
          · exact List.nil_subset _
      | textMatches => exact List.cons_subset.mpr ⟨List.mem_cons_self, List.nil_subset _⟩
      | all => exact hparts _ (consultedUntil_subset false cs)
      | any => exact hparts _ (consultedUntil_subset true cs)
      | not => exact hparts _ (consultedLone_subset cs)
      | _ => exact List.nil_subset _

theorem consultedUntil_subset (stop : Bool) :
    ∀ cs : List Condition, consultedUntil d id stop cs ⊆ patternsOf cs
  | [] => List.nil_subset _
  | c :: cs => by
      rw [consultedUntil, patternsOf]
      refine List.append_subset.mpr ⟨?_, ?_⟩
      · exact List.subset_append_of_subset_left _ (consulted_subset c)
      · split
        · exact List.nil_subset _
        · exact List.subset_append_of_subset_right _ (consultedUntil_subset stop cs)

theorem consultedLone_subset : ∀ cs : List Condition, consultedLone d id cs ⊆ patternsOf cs
  | [c] => by
      rw [consultedLone, patternsOf]
      exact List.subset_append_of_subset_left _ (consulted_subset c)
  | [] | _ :: _ :: _ => List.nil_subset _

end

/-- An evaluation adds certain patterns to those that were read, and none twice. -/
def Adds {α : Type} (f : Memo → α × Memo) (ts : List String) : Prop :=
  ∀ m, m.Faithful → (m.texts.Nodup → (f m).2.texts.Nodup) ∧
    ∀ t, t ∈ (f m).2.texts ↔ t ∈ m.texts ∨ t ∈ ts

section Adds

variable {α β : Type}

theorem adds_pure (a : α) : Adds (fun m => (a, m)) [] :=
  fun _ _ => ⟨fun h => h, fun _ => by simp⟩

theorem adds_pattern (text : String) (g : Option Pattern → α) :
    Adds (fun m => (g (m.pattern text).1, (m.pattern text).2)) [text] := by
  intro m _
  show (m.texts.Nodup → (m.pattern text).2.texts.Nodup) ∧
    ∀ t, t ∈ (m.pattern text).2.texts ↔ t ∈ m.texts ∨ t ∈ [text]
  rw [Memo.texts_pattern]
  split
  · next hmem =>
      refine ⟨fun h => h, fun t => ⟨Or.inl, ?_⟩⟩
      rintro (h | h)
      · exact h
      · exact List.mem_singleton.mp h ▸ hmem
  · next hmem =>
      refine ⟨fun h => List.nodup_cons.mpr ⟨hmem, h⟩, fun t => ?_⟩
      rw [List.mem_cons, List.mem_singleton, or_comm]

/-- Going on after an evaluation, by its answer. -/
theorem Adds.bind {f : Memo → α × Memo} {g : α → Memo → β × Memo} {ts us : List String}
    (hf : Adds f ts) (htransparent : Transparent f) (hg : Adds (g (f []).1) us) :
    Adds (fun m => g (f m).1 (f m).2) (ts ++ us) := by
  intro m hm
  obtain ⟨hfst, hsnd⟩ := htransparent m hm
  obtain ⟨hnodup, hmem⟩ := hf m hm
  obtain ⟨hnodup', hmem'⟩ := hg (f m).2 hsnd
  show (m.texts.Nodup → (g (f m).1 (f m).2).2.texts.Nodup) ∧
    ∀ t, t ∈ (g (f m).1 (f m).2).2.texts ↔ t ∈ m.texts ∨ t ∈ ts ++ us
  rw [hfst]
  refine ⟨fun h => hnodup' (hnodup h), fun t => ?_⟩
  rw [hmem', hmem, List.mem_append, or_assoc]

end Adds

mutual

/-- Evaluating a condition adds to the memo exactly the patterns that were asked for. -/
theorem adds_eval : ∀ c : Condition, Adds (fun m => eval d id c m) (consulted d id c)
  | mk p o cs => by
      cases p with
      | attributeMatches =>
          simp only [eval, consulted]
          cases d.attr? id o.name with
          | none => exact adds_pure false
          | some v => exact adds_pattern o.pattern fun rx => rx.any (·.isMatch v)
      | attributeNotMatches =>
          simp only [eval, consulted]
          cases d.attr? id o.name with
          | none => exact adds_pure true
          | some v => exact adds_pattern o.pattern fun rx => rx.any fun r => !r.isMatch v
      | textMatches =>
          simp only [eval, consulted]
          exact adds_pattern o.pattern fun rx => rx.any (·.isMatch (d.text id))
      | all =>
          simp only [eval, consulted]
          exact adds_evalAll cs
      | any =>
          simp only [eval, consulted]
          exact adds_evalAny cs
      | not =>
          simp only [eval, consulted]
          have hlone := (adds_evalLone cs).bind (transparent_evalLone d id cs)
            (g := fun b m => (b.any (!·), m)) (adds_pure ((evalLone d id cs []).1.any (!·)))
          rwa [List.append_nil] at hlone
      | _ =>
          simp only [eval, consulted]
          exact adds_pure _

theorem adds_evalAll :
    ∀ cs : List Condition, Adds (fun m => evalAll d id cs m) (consultedUntil d id false cs)
  | [] => adds_pure true
  | c :: cs => by
      simp only [evalAll, consultedUntil]
      refine (adds_eval c).bind (transparent_eval d id c)
        (g := fun b m => if b then evalAll d id cs m else (false, m)) ?_
      show Adds (fun m => if holds d id c then evalAll d id cs m else (false, m)) _
      cases holds d id c with
      | true => exact adds_evalAll cs
      | false => exact adds_pure false

theorem adds_evalAny :
    ∀ cs : List Condition, Adds (fun m => evalAny d id cs m) (consultedUntil d id true cs)
  | [] => adds_pure false
  | c :: cs => by
      simp only [evalAny, consultedUntil]
      refine (adds_eval c).bind (transparent_eval d id c)
        (g := fun b m => if b then (true, m) else evalAny d id cs m) ?_
      show Adds (fun m => if holds d id c then (true, m) else evalAny d id cs m) _
      cases holds d id c with
      | true => exact adds_pure true
      | false => exact adds_evalAny cs

theorem adds_evalLone :
    ∀ cs : List Condition, Adds (fun m => evalLone d id cs m) (consultedLone d id cs)
  | [] => adds_pure none
  | [c] => by
      simp only [evalLone, consultedLone]
      have hone := (adds_eval c).bind (transparent_eval d id c)
        (g := fun b m => (some b, m)) (adds_pure _)
      rwa [List.append_nil] at hone
  | _ :: _ :: _ => adds_pure none

end

end Condition

/-- A question to an evaluator: whether a condition holds at an element of a document. -/
structure Question where
  condition : Condition
  document : Document
  element : Int

namespace Question

/-- Puts a question to an evaluator. -/
def ask (q : Question) (m : Memo) : Bool × Memo := q.condition.eval q.document q.element m

/-- The patterns that an evaluator looks at to answer a question. -/
def consulted (q : Question) : List String := q.condition.consulted q.document q.element

/-- Puts questions to one evaluator, one after the other. -/
def askEach : List Question → Memo → List Bool × Memo
  | [], m => ([], m)
  | q :: qs, m =>
    let (b, m) := q.ask m
    let (bs, m) := askEach qs m
    (b :: bs, m)

theorem transparent_ask (q : Question) : Condition.Transparent q.ask :=
  Condition.transparent_eval q.document q.element q.condition

theorem adds_ask (q : Question) : Condition.Adds q.ask q.consulted :=
  Condition.adds_eval q.document q.element q.condition

/-- Questions with a common memo have the answers that they have alone. -/
theorem askEach_fst (qs : List Question) {m : Memo} (hm : m.Faithful) :
    (askEach qs m).1 = qs.map fun q => (q.ask []).1 := by
  induction qs generalizing m with
  | nil => rfl
  | cons q qs ih =>
      obtain ⟨hfst, hsnd⟩ := q.transparent_ask m hm
      simp only [askEach, List.map_cons]
      rw [hfst, ih hsnd]

/-- The common memo stays faithful. -/
theorem faithful_askEach (qs : List Question) {m : Memo} (hm : m.Faithful) :
    (askEach qs m).2.Faithful := by
  induction qs generalizing m with
  | nil => exact hm
  | cons q qs ih => exact ih (q.transparent_ask m hm).2

/-- It holds exactly what was asked for. -/
theorem adds_askEach (qs : List Question) :
    Condition.Adds (askEach qs) (qs.flatMap consulted) := by
  induction qs with
  | nil => exact Condition.adds_pure []
  | cons q qs ih =>
      rw [List.flatMap_cons]
      exact q.adds_ask.bind q.transparent_ask
        (g := fun b m => (b :: (askEach qs m).1, (askEach qs m).2)) ih

/-- What an evaluator remembers that was asked questions. -/
theorem texts_askEach (qs : List Question) :
    (askEach qs []).2.texts.Nodup ∧
      ∀ t, t ∈ (askEach qs []).2.texts ↔ ∃ q ∈ qs, t ∈ q.consulted := by
  obtain ⟨hnodup, hmem⟩ := adds_askEach qs [] Memo.faithful_nil
  refine ⟨hnodup List.nodup_nil, fun t => ?_⟩
  rw [hmem, List.mem_flatMap]
  exact or_iff_right (List.not_mem_nil)

end Question

end InstallerLint
