import InstallerLint.Condition.Yaml
import InstallerLint.Proofs.Assoc
import InstallerLint.Proofs.Yaml.Decode

/-!
# Operands are read as they were written

A predicate writes the operands that it uses, each under its name, and leaves out what is not given.
Reading goes through one record of operands for all predicates, so that an operand may be given that
the predicate does not use.

**What a predicate asks for.**  Some operands may not be missing (`Operands.Meets`); reading rejects
a condition exactly if one of them is (`lacking?_eq_none_iff`).

**Back and forth.**  The written operands are a list of `Part`s, and reading them sets one after the
other.  What comes back are the operands that are written (`keptOperands`), for the general form
(`gives_ofOperands`), for counts of children and for bounds of the depth.
-/

namespace InstallerLint

open Yaml (DataTree Decode Rereads)
open Yaml.Decode

namespace Predicate

/-- The predicates that ask for an attribute. -/
def ofAttribute : List Predicate := [attributeMissing, attributeExists, attributeEquals,
  attributeNotEquals, attributeMatches, attributeNotMatches, attributeIn, attributeNotIn]

/-- The predicates that ask for one kind of elements. -/
def ofKind : List Predicate := [hasChild, missingChild, parentIs, parentNot, childCount]

/-- The predicates that ask for several kinds. -/
def ofKinds : List Predicate := [parentIn, parentNotIn]

/-- Whether a predicate has operands of the general form. -/
def takesOperands : Predicate → Bool
  | always | never | childCount | depthExceeds | all | any | not | unknown _ => false
  | _ => true

/-- The name of a predicate tells the predicate. -/
theorem ofName?_name {p : Predicate} (h : ∀ n, p ≠ unknown n) : ofName? p.name = some p := by
  cases p with
  | unknown n => exact absurd rfl (h n)
  | _ => rfl

theorem ne_unknown_of_ofName? {s : String} {p : Predicate} (h : ofName? s = some p) (n : Int) :
    p ≠ unknown n := by
  obtain ⟨e, he, rfl⟩ := Option.map_eq_some_iff.mp h
  have hmem := List.mem_of_find?_eq_some he
  have hall : ∀ e ∈ table, ∀ n, e.1 ≠ unknown n := by
    simp [table]
  exact hall e hmem n

end Predicate

/-- The symbol of a comparison tells the comparison. -/
theorem Comparison.parse?_symbol {c : Comparison} (h : ∀ n, c ≠ .unknown n) :
    Comparison.parse? c.symbol = some c := by
  cases c with
  | unknown n => exact absurd rfl (h n)
  | _ => decide

theorem Comparison.ne_unknown_of_parse? {s : String} {c : Comparison}
    (h : Comparison.parse? s = some c) (n : Int) : c ≠ .unknown n := by
  have hall : ∀ e ∈ names, ∀ n, e.2 ≠ .unknown n := by
    simp [names]
  exact hall _ (Assoc.mem_of_lookup_eq_some h) n

/-- The operands that a predicate cannot do without are there, its comparison has a meaning and its
count has 64 bits. -/
structure Operands.Meets (p : Predicate) (o : Operands) : Prop where
  name : p ∈ Predicate.ofAttribute → o.name ≠ ""
  pattern : p.usesPattern = true → o.pattern ≠ ""
  element : p ∈ Predicate.ofKind → o.element ≠ ""
  elements : p ∈ Predicate.ofKinds → o.elements.getD [] ≠ []
  comparison : p = .childCount → ∀ n, o.comparison ≠ .unknown n
  count : p = .childCount ∨ p = .depthExceeds → isInt64 o.count = true

namespace Condition

/-- Which operand a predicate lacks: at most one is reported, in this order. -/
theorem lacking?_eq {p : Predicate} (hp : p.takesOperands = true) (o : Operands) :
    lacking? p o =
      if p ∈ Predicate.ofAttribute ∧ o.name = "" then some "name"
      else if p.usesPattern = true ∧ o.pattern = "" then some "pattern"
      else if p ∈ Predicate.ofKind ∧ o.element = "" then some "element"
      else if p ∈ Predicate.ofKinds ∧ o.elements.getD [] = [] then some "elements" else none := by
  cases p <;> first
    | exact absurd hp Bool.false_ne_true
    | simp [lacking?, Predicate.ofAttribute, Predicate.ofKind, Predicate.ofKinds,
        Predicate.usesPattern]

/-- Nothing is lacking exactly if everything that is asked for is there. -/
theorem lacking?_eq_none_iff {p : Predicate} (hp : p.takesOperands = true) {o : Operands} :
    lacking? p o = none ↔ o.Meets p := by
  rw [lacking?_eq hp]
  constructor
  · intro h
    split_ifs at h with hname hpattern helement helements
    exact {
      name := fun hmem hempty => hname ⟨hmem, hempty⟩
      pattern := fun huses hempty => hpattern ⟨huses, hempty⟩
      element := fun hmem hempty => helement ⟨hmem, hempty⟩
      elements := fun hmem hempty => helements ⟨hmem, hempty⟩
      comparison := by
        rintro rfl
        cases hp
      count := by
        rintro (rfl | rfl) <;> cases hp }
  · intro h
    rw [if_neg fun hn => h.name hn.1 hn.2, if_neg fun hn => h.pattern hn.1 hn.2,
      if_neg fun hn => h.element hn.1 hn.2, if_neg fun hn => h.elements hn.1 hn.2]

/-! ### Operands of the general form -/

/-- One operand of the general form. -/
inductive Part where
  | name (s : String)
  | value (s : String)
  | values (l : List String)
  | pattern (s : String)
  | element (s : String)
  | elements (l : List String)
  | substring (s : String)
  | max (n : Int)

namespace Part

/-- The operand's name. -/
def key : Part → String
  | name _ => "name"
  | value _ => "value"
  | values _ => "values"
  | pattern _ => "pattern"
  | element _ => "element"
  | elements _ => "elements"
  | substring _ => "substring"
  | max _ => "max"

/-- The operand as it is written. -/
def written : Part → Json
  | name s | value s | pattern s | element s | substring s => .str s
  | values l | elements l => .strs l
  | max n => .int n

/-- Operands with this one set. -/
def set (g : Given) : Part → Given
  | name s => { g with name := s }
  | value s => { g with value := s }
  | values l => { g with values := some l }
  | pattern s => { g with pattern := s }
  | element s => { g with element := s }
  | elements l => { g with elements := some l }
  | substring s => { g with substring := s }
  | max n => { g with max := some n }

/-- Parts under different keys can be set in any order. -/
theorem set_comm (x y : Part) (g : Given) (h : x.key ≠ y.key) :
    set (set g x) y = set (set g y) x := by
  cases x <;> cases y <;> first | rfl | exact absurd rfl h

/-- A written operand is read and set. -/
theorem gives_givenField {x : Part} {t : DataTree} (hx : ∀ n, x = max n → isInt64 n = true)
    (h : Rereads x.written t) (g : Given) :
    ∃ d, givenField g x.key t = some d ∧ Gives d (set g x) := by
  cases x with
  | values l => exact ⟨_, rfl, (gives_texts h).map _⟩
  | elements l => exact ⟨_, rfl, (gives_texts h).map _⟩
  | max n => exact ⟨_, rfl, (gives_int (hx n rfl) h).map _⟩
  | _ => exact ⟨_, rfl, (gives_text h).map _⟩

end Part

/-- A mapping of parts is read as all its parts set. -/
theorem gives_givenOf {xs : List Part} {t : DataTree}
    (h : Rereads (.obj (xs.map fun x => (x.key, x.written))) t) (hkeys : (xs.map Part.key).Nodup)
    (hmax : ∀ n, Part.max n ∈ xs → isInt64 n = true) :
    Gives (givenOf t) (some (xs.foldl Part.set {})) := by
  have hfield : ∀ x g n, x ∈ xs → Rereads x.written n →
      ∃ d, givenField g x.key n = some d ∧ Gives d (Part.set g x) :=
    fun x g n hx hn => Part.gives_givenField (fun i hi => hmax i (hi ▸ hx)) hn g
  exact ((gives_record h hfield hkeys Part.set_comm).map fun g => g.getD {}).nested

/-- A text that is written only if it is given. -/
def textPart (make : String → Part) (s : String) : List Part := if s = "" then [] else [make s]

/-- A list that is written only if it is given. -/
def listPart (make : List String → Part) : Option (List String) → List Part
  | none => []
  | some l => [make l]

/-- The value, for the predicates that write it. -/
def valuePart (p : Predicate) (s : String) : List Part :=
  match p with
  | .attributeEquals | .attributeNotEquals => [.value s]
  | .textContains => [.substring s]
  | _ => []

/-- The operands that are written. -/
def operandParts (p : Predicate) (o : Operands) : List Part :=
  textPart .name o.name ++ valuePart p o.value ++ listPart .values o.values ++
    textPart .pattern o.pattern ++ textPart .element o.element ++ listPart .elements o.elements

/-- Operands are written part by part. -/
theorem operandsToYaml_eq (p : Predicate) (o : Operands) :
    operandsToYaml p o = .obj ((operandParts p o).map fun x => (x.key, x.written)) := by
  have htext : ∀ (make : String → Part) (name : String), (∀ s, (make s).key = name) →
      (∀ s, (make s).written = .str s) → ∀ s,
      (textPart make s).map (fun x => (x.key, x.written)) = optText name s := by
    intro make name hkey hwritten s
    unfold textPart optText
    split_ifs
    · rfl
    · simp [hkey, hwritten]
  have hlist : ∀ (make : List String → Part) (name : String), (∀ l, (make l).key = name) →
      (∀ l, (make l).written = .strs l) → ∀ o,
      (listPart make o).map (fun x => (x.key, x.written)) = optList name o := by
    intro make name hkey hwritten o
    cases o with
    | none => rfl
    | some l => simp [listPart, optList, hkey, hwritten]
  unfold operandsToYaml operandParts
  simp only [List.map_append]
  rw [htext .name "name" (fun _ => rfl) fun _ => rfl,
    htext .pattern "pattern" (fun _ => rfl) fun _ => rfl,
    htext .element "element" (fun _ => rfl) fun _ => rfl,
    hlist .values "values" (fun _ => rfl) fun _ => rfl,
    hlist .elements "elements" (fun _ => rfl) fun _ => rfl]
  cases p <;> rfl

/-- The names of operands that may be written. -/
def operandKeys : List String :=
  ["name", "value", "substring", "values", "pattern", "element", "elements"]

theorem keys_operandParts (p : Predicate) (o : Operands) :
    ((operandParts p o).map Part.key).Sublist operandKeys := by
  have htext : ∀ (make : String → Part) s, (textPart make s).Sublist [make s] := by
    intro make s
    unfold textPart
    split_ifs
    · exact List.nil_sublist _
    · exact .refl _
  have hlist : ∀ (make : List String → Part) o, ∃ l, (listPart make o).Sublist [make l] := by
    intro make o
    cases o with
    | none => exact ⟨[], List.nil_sublist _⟩
    | some l => exact ⟨l, .refl _⟩
  have hvalue : ∃ s, (valuePart p o.value).Sublist [.value s, .substring s] := by
    refine ⟨o.value, ?_⟩
    unfold valuePart
    split <;> simp
  obtain ⟨s, hs⟩ := hvalue
  obtain ⟨l, hl⟩ := hlist .values o.values
  obtain ⟨l', hl'⟩ := hlist .elements o.elements
  exact ((((((htext .name o.name).append hs).append hl).append
    (htext .pattern o.pattern)).append (htext .element o.element)).append hl').map Part.key

/-- No part is written twice. -/
theorem nodup_operandParts (p : Predicate) (o : Operands) :
    ((operandParts p o).map Part.key).Nodup := (keys_operandParts p o).nodup (by decide)

theorem max_notMem_operandParts (p : Predicate) (o : Operands) (n : Int) :
    Part.max n ∉ operandParts p o := by
  intro h
  have hkey : Part.key (.max n) ∈ operandKeys :=
    (keys_operandParts p o).subset (List.mem_map_of_mem h)
  have hnot : "max" ∉ operandKeys := by decide
  exact hnot hkey

/-- What is read where the operands were written. -/
def rereadOperands (p : Predicate) (o : Operands) : Given := {
  name := o.name
  value := if p = .attributeEquals ∨ p = .attributeNotEquals then o.value else ""
  values := o.values
  pattern := o.pattern
  element := o.element
  elements := o.elements
  substring := if p = .textContains then o.value else "" }

theorem foldl_textPart (make : String → Part) (s : String) {g : Given}
    (h : Part.set g (make "") = g) : (textPart make s).foldl Part.set g = Part.set g (make s) := by
  unfold textPart
  split
  · next heq =>
      rw [heq, h]
      rfl
  · rfl

/-- The parts, set one after the other, give what is read again. -/
theorem foldl_operandParts (p : Predicate) (o : Operands) :
    (operandParts p o).foldl Part.set {} = rereadOperands p o := by
  have hvalue : (valuePart p o.value).foldl Part.set { name := o.name } =
      { name := o.name, value := (rereadOperands p o).value
        substring := (rereadOperands p o).substring } := by
    cases p <;> rfl
  have hvalues : ∀ g : Given, g.values = none →
      (listPart .values o.values).foldl Part.set g = { g with values := o.values } := by
    intro g hg
    cases o.values with
    | none =>
        cases g
        cases hg
        rfl
    | some l => rfl
  have helements : ∀ g : Given, g.elements = none →
      (listPart .elements o.elements).foldl Part.set g = { g with elements := o.elements } := by
    intro g hg
    cases o.elements with
    | none =>
        cases g
        cases hg
        rfl
    | some l => rfl
  -- A part that is left out would have set what the record starts with.
  simp only [operandParts, List.foldl_append]
  rw [foldl_textPart .name o.name rfl]
  simp only [Part.set]
  rw [hvalue, hvalues _ rfl, foldl_textPart .pattern o.pattern rfl,
    foldl_textPart .element o.element rfl, helements _ rfl]
  rfl

/-- The operands that are written and read again. -/
def keptOperands (p : Predicate) (o : Operands) : Operands :=
  match p with
  | .always | .never | .all | .any | .not => {}
  | .childCount => { element := o.element, comparison := o.comparison, count := o.count }
  | .depthExceeds => { count := o.count }
  | .attributeEquals | .attributeNotEquals | .textContains => { o with comparison := .eq, count := 0 }
  | _ => { o with value := "", comparison := .eq, count := 0 }

/-- The operands of a predicate that were given in the general form. -/
def givenOperands (p : Predicate) (g : Given) : Operands where
  name := g.name
  value := if p = .textContains ∧ g.substring ≠ "" then g.substring else g.value
  values := g.values
  pattern := g.pattern
  element := g.element
  elements := g.elements

/-- What was given is a condition unless an operand is lacking. -/
theorem ofGiven_eq (p : Predicate) (n : DataTree) (g : Given) :
    ofGiven p n g =
      match lacking? p (givenOperands p g) with
      | some what => reject n.line (p.name ++ " requires " ++ what)
      | none => pure (mk p (givenOperands p g) []) := by
  have heq : givenOperands p g =
      if p = .textContains then
        { name := g.name, value := if g.substring = "" then g.value else g.substring
          values := g.values, pattern := g.pattern, element := g.element, elements := g.elements }
      else
        { name := g.name, value := g.value, values := g.values, pattern := g.pattern
          element := g.element, elements := g.elements } := by
    unfold givenOperands
    by_cases hp : p = .textContains
    · by_cases hs : g.substring = "" <;> simp [hp, hs]
    · simp [hp]
  rw [heq]
  rfl

/-- Of the operands those are kept that the predicate uses. -/
theorem givenOperands_rereadOperands {p : Predicate} (hp : p.takesOperands = true) (o : Operands) :
    givenOperands p (rereadOperands p o) = keptOperands p o := by
  -- Only a part of a text goes through another operand than the one it is kept in.
  cases p with
  | textContains =>
      by_cases hvalue : o.value = "" <;> simp [givenOperands, rereadOperands, keptOperands, hvalue]
  | _ => first | rfl | exact absurd hp Bool.false_ne_true

theorem gives_ofGiven {p : Predicate} {o : Operands} (hp : p.takesOperands = true) (ho : o.Meets p)
    (n : DataTree) : Gives (ofGiven p n (rereadOperands p o)) (mk p (keptOperands p o) []) := by
  have hsame : lacking? p (keptOperands p o) = lacking? p o := by
    cases p <;> rfl
  rw [ofGiven_eq, givenOperands_rereadOperands hp, hsame, (lacking?_eq_none_iff hp).mpr ho]
  exact gives_pure _

/-- The operands of a predicate, if they meet what it requires, are read as they were written. -/
theorem gives_ofOperands {p : Predicate} {o : Operands} {t : DataTree}
    (hp : p.takesOperands = true) (ho : o.Meets p) (h : Rereads (operandsToYaml p o) t) :
    Gives (ofOperands p t) (some (mk p (keptOperands p o) [])) := by
  rw [operandsToYaml_eq] at h
  have hgiven := gives_givenOf h (nodup_operandParts p o)
    fun n hn => absurd hn (max_notMem_operandParts p o n)
  rw [foldl_operandParts] at hgiven
  obtain ⟨line, tag, entries, ys, rfl, -⟩ := rereads_obj h
  exact hgiven.bind ((gives_ofGiven hp ho _).map some)

/-- A depth is read as it was written. -/
theorem gives_depthOf {n : Int} {t : DataTree} (hn : isInt64 n = true)
    (h : Rereads (.obj [("max", .int n)]) t) : Gives (depthOf t) (some (depthExceeds n)) := by
  have hparts : Rereads (.obj ([Part.max n].map fun x => (x.key, x.written))) t := h
  have hgiven : Gives (givenOf t) (some { max := some n }) := by
    refine gives_givenOf hparts (List.nodup_singleton _) fun i hi => ?_
    cases List.mem_singleton.mp hi
    exact hn
  obtain ⟨line, l, value, rfl, -⟩ := Yaml.rereads_single h
  exact hgiven.bind (gives_pure _)

/-- One operand of a count of children. -/
inductive CountPart where
  | element (s : String)
  | op (s : String)
  | value (n : Int)

namespace CountPart

/-- The operand's name. -/
def key : CountPart → String
  | element _ => "element"
  | op _ => "op"
  | value _ => "value"

/-- The operand as it is written. -/
def written : CountPart → Json
  | element s | op s => .str s
  | value n => .int n

/-- Operands with this one set. -/
def set (g : CountGiven) : CountPart → CountGiven
  | element s => { g with element := s }
  | op s => { g with op := s }
  | value n => { g with value := n }

theorem set_comm (x y : CountPart) (g : CountGiven) (h : x.key ≠ y.key) :
    set (set g x) y = set (set g y) x := by
  cases x <;> cases y <;> first | rfl | exact absurd rfl h

end CountPart

/-- The operands of a count of children, as they are written. -/
def countParts (o : Operands) : List CountPart :=
  [.element o.element, .op o.comparison.symbol, .value o.count]

/-- The operands of a count of children are read as they were written. -/
theorem gives_countOf {o : Operands} {t : DataTree} (ho : o.Meets .childCount)
    (h : Rereads (.obj ((countParts o).map fun x => (x.key, x.written))) t) :
    Gives (countOf t) (some (childCount o.element o.comparison o.count)) := by
  have hfield : ∀ x g n, x ∈ countParts o → Rereads x.written n →
      ∃ d, countField g x.key n = some d ∧ Gives d (CountPart.set g x) := by
    intro x g n hx hn
    cases x with
    | value i =>
        have hi : isInt64 i = true := by
          have heq : i = o.count := by simpa [countParts] using hx
          exact heq ▸ ho.count (Or.inl rfl)
        exact ⟨_, rfl, (gives_int hi hn).map _⟩
    | _ => exact ⟨_, rfl, (gives_text hn).map _⟩
  have hkeys : ((countParts o).map CountPart.key).Nodup := by
    have hnodup : ["element", "op", "value"].Nodup := by decide
    exact hnodup
  have hgiven : Gives (nested ((record "condition.countOperands" false {} countField
      t).map fun g => g.getD {}))
      (some { element := o.element, op := o.comparison.symbol, value := o.count }) :=
    ((gives_record h hfield hkeys CountPart.set_comm).map fun g => g.getD {}).nested
  have helement : o.element ≠ "" := ho.element (by decide)
  refine hgiven.bind ?_
  simp only [Comparison.parse?_symbol (ho.comparison rfl), if_neg helement]
  exact gives_pure _

end Condition
end InstallerLint
