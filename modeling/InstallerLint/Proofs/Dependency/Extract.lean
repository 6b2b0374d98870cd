import InstallerLint.Dependency.Extract
import InstallerLint.Proofs.Dependency.Lookup

/-!
# The dependencies of a document

A document is read element by element.  What an element names enters the graph at once, either as a
declaration or as a mention; its edges wait until all elements were read.

**One element.**  Reading an element enters a list of entries and appends a list of edges, which
depend on this element only (`readNode_eq`).

**A list of entries.**  A declaration replaces what is there and a mention does not.  So in the end
a name has its last declaration, and without one its first mention (`payload?_enterAll`).

**The main result** is `extract_spec`.  A package, an action or a merge module without its name is
not read at all: the extensions that its prefixes stand for are not in the graph either.
-/

namespace InstallerLint
namespace DependencyGraph

section Elements

variable (d : Document) (id : Nat)

/-- A chained package and its name: the id, else the source, else what it is called. -/
structure IsPackage (x : String) : Prop where
  kind : d.kind id ∈ chainPackages
  given : x ≠ ""
  name : d.attr id "Id" = x ∨ d.attr id "Id" = "" ∧
    (d.attr id "SourceFile" = x ∨ d.attr id "SourceFile" = "" ∧ d.attr id "Name" = x)

/-- A sequenced action and its name. -/
structure IsAction (x : String) : Prop where
  kind : d.kind id = "Custom"
  given : x ≠ ""
  name : d.attr id "Action" = x

/-- A merge module and its name. -/
structure IsModule (x : String) : Prop where
  kind : d.kind id = "Merge"
  given : x ≠ ""
  name : d.attr id "Id" = x

/-- An element without the name that its kind asks for. -/
def Nameless : Prop :=
  (d.kind id ∈ chainPackages ∧
    d.attr id "Id" = "" ∧ d.attr id "SourceFile" = "" ∧ d.attr id "Name" = "") ∨
  (d.kind id = "Custom" ∧ d.attr id "Action" = "") ∨ (d.kind id = "Merge" ∧ d.attr id "Id" = "")

instance : Decidable (Nameless d id) := inferInstanceAs (Decidable (_ ∨ _))

/-- The names that an element brings into the graph. -/
inductive NamesAt : String → Prop
  | package {x : String} : IsPackage d id x → NamesAt x
  | action {x : String} : IsAction d id x → NamesAt x
  | after {x y : String} : IsAction d id x → d.attr id "After" = y → y ≠ "" → NamesAt y
  | before {x y : String} : IsAction d id x → d.attr id "Before" = y → y ≠ "" → NamesAt y
  | mergeModule {x : String} : IsModule d id x → NamesAt x
  | dialogs : d.kind id = "UIRef" → NamesAt "WixUIExtension"
  | extension {x : String} {a : Attribute} : ¬Nameless d id → a ∈ d.attrs id →
      Find.startsWith a.name "xmlns:" = true → extensionFor a.value = x → x ≠ "" → NamesAt x

/-- The names that a document brings into the graph. -/
def Names (x : String) : Prop := ∃ id ∈ d.ids, NamesAt d id x

/-- The edges of an element: a package depends on what it comes after if that is a name of the
document, and actions depend on what they come after. -/
inductive DependsAt : String → String → Prop
  | package {x y : String} : IsPackage d id x → d.attr id "After" = y → Names d y → DependsAt x y
  | after {x y : String} : IsAction d id x → d.attr id "After" = y → y ≠ "" → DependsAt x y
  | before {x y : String} : IsAction d id y → d.attr id "Before" = x → x ≠ "" → DependsAt x y

/-- The dependency of a merge module. -/
def moduleAt : Dependency where
  name := d.attr id "Id"
  type := .mergeModule
  required := true
  bundled := true
  sourceFile := d.attr id "SourceFile"
  location := d.location id

/-- The dependency of something that is only mentioned. -/
def mentionAt (name : String) (type : DependencyType) : Dependency where
  name := name
  type := type
  required := true
  bundled := type ≠ .wixExtension
  location := d.location id

/-- An element declares a dependency. -/
def Declares (p : Dependency) : Prop :=
  IsPackage d id p.name ∧ p = packageAt d id ∨ IsModule d id p.name ∧ p = moduleAt d id

end Elements

/-- Something that enters a graph. -/
inductive Entry where
  /-- A dependency that replaces what is there. -/
  | declared (p : Dependency)
  /-- A dependency that is entered only if its name is new. -/
  | mentioned (p : Dependency)

namespace Entry

/-- Enters something into a graph. -/
def enter (g : DependencyGraph) : Entry → DependencyGraph
  | declared p => g.add p
  | mentioned p => if g.has p.name then g else g.add p

/-- The name that is entered. -/
def name : Entry → String
  | declared p => p.name
  | mentioned p => p.name

/-- The dependency if it is declared. -/
def declared? : Entry → Option Dependency
  | declared p => some p
  | mentioned _ => none

/-- The dependency if it is mentioned. -/
def mentioned? : Entry → Option Dependency
  | declared _ => none
  | mentioned p => some p

end Entry

section Entries

variable {g : DependencyGraph} {x : String}

/-- Enters one thing after the other. -/
def enterAll (g : DependencyGraph) (l : List Entry) : DependencyGraph := l.foldl Entry.enter g

/-- A mention gives a payload to a name that has none, and leaves the others. -/
theorem payload?_mentioned (g : DependencyGraph) (p : Dependency) (x : String) :
    ((Entry.mentioned p).enter g).payload? x =
      (g.payload? x).or (if x = p.name then some p else none) := by
  show (if g.has p.name then g else g.add p).payload? x = _
  rw [has_eq_isSome_payload?]
  cases hp : g.payload? p.name with
  | some d =>
      rw [Option.isSome_some, if_pos rfl]
      by_cases hx : x = p.name
      · rw [hx, hp, Option.some_or]
      · rw [if_neg hx, Option.or_none]
  | none =>
      rw [Option.isSome_none, if_neg Bool.false_ne_true, payload?_add]
      by_cases hx : x = p.name
      · subst hx
        rw [hp, Option.none_or]
      · rw [if_neg hx, if_neg hx, Option.or_none]

theorem find?_named_cons (x : String) (p : Dependency) (l : List Dependency) :
    (p :: l).find? (·.name = x) =
      (if x = p.name then some p else none).or (l.find? (·.name = x)) := by
  by_cases hx : x = p.name
  · rw [if_pos hx, List.find?_cons_of_pos (by simp [hx]), Option.some_or]
  · rw [if_neg hx, List.find?_cons_of_neg (by simpa using Ne.symm hx), Option.none_or]

/-- In the end a name has its last declaration, else what it had, else its first mention. -/
theorem payload?_enterAll (l : List Entry) (g : DependencyGraph) (x : String) :
    (g.enterAll l).payload? x = (lastNamed x (l.filterMap Entry.declared?)).or
      ((g.payload? x).or ((l.filterMap Entry.mentioned?).find? (·.name = x))) := by
  induction l generalizing g with
  | nil => exact (Option.or_none ..).symm
  | cons e l ih =>
      refine (ih (e.enter g)).trans ?_
      cases e with
      | declared p =>
          show (lastNamed x _).or (((g.add p).payload? x).or _) =
            (lastNamed x (p :: l.filterMap Entry.declared?)).or _
          rw [payload?_add, lastNamed_cons, Option.or_assoc]
          split
          · rfl
          · rfl
      | mentioned p =>
          show (lastNamed x _).or _ = (lastNamed x _).or ((g.payload? x).or
            ((p :: l.filterMap Entry.mentioned?).find? (·.name = x)))
          rw [payload?_mentioned, find?_named_cons, Option.or_assoc]
          rfl

/-- Entering names adds no edges. -/
theorem dependenciesOf_enterAll (l : List Entry) (g : DependencyGraph) (x : String) :
    (g.enterAll l).dependenciesOf x = g.dependenciesOf x := by
  induction l generalizing g with
  | nil => rfl
  | cons e l ih =>
      refine (ih (e.enter g)).trans ?_
      cases e with
      | declared p => exact dependenciesOf_add g p x
      | mentioned p =>
          show (if g.has p.name then g else g.add p).dependenciesOf x = g.dependenciesOf x
          split
          · rfl
          · exact dependenciesOf_add g p x

theorem has_enter (g : DependencyGraph) (e : Entry) (x : String) :
    (e.enter g).has x = (g.has x || decide (x = e.name)) := by
  simp only [has_eq_isSome_payload?]
  cases e with
  | declared p =>
      show ((g.add p).payload? x).isSome = _
      rw [payload?_add]
      by_cases hx : x = p.name <;> simp [hx, Entry.name]
  | mentioned p =>
      rw [payload?_mentioned]
      by_cases hx : x = p.name <;> simp [hx, Entry.name]

/-- The names of a graph after entering: the old ones and those entered. -/
theorem has_enterAll (l : List Entry) (g : DependencyGraph) (x : String) :
    (g.enterAll l).has x = true ↔ g.has x = true ∨ ∃ e ∈ l, e.name = x := by
  induction l generalizing g with
  | nil => simp [enterAll]
  | cons e l ih =>
      refine (ih (e.enter g)).trans ?_
      rw [has_enter, Bool.or_eq_true, decide_eq_true_eq, List.exists_mem_cons_iff, or_assoc,
        eq_comm (a := x)]

theorem Built.enterAll (hg : g.Built) (l : List Entry) : (g.enterAll l).Built := by
  induction l generalizing g with
  | nil => exact hg
  | cons e l ih =>
      refine ih (g := e.enter g) ?_
      cases e with
      | declared p => exact .add p hg
      | mentioned p =>
          show (if g.has p.name then g else g.add p).Built
          split
          · exact hg
          · exact .add p hg

end Entries

section Reading

variable (d : Document) (id : Nat)

/-- The extension that an attribute stands for, empty if it is not the prefix of one. -/
def extensionOf (a : Attribute) : String :=
  if Find.startsWith a.name "xmlns:" then extensionFor a.value else ""

/-- The extensions that the prefixes of an element stand for. -/
def extensionsAt : List String := ((d.attrs id).map extensionOf).filter (· ≠ "")

/-- A name if it is given. -/
def given (x : String) : List String := if x = "" then [] else [x]

/-- What an element enters for itself. -/
def ownEntries : List Entry :=
  if d.kind id ∈ chainPackages then [.declared (packageAt d id)]
  else if d.kind id = "Custom" then
    (d.attr id "Action" :: given (d.attr id "After") ++ given (d.attr id "Before")).map fun x =>
      .mentioned (mentionAt d id x .customAction)
  else if d.kind id = "Merge" then [.declared (moduleAt d id)]
  else if d.kind id = "UIRef" then [.mentioned (mentionAt d id "WixUIExtension" .wixExtension)]
  else []

/-- What an element enters. -/
def entriesAt : List Entry :=
  if Nameless d id then []
  else ownEntries d id ++
    (extensionsAt d id).map fun x => .mentioned (mentionAt d id x .wixExtension)

/-- The edges that an element asks for. -/
def linksAt : List (String × String) :=
  if Nameless d id then []
  else if d.kind id ∈ chainPackages then
    (given (d.attr id "After")).map fun y => ((packageAt d id).name, y)
  else if d.kind id = "Custom" then
    ((given (d.attr id "After")).map fun y => (d.attr id "Action", y)) ++
      (given (d.attr id "Before")).map fun x => (x, d.attr id "Action")
  else []

variable {d id}

theorem firstGiven_eq_empty {a b c : String} :
    firstGiven [a, b, c] = "" ↔ a = "" ∧ b = "" ∧ c = "" := by
  unfold firstGiven firstGiven firstGiven firstGiven
  by_cases ha : a = "" <;> by_cases hb : b = "" <;> by_cases hc : c = "" <;> simp [ha, hb, hc]

theorem custom_not_chain : "Custom" ∉ chainPackages := by decide

theorem merge_not_chain : "Merge" ∉ chainPackages := by decide

/-- A package is nameless when all three attributes for its name are empty. -/
theorem nameless_package (hkind : d.kind id ∈ chainPackages) :
    Nameless d id ↔ (packageAt d id).name = "" := by
  have hcustom : d.kind id ≠ "Custom" := fun h => custom_not_chain (h ▸ hkind)
  have hmerge : d.kind id ≠ "Merge" := fun h => merge_not_chain (h ▸ hkind)
  simp only [Nameless, hkind, hcustom, hmerge, true_and, false_and, or_false]
  exact firstGiven_eq_empty.symm

theorem nameless_action (hkind : d.kind id = "Custom") :
    Nameless d id ↔ d.attr id "Action" = "" := by
  simp [Nameless, hkind, custom_not_chain]

theorem nameless_module (hkind : d.kind id = "Merge") :
    Nameless d id ↔ d.attr id "Id" = "" := by
  simp [Nameless, hkind, merge_not_chain]

/-- Reading the prefixes of an element mentions its extensions in order. -/
theorem readPrefixes_eq (s : Draft) :
    readPrefixes s d id = ⟨s.graph.enterAll
      ((extensionsAt d id).map fun x => .mentioned (mentionAt d id x .wixExtension)), s.edges⟩ := by
  have hfold : ∀ (l : List String) (s : Draft),
      l.foldl (fun s x => if x = "" then s
        else { s with graph := s.graph.mention d id x .wixExtension }) s =
      ⟨s.graph.enterAll ((l.filter (· ≠ "")).map fun x =>
        .mentioned (mentionAt d id x .wixExtension)), s.edges⟩ := by
    intro l
    induction l with
    | nil => exact fun _ => rfl
    | cons x l ih =>
        intro s
        rw [List.foldl_cons, ih]
        by_cases hx : x = ""
        · rw [if_pos hx, List.filter_cons_of_neg (by simpa using hx)]
        · rw [if_neg hx, List.filter_cons_of_pos (by simpa using hx)]
          rfl
  refine Eq.trans ?_ (hfold ((d.attrs id).map extensionOf) s)
  rw [List.foldl_map]
  rfl

/-- Reading the element itself, by the kinds of elements. -/
theorem readElement?_eq (s : Draft) :
    readElement? s d id =
      if Nameless d id then none
      else some ⟨s.graph.enterAll (ownEntries d id), s.edges ++ linksAt d id⟩ := by
  unfold readElement? ownEntries linksAt
  by_cases hchain : d.kind id ∈ chainPackages
  · have hcontains : chainPackages.contains (d.kind id) = true := by simpa using hchain
    simp only [hcontains, hchain, nameless_package hchain, if_true, given]
    by_cases hname : (packageAt d id).name = ""
    · rw [if_pos hname, if_pos hname]
    · simp only [hname, if_false]
      by_cases hafter : d.attr id "After" = ""
      · simp only [hafter, if_true, List.map_nil, List.append_nil]
        rfl
      · simp only [hafter, if_false]
        rfl
  have hcontains : chainPackages.contains (d.kind id) = false := by simpa using hchain
  simp only [hcontains, hchain, Bool.false_eq_true, if_false]
  by_cases hcustom : d.kind id = "Custom"
  · simp only [hcustom, nameless_action hcustom, if_true, given]
    by_cases hname : d.attr id "Action" = ""
    · rw [if_pos hname, if_pos hname]
    · simp only [hname, if_false]
      by_cases hafter : d.attr id "After" = "" <;> by_cases hbefore : d.attr id "Before" = "" <;>
        simp only [hafter, hbefore, if_true, if_false, List.map_nil, List.append_nil,
          List.append_assoc] <;> rfl
  simp only [hcustom, if_false]
  by_cases hmerge : d.kind id = "Merge"
  · simp only [hmerge, nameless_module hmerge, if_true]
    by_cases hname : d.attr id "Id" = ""
    · rw [if_pos hname, if_pos hname]
    · simp only [hname, if_false, ite_self, List.append_nil]
      rfl
  have hname : ¬Nameless d id := by simp [Nameless, hchain, hcustom, hmerge]
  simp only [hmerge, hname, if_false, List.append_nil]
  by_cases hui : d.kind id = "UIRef"
  · rw [if_pos hui, if_pos hui]
    rfl
  · rw [if_neg hui, if_neg hui]
    rfl

/-- **One element.**  What is read at an element is entered and what it asks for is appended. -/
theorem readNode_eq (s : Draft) :
    readNode d s id = ⟨s.graph.enterAll (entriesAt d id), s.edges ++ linksAt d id⟩ := by
  unfold readNode entriesAt
  rw [readElement?_eq]
  by_cases hname : Nameless d id
  · rw [if_pos hname, if_pos hname]
    unfold linksAt
    rw [if_pos hname, List.append_nil]
    rfl
  · rw [if_neg hname, if_neg hname]
    show readPrefixes _ d id = _
    rw [readPrefixes_eq]
    unfold enterAll
    rw [List.foldl_append]

/-- Reading several elements one after the other. -/
theorem foldl_readNode (d : Document) (ids : List Nat) (s : Draft) :
    ids.foldl (readNode d) s = ⟨s.graph.enterAll (ids.flatMap (entriesAt d)),
      s.edges ++ ids.flatMap (linksAt d)⟩ := by
  induction ids generalizing s with
  | nil => simp [enterAll]
  | cons id ids ih =>
      rw [List.foldl_cons, ih, readNode_eq, List.flatMap_cons, List.flatMap_cons,
        List.append_assoc]
      unfold enterAll
      rw [List.foldl_append]

/-- Extraction enters all names of a document first and links them afterwards. -/
theorem extract_eq (d : Document) :
    extract d = (enterAll {} (d.ids.flatMap (entriesAt d))).linkAll (d.ids.flatMap (linksAt d)) := by
  unfold extract
  rw [foldl_readNode]
  rfl

end Reading

section AtElements

variable {d : Document} {id : Nat} {x y : String}

theorem mem_given : x ∈ given y ↔ y = x ∧ x ≠ "" := by
  unfold given
  split
  · next h =>
    rw [h]
    exact ⟨fun hx => absurd hx List.not_mem_nil, fun ⟨heq, hne⟩ => absurd heq.symm hne⟩
  · next h =>
    rw [List.mem_singleton]
    exact ⟨fun heq => ⟨heq.symm, heq ▸ h⟩, fun ⟨heq, _⟩ => heq.symm⟩

/-- The first name given is the one behind empty ones only. -/
theorem firstGiven_eq_iff {a b c : String} (hx : x ≠ "") :
    firstGiven [a, b, c] = x ↔ a = x ∨ a = "" ∧ (b = x ∨ b = "" ∧ c = x) := by
  unfold firstGiven firstGiven firstGiven firstGiven
  by_cases ha : a = ""
  · by_cases hb : b = ""
    · by_cases hc : c = "" <;> simp [ha, hb, hc, Ne.symm hx]
    · simp [ha, hb, Ne.symm hx]
  · simp [ha]

/-- A named package by the name that is read off its attributes. -/
theorem isPackage_iff :
    IsPackage d id x ↔ d.kind id ∈ chainPackages ∧ (packageAt d id).name = x ∧ x ≠ "" := by
  constructor
  · rintro ⟨hkind, hx, hname⟩
    exact ⟨hkind, (firstGiven_eq_iff hx).mpr hname, hx⟩
  · rintro ⟨hkind, hname, hx⟩
    exact ⟨hkind, hx, (firstGiven_eq_iff hx).mp hname⟩

theorem IsPackage.not_nameless (h : IsPackage d id x) : ¬Nameless d id := by
  obtain ⟨hkind, rfl, hx⟩ := isPackage_iff.mp h
  exact (nameless_package hkind).not.mpr hx

theorem IsAction.not_nameless (h : IsAction d id x) : ¬Nameless d id := by
  rw [nameless_action h.kind, h.name]
  exact h.given

theorem IsModule.not_nameless (h : IsModule d id x) : ¬Nameless d id := by
  rw [nameless_module h.kind, h.name]
  exact h.given

/-- A package enters itself. -/
theorem ownEntries_package (hkind : d.kind id ∈ chainPackages) :
    ownEntries d id = [.declared (packageAt d id)] := if_pos hkind

/-- A custom action enters itself and what it stands next to. -/
theorem ownEntries_action (hkind : d.kind id = "Custom") :
    ownEntries d id =
      (d.attr id "Action" :: given (d.attr id "After") ++ given (d.attr id "Before")).map fun x =>
        .mentioned (mentionAt d id x .customAction) := by
  simp [ownEntries, hkind, custom_not_chain]

/-- A merge module enters itself. -/
theorem ownEntries_module (hkind : d.kind id = "Merge") :
    ownEntries d id = [.declared (moduleAt d id)] := by
  simp [ownEntries, hkind, merge_not_chain]

theorem ownEntries_dialogs (hkind : d.kind id = "UIRef") :
    ownEntries d id = [.mentioned (mentionAt d id "WixUIExtension" .wixExtension)] := by
  have hchain : "UIRef" ∉ chainPackages := by decide
  simp [ownEntries, hkind, hchain]

/-- A package depends on the one it comes after. -/
theorem linksAt_package (hname : ¬Nameless d id) (hkind : d.kind id ∈ chainPackages) :
    linksAt d id = (given (d.attr id "After")).map fun y => ((packageAt d id).name, y) := by
  unfold linksAt
  rw [if_neg hname, if_pos hkind]

/-- A custom action depends on the one it comes after, and the one it comes before on it. -/
theorem linksAt_action (hname : ¬Nameless d id) (hkind : d.kind id = "Custom") :
    linksAt d id = ((given (d.attr id "After")).map fun y => (d.attr id "Action", y)) ++
      (given (d.attr id "Before")).map fun x => (x, d.attr id "Action") := by
  have hchain : d.kind id ∉ chainPackages := hkind ▸ custom_not_chain
  unfold linksAt
  rw [if_neg hname, if_neg hchain, if_pos hkind]

/-- No other element makes edges. -/
theorem linksAt_eq_nil (hchain : d.kind id ∉ chainPackages) (hcustom : d.kind id ≠ "Custom") :
    linksAt d id = [] := by
  unfold linksAt
  rw [if_neg hchain, if_neg hcustom, ite_self]

/-- What an element with its name is. -/
theorem kind_cases (hname : ¬Nameless d id) :
    IsPackage d id (packageAt d id).name ∨
    IsAction d id (d.attr id "Action") ∨
    IsModule d id (d.attr id "Id") ∧ linksAt d id = [] ∨
    d.kind id = "UIRef" ∧ linksAt d id = [] ∨
    ownEntries d id = [] ∧ linksAt d id = [] := by
  by_cases hchain : d.kind id ∈ chainPackages
  · exact Or.inl (isPackage_iff.mpr ⟨hchain, rfl, (nameless_package hchain).not.mp hname⟩)
  by_cases hcustom : d.kind id = "Custom"
  · exact Or.inr (Or.inl ⟨hcustom, (nameless_action hcustom).not.mp hname, rfl⟩)
  have hlinks : linksAt d id = [] := linksAt_eq_nil hchain hcustom
  refine Or.inr (Or.inr ?_)
  by_cases hmerge : d.kind id = "Merge"
  · exact Or.inl ⟨⟨hmerge, (nameless_module hmerge).not.mp hname, rfl⟩, hlinks⟩
  by_cases hui : d.kind id = "UIRef"
  · exact Or.inr (Or.inl ⟨hui, hlinks⟩)
  · exact Or.inr (Or.inr ⟨by simp [ownEntries, hchain, hcustom, hmerge, hui], hlinks⟩)

/-- What a named element enters itself is named there. -/
theorem namesAt_of_mem_own {e : Entry} (hname : ¬Nameless d id) (he : e ∈ ownEntries d id) :
    NamesAt d id e.name := by
  rcases kind_cases hname with h | h | ⟨h, -⟩ | ⟨hui, -⟩ | ⟨hnone, -⟩
  · rw [ownEntries_package h.kind, List.mem_singleton] at he
    rw [he]
    exact .package h
  · rw [ownEntries_action h.kind] at he
    obtain ⟨x, hx, rfl⟩ := List.mem_map.mp he
    show NamesAt d id x
    rcases List.mem_append.mp hx with hx | hx
    · rcases List.mem_cons.mp hx with rfl | hx
      · exact .action h
      · obtain ⟨hafter, hne⟩ := mem_given.mp hx
        exact .after h hafter hne
    · obtain ⟨hbefore, hne⟩ := mem_given.mp hx
      exact .before h hbefore hne
  · rw [ownEntries_module h.kind, List.mem_singleton] at he
    rw [he]
    exact .mergeModule h
  · rw [ownEntries_dialogs hui, List.mem_singleton] at he
    rw [he]
    exact .dialogs hui
  · rw [hnone] at he
    cases he

/-- What an element enters is named there. -/
theorem namesAt_of_mem {e : Entry} (he : e ∈ entriesAt d id) : NamesAt d id e.name := by
  unfold entriesAt at he
  split at he
  · cases he
  · next hname =>
    rcases List.mem_append.mp he with he | he
    · exact namesAt_of_mem_own hname he
    · obtain ⟨x, hx, rfl⟩ := List.mem_map.mp he
      obtain ⟨hx, hne⟩ := List.mem_filter.mp hx
      obtain ⟨a, ha, rfl⟩ := List.mem_map.mp hx
      have hgiven : extensionOf a ≠ "" := of_decide_eq_true hne
      unfold extensionOf at hgiven
      split at hgiven
      · next hstart =>
        refine .extension hname ha hstart ?_ (of_decide_eq_true hne)
        exact (if_pos hstart).symm
      · exact absurd rfl hgiven

/-- An element enters what it names, and nothing else. -/
theorem exists_entry_iff : (∃ e ∈ entriesAt d id, e.name = x) ↔ NamesAt d id x := by
  refine ⟨fun ⟨e, he, hx⟩ => hx ▸ namesAt_of_mem he, fun h => ?_⟩
  have hown {e : Entry} (hname : ¬Nameless d id) (he : e ∈ ownEntries d id) : e ∈ entriesAt d id := by
    unfold entriesAt
    rw [if_neg hname]
    exact List.mem_append_left _ he
  have haction {x y : String} (h : IsAction d id x)
      (hy : y ∈ d.attr id "Action" :: given (d.attr id "After") ++ given (d.attr id "Before")) :
      Entry.mentioned (mentionAt d id y .customAction) ∈ entriesAt d id := by
    refine hown h.not_nameless ?_
    rw [ownEntries_action h.kind]
    exact List.mem_map_of_mem hy
  cases h with
  | package h =>
      obtain ⟨hkind, hx, -⟩ := isPackage_iff.mp h
      refine ⟨.declared (packageAt d id), hown h.not_nameless ?_, hx⟩
      rw [ownEntries_package hkind]
      exact List.mem_singleton_self _
  | action h =>
      refine ⟨_, haction h (List.mem_append_left _ List.mem_cons_self), h.name⟩
  | after h hy hne =>
      refine ⟨_, haction h (List.mem_append_left _ (List.mem_cons_of_mem _ ?_)), rfl⟩
      exact mem_given.mpr ⟨hy, hne⟩
  | before h hy hne =>
      exact ⟨_, haction h (List.mem_append_right _ (mem_given.mpr ⟨hy, hne⟩)), rfl⟩
  | mergeModule h =>
      refine ⟨.declared (moduleAt d id), hown h.not_nameless ?_, h.name⟩
      rw [ownEntries_module h.kind]
      exact List.mem_singleton_self _
  | dialogs hkind =>
      have hchain : "UIRef" ∉ chainPackages := by decide
      refine ⟨.mentioned (mentionAt d id "WixUIExtension" .wixExtension), hown ?_ ?_, rfl⟩
      · simp [Nameless, hkind, hchain]
      · rw [ownEntries_dialogs hkind]
        exact List.mem_singleton_self _
  | @extension x a hname ha hstart hx hne =>
      have hof : extensionOf a = x := (if_pos hstart).trans hx
      refine ⟨.mentioned (mentionAt d id x .wixExtension), ?_, rfl⟩
      unfold entriesAt
      rw [if_neg hname]
      refine List.mem_append_right _ (List.mem_map_of_mem (List.mem_filter.mpr ⟨?_, ?_⟩))
      · exact List.mem_map.mpr ⟨a, ha, hof⟩
      · exact decide_eq_true hne

instance : Decidable (NamesAt d id x) :=
  decidable_of_iff (∃ e ∈ entriesAt d id, e.name = x) exists_entry_iff

instance : Decidable (Names d x) := inferInstanceAs (Decidable (∃ id ∈ d.ids, NamesAt d id x))

/-- The edges that an element asks for. -/
theorem mem_linksAt :
    (x, y) ∈ linksAt d id ↔
      IsPackage d id x ∧ d.attr id "After" = y ∧ y ≠ "" ∨
      IsAction d id x ∧ d.attr id "After" = y ∧ y ≠ "" ∨
      IsAction d id y ∧ d.attr id "Before" = x ∧ x ≠ "" := by
  constructor
  · intro h
    by_cases hname : Nameless d id
    · rw [linksAt, if_pos hname] at h
      cases h
    rcases kind_cases hname with hx | hx | ⟨-, hnone⟩ | ⟨-, hnone⟩ | ⟨-, hnone⟩
    · rw [linksAt_package hname hx.kind] at h
      obtain ⟨z, hz, heq⟩ := List.mem_map.mp h
      obtain ⟨rfl, rfl⟩ := Prod.mk.inj heq
      exact Or.inl ⟨hx, mem_given.mp hz⟩
    · rw [linksAt_action hname hx.kind] at h
      rcases List.mem_append.mp h with h | h
      · obtain ⟨z, hz, heq⟩ := List.mem_map.mp h
        obtain ⟨rfl, rfl⟩ := Prod.mk.inj heq
        exact Or.inr (Or.inl ⟨hx, mem_given.mp hz⟩)
      · obtain ⟨z, hz, heq⟩ := List.mem_map.mp h
        obtain ⟨rfl, rfl⟩ := Prod.mk.inj heq
        exact Or.inr (Or.inr ⟨hx, mem_given.mp hz⟩)
    all_goals
      rw [hnone] at h
      cases h
  · rintro (⟨h, hafter⟩ | ⟨h, hafter⟩ | ⟨h, hbefore⟩)
    · obtain ⟨hkind, rfl, -⟩ := isPackage_iff.mp h
      rw [linksAt_package h.not_nameless hkind]
      exact List.mem_map_of_mem (mem_given.mpr hafter)
    · rw [linksAt_action h.not_nameless h.kind, h.name]
      exact List.mem_append_left _ (List.mem_map_of_mem (mem_given.mpr hafter))
    · rw [linksAt_action h.not_nameless h.kind, h.name]
      exact List.mem_append_right _ (List.mem_map_of_mem (mem_given.mpr hbefore))

theorem filterMap_mentions (l : List String) (f : String → Dependency) :
    (l.map fun x => Entry.mentioned (f x)).filterMap Entry.declared? = [] := by
  rw [List.filterMap_map]
  exact List.filterMap_eq_nil_iff.mpr fun _ _ => rfl

/-- An element that declares a dependency declares this one only. -/
theorem Declares.filterMap_eq {p : Dependency} (h : Declares d id p) :
    (entriesAt d id).filterMap Entry.declared? = [p] := by
  unfold entriesAt
  rcases h with ⟨h, rfl⟩ | ⟨h, rfl⟩
  · rw [if_neg h.not_nameless, ownEntries_package h.kind, List.filterMap_append,
      filterMap_mentions]
    rfl
  · rw [if_neg h.not_nameless, ownEntries_module h.kind, List.filterMap_append,
      filterMap_mentions]
    rfl

/-- What an element declares with a payload is declared there. -/
theorem declares_of_mem {p : Dependency} (h : p ∈ (entriesAt d id).filterMap Entry.declared?) :
    Declares d id p := by
  unfold entriesAt at h
  split at h
  · cases h
  next hname =>
  rw [List.filterMap_append, filterMap_mentions, List.append_nil] at h
  rcases kind_cases hname with hp | hp | ⟨hp, -⟩ | ⟨hui, -⟩ | ⟨hnone, -⟩
  · rw [ownEntries_package hp.kind] at h
    obtain rfl : p = packageAt d id := List.mem_singleton.mp h
    exact Or.inl ⟨hp, rfl⟩
  · rw [ownEntries_action hp.kind, filterMap_mentions] at h
    cases h
  · rw [ownEntries_module hp.kind] at h
    obtain rfl : p = moduleAt d id := List.mem_singleton.mp h
    exact Or.inr ⟨hp, rfl⟩
  · rw [ownEntries_dialogs hui] at h
    cases h
  · rw [hnone] at h
    cases h

theorem NamesAt.ne_empty (h : NamesAt d id x) : x ≠ "" := by
  cases h with
  | package h => exact h.given
  | action h => exact h.given
  | after _ _ hne => exact hne
  | before _ _ hne => exact hne
  | mergeModule h => exact h.given
  | dialogs _ => decide
  | extension _ _ _ _ hne => exact hne

end AtElements

section Documents

variable {d : Document} {x y : String}

/-- An extracted graph is built by adding and linking. -/
theorem built_extract (d : Document) : (extract d).Built := by
  rw [extract_eq]
  exact (Built.new.enterAll _).linkAll _

theorem has_entries (d : Document) (x : String) :
    (enterAll {} (d.ids.flatMap (entriesAt d))).has x = true ↔ Names d x := by
  rw [has_enterAll]
  simp only [List.mem_flatMap]
  constructor
  · rintro (h | ⟨e, ⟨id, hid, he⟩, hx⟩)
    · cases h
    · exact ⟨id, hid, exists_entry_iff.mp ⟨e, he, hx⟩⟩
  · rintro ⟨id, hid, h⟩
    obtain ⟨e, he, hx⟩ := exists_entry_iff.mpr h
    exact Or.inr ⟨e, ⟨id, hid, he⟩, hx⟩

/-- The names of the graph are the names of the document. -/
theorem has_extract (d : Document) (x : String) : (extract d).has x = true ↔ Names d x := by
  rw [extract_eq, has_eq_isSome_payload?, payload?_linkAll, ← has_eq_isSome_payload?, has_entries]

/-- An element depends on what it asks for if that is a name of the document. -/
theorem dependsAt_iff {id : Nat} (hid : id ∈ d.ids) :
    DependsAt d id x y ↔ (x, y) ∈ linksAt d id ∧ Names d y := by
  rw [mem_linksAt]
  constructor
  · intro h
    cases h with
    | package h hafter hy =>
        have hne : y ≠ "" := hy.elim fun _ hy => hy.2.ne_empty
        exact ⟨Or.inl ⟨h, hafter, hne⟩, hy⟩
    | after h hafter hne => exact ⟨Or.inr (Or.inl ⟨h, hafter, hne⟩), id, hid, .after h hafter hne⟩
    | before h hbefore hne => exact ⟨Or.inr (Or.inr ⟨h, hbefore, hne⟩), id, hid, .action h⟩
  · rintro ⟨⟨h, hafter, -⟩ | ⟨h, hafter, hne⟩ | ⟨h, hbefore, hne⟩, hy⟩
    · exact .package h hafter hy
    · exact .after h hafter hne
    · exact .before h hbefore hne

/-- What is linked is named. -/
theorem names_of_link {id : Nat} (hid : id ∈ d.ids) (h : (x, y) ∈ linksAt d id) : Names d x := by
  rcases mem_linksAt.mp h with ⟨h, -⟩ | ⟨h, -⟩ | ⟨h, hbefore, hne⟩
  · exact ⟨id, hid, .package h⟩
  · exact ⟨id, hid, .action h⟩
  · exact ⟨id, hid, .before h hbefore hne⟩

/-- The edges of the graph are the dependencies at the elements of the document. -/
theorem edge_extract : (extract d).Edge x y ↔ ∃ id ∈ d.ids, DependsAt d id x y := by
  have hnone : ¬(enterAll {} (d.ids.flatMap (entriesAt d))).Edge x y := by
    unfold Edge
    rw [dependenciesOf_enterAll]
    exact List.not_mem_nil
  rw [extract_eq, edge_linkAll, canLink_iff, has_entries, has_entries, or_iff_right hnone,
    List.mem_flatMap]
  constructor
  · rintro ⟨⟨id, hid, hlink⟩, -, hy⟩
    exact ⟨id, hid, (dependsAt_iff hid).mpr ⟨hlink, hy⟩⟩
  · rintro ⟨id, hid, h⟩
    obtain ⟨hlink, hy⟩ := (dependsAt_iff hid).mp h
    exact ⟨⟨id, hid, hlink⟩, names_of_link hid hlink, hy⟩

/-- Both ends of an edge are named. -/
theorem names_of_edge (h : (extract d).Edge x y) : Names d x ∧ Names d y := by
  obtain ⟨hx, hy⟩ := (built_extract d).coherent.mem_names_of_edge h
  exact ⟨(has_extract d x).mp (has_iff.mpr (mem_names.mp hx)),
    (has_extract d y).mp (has_iff.mpr (mem_names.mp hy))⟩

/-- What is declared last stays, whatever is mentioned. -/
theorem payload?_extract {front back : List Nat} {id : Nat} {p : Dependency}
    (hids : d.ids = front ++ id :: back) (hp : Declares d id p)
    (hlast : ∀ id' ∈ back, ∀ q, Declares d id' q → q.name ≠ p.name) :
    (extract d).payload? p.name = some p := by
  have hback : lastNamed p.name ((back.flatMap (entriesAt d)).filterMap Entry.declared?) = none := by
    refine lastNamed_eq_none fun q hq => ?_
    rw [List.filterMap_flatMap] at hq
    obtain ⟨id', hid', hq⟩ := List.mem_flatMap.mp hq
    exact hlast id' hid' q (declares_of_mem hq)
  have hhere : lastNamed p.name [p] = some p := by simp [lastNamed]
  rw [extract_eq, payload?_linkAll, payload?_enterAll, hids, List.flatMap_append, List.flatMap_cons,
    List.filterMap_append, List.filterMap_append, hp.filterMap_eq, lastNamed_append,
    lastNamed_append, hback, hhere, Option.none_or, Option.some_or, Option.some_or]

end Documents

/-- **The dependencies of a document.**  A graph that is made of a document has the names that its
elements bring, no others.  It has an edge exactly where a package comes after a name of the
document and where an action comes after or before another one.  A name has what the last element
declares that declares it, whether it is mentioned before or after. -/
theorem extract_spec (d : Document) :
    (∀ x, (extract d).has x = true ↔ ∃ id ∈ d.ids, NamesAt d id x) ∧
    (∀ x y, (extract d).Edge x y ↔ ∃ id ∈ d.ids, DependsAt d id x y) ∧
    (∀ front id back p, d.ids = front ++ id :: back → Declares d id p →
      (∀ id' ∈ back, ∀ q, Declares d id' q → q.name ≠ p.name) →
      (extract d).payload? p.name = some p) :=
  ⟨has_extract d, fun _ _ => edge_extract, fun _ _ _ _ hids hp hlast =>
    payload?_extract hids hp hlast⟩

/-- A file with a declared and a sequenced dependency.  One of its actions has no name, so the
extension that stands at this element is missing. -/
theorem extract_spec_nameless :
    let element (kind : String) (attrs : List Attribute) (children : List Nat)
      (parent : Option Nat) : Node := ⟨kind, attrs, children, parent, ⟨1, 1, 1, 1⟩, "", none⟩
    let d : Document := ⟨"a.wxs", [], #[element "Wix" [] [1, 2, 3, 4] none,
      element "ExePackage" [⟨"Id", "a"⟩, ⟨"After", "b"⟩] [] (some 0),
      element "Custom" [⟨"xmlns:util", "http://wixtoolset.org/schemas/v4/wxs/util"⟩] [] (some 0),
      element "Merge" [⟨"Id", "b"⟩] [] (some 0),
      element "Custom" [⟨"Action", "c"⟩, ⟨"Before", "b"⟩] [] (some 0)]⟩
    d.ids = [0, 1, 2] ++ 3 :: [4] ∧ Declares d 3 (moduleAt d 3) ∧
      (∀ id' ∈ [4], ∀ q, Declares d id' q → q.name ≠ "b") ∧
      (extract d).Edge "a" "b" ∧ (extract d).Edge "b" "c" ∧
      (extract d).payload? "b" = some (moduleAt d 3) ∧
      extensionFor "http://wixtoolset.org/schemas/v4/wxs/util" = "WixUtilExtension" ∧
      (extract d).has "WixUtilExtension" = false := by
  intro element d
  obtain ⟨hnames, hedges, hlast⟩ := extract_spec d
  have hids : d.ids = [0, 1, 2] ++ 3 :: [4] := rfl
  have hpackage : IsPackage d 1 "a" := ⟨by decide, by decide, Or.inl rfl⟩
  have haction : IsAction d 4 "c" := ⟨rfl, by decide, rfl⟩
  have hmodule : IsModule d 3 "b" := ⟨rfl, by decide, rfl⟩
  have hdeclares : Declares d 3 (moduleAt d 3) := Or.inr ⟨hmodule, rfl⟩
  have hothers : ∀ id' ∈ [4], ∀ q, Declares d id' q → q.name ≠ "b" := by
    simp only [List.forall_mem_singleton]
    rintro q (⟨h, -⟩ | ⟨h, -⟩)
    · exact absurd h.kind (by decide)
    · exact absurd h.kind (by decide)
  have hmem {id : Nat} (h : id ∈ [0, 1, 2, 3, 4]) : id ∈ d.ids := h
  refine ⟨hids, hdeclares, hothers, ?_, ?_, ?_, by decide, ?_⟩
  · exact (hedges _ _).mpr ⟨1, hmem (by decide), .package hpackage rfl (by decide)⟩
  · exact (hedges _ _).mpr ⟨4, hmem (by decide), .before haction rfl (by decide)⟩
  · exact hlast [0, 1, 2] 3 [4] (moduleAt d 3) hids hdeclares hothers
  · have hmissing : ¬Names d "WixUtilExtension" := by decide
    exact Bool.eq_false_iff.mpr fun h => hmissing ((hnames _).mp h)

end DependencyGraph
end InstallerLint
