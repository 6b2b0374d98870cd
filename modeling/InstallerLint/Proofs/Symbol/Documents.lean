import InstallerLint.Project
import InstallerLint.Proofs.Document.Shape
import InstallerLint.Proofs.Symbol.Contents
import Mathlib.Data.List.Dedup
import Mathlib.Data.List.Induction
import Mathlib.Data.List.Nodup
import Mathlib.Tactic.SplitIfs

/-!
# The index of a project

An element with a non-empty id defines a symbol or refers to one, as its kind says.  Every symbol
of a document stands in the document's file.

**Documents.**  Documents with different paths are read one after the other into an empty index.
Nothing is taken out on the way, so the index holds all definitions and references in the order of
the documents (`holds_documents`).

**Duplicates.**  An index records later definitions in the order in which they arrive.  Listed key
by key they are the definitions of the key without the first, each with the first
(`later_perm_pairs`).

**Standard directories.**  They are added afterwards where nothing has their key.  They make more
keys defined, but they are no duplicates of anything.
-/

namespace InstallerLint

namespace Document

/-- An element defines a symbol when its kind does and it has an id. -/
theorem definition?_eq_some_iff {d : Document} {id : Nat} {x : Definition} :
    d.definition? id = some x ↔
      d.attr id "Id" ≠ "" ∧ SymbolKind.isDefinition (d.kind id) = true ∧
        x = ⟨d.attr id "Id", d.kind id, d.location id, d.symbolDetail id (d.kind id)⟩ := by
  unfold Document.definition?
  split
  · simp_all
  · next hne =>
      dsimp only
      split_ifs with hk
      · rw [Option.some.injEq]
        exact ⟨fun h => ⟨hne, hk, h.symm⟩, fun h => h.2.2.symm⟩
      · simp [hk]

/-- An element refers to a symbol when its kind does and it has an id. -/
theorem reference?_eq_some_iff {d : Document} {id : Nat} {x : Reference} :
    d.reference? id = some x ↔
      d.attr id "Id" ≠ "" ∧ SymbolKind.isReference (d.kind id) = true ∧
        x = ⟨d.attr id "Id", d.kind id, d.location id⟩ := by
  unfold Document.reference?
  split
  · simp_all
  · next hne =>
      dsimp only
      split_ifs with hk
      · rw [Option.some.injEq]
        exact ⟨fun h => ⟨hne, hk, h.symm⟩, fun h => h.2.2.symm⟩
      · simp [hk]

theorem file_of_mem_definitions {d : Document} {x : Definition} (h : x ∈ d.definitions) :
    x.location.file = d.path := by
  obtain ⟨id, -, hid⟩ := List.mem_filterMap.mp h
  obtain ⟨-, -, rfl⟩ := definition?_eq_some_iff.mp hid
  rfl

theorem file_of_mem_references {d : Document} {x : Reference} (h : x ∈ d.references) :
    x.location.file = d.path := by
  obtain ⟨id, -, hid⟩ := List.mem_filterMap.mp h
  obtain ⟨-, -, rfl⟩ := reference?_eq_some_iff.mp hid
  rfl

end Document

namespace SymbolIndex

section Duplicates

/-- Each later definition of a list with the first one. -/
def pairs : List Definition → List Duplicate
  | [] => []
  | d :: ds => ds.map fun e => ⟨d, e⟩

/-- A list is put together from its groups. -/
theorem perm_flatMap_filter {α κ : Type} [DecidableEq κ] (f : α → κ) :
    ∀ (keys : List κ) (l : List α), keys.Nodup → (∀ x ∈ l, f x ∈ keys) →
      l.Perm (keys.flatMap fun k => l.filter fun x => f x = k)
  | [], [], _, _ => List.Perm.nil
  | [], x :: l, _, h => absurd (h x List.mem_cons_self) List.not_mem_nil
  | k :: keys, l, hnodup, h => by
      obtain ⟨hk, hkeys⟩ := List.nodup_cons.mp hnodup
      have hrest : ∀ x ∈ l.filter (fun x => !decide (f x = k)), f x ∈ keys := by
        intro x hx
        obtain ⟨hx, hne⟩ := List.mem_filter.mp hx
        rcases List.mem_cons.mp (h x hx) with heq | hmem
        · simp [heq] at hne
        · exact hmem
      have hgroups : (keys.flatMap fun k' => (l.filter fun x => !decide (f x = k)).filter
          fun x => f x = k') = keys.flatMap fun k' => l.filter fun x => f x = k' := by
        refine List.flatMap_congr fun k' hk' => ?_
        rw [List.filter_filter]
        refine List.filter_congr fun x _ => ?_
        by_cases hx : f x = k'
        · have : f x ≠ k := fun he => hk (he ▸ hx ▸ hk')
          simp [hx, hx ▸ this]
        · simp [hx]
      have hperm := perm_flatMap_filter f keys _ hkeys hrest
      rw [hgroups] at hperm
      rw [List.flatMap_cons]
      exact (List.filter_append_perm _ l).symm.trans (hperm.append_left _)

/-- The second of a duplicate is one of the definitions. -/
theorem mem_of_mem_laterAfter {seen defs : List Definition} {p : Duplicate}
    (h : p ∈ laterAfter seen defs) : p.second ∈ defs := by
  induction defs generalizing seen with
  | nil => cases h
  | cons d defs ih =>
      rcases List.mem_append.mp h with h | h
      · unfold pairWith at h
        cases hf : firstOf seen d.key with
        | none => simp [hf] at h
        | some first =>
            rw [hf] at h
            rw [List.mem_singleton.mp h]
            exact List.mem_cons_self
      · exact List.mem_cons_of_mem _ (ih h)

/-- The first of a duplicate came before or is one of the definitions. -/
theorem first_mem_of_mem_laterAfter {seen defs : List Definition} {p : Duplicate}
    (h : p ∈ laterAfter seen defs) : p.first ∈ seen ++ defs := by
  induction defs generalizing seen with
  | nil => cases h
  | cons d defs ih =>
      rcases List.mem_append.mp h with h | h
      · unfold pairWith at h
        cases hf : firstOf seen d.key with
        | none => simp [hf] at h
        | some first =>
            rw [hf] at h
            rw [List.mem_singleton.mp h]
            exact List.mem_append_left _ (List.mem_of_find?_eq_some hf)
      · simpa using ih h

end Duplicates

section Documents

/-- Reading documents with different paths keeps everything they bring. -/
theorem holds_documents : ∀ (docs : List Document), (docs.map (·.path)).Nodup →
    Holds (docs.foldl addDocument {}) (docs.flatMap (·.definitions))
        (docs.flatMap (·.references)) ∧
      (docs.foldl addDocument {}).files = docs.map (·.path) := by
  intro docs
  induction docs using List.reverseRecOn with
  | nil => exact fun _ => ⟨holds_empty, rfl⟩
  | append_singleton docs d ih =>
      intro hnodup
      rw [List.map_append, List.nodup_append] at hnodup
      obtain ⟨hinit, -, hdisj⟩ := hnodup
      obtain ⟨hholds, hfiles⟩ := ih hinit
      have hnew : ∀ e ∈ docs, e.path ≠ d.path := fun e he =>
        hdisj e.path (List.mem_map_of_mem he) d.path (by simp)
      have hdefs : ∀ x ∈ docs.flatMap (·.definitions), x.location.file ≠ d.path := by
        intro x hx
        obtain ⟨e, he, hx⟩ := List.mem_flatMap.mp hx
        rw [Document.file_of_mem_definitions hx]
        exact hnew e he
      have hrefs : ∀ r ∈ docs.flatMap (·.references), r.location.file ≠ d.path := by
        intro r hr
        obtain ⟨e, he, hr⟩ := List.mem_flatMap.mp hr
        rw [Document.file_of_mem_references hr]
        exact hnew e he
      have hdefsKept : (docs.flatMap (·.definitions)).filter (isOutside d.path) =
          docs.flatMap (·.definitions) :=
        List.filter_eq_self.mpr fun x hx => by simpa [isOutside] using hdefs x hx
      have hrefsKept : (docs.flatMap (·.references)).filter (fun r => r.location.file ≠ d.path) =
          docs.flatMap (·.references) :=
        List.filter_eq_self.mpr fun r hr => by simpa using hrefs r hr
      have hfilesKept : (docs.map (·.path)).filter (· ≠ d.path) = docs.map (·.path) := by
        refine List.filter_eq_self.mpr fun f hf => ?_
        obtain ⟨e, he, rfl⟩ := List.mem_map.mp hf
        simpa using hnew e he
      constructor
      · have := hholds.addDocument (d := d) (fun _ => hdefs) (fun _ => hrefs)
        rw [hdefsKept, hrefsKept] at this
        simpa using this
      · rw [List.foldl_append, List.foldl_cons, List.foldl_nil, files_addDocument, hfiles,
          hfilesKept, List.map_append]
        rfl

end Documents

section StandardDirectories

/-- Adds one well-known folder. -/
def addStandardDirectory (ix : SymbolIndex) (id : String) : SymbolIndex :=
  if ix.isDefined "Directory" id then ix
  else ix.inject id "StandardDirectory" "standard directory"

theorem addStandardDirectories_eq (ix : SymbolIndex) :
    ix.addStandardDirectories =
      SymbolKind.standardDirectories.foldl addStandardDirectory ix := rfl

/-- The key of a directory. -/
def directoryKey (id : String) : SymbolKey := ⟨"Directory", id⟩

theorem of_directory (id : String) : SymbolKey.of "Directory" id = directoryKey id := by
  have h : SymbolKind.canonical "Directory" = "Directory" := by decide
  rw [SymbolKey.of, h, directoryKey]

theorem of_standardDirectory (id : String) :
    SymbolKey.of "StandardDirectory" id = directoryKey id := by
  have h : SymbolKind.canonical "StandardDirectory" = "Directory" := by decide
  rw [SymbolKey.of, h, directoryKey]

theorem isDefined_directory (ix : SymbolIndex) (id : String) :
    ix.isDefined "Directory" id = (ix.find? (directoryKey id)).isSome := by
  rw [isDefined, definition?, of_directory]

theorem dups_addStandardDirectory (ix : SymbolIndex) (id : String) :
    (ix.addStandardDirectory id).dups = ix.dups := by
  unfold addStandardDirectory
  rw [isDefined_directory]
  cases hfind : ix.find? (directoryKey id) with
  | some x => rfl
  | none =>
      rw [if_neg (by simp), inject, dups_addDefinition, Definition.key, of_standardDirectory, hfind]
      simp

/-- Standard directories make no duplicates. -/
theorem dups_foldl_standard (ids : List String) (ix : SymbolIndex) :
    (ids.foldl addStandardDirectory ix).dups = ix.dups := by
  induction ids generalizing ix with
  | nil => rfl
  | cons id ids ih => rw [List.foldl_cons, ih, dups_addStandardDirectory]

end StandardDirectories

section Project

variable {docs : List Document}

/-- The duplicates of a project are the later definitions of its documents. -/
theorem dups_indexOf (h : (docs.map (·.path)).Nodup) :
    (Project.indexOf docs).dups = later (docs.flatMap (·.definitions)) := by
  rw [Project.indexOf, addStandardDirectories_eq, dups_foldl_standard,
    (holds_documents docs h).1.dups]

end Project

end SymbolIndex
end InstallerLint
