import InstallerLint.Proofs.Assoc
import InstallerLint.Proofs.Order
import InstallerLint.Symbol.Index
import Mathlib.Algebra.BigOperators.Group.List.Basic

/-!
# What a symbol index holds

An index stands for two lists in the order of their arrival: the definitions and the references
that were put into it.

**Representation.**  `Holds ix defs refs` says that `ix` stands for `defs` and `refs`:

* a key is looked up to its first definition;
* every later definition of a key is recorded with the first one, in order;
* a key leads to its references in order.

**Operations.**  Adding a definition or a reference appends to its list.  Taking a file out
filters both lists: the next definition of a key becomes its first, and the later ones are
recorded with that one (`Holds.removeFile`).
-/

namespace InstallerLint
namespace SymbolIndex

/-- The first definition of a key. -/
def firstOf (defs : List Definition) (k : SymbolKey) : Option Definition :=
  defs.find? fun d => d.key = k

/-- The definition with the first of its key, when there is one before it. -/
def pairWith (seen : List Definition) (d : Definition) : List Duplicate :=
  ((firstOf seen d.key).map fun first => (⟨first, d⟩ : Duplicate)).toList

/-- Every definition that is not the first of its key, with that first one; `seen` stands before
the list. -/
def laterAfter (seen : List Definition) : List Definition → List Duplicate
  | [] => []
  | d :: ds => pairWith seen d ++ laterAfter (seen ++ [d]) ds

/-- Every definition that is not the first of its key, with that first one. -/
def later (defs : List Definition) : List Duplicate := laterAfter [] defs

/-- The first definition of two lists stands in the first list when it is there at all. -/
theorem firstOf_append (l l' : List Definition) (k : SymbolKey) :
    firstOf (l ++ l') k = (firstOf l k).or (firstOf l' k) := by
  simp [firstOf, List.find?_append]

theorem firstOf_singleton_self (d : Definition) : firstOf [d] d.key = some d := by
  simp [firstOf]

theorem firstOf_singleton_ne {d : Definition} {k : SymbolKey} (h : d.key ≠ k) :
    firstOf [d] k = none := by
  simp [firstOf, h]

/-- A key has no first definition exactly when no definition has it. -/
theorem firstOf_eq_none_iff {l : List Definition} {k : SymbolKey} :
    firstOf l k = none ↔ ∀ d ∈ l, d.key ≠ k := by
  simp [firstOf, List.find?_eq_none]

/-- What comes too late in two lists: the second is read with the first as seen. -/
theorem laterAfter_append (seen l l' : List Definition) :
    laterAfter seen (l ++ l') = laterAfter seen l ++ laterAfter (seen ++ l) l' := by
  induction l generalizing seen with
  | nil => simp [laterAfter]
  | cons d l ih => simp [laterAfter, ih, List.append_assoc]

/-- One more definition makes a pair with the first of its key and nothing else. -/
theorem later_append_singleton (l : List Definition) (d : Definition) :
    later (l ++ [d]) = later l ++ pairWith l d := by
  simp [later, laterAfter_append, laterAfter]

/-- An index stands for definitions and references in the order of their arrival. -/
structure Holds (ix : SymbolIndex) (defs : List Definition) (refs : List Reference) : Prop where
  /-- A key is looked up to its first definition. -/
  find : ∀ k, ix.find? k = firstOf defs k
  /-- Later definitions are recorded in order. -/
  dups : ix.dups = later defs
  /-- A key leads to its references in order. -/
  refsTo : ∀ k, ix.refsTo k = refs.filter fun r => r.key = k
  /-- No key has two definitions that stay. -/
  defKeys : (ix.defs.map Prod.fst).Nodup
  /-- No key has two lists of references. -/
  refKeys : (ix.refs.map Prod.fst).Nodup
  /-- No list of references is empty. -/
  refsSome : ∀ p ∈ ix.refs, p.2 ≠ []

theorem holds_empty : Holds {} [] [] := by
  constructor <;> simp [find?, firstOf, later, laterAfter, SymbolIndex.refsTo]

section Adding

variable {ix : SymbolIndex} {defs : List Definition} {refs : List Reference}

/-- Adding a definition fills a free key and leaves a taken one. -/
theorem find?_addDefinition (ix : SymbolIndex) (d : Definition) (k : SymbolKey) :
    (ix.addDefinition d).find? k = (ix.find? k).or (firstOf [d] k) := by
  unfold SymbolIndex.addDefinition
  cases hf : ix.find? d.key with
  | some first =>
      by_cases hk : d.key = k
      · subst hk
        show ix.find? d.key = _
        rw [hf, Option.some_or]
      · rw [firstOf_singleton_ne hk, Option.or_none]
        rfl
  | none =>
      show (ix.defs ++ [(d.key, d)]).lookup k = _
      rw [List.lookup_append]
      by_cases hk : d.key = k
      · subst hk
        simp [find?, firstOf_singleton_self]
      · simp [find?, firstOf_singleton_ne hk, List.lookup_cons, beq_false_of_ne (Ne.symm hk)]

/-- Adding a definition records one duplicate when its key is taken. -/
theorem dups_addDefinition (ix : SymbolIndex) (d : Definition) :
    (ix.addDefinition d).dups =
      ix.dups ++ ((ix.find? d.key).map fun first => (⟨first, d⟩ : Duplicate)).toList := by
  unfold SymbolIndex.addDefinition
  cases ix.find? d.key <;> simp

/-- No key is listed twice after adding a definition. -/
theorem nodup_addDefinition {ix : SymbolIndex} (h : (ix.defs.map Prod.fst).Nodup)
    (d : Definition) : ((ix.addDefinition d).defs.map Prod.fst).Nodup := by
  unfold SymbolIndex.addDefinition
  cases hf : ix.find? d.key with
  | some first => exact h
  | none =>
      have hkey : d.key ∉ ix.defs.map Prod.fst := Assoc.lookup_eq_none_iff_key.mp hf
      rw [List.map_append, List.nodup_append]
      refine ⟨h, by simp, ?_⟩
      rintro a ha b hb rfl
      simp only [List.map_cons, List.map_nil, List.mem_singleton] at hb
      exact hkey (hb ▸ ha)

@[simp] theorem refs_addDefinition (ix : SymbolIndex) (d : Definition) :
    (ix.addDefinition d).refs = ix.refs := by
  unfold SymbolIndex.addDefinition
  cases ix.find? d.key <;> rfl

@[simp] theorem files_addDefinition (ix : SymbolIndex) (d : Definition) :
    (ix.addDefinition d).files = ix.files := by
  unfold SymbolIndex.addDefinition
  cases ix.find? d.key <;> rfl

/-- A new definition comes last. -/
theorem Holds.addDefinition (h : Holds ix defs refs) (d : Definition) :
    Holds (ix.addDefinition d) (defs ++ [d]) refs where
  find k := by rw [find?_addDefinition, h.find, firstOf_append]
  dups := by rw [dups_addDefinition, later_append_singleton, h.dups, h.find]; rfl
  refsTo k := by
    unfold SymbolIndex.refsTo
    rw [refs_addDefinition]
    exact h.refsTo k
  defKeys := nodup_addDefinition h.defKeys d
  refKeys := by rw [refs_addDefinition]; exact h.refKeys
  refsSome := by rw [refs_addDefinition]; exact h.refsSome

/-- The definitions of a document go in one after the other. -/
theorem Holds.addDefinitions (ds : List Definition) (h : Holds ix defs refs) :
    Holds (ds.foldl SymbolIndex.addDefinition ix) (defs ++ ds) refs := by
  induction ds generalizing ix defs with
  | nil => simpa using h
  | cons d ds ih => simpa using ih (h.addDefinition d)

/-- A reference is added behind those of its key, and only there. -/
theorem lookup_insertRef (r : Reference) (l : List (SymbolKey × List Reference)) (k : SymbolKey) :
    ((insertRef r l).lookup k).getD [] =
      (l.lookup k).getD [] ++ (if r.key = k then [r] else []) := by
  induction l with
  | nil =>
      by_cases hk : r.key = k
      · simp [insertRef, hk]
      · simp [insertRef, hk, List.lookup_cons, beq_false_of_ne (Ne.symm hk)]
  | cons p l ih =>
      obtain ⟨k', rs⟩ := p
      by_cases hk' : k' = r.key
      · subst hk'
        by_cases hk : r.key = k
        · simp [insertRef, hk]
        · simp [insertRef, List.lookup_cons, hk, beq_false_of_ne (Ne.symm hk)]
      · by_cases hk : k = k'
        · subst hk
          simp [insertRef, hk', Ne.symm hk']
        · simp [insertRef, hk', List.lookup_cons, beq_false_of_ne hk, ih]

/-- A new key is listed last; a known one stays where it is. -/
theorem keys_insertRef (r : Reference) (l : List (SymbolKey × List Reference)) :
    (insertRef r l).map Prod.fst =
      if r.key ∈ l.map Prod.fst then l.map Prod.fst else l.map Prod.fst ++ [r.key] := by
  induction l with
  | nil => simp [insertRef]
  | cons p l ih =>
      obtain ⟨k', rs⟩ := p
      by_cases hk' : k' = r.key
      · simp [insertRef, hk']
      · by_cases hm : r.key ∈ l.map Prod.fst
        · rw [if_pos hm] at ih
          simp [insertRef, hk', ih, hm]
        · rw [if_neg hm] at ih
          simp [insertRef, hk', ih, hm, Ne.symm hk']

/-- No key is listed with no references. -/
theorem insertRef_ne_nil {r : Reference} {l : List (SymbolKey × List Reference)}
    (hl : ∀ p ∈ l, p.2 ≠ []) : ∀ p ∈ insertRef r l, p.2 ≠ [] := by
  induction l with
  | nil => simp [insertRef]
  | cons q l ih =>
      obtain ⟨k', rs⟩ := q
      have hrest : ∀ p ∈ l, p.2 ≠ [] := fun p hp => hl p (List.mem_cons_of_mem _ hp)
      intro p hp
      unfold insertRef at hp
      split_ifs at hp
      · rcases List.mem_cons.mp hp with rfl | hp
        · simp
        · exact hrest p hp
      · rcases List.mem_cons.mp hp with rfl | hp
        · exact hl (k', rs) List.mem_cons_self
        · exact ih hrest p hp

/-- A new reference comes last. -/
theorem Holds.addReference (h : Holds ix defs refs) (r : Reference) :
    Holds (ix.addReference r) defs (refs ++ [r]) := by
  refine ⟨h.find, h.dups, fun k => ?_, h.defKeys, ?_, insertRef_ne_nil h.refsSome⟩
  · have hk := h.refsTo k
    unfold SymbolIndex.refsTo at hk ⊢
    simp only [SymbolIndex.addReference]
    rw [lookup_insertRef, hk, List.filter_append]
    by_cases hr : r.key = k <;> simp [hr]
  · simp only [SymbolIndex.addReference]
    rw [keys_insertRef]
    split_ifs with hm
    · exact h.refKeys
    · rw [List.nodup_append]
      refine ⟨h.refKeys, by simp, ?_⟩
      rintro a ha b hb rfl
      exact hm (List.mem_singleton.mp hb ▸ ha)

/-- The references of a document go in one after the other. -/
theorem Holds.addReferences (rs : List Reference) (h : Holds ix defs refs) :
    Holds (rs.foldl SymbolIndex.addReference ix) defs (refs ++ rs) := by
  induction rs generalizing ix refs with
  | nil => simpa using h
  | cons r rs ih => simpa using ih (h.addReference r)

end Adding

section Removing

/-- Whether a definition stands in another file. -/
def isOutside (file : String) (d : Definition) : Bool := d.location.file ≠ file

/-- What a key is looked up to while a file is taken out: its first definition if that stands in
another file, else the first one that was put back. -/
def promised (file : String) (all done : List Definition) (k : SymbolKey) : Option Definition :=
  ((firstOf all k).filter (isOutside file)).or (firstOf (done.filter (isOutside file)) k)

/-- A first definition outside a file stays the first when the file goes. -/
theorem firstOf_filter_of_outside {file : String} {l : List Definition} {k : SymbolKey}
    {d : Definition} (h : firstOf l k = some d) (hd : isOutside file d = true) :
    firstOf (l.filter (isOutside file)) k = some d := by
  induction l with
  | nil => cases h
  | cons e l ih =>
      by_cases he : e.key = k
      · have hde : e = d := by simpa [firstOf, he] using h
        subst hde
        simp [firstOf, hd, he]
      · have hl : firstOf l k = some d := by simpa [firstOf, he] using h
        have := ih hl
        by_cases ho : isOutside file e = true
        · simpa [firstOf, ho, he] using this
        · simpa [firstOf, ho] using this

/-- With all duplicates restored, what is promised is the first definition outside the file. -/
theorem promised_all (file : String) (all : List Definition) (k : SymbolKey) :
    promised file all all k = firstOf (all.filter (isOutside file)) k := by
  unfold promised
  cases hf : firstOf all k with
  | none =>
      have hnone : firstOf (all.filter (isOutside file)) k = none := by
        rw [firstOf_eq_none_iff] at hf ⊢
        exact fun d hd => hf d (List.mem_of_mem_filter hd)
      simp [hnone]
  | some d =>
      by_cases hd : isOutside file d = true
      · simp [Option.filter_some, hd, firstOf_filter_of_outside hf hd]
      · simp [Option.filter_some, hd]

/-- An index from which a file is being taken out: the definitions of `done` are dealt with. -/
structure Restored (file : String) (all done : List Definition) (ix : SymbolIndex) : Prop where
  /-- A key is looked up as promised. -/
  find : ∀ k, ix.find? k = promised file all done k
  /-- Later definitions among those dealt with are recorded. -/
  dups : ix.dups = later (done.filter (isOutside file))
  /-- No key has two definitions that stay. -/
  defKeys : (ix.defs.map Prod.fst).Nodup

/-- A definition of the file itself promises nothing. -/
theorem promised_append_inside {file : String} {all done : List Definition} {d : Definition}
    (hd : isOutside file d = false) (k : SymbolKey) :
    promised file all (done ++ [d]) k = promised file all done k := by
  simp [promised, hd]

/-- A definition outside the file is promised to its key unless one was before. -/
theorem promised_append_outside {file : String} {all done : List Definition} {d : Definition}
    (hd : isOutside file d = true) (k : SymbolKey) :
    promised file all (done ++ [d]) k = (promised file all done k).or (firstOf [d] k) := by
  simp [promised, hd, firstOf_append, Option.or_assoc]

/-- A definition that is the first of its key is in place already. -/
theorem Restored.skipFirst {file : String} {all done rest : List Definition} {d : Definition}
    {ix : SymbolIndex} (h : Restored file all done ix) (hall : all = done ++ d :: rest)
    (hfirst : firstOf done d.key = none) : Restored file all (done ++ [d]) ix := by
  have hself : firstOf all d.key = some d := by
    rw [hall, firstOf_append, hfirst, Option.none_or]
    simp [firstOf]
  by_cases hd : isOutside file d = true
  · refine ⟨fun k => ?_, ?_, h.defKeys⟩
    · rw [promised_append_outside hd, h.find k]
      by_cases hk : d.key = k
      · subst hk
        simp [promised, hself, Option.filter_some, hd]
      · rw [firstOf_singleton_ne hk, Option.or_none]
    · have hnone : firstOf (done.filter (isOutside file)) d.key = none := by
        rw [firstOf_eq_none_iff] at hfirst ⊢
        exact fun e he => hfirst e (List.mem_of_mem_filter he)
      rw [h.dups, List.filter_append, List.filter_singleton, hd]
      simp [later_append_singleton, pairWith, hnone]
  · rw [Bool.not_eq_true] at hd
    refine ⟨fun k => ?_, ?_, h.defKeys⟩
    · rw [promised_append_inside hd, h.find k]
    · simpa [hd] using h.dups

/-- Putting a later definition back. -/
theorem Restored.restore {file : String} {all done rest : List Definition} {d first : Definition}
    {ix : SymbolIndex} (h : Restored file all done ix) (hall : all = done ++ d :: rest)
    (hfirst : firstOf done d.key = some first) :
    Restored file all (done ++ [d]) (SymbolIndex.restore file ix ⟨first, d⟩) := by
  have hself : firstOf all d.key = some first := by
    rw [hall, firstOf_append, hfirst, Option.some_or]
  unfold SymbolIndex.restore
  by_cases hd : d.location.file = file
  · have hout : isOutside file d = false := by simp [isOutside, hd]
    rw [if_pos hd]
    refine ⟨fun k => ?_, ?_, h.defKeys⟩
    · rw [promised_append_inside hout, h.find k]
    · simpa [hout] using h.dups
  · have hout : isOutside file d = true := by simp [isOutside, hd]
    rw [if_neg hd]
    by_cases hf : first.location.file = file
    · -- the first definition goes: this one takes its place, or follows the one that did
      have hin : isOutside file first = false := by simp [isOutside, hf]
      have hprom : promised file all done d.key = firstOf (done.filter (isOutside file)) d.key := by
        simp [promised, hself, Option.filter_some, hin]
      rw [if_pos hf]
      refine ⟨fun k => ?_, ?_, nodup_addDefinition h.defKeys d⟩
      · rw [find?_addDefinition, promised_append_outside hout, h.find k]
      · rw [dups_addDefinition, h.dups, h.find, hprom, List.filter_append, List.filter_singleton,
          hout]
        exact (later_append_singleton _ _).symm
    · have hstay : isOutside file first = true := by simp [isOutside, hf]
      have hkept := firstOf_filter_of_outside hfirst hstay
      rw [if_neg hf]
      refine ⟨fun k => ?_, ?_, h.defKeys⟩
      · show ix.find? k = _
        rw [promised_append_outside hout, h.find k]
        by_cases hk : d.key = k
        · subst hk
          simp [promised, hself, Option.filter_some, hstay]
        · rw [firstOf_singleton_ne hk, Option.or_none]
      · show ix.dups ++ [_] = _
        rw [h.dups, List.filter_append, List.filter_singleton, hout]
        simp [later_append_singleton, pairWith, hkept]

/-- Dealing with all definitions from `done` on. -/
theorem Restored.foldl {file : String} {all : List Definition} :
    ∀ {rest done : List Definition} {ix : SymbolIndex}, all = done ++ rest →
      Restored file all done ix →
      Restored file all all ((laterAfter done rest).foldl (SymbolIndex.restore file) ix)
  | [], done, ix, hall, h => by
      rw [List.append_nil] at hall
      subst hall
      exact h
  | d :: rest, done, ix, hall, h => by
      have hall' : all = (done ++ [d]) ++ rest := by simpa using hall
      unfold laterAfter pairWith
      rw [List.foldl_append]
      cases hf : firstOf done d.key with
      | none => exact Restored.foldl hall' (h.skipFirst hall hf)
      | some first => exact Restored.foldl hall' (h.restore hall hf)

theorem refs_foldl_restore (file : String) (dups : List Duplicate) (ix : SymbolIndex) :
    (dups.foldl (SymbolIndex.restore file) ix).refs = ix.refs := by
  induction dups generalizing ix with
  | nil => rfl
  | cons dup dups ih =>
      rw [List.foldl_cons, ih]
      unfold SymbolIndex.restore
      split_ifs <;> simp

theorem files_foldl_restore (file : String) (dups : List Duplicate) (ix : SymbolIndex) :
    (dups.foldl (SymbolIndex.restore file) ix).files = ix.files := by
  induction dups generalizing ix with
  | nil => rfl
  | cons dup dups ih =>
      rw [List.foldl_cons, ih]
      unfold SymbolIndex.restore
      split_ifs <;> simp

/-- What is left of an index at once when a file is taken out. -/
def rest (ix : SymbolIndex) (file : String) : SymbolIndex where
  defs := ix.defs.filter fun x => isOutside file x.2
  refs := (ix.refs.map fun x => (x.1, x.2.filter fun r => r.location.file ≠ file)).filter
    fun x => !x.2.isEmpty
  dups := []
  files := ix.files.filter (· ≠ file)

theorem removeFile_of_mem {ix : SymbolIndex} {file : String} (h : file ∈ ix.files) :
    ix.removeFile file = ix.dups.foldl (SymbolIndex.restore file) (ix.rest file) := by
  have hc : ix.files.contains file = true := by simpa using h
  unfold SymbolIndex.removeFile
  rw [if_pos hc]
  rfl

theorem removeFile_of_not_mem {ix : SymbolIndex} {file : String} (h : file ∉ ix.files) :
    ix.removeFile file = ix := by
  have hc : ¬ ix.files.contains file = true := by simpa using h
  unfold SymbolIndex.removeFile
  rw [if_neg hc]

/-- Removing a file takes it, and no other, from the files. -/
theorem files_removeFile (ix : SymbolIndex) (file : String) :
    (ix.removeFile file).files = ix.files.filter (· ≠ file) := by
  by_cases h : file ∈ ix.files
  · rw [removeFile_of_mem h, files_foldl_restore]
    rfl
  · rw [removeFile_of_not_mem h, eq_comm, List.filter_eq_self]
    intro f hf
    have hne : f ≠ file := fun he => h (he ▸ hf)
    simpa using hne

variable {ix : SymbolIndex} {defs : List Definition} {refs : List Reference}

/-- The references that stay are those of other files, in their order. -/
theorem Holds.refsTo_rest (h : Holds ix defs refs) (file : String) (k : SymbolKey) :
    (ix.rest file).refsTo k =
      (refs.filter fun r => r.location.file ≠ file).filter fun r => r.key = k := by
  have hk := h.refsTo k
  have hmapped : ((ix.refs.map fun x => (x.1, x.2.filter fun r => r.location.file ≠ file)).map
      Prod.fst).Nodup := by
    simpa [List.map_map, Function.comp_def] using h.refKeys
  have hcomm : ((refs.filter fun r => r.location.file ≠ file).filter fun r => r.key = k) =
      (ix.refsTo k).filter fun r => r.location.file ≠ file := by
    rw [hk, List.filter_filter, List.filter_filter]
    simp [Bool.and_comm]
  rw [hcomm]
  unfold SymbolIndex.refsTo rest
  rw [Assoc.lookup_filter_snd hmapped (fun rs => !rs.isEmpty), Assoc.lookup_map_snd]
  cases ix.refs.lookup k with
  | none => rfl
  | some rs =>
      simp only [Option.map_some, Option.getD_some, Option.filter_some]
      cases rs.filter fun r => decide (r.location.file ≠ file) <;> rfl

/-- Taking a file out leaves the definitions and references of all others, in order. -/
theorem Holds.removeFile {file : String} (h : Holds ix defs refs)
    (hdefs : file ∉ ix.files → ∀ d ∈ defs, d.location.file ≠ file)
    (hrefs : file ∉ ix.files → ∀ r ∈ refs, r.location.file ≠ file) :
    Holds (ix.removeFile file) (defs.filter (isOutside file))
      (refs.filter fun r => r.location.file ≠ file) := by
  by_cases hfile : file ∈ ix.files
  · have hstart : Restored file defs [] (ix.rest file) := by
      refine ⟨fun k => ?_, rfl, h.defKeys.sublist (List.filter_sublist.map _)⟩
      have hlook := Assoc.lookup_filter_snd h.defKeys (isOutside file) k
      have hfind := h.find k
      unfold find? at hfind ⊢
      rw [promised, ← hfind, ← hlook]
      simp [rest, firstOf]
    have hend : Restored file defs defs (ix.removeFile file) := by
      rw [removeFile_of_mem hfile, h.dups]
      exact Restored.foldl (by simp) hstart
    have hsame : (ix.removeFile file).refs = (ix.rest file).refs := by
      rw [removeFile_of_mem hfile, refs_foldl_restore]
    refine ⟨fun k => ?_, hend.dups, fun k => ?_, hend.defKeys, ?_, ?_⟩
    · rw [hend.find k, promised_all]
    · rw [← h.refsTo_rest file k]
      unfold SymbolIndex.refsTo
      rw [hsame]
    · rw [hsame]
      refine List.Nodup.sublist (List.filter_sublist.map _) ?_
      simpa [List.map_map, Function.comp_def] using h.refKeys
    · rw [hsame]
      intro p hp
      simpa using (List.mem_filter.mp hp).2
  · have hd : defs.filter (isOutside file) = defs := by
      rw [List.filter_eq_self]
      exact fun d hd => by simpa [isOutside] using hdefs hfile d hd
    have hr : (refs.filter fun r => r.location.file ≠ file) = refs := by
      rw [List.filter_eq_self]
      exact fun r hr => by simpa using hrefs hfile r hr
    rw [hd, hr, removeFile_of_not_mem hfile]
    exact h

/-- Reading a document replaces what stands in its file. -/
theorem Holds.addDocument {d : Document} (h : Holds ix defs refs)
    (hdefs : d.path ∉ ix.files → ∀ x ∈ defs, x.location.file ≠ d.path)
    (hrefs : d.path ∉ ix.files → ∀ r ∈ refs, r.location.file ≠ d.path) :
    Holds (ix.addDocument d) (defs.filter (isOutside d.path) ++ d.definitions)
      ((refs.filter fun r => r.location.file ≠ d.path) ++ d.references) := by
  have hrest := h.removeFile hdefs hrefs
  have hfiles : Holds { ix.removeFile d.path with files := (ix.removeFile d.path).files ++ [d.path] }
      (defs.filter (isOutside d.path)) (refs.filter fun r => r.location.file ≠ d.path) :=
    ⟨hrest.find, hrest.dups, hrest.refsTo, hrest.defKeys, hrest.refKeys, hrest.refsSome⟩
  exact (hfiles.addDefinitions d.definitions).addReferences d.references

/-- A document that is added again moves behind the others. -/
theorem files_addDocument (ix : SymbolIndex) (d : Document) :
    (ix.addDocument d).files = ix.files.filter (· ≠ d.path) ++ [d.path] := by
  have hdef : ∀ (ds : List Definition) (ix : SymbolIndex),
      (ds.foldl SymbolIndex.addDefinition ix).files = ix.files := by
    intro ds
    induction ds with
    | nil => exact fun _ => rfl
    | cons x ds ih => exact fun ix => by rw [List.foldl_cons, ih, files_addDefinition]
  have href : ∀ (rs : List Reference) (ix : SymbolIndex),
      (rs.foldl SymbolIndex.addReference ix).files = ix.files := by
    intro rs
    induction rs with
    | nil => exact fun _ => rfl
    | cons x rs ih => exact fun ix => by rw [List.foldl_cons, ih]; rfl
  unfold SymbolIndex.addDocument
  rw [href, hdef]
  show (ix.removeFile d.path).files ++ [d.path] = _
  rw [files_removeFile]

end Removing

section Answers

variable {ix ix' : SymbolIndex} {defs : List Definition} {refs : List Reference}

/-- Two indexes of the same contents list the same definitions. -/
theorem Holds.defs_perm (h : Holds ix defs refs) (h' : Holds ix' defs refs) :
    ix.defs.Perm ix'.defs := by
  refine Assoc.perm_of_lookup_eq h.defKeys h'.defKeys fun k => ?_
  exact (h.find k).trans (h'.find k).symm

/-- The table of definitions leads every key that is defined to its first definition. -/
theorem Holds.firstOf_of_mem (h : Holds ix defs refs) {p : SymbolKey × Definition}
    (hp : p ∈ ix.defs) : firstOf defs p.1 = some p.2 := by
  rw [← h.find]
  exact Assoc.lookup_eq_some_of_mem h.defKeys hp

theorem mem_defKeys_iff {k : SymbolKey} : k ∈ ix.defs.map Prod.fst ↔ (ix.find? k).isSome = true := by
  rw [← not_iff_not, ← Assoc.lookup_eq_none_iff_key, Bool.not_eq_true, Option.isSome_eq_false_iff,
    Option.isNone_iff_eq_none]
  rfl

/-- The table of references holds just the keys that have some. -/
theorem Holds.lookup_refs (h : Holds ix defs refs) (k : SymbolKey) :
    ix.refs.lookup k = (some (ix.refsTo k)).filter fun rs => !rs.isEmpty := by
  unfold SymbolIndex.refsTo
  cases hk : ix.refs.lookup k with
  | none => rfl
  | some rs =>
      have hne := h.refsSome _ (Assoc.mem_of_lookup_eq_some hk)
      cases rs with
      | nil => exact absurd rfl hne
      | cons r rs => rfl

/-- Two indexes of the same contents list the same references. -/
theorem Holds.refs_perm (h : Holds ix defs refs) (h' : Holds ix' defs refs) :
    ix.refs.Perm ix'.refs := by
  refine Assoc.perm_of_lookup_eq h.refKeys h'.refKeys fun k => ?_
  rw [h.lookup_refs, h'.lookup_refs, h.refsTo, h'.refsTo]

theorem total_eq_of_perm {ns ns' : List Nat} (h : ns.Perm ns') :
    Numbers.total ns = Numbers.total ns' := by
  induction h with
  | nil => rfl
  | cons n _ ih => rw [Numbers.total, Numbers.total, ih]
  | swap n m ns =>
      simp only [Numbers.total]
      omega
  | trans _ _ ih ih' => rw [ih, ih']

/-- Two indexes of the same contents count the same references. -/
theorem Holds.referenceCount_eq (h : Holds ix defs refs) (h' : Holds ix' defs refs) :
    ix.referenceCount = ix'.referenceCount := by
  unfold referenceCount
  exact total_eq_of_perm ((h.refs_perm h').map _)

/-- The digest depends only on what an index holds. -/
theorem Holds.digest_eq (h : Holds ix defs refs) (h' : Holds ix' defs refs) :
    ix.digest = ix'.digest := by
  have hlines : ix.digestLines = ix'.digestLines := by
    unfold digestLines
    apply Order.sort_eq_of_perm
    rw [h.dups, h'.dups]
    exact (((h.defs_perm h').map _).append ((h.refs_perm h').map _)).append_right _
  unfold digest digestText
  rw [hlines]

end Answers

end SymbolIndex
end InstallerLint
