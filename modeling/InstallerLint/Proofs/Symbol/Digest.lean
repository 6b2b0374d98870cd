import InstallerLint.Proofs.Document.Around
import InstallerLint.Proofs.Document.Change
import InstallerLint.Proofs.Symbol.Documents
import InstallerLint.Proofs.Text.Fields

/-!
# What a digest of symbols tells apart

The text that a digest covers has one record for each key that is defined, one for each key that is
referred to, with the number of references, and one for each duplicate.  Two indexes have the same
text exactly when they agree in all of this (`digestText_eq_iff_sameTables`).

**Reading the text back.**  The records are lines whose fields have no zero character.  Markup holds
none, so no attribute value does; the names of files must not have one.  Line feeds may stand in
both.

**Order.**  The lines are sorted, so the text shows which records there are and how often.
-/

namespace InstallerLint

namespace Location

/-- File, line and column. -/
def place (l : Location) : String × Int × Int := (l.file, l.line, l.col)

/-- How a place is written. -/
def placeText (p : String × Int × Int) : List Char :=
  p.1.toList ++ ':' :: ((toString p.2.1).toList ++ ':' :: (toString p.2.2).toList)

theorem toList_text (l : Location) : l.text.toList = placeText l.place := by
  simp [text, String.toList_append, placeText, place]

/-- The last two colons stand before the line and the column, whatever the name of the file is. -/
theorem placeText_injective : Function.Injective placeText := by
  rintro ⟨file, line, col⟩ ⟨file', line', col'⟩ h
  have hcolon : ∀ n : Int, ':' ∉ (toString n).toList.reverse := fun n hmem =>
    Fields.notMem_toString (by decide) (by decide) n (List.mem_reverse.mp hmem)
  rw [← List.reverse_inj] at h
  simp only [placeText, List.reverse_append, List.reverse_cons, List.append_assoc,
    List.cons_append, List.nil_append] at h
  rw [Fields.append_cons_inj (hcolon _) (hcolon _), Fields.append_cons_inj (hcolon _) (hcolon _)] at h
  simp only [List.reverse_inj, String.toList_inj] at h
  obtain ⟨hcol, hline, rfl⟩ := h
  rw [Fields.toString_injective hcol, Fields.toString_injective hline]

end Location

/-- A duplicate by its id and the places of both definitions. -/
def Duplicate.places (dup : Duplicate) : String × (String × Int × Int) × (String × Int × Int) :=
  (dup.second.id, dup.first.location.place, dup.second.location.place)

namespace SymbolIndex

open Fields

/-- What stands between the words of a record. -/
def separator : Char := Char.ofNat 0

/-- The fields of a record by its letter. -/
def fieldCount : Char → Nat
  | 'd' => 2
  | 'r' => 3
  | 'u' => 3
  | _ => 0

/-- The record of a key that is defined. -/
def definedLine (k : SymbolKey) : Line := ⟨'d', [k.type.toList, k.id.toList]⟩

/-- The record of a key and its number of references. -/
def referredLine (p : SymbolKey × Nat) : Line :=
  ⟨'r', [p.1.type.toList, p.1.id.toList, (toString p.2).toList]⟩

/-- The record of a duplicate at these places. -/
def duplicateLine (p : String × (String × Int × Int) × (String × Int × Int)) : Line :=
  ⟨'u', [p.1.toList, Location.placeText p.2.1, Location.placeText p.2.2]⟩

/-- The keys that are referred to, with the numbers of references. -/
def counts (ix : SymbolIndex) : List (SymbolKey × Nat) := ix.refs.map fun p => (p.1, p.2.length)

/-- The records of an index as they come. -/
def entries (ix : SymbolIndex) : List Line :=
  (ix.defs.map Prod.fst).map definedLine ++ (ix.counts.map referredLine ++
    (ix.dups.map Duplicate.places).map duplicateLine)

section Text

theorem toList_record (tag : Char) (words : List String) :
    (record (String.singleton tag :: words)).toList =
      (⟨tag, words.map String.toList⟩ : Line).text separator := by
  have hjoin : ∀ (w : List Char) (ws : List (List Char)),
      [separator].intercalate (w :: ws) = w ++ ws.flatMap (separator :: ·) := by
    intro w ws
    induction ws generalizing w with
    | nil => simp
    | cons v ws ih => rw [List.intercalate_cons_cons, ih]; simp
  rw [record, String.toList_intercalate, String.toList_ofList, List.map_cons, ← separator, hjoin]
  simp [Line.text]

/-- The lines of a digest are the texts of its entries, sorted. -/
theorem digestLines_eq (ix : SymbolIndex) :
    ix.digestLines = Order.sort (ix.entries.map fun l => String.ofList (l.text separator)) := by
  have hrecord : ∀ (tag : Char) (words : List String), record (String.singleton tag :: words) =
      String.ofList ((⟨tag, words.map String.toList⟩ : Line).text separator) := fun tag words => by
    rw [← toList_record, String.ofList_toList]
  rw [digestLines, entries, List.map_append, List.map_append, List.map_map, List.map_map, counts,
    List.map_map, List.map_map, List.map_map, List.map_map, List.append_assoc]
  congr 2
  · exact List.map_congr_left fun p _ => hrecord 'd' [p.1.type, p.1.id]
  · congr 1
    · exact List.map_congr_left fun p _ => hrecord 'r' [p.1.type, p.1.id, toString p.2.length]
    · refine List.map_congr_left fun dup _ => (hrecord 'u' [dup.second.id, dup.first.location.text,
        dup.second.location.text]).trans ?_
      simp [duplicateLine, Duplicate.places, Location.toList_text]

/-- The records in the order of the text. -/
theorem exists_digestText_eq (ix : SymbolIndex) :
    ∃ ls : List Line, ls.Perm ix.entries ∧
      ix.digestText.toList = ['\n'].intercalate (ls.map (Line.text separator)) := by
  have hperm := Order.sort_perm (ix.entries.map fun l => String.ofList (l.text separator))
  rw [← digestLines_eq, ← congrFun (congrFun (List.eq_map_comp_perm _) _) _] at hperm
  obtain ⟨ls, hls, hentries⟩ := hperm
  refine ⟨ls, hentries, ?_⟩
  rw [digestText, String.toList_intercalate, hls, List.map_map]
  simp [Function.comp_def]

/-- Indexes whose records are framed have one text exactly when they have the same records. -/
theorem digestText_eq_iff_entries {ix ix' : SymbolIndex}
    (h : ∀ l ∈ ix.entries, l.IsFramed separator fieldCount)
    (h' : ∀ l ∈ ix'.entries, l.IsFramed separator fieldCount) :
    ix.digestText = ix'.digestText ↔ ix.entries.Perm ix'.entries := by
  constructor
  · intro htext
    obtain ⟨ls, hperm, hls⟩ := exists_digestText_eq ix
    obtain ⟨ls', hperm', hls'⟩ := exists_digestText_eq ix'
    rw [htext, hls'] at hls
    obtain rfl := joined_injective (by decide) (fun l hl => h' l (hperm'.subset hl))
      (fun l hl => h l (hperm.subset hl)) hls
    exact hperm.symm.trans hperm'
  · intro hperm
    rw [digestText, digestText, digestLines_eq, digestLines_eq,
      Order.sort_eq_of_perm (hperm.map _)]

end Text

section Records

variable {ix ix' : SymbolIndex}

/-- A defined symbol is known by its line. -/
theorem definedLine_injective : Function.Injective definedLine := by
  rintro ⟨type, id⟩ ⟨type', id'⟩ h
  simpa [definedLine, String.toList_inj] using h

/-- A count of references is known by its line. -/
theorem referredLine_injective : Function.Injective referredLine := by
  rintro ⟨⟨type, id⟩, n⟩ ⟨⟨type', id'⟩, n'⟩ h
  simp only [referredLine, Line.mk.injEq, List.cons.injEq, String.toList_inj, true_and,
    and_true] at h
  obtain ⟨rfl, rfl, hn⟩ := h
  rw [Int.ofNat.inj (toString_injective (n := n) (m := n') hn)]

/-- The places of a duplicate are known by their line. -/
theorem duplicateLine_injective : Function.Injective duplicateLine := by
  rintro ⟨id, first, second⟩ ⟨id', first', second'⟩ h
  simp only [duplicateLine, Line.mk.injEq, List.cons.injEq, String.toList_inj, true_and, and_true,
    Location.placeText_injective.eq_iff] at h
  rw [h.1, h.2.1, h.2.2]

theorem filter_tag {α : Type} {f : α → Line} {c : Char} (hf : ∀ x, (f x).tag = c) (c' : Char)
    (l : List α) : (l.map f).filter (·.tag = c') = if c = c' then l.map f else [] := by
  split_ifs with hc
  · refine List.filter_eq_self.mpr fun y hy => ?_
    obtain ⟨x, -, rfl⟩ := List.mem_map.mp hy
    simp [hf, hc]
  · refine List.filter_eq_nil_iff.mpr fun y hy => ?_
    obtain ⟨x, -, rfl⟩ := List.mem_map.mp hy
    simp [hf, hc]

theorem filter_entries (ix : SymbolIndex) (c : Char) :
    ix.entries.filter (·.tag = c) =
      (if 'd' = c then (ix.defs.map Prod.fst).map definedLine else []) ++
        ((if 'r' = c then ix.counts.map referredLine else []) ++
          (if 'u' = c then (ix.dups.map Duplicate.places).map duplicateLine else [])) := by
  rw [entries, List.filter_append, List.filter_append, filter_tag (c := 'd') (fun _ => rfl),
    filter_tag (c := 'r') (fun _ => rfl), filter_tag (c := 'u') (fun _ => rfl)]

/-- Records fall apart by their letters. -/
theorem entries_perm_iff :
    ix.entries.Perm ix'.entries ↔
      (ix.defs.map Prod.fst).Perm (ix'.defs.map Prod.fst) ∧ ix.counts.Perm ix'.counts ∧
        (ix.dups.map Duplicate.places).Perm (ix'.dups.map Duplicate.places) := by
  rw [← List.map_perm_map_iff definedLine_injective, ← List.map_perm_map_iff referredLine_injective,
    ← List.map_perm_map_iff duplicateLine_injective]
  constructor
  · intro h
    have hletter := fun c : Char => h.filter (·.tag = c)
    simp only [filter_entries] at hletter
    exact ⟨by simpa using hletter 'd', by simpa using hletter 'r', by simpa using hletter 'u'⟩
  · rintro ⟨hdefs, hrefs, hdups⟩
    exact hdefs.append (hrefs.append hdups)

end Records

section Tables

variable {ix ix' : SymbolIndex} {defs defs' : List Definition} {refs refs' : List Reference}

/-- Two indexes list the same keys when they define the same. -/
theorem Holds.defKeys_perm_iff (h : Holds ix defs refs) (h' : Holds ix' defs' refs') :
    (ix.defs.map Prod.fst).Perm (ix'.defs.map Prod.fst) ↔
      ∀ k, (ix.find? k).isSome = (ix'.find? k).isSome := by
  rw [List.perm_ext_iff_of_nodup h.defKeys h'.defKeys]
  refine forall_congr' fun k => ?_
  rw [mem_defKeys_iff, mem_defKeys_iff]
  exact Bool.eq_iff_iff.symm

theorem Holds.lookup_counts (h : Holds ix defs refs) (k : SymbolKey) :
    ix.counts.lookup k = (some (ix.refsTo k).length).filter (0 < ·) := by
  rw [counts, Assoc.lookup_map_snd, h.lookup_refs]
  cases ix.refsTo k <;> rfl

theorem Holds.nodup_counts (h : Holds ix defs refs) : (ix.counts.map Prod.fst).Nodup := by
  rw [counts, List.map_map]
  exact h.refKeys

/-- Two indexes list the same counts when they count alike. -/
theorem Holds.counts_perm_iff (h : Holds ix defs refs) (h' : Holds ix' defs' refs') :
    ix.counts.Perm ix'.counts ↔ ∀ k, (ix.refsTo k).length = (ix'.refsTo k).length := by
  constructor
  · intro hperm k
    have hlook := Assoc.lookup_eq_of_perm h.nodup_counts hperm k
    rw [h.lookup_counts, h'.lookup_counts, Option.filter_some, Option.filter_some] at hlook
    split_ifs at hlook with hpos hpos' hpos' <;> simp_all
  · intro hlength
    refine Assoc.perm_of_lookup_eq h.nodup_counts h'.nodup_counts fun k => ?_
    rw [h.lookup_counts, h'.lookup_counts, hlength]

end Tables

section Clear

/-- A word without the separator. -/
def Clear (s : String) : Prop := separator ∉ s.toList

/-- A definition whose words are clear. -/
structure ClearDefinition (x : Definition) : Prop where
  type : Clear x.key.type
  id : Clear x.id
  file : Clear x.location.file

/-- A reference whose words are clear. -/
structure ClearReference (r : Reference) : Prop where
  type : Clear r.key.type
  id : Clear r.id

variable {ix : SymbolIndex} {defs : List Definition} {refs : List Reference}

theorem clear_toString (n : Int) : Clear (toString n) :=
  notMem_toString (by decide) (by decide) n

/-- A place has no separator unless its path does. -/
theorem not_mem_placeText {l : Location} (h : Clear l.file) :
    separator ∉ Location.placeText l.place := by
  simp only [Location.placeText, List.mem_append, List.mem_cons, not_or]
  exact ⟨h, by decide, clear_toString _, by decide, clear_toString _⟩

theorem isFramed_definedLine {k : SymbolKey} (htype : Clear k.type) (hid : Clear k.id) :
    (definedLine k).IsFramed separator fieldCount where
  tag := (by decide : 'd' ≠ separator)
  length := rfl
  pos := (by decide : 0 < fieldCount 'd')
  fields := by simpa [definedLine] using ⟨htype, hid⟩

theorem isFramed_referredLine {p : SymbolKey × Nat} (htype : Clear p.1.type) (hid : Clear p.1.id) :
    (referredLine p).IsFramed separator fieldCount where
  tag := (by decide : 'r' ≠ separator)
  length := rfl
  pos := (by decide : 0 < fieldCount 'r')
  fields := by
    have hnumber : separator ∉ (toString p.2).toList := clear_toString p.2
    simpa only [referredLine, List.forall_mem_cons, List.not_mem_nil, false_implies, implies_true,
      and_true] using ⟨htype, hid, hnumber⟩

theorem isFramed_duplicateLine {dup : Duplicate} (hid : Clear dup.second.id)
    (hfirst : Clear dup.first.location.file) (hsecond : Clear dup.second.location.file) :
    (duplicateLine dup.places).IsFramed separator fieldCount where
  tag := (by decide : 'u' ≠ separator)
  length := rfl
  pos := (by decide : 0 < fieldCount 'u')
  fields := by
    simpa [duplicateLine, Duplicate.places] using
      ⟨hid, not_mem_placeText hfirst, not_mem_placeText hsecond⟩

/-- An index of clear symbols has records that are found again. -/
theorem Holds.isFramed_entries (h : Holds ix defs refs) (hdefs : ∀ x ∈ defs, ClearDefinition x)
    (hrefs : ∀ r ∈ refs, ClearReference r) {l : Line} (hl : l ∈ ix.entries) :
    l.IsFramed separator fieldCount := by
  rcases List.mem_append.mp hl with hl | hl
  · obtain ⟨k, hk, rfl⟩ := List.mem_map.mp hl
    obtain ⟨⟨k, x⟩, hp, rfl⟩ := List.mem_map.mp hk
    have hfirst := h.firstOf_of_mem hp
    have hx := hdefs x (List.mem_of_find?_eq_some hfirst)
    obtain rfl : x.key = k := by simpa using List.find?_some hfirst
    exact isFramed_definedLine hx.type hx.id
  · rcases List.mem_append.mp hl with hl | hl
    · obtain ⟨q, hq, rfl⟩ := List.mem_map.mp hl
      obtain ⟨⟨k, rs⟩, hp, rfl⟩ := List.mem_map.mp hq
      obtain ⟨r, hr⟩ := List.exists_mem_of_ne_nil rs (h.refsSome _ hp)
      have hrefsTo := h.refsTo k
      rw [SymbolIndex.refsTo, Assoc.lookup_eq_some_of_mem h.refKeys hp, Option.getD_some] at hrefsTo
      rw [hrefsTo, List.mem_filter, decide_eq_true_eq] at hr
      obtain ⟨hr, rfl⟩ := hr
      exact isFramed_referredLine (hrefs r hr).type (hrefs r hr).id
    · obtain ⟨q, hq, rfl⟩ := List.mem_map.mp hl
      obtain ⟨dup, hdup, rfl⟩ := List.mem_map.mp hq
      rw [h.dups] at hdup
      have hsecond := hdefs _ (mem_of_mem_laterAfter hdup)
      have hfirst := hdefs _ (first_mem_of_mem_laterAfter hdup)
      exact isFramed_duplicateLine hsecond.id hfirst.file hsecond.file

/-- An index whose symbols are clear. -/
def IsClear (ix : SymbolIndex) : Prop :=
  ∃ defs refs, Holds ix defs refs ∧ (∀ x ∈ defs, ClearDefinition x) ∧ ∀ r ∈ refs, ClearReference r

/-- Two indexes say the same about keys and duplicates. -/
structure SameTables (ix ix' : SymbolIndex) : Prop where
  defined : ∀ k, (ix.find? k).isSome = (ix'.find? k).isSome
  /-- They have equally many references to each key. -/
  referred : ∀ k, (ix.refsTo k).length = (ix'.refsTo k).length
  /-- They have the same duplicates, each as often. -/
  duplicates : (ix.dups.map Duplicate.places).Perm (ix'.dups.map Duplicate.places)

/-- Without separators in the names, equal digests mean equal tables. -/
theorem IsClear.same_text_iff {ix ix' : SymbolIndex} (h : ix.IsClear) (h' : ix'.IsClear) :
    ix.digestText = ix'.digestText ↔ SameTables ix ix' := by
  obtain ⟨defs, refs, hholds, hdefs, hrefs⟩ := h
  obtain ⟨defs', refs', hholds', hdefs', hrefs'⟩ := h'
  rw [digestText_eq_iff_entries (fun l hl => hholds.isFramed_entries hdefs hrefs hl)
    (fun l hl => hholds'.isFramed_entries hdefs' hrefs' hl), entries_perm_iff,
    hholds.defKeys_perm_iff hholds', hholds.counts_perm_iff hholds']
  exact ⟨fun ⟨hd, hr, hu⟩ => ⟨hd, hr, hu⟩, fun ⟨hd, hr, hu⟩ => ⟨hd, hr, hu⟩⟩

end Clear

section Documents

variable {d : Document} {docs docs' : List Document}

theorem clear_canonical {kind : String}
    (h : kind ∈ SymbolKind.definitions ++ SymbolKind.references) :
    Clear (SymbolKind.canonical kind) := by
  have hall : ∀ kind ∈ SymbolKind.definitions ++ SymbolKind.references,
      separator ∉ (SymbolKind.canonical kind).toList := by decide
  exact hall kind h

/-- No attribute of a parsed document holds a separator. -/
theorem clear_attr {source : Bytes} {path : String} (h : Document.parse source path = .ok d)
    (i : Nat) (name : String) : Clear (d.attr i name) := fun hmem =>
  absurd (Document.isAllowed_of_mem_attr h hmem) (by decide)

/-- The symbols of a document whose path is clear. -/
theorem clear_symbols {source : Bytes} {path : String} (h : Document.parse source path = .ok d)
    (hpath : Clear d.path) :
    (∀ x ∈ d.definitions, ClearDefinition x) ∧ ∀ r ∈ d.references, ClearReference r := by
  constructor
  · intro x hx
    obtain ⟨i, -, hi⟩ := List.mem_filterMap.mp hx
    obtain ⟨-, hkind, rfl⟩ := Document.definition?_eq_some_iff.mp hi
    have hmem : d.kind i ∈ SymbolKind.definitions := by simpa [SymbolKind.isDefinition] using hkind
    exact ⟨clear_canonical (List.mem_append_left _ hmem), clear_attr h i "Id", hpath⟩
  · intro r hr
    obtain ⟨i, -, hi⟩ := List.mem_filterMap.mp hr
    obtain ⟨-, hkind, rfl⟩ := Document.reference?_eq_some_iff.mp hi
    have hmem : d.kind i ∈ SymbolKind.references := by simpa [SymbolKind.isReference] using hkind
    exact ⟨clear_canonical (List.mem_append_right _ hmem), clear_attr h i "Id"⟩

/-- Reading documents, of which some may have the same path, gives a clear index.  The files that it
knows are those of its symbols, so that a document takes the place of the one with its path. -/
theorem exists_holds_documents
    (hparsed : ∀ d ∈ docs, ∃ source path, Document.parse source path = .ok d)
    (hpaths : ∀ d ∈ docs, Clear d.path) :
    ∃ defs refs, Holds (docs.foldl addDocument {}) defs refs ∧
      (∀ x ∈ defs, ClearDefinition x ∧ x.location.file ∈ (docs.foldl addDocument {}).files) ∧
      ∀ r ∈ refs, ClearReference r ∧ r.location.file ∈ (docs.foldl addDocument {}).files := by
  induction docs using List.reverseRecOn with
  | nil => exact ⟨[], [], holds_empty, by simp, by simp⟩
  | append_singleton docs d ih =>
      rw [List.forall_mem_append, List.forall_mem_singleton] at hparsed hpaths
      obtain ⟨defs, refs, hholds, hdefs, hrefs⟩ := ih hparsed.1 hpaths.1
      obtain ⟨source, path, hparse⟩ := hparsed.2
      obtain ⟨hdefinitions, hreferences⟩ := clear_symbols hparse hpaths.2
      set ix := docs.foldl addDocument {}
      have hadd := hholds.addDocument (d := d) (fun hnot x hx he => hnot (he ▸ (hdefs x hx).2))
        (fun hnot r hr he => hnot (he ▸ (hrefs r hr).2))
      rw [List.foldl_append, List.foldl_cons, List.foldl_nil]
      refine ⟨_, _, hadd, ?_, ?_⟩
      · intro x hx
        rw [files_addDocument, List.mem_append, List.mem_singleton]
        rcases List.mem_append.mp hx with hx | hx
        · obtain ⟨hx, hout⟩ := List.mem_filter.mp hx
          exact ⟨(hdefs x hx).1, Or.inl (List.mem_filter.mpr ⟨(hdefs x hx).2, hout⟩)⟩
        · exact ⟨hdefinitions x hx, Or.inr (Document.file_of_mem_definitions hx)⟩
      · intro r hr
        rw [files_addDocument, List.mem_append, List.mem_singleton]
        rcases List.mem_append.mp hr with hr | hr
        · obtain ⟨hr, hout⟩ := List.mem_filter.mp hr
          exact ⟨(hrefs r hr).1, Or.inl (List.mem_filter.mpr ⟨(hrefs r hr).2, hout⟩)⟩
        · exact ⟨hreferences r hr, Or.inr (Document.file_of_mem_references hr)⟩

/-- Standard directories are clear. -/
theorem IsClear.foldl_standard {ids : List String} (hids : ∀ id ∈ ids, Clear id) :
    ∀ {ix : SymbolIndex}, ix.IsClear → (ids.foldl addStandardDirectory ix).IsClear := by
  induction ids with
  | nil => exact fun h => h
  | cons id ids ih =>
      intro ix h
      rw [List.forall_mem_cons] at hids
      refine ih hids.2 ?_
      unfold addStandardDirectory
      split_ifs
      · exact h
      · obtain ⟨defs, refs, hholds, hdefs, hrefs⟩ := h
        refine ⟨_, refs, hholds.addDefinition _, ?_, hrefs⟩
        rw [List.forall_mem_append, List.forall_mem_singleton]
        refine ⟨hdefs, ⟨?_, hids.1, (by decide : separator ∉ Definition.builtinFile.toList)⟩⟩
        exact (by decide : separator ∉ (SymbolKind.canonical "StandardDirectory").toList)

/-- The index of documents with clear paths is clear. -/
theorem isClear_indexOf (hparsed : ∀ d ∈ docs, ∃ source path, Document.parse source path = .ok d)
    (hpaths : ∀ d ∈ docs, Clear d.path) : (Project.indexOf docs).IsClear := by
  obtain ⟨defs, refs, hholds, hdefs, hrefs⟩ := exists_holds_documents hparsed hpaths
  have hids : ∀ id ∈ SymbolKind.standardDirectories, separator ∉ id.toList := by decide
  rw [Project.indexOf, addStandardDirectories_eq]
  exact IsClear.foldl_standard hids
    ⟨defs, refs, hholds, fun x hx => (hdefs x hx).1, fun r hr => (hrefs r hr).1⟩

/-- **Digests separate symbol tables.**  Documents, whose paths have no zero character, are read into
two indexes, and the standard directories are added.  The digests cover one text exactly when the
indexes define the same keys, have equally many references to each key, and have the same
duplicates. -/
theorem digestText_eq_iff_sameTables
    (hparsed : ∀ d ∈ docs ++ docs', ∃ source path, Document.parse source path = .ok d)
    (hpaths : ∀ d ∈ docs ++ docs', Char.ofNat 0 ∉ d.path.toList) :
    (Project.indexOf docs).digestText = (Project.indexOf docs').digestText ↔
      SameTables (Project.indexOf docs) (Project.indexOf docs') := by
  rw [List.forall_mem_append] at hparsed hpaths
  have hclear := isClear_indexOf hparsed.1 hpaths.1
  have hclear' := isClear_indexOf hparsed.2 hpaths.2
  exact hclear.same_text_iff hclear'

/-- A document whose path ends like a record of a duplicate, with a reference to an id that ends like
the front of one. -/
def disguised : Document := .lone "ComponentRef" "X\nr" "a.wxs:1:1\nu"

/-- The digest tells such a document from none: only one of the tables has a reference. -/
theorem digestText_eq_iff_sameTables_disguised :
    (∃ source path, Document.parse source path = .ok disguised) ∧
      Char.ofNat 0 ∉ disguised.path.toList ∧
      ((Project.indexOf [disguised]).refsTo (.of "Component" "X\nr")).length = 1 ∧
      (Project.indexOf [disguised]).digestText ≠ (Project.indexOf []).digestText := by
  have hparse : ∃ source path, Document.parse source path = .ok disguised :=
    ⟨_, _, Document.parse_lone (Xml.isPlainName_of_letters rfl (by decide))
      (List.all_eq_true.mp (by decide)) _⟩
  have hpath : Char.ofNat 0 ∉ disguised.path.toList := by
    rw [show disguised.path = "a.wxs:1:1\nu" from rfl]
    decide
  obtain ⟨hone, hnone⟩ : ((Project.indexOf [disguised]).refsTo (.of "Component" "X\nr")).length = 1 ∧
      ((Project.indexOf []).refsTo (.of "Component" "X\nr")).length = 0 := by
    decide +kernel
  refine ⟨hparse, hpath, hone, fun heq => ?_⟩
  have hsame := (digestText_eq_iff_sameTables (by simpa using hparse) (by simpa using hpath)).mp heq
  have hreferred := hsame.referred (.of "Component" "X\nr")
  rw [hone, hnone] at hreferred
  cases hreferred

end Documents

end SymbolIndex
end InstallerLint
