import InstallerLint.Proofs.Diagnostic.Listing
import InstallerLint.Proofs.Document.Change
import InstallerLint.Proofs.Document.Starts
import InstallerLint.Proofs.Project.CrossFile

/-!
# Questions to a symbol index

An index is read out by scanning its tables, and nothing fixes the order in which the tables are
scanned.  Every answer is nevertheless the same list: it could be read off the documents without an
index (`answers_scan`).

**Tables.**  Two indexes are `Reordered` when their tables hold the same entries in some order.  As
no key occurs twice, they are looked up alike.

**Lists.**  `Lists before items answer` says that `answer` is the one way to list `items` in order.
Definitions of one type differ in their ids.  References differ in their places, because no two
elements of a document start at the same place and no two documents have the same path.
-/

namespace InstallerLint

/-- One list is the only one in order that has some items. -/
structure Lists {α : Type} (before : α → α → Prop) (items answer : List α) : Prop where
  /-- It has these items, each as often. -/
  perm : answer.Perm items
  /-- Each stands before all later ones. -/
  ordered : answer.Pairwise before
  /-- No other list of them is in order. -/
  unique : ∀ l : List α, l.Perm items → (l.Pairwise fun x y => ¬ before y x) → l = answer

/-- Items that differ in their order are listed in one way. -/
theorem Lists.of_apart {α : Type} {before : α → α → Prop} {items answer : List α}
    (hperm : answer.Perm items) (hsorted : answer.Pairwise fun x y => ¬ before y x)
    (hapart : items.Pairwise fun x y => before x y ∨ before y x) : Lists before items answer where
  perm := hperm
  ordered := by
    have hapart' := (hperm.pairwise_iff fun h => Or.symm h).mpr hapart
    exact (hsorted.and hapart').imp fun ⟨hnot, hor⟩ => hor.resolve_right hnot
  unique l hl hlsorted := by
    have : Std.Symm fun x y => before x y ∨ before y x := ⟨fun _ _ h => h.symm⟩
    refine List.Perm.eq_of_pairwise ?_ hlsorted hsorted (hl.trans hperm.symm)
    intro x y hx hy hyx hxy
    by_contra hne
    exact (hapart.forall (hl.subset hx) (hperm.subset hy) hne).elim hxy hyx

/-- One place stands before another: the first of file, line and column that differs decides. -/
def Location.Before (a b : Location) : Prop :=
  a.file < b.file ∨ a.file = b.file ∧ (a.line < b.line ∨ a.line = b.line ∧ a.col < b.col)

namespace Location

/-- One place stands before another, or has the same file, line and column. -/
def AtMost (a b : Location) : Prop :=
  a.file < b.file ∨ a.file = b.file ∧ (a.line < b.line ∨ a.line = b.line ∧ a.col ≤ b.col)

theorem lexLe_iff_atMost (a b : Location) :
    Order.lexLe (a.compareKeys b) = true ↔ a.AtMost b := by
  have hcol : Order.lexLe [compare a.col b.col] = true ↔ a.col ≤ b.col := by
    rw [Diagnostic.lexLe_compare_cons, le_iff_lt_or_eq]
    simp [Order.lexLe]
  rw [compareKeys, Diagnostic.lexLe_compare_cons, Diagnostic.lexLe_compare_cons, hcol, AtMost]

theorem AtMost.trans {a b c : Location} (hab : a.AtMost b) (hbc : b.AtMost c) : a.AtMost c :=
  Diagnostic.keys_trans hab hbc fun h h' => Diagnostic.keys_trans h h' fun h h' => h.trans h'

theorem AtMost.total (a b : Location) : a.AtMost b ∨ b.AtMost a :=
  Diagnostic.keys_total (Diagnostic.keys_total (le_total a.col b.col))

theorem AtMost.not_before {a b : Location} (h : a.AtMost b) : ¬ b.Before a := by
  rintro (hfile | ⟨hfile, hline | ⟨hline, hcol⟩⟩)
  · rcases h with h | ⟨h, -⟩
    · exact lt_asymm h hfile
    · exact hfile.ne h.symm
  · rcases h with h | ⟨-, h | ⟨h, -⟩⟩
    · exact h.ne hfile.symm
    · exact lt_asymm h hline
    · exact hline.ne h.symm
  · rcases h with h | ⟨-, h | ⟨-, h⟩⟩
    · exact h.ne hfile.symm
    · exact h.ne hline.symm
    · exact not_le.mpr hcol h

/-- Two places with different file, line or column stand one before the other. -/
theorem before_or_before {a b : Location}
    (h : ¬ (a.file = b.file ∧ a.line = b.line ∧ a.col = b.col)) : a.Before b ∨ b.Before a := by
  rcases lt_trichotomy a.file b.file with hf | hf | hf
  · exact Or.inl (Or.inl hf)
  · rcases lt_trichotomy a.line b.line with hl | hl | hl
    · exact Or.inl (Or.inr ⟨hf, Or.inl hl⟩)
    · rcases lt_trichotomy a.col b.col with hc | hc | hc
      · exact Or.inl (Or.inr ⟨hf, Or.inr ⟨hl, hc⟩⟩)
      · exact absurd ⟨hf, hl, hc⟩ h
      · exact Or.inr (Or.inr ⟨hf.symm, Or.inr ⟨hl.symm, hc⟩⟩)
    · exact Or.inr (Or.inr ⟨hf.symm, Or.inl hl⟩)
  · exact Or.inr (Or.inl hf)

end Location

namespace Reference

theorem sort_perm (rs : List Reference) : (sort rs).Perm rs := List.mergeSort_perm rs _

theorem pairwise_sort (rs : List Reference) :
    (sort rs).Pairwise fun a b => a.location.AtMost b.location := by
  have hsorted : (sort rs).Pairwise fun a b =>
      Order.lexLe (a.location.compareKeys b.location) = true := by
    refine List.pairwise_mergeSort ?_ ?_ rs
    · intro a b c hab hbc
      rw [Location.lexLe_iff_atMost] at *
      exact hab.trans hbc
    · intro a b
      rw [Bool.or_eq_true, Location.lexLe_iff_atMost, Location.lexLe_iff_atMost]
      exact Location.AtMost.total a.location b.location
  exact hsorted.imp fun h => (Location.lexLe_iff_atMost _ _).mp h

/-- References at different places are listed in one way. -/
theorem lists_sort {rs items : List Reference} (hperm : rs.Perm items)
    (hapart : items.Pairwise fun a b => ¬ (a.location.file = b.location.file ∧
      a.location.line = b.location.line ∧ a.location.col = b.location.col)) :
    Lists (fun a b : Reference => a.location.Before b.location) items (sort rs) :=
  Lists.of_apart ((sort_perm rs).trans hperm)
    ((pairwise_sort rs).imp fun h => h.not_before)
    (hapart.imp fun h => Location.before_or_before h)

end Reference

namespace SymbolIndex

/-- The same index with the entries of its tables in some order. -/
structure Reordered (ix ix' : SymbolIndex) : Prop where
  defs : ix'.defs.Perm ix.defs
  /-- The same lists of references by key. -/
  refs : ix'.refs.Perm ix.refs
  dups : ix'.dups = ix.dups

section Tables

variable {ix ix' : SymbolIndex} {defs : List Definition} {refs : List Reference}

theorem Holds.defKeys_perm (h : Holds ix defs refs) :
    (ix.defs.map Prod.fst).Perm (defs.map (·.key)).dedup := by
  refine (List.perm_ext_iff_of_nodup h.defKeys (List.nodup_dedup _)).mpr fun k => ?_
  rw [mem_defKeys_iff, h.find, ← Option.ne_none_iff_isSome, Ne, firstOf_eq_none_iff, List.mem_dedup,
    List.mem_map]
  simp

/-- The definitions of a type are the first definitions of its keys. -/
theorem Holds.ofType_perm (h : Holds ix defs refs) (kind : String) :
    (ix.ofType kind).Perm
      (((defs.map (·.key)).dedup.filter fun k => k.type = SymbolKind.canonical kind).filterMap
        (firstOf defs)) := by
  have hvalues : (ix.defs.filter fun p => p.1.type = SymbolKind.canonical kind).map Prod.snd =
      ((ix.defs.map Prod.fst).filter fun k => k.type = SymbolKind.canonical kind).filterMap
        (firstOf defs) := by
    rw [List.filter_map, List.filterMap_map, ← List.filterMap_eq_map]
    exact List.filterMap_congr fun p hp => (h.firstOf_of_mem (List.mem_of_mem_filter hp)).symm
  rw [ofType]
  refine (Order.sortBy_perm _ _).trans ?_
  rw [hvalues]
  exact (h.defKeys_perm.filter _).filterMap _

/-- The lists of references hold all references. -/
theorem Holds.flatMap_refs_perm (h : Holds ix defs refs) :
    (ix.refs.flatMap Prod.snd).Perm refs := by
  have hgroups : ix.refs.flatMap Prod.snd =
      (ix.refs.map Prod.fst).flatMap fun k => refs.filter fun r => r.key = k := by
    rw [List.flatMap_map]
    refine List.flatMap_congr fun p hp => ?_
    rw [← h.refsTo, SymbolIndex.refsTo, Assoc.lookup_eq_some_of_mem h.refKeys hp, Option.getD_some]
  rw [hgroups]
  refine (perm_flatMap_filter (fun r : Reference => r.key) _ _ h.refKeys fun r hr => ?_).symm
  by_contra hkey
  have hnone : ix.refsTo r.key = [] := by
    rw [SymbolIndex.refsTo, Assoc.lookup_eq_none_iff_key.mpr hkey, Option.getD_none]
  rw [h.refsTo, List.filter_eq_nil_iff] at hnone
  exact hnone r hr (decide_eq_true rfl)

/-- An index whose tables are in another order stands for the same lists. -/
theorem Reordered.holds (h : Reordered ix ix') (hix : Holds ix defs refs) : Holds ix' defs refs where
  find k := by
    rw [← hix.find]
    exact (Assoc.lookup_eq_of_perm hix.defKeys h.defs.symm k).symm
  dups := by rw [h.dups, hix.dups]
  refsTo k := by
    rw [← hix.refsTo, SymbolIndex.refsTo, SymbolIndex.refsTo,
      Assoc.lookup_eq_of_perm hix.refKeys h.refs.symm k]
  defKeys := (h.defs.map Prod.fst).nodup_iff.mpr hix.defKeys
  refKeys := (h.refs.map Prod.fst).nodup_iff.mpr hix.refKeys
  refsSome p hp := hix.refsSome p (h.refs.subset hp)

end Tables

end SymbolIndex

namespace Project

/-- The reference that an index keeps of an element. -/
def Site.reference (e : Site) : Reference := ⟨e.name, e.kind, e.location⟩

/-- The first definition of a key. -/
def firstDefiner (docs : List Document) (k : SymbolKey) : Option Site :=
  (sites docs).find? fun e => e.isDefinition && e.key = k

/-- The first definition of each key of a type. -/
def firstDefiners (docs : List Document) (kind : String) : List Site :=
  ((definedKeys docs).filter fun k => k.type = SymbolKind.canonical kind).filterMap
    (firstDefiner docs)

/-- The references to a key. -/
def referrers (docs : List Document) (k : SymbolKey) : List Site :=
  (sites docs).filter fun e => e.isReference && e.key = k

section Scan

variable {docs : List Document}

theorem reference?_site (d : Document) (id : Nat) :
    d.reference? id =
      if (⟨d, id⟩ : Site).isReference then some (⟨d, id⟩ : Site).reference else none := by
  cases h : d.reference? id with
  | some x =>
      obtain ⟨hname, hkind, rfl⟩ := Document.reference?_eq_some_iff.mp h
      have : (⟨d, id⟩ : Site).isReference = true := by
        simp [Site.isReference, Site.kind, Site.name, hname, hkind]
      rw [if_pos this]
      rfl
  | none =>
      rw [if_neg]
      intro hsite
      obtain ⟨hkind, hname⟩ := Bool.and_eq_true_iff.mp hsite
      have := Document.reference?_eq_some_iff.mpr ⟨of_decide_eq_true hname, hkind, rfl⟩
      rw [h] at this
      cases this

theorem references_eq (hids : ∀ d ∈ docs, d.ids = List.range d.size) :
    docs.flatMap (·.references) =
      ((sites docs).filter (·.isReference)).map (·.reference) := by
  rw [← filterMap_of_guard (f := fun e : Site => e.doc.reference? e.id)
    (fun e _ => reference?_site e.doc e.id), ← flatMap_ids_eq hids]
  rfl

theorem firstOf_definitions (hids : ∀ d ∈ docs, d.ids = List.range d.size) (k : SymbolKey) :
    SymbolIndex.firstOf (docs.flatMap (·.definitions)) k =
      (firstDefiner docs k).map (·.definition) := by
  rw [SymbolIndex.firstOf, definitions_eq hids, List.find?_map, List.find?_filter, firstDefiner]
  congr 2
  funext e
  rw [Bool.decide_and, Bool.decide_eq_true, Function.comp_apply, Bool.decide_eq_true]
  rfl

theorem filter_references (hids : ∀ d ∈ docs, d.ids = List.range d.size) (k : SymbolKey) :
    (docs.flatMap (·.references)).filter (fun r => r.key = k) =
      (referrers docs k).map (·.reference) := by
  rw [references_eq hids, List.filter_map, List.filter_filter, referrers]
  congr 1
  refine List.filter_congr fun e _ => ?_
  rw [Bool.and_comm]
  rfl

/-- Elements of documents with different paths that start at the same place are the same. -/
theorem site_ext (hparsed : ∀ d ∈ docs, ∃ source path, Document.parse source path = .ok d)
    (hpaths : (docs.map (·.path)).Nodup) {e e' : Site} (he : e ∈ sites docs) (he' : e' ∈ sites docs)
    (hplace : e.location.file = e'.location.file ∧ e.location.line = e'.location.line ∧
      e.location.col = e'.location.col) : e = e' := by
  obtain ⟨d, id⟩ := e
  obtain ⟨d', id'⟩ := e'
  obtain ⟨hd, hid⟩ := mem_sites.mp he
  obtain ⟨hd', hid'⟩ := mem_sites.mp he'
  obtain ⟨hfile, hline, hcol⟩ := hplace
  obtain rfl : d = d' := List.inj_on_of_nodup_map hpaths hd hd' hfile
  obtain ⟨source, path, hparse⟩ := hparsed d hd
  obtain rfl : id = id' :=
    Document.start_injective hparse hid hid' (Int.ofNat.inj hline) (Int.ofNat.inj hcol)
  rfl

theorem nodup_sites (hpaths : (docs.map (·.path)).Nodup) : (sites docs).Nodup := by
  have hdocs := hpaths.of_map
  rw [sites, List.nodup_flatMap]
  refine ⟨fun d _ => List.nodup_range.map fun i j h => (Site.mk.inj h).2, ?_⟩
  refine hdocs.imp fun {d d'} hne => ?_
  intro e he he'
  obtain ⟨i, -, rfl⟩ := List.mem_map.mp he
  obtain ⟨j, -, heq⟩ := List.mem_map.mp he'
  exact hne (Site.mk.inj heq).1.symm

/-- References of elements stand at different places. -/
theorem pairwise_references
    (hparsed : ∀ d ∈ docs, ∃ source path, Document.parse source path = .ok d)
    (hpaths : (docs.map (·.path)).Nodup) (p : Site → Bool) :
    (((sites docs).filter p).map (·.reference)).Pairwise fun a b =>
      ¬ (a.location.file = b.location.file ∧ a.location.line = b.location.line ∧
        a.location.col = b.location.col) := by
  refine List.pairwise_map.mpr (((nodup_sites hpaths).filter p).imp_of_mem ?_)
  intro e e' he he' hne hplace
  exact hne (site_ext hparsed hpaths (List.mem_of_mem_filter he) (List.mem_of_mem_filter he') hplace)

/-- First definitions of different keys of one type have different ids. -/
theorem pairwise_firstDefiners (kind : String) :
    ((firstDefiners docs kind).map (·.definition)).Pairwise fun x y => x.id < y.id ∨ y.id < x.id := by
  have hkey : ∀ {k e}, firstDefiner docs k = some e → e.key = k := by
    intro k e h
    have := List.find?_some h
    simp only [Bool.and_eq_true, decide_eq_true_eq] at this
    exact this.2
  rw [firstDefiners, List.map_filterMap]
  refine List.Pairwise.filterMap _ ?_ (((List.nodup_dedup _).filter _).imp_of_mem fun hk hk' hne =>
    And.intro (of_decide_eq_true (List.mem_filter.mp hk).2)
      (And.intro (of_decide_eq_true (List.mem_filter.mp hk').2) hne))
  rintro k k' ⟨htype, htype', hne⟩ x hx y hy
  obtain ⟨e, he, rfl⟩ := Option.map_eq_some_iff.mp hx
  obtain ⟨e', he', rfl⟩ := Option.map_eq_some_iff.mp hy
  refine lt_or_gt_of_ne fun hid => hne ?_
  rw [← hkey he, ← hkey he']
  rw [← hkey he] at htype
  rw [← hkey he'] at htype'
  exact (SymbolKey.mk.injEq ..).mpr ⟨htype.trans htype'.symm, hid⟩

end Scan

end Project

namespace SymbolIndex

open Project

/-- **Answers are scans.**  Documents with different paths are read into an index, and its tables are
in any order.  A definition is looked up to the first one in the order of the documents; the
definitions of a type are the first of each id, by id; the references to a symbol, and all references,
are the elements that refer to it, or to anything, by place.  Each list is the only one in order. -/
theorem answers_scan {docs : List Document}
    (hparsed : ∀ d ∈ docs, ∃ source path, Document.parse source path = .ok d)
    (hpaths : (docs.map (·.path)).Nodup) {ix : SymbolIndex}
    (hix : Reordered (docs.foldl addDocument {}) ix) :
    (∀ kind id, ix.definition? kind id =
      (firstDefiner docs (.of kind id)).map (·.definition)) ∧
    (∀ kind, Lists (fun x y : Definition => x.id < y.id)
      ((firstDefiners docs kind).map (·.definition)) (ix.ofType kind)) ∧
    (∀ kind id, Lists (fun a b : Reference => a.location.Before b.location)
      ((referrers docs (.of kind id)).map (·.reference)) (ix.findReferences kind id)) ∧
    Lists (fun a b : Reference => a.location.Before b.location)
      (((sites docs).filter (·.isReference)).map (·.reference)) ix.allReferences := by
  have hids : ∀ d ∈ docs, d.ids = List.range d.size := fun d hd => by
    obtain ⟨source, path, hparse⟩ := hparsed d hd
    exact Document.ids_of_parse hparse
  have hholds := hix.holds (holds_documents docs hpaths).1
  refine ⟨fun kind id => ?_, fun kind => ?_, fun kind id => ?_, ?_⟩
  · rw [definition?, hholds.find, firstOf_definitions hids]
  · have hperm := hholds.ofType_perm kind
    have hkeys : ((docs.flatMap (·.definitions)).map (·.key)).dedup = definedKeys docs := by
      rw [definitions_eq hids, List.map_map]
      rfl
    rw [hkeys, List.filterMap_congr fun k _ => firstOf_definitions hids k,
      ← List.map_filterMap] at hperm
    refine Lists.of_apart hperm ?_ (pairwise_firstDefiners kind)
    exact (Order.pairwise_sortBy Definition.id _).imp fun h => not_lt.mpr (of_decide_eq_true h)
  · refine Reference.lists_sort (List.Perm.of_eq ?_) (pairwise_references hparsed hpaths _)
    rw [hholds.refsTo, filter_references hids]
  · refine Reference.lists_sort ?_ (pairwise_references hparsed hpaths _)
    rw [← references_eq hids]
    exact hholds.flatMap_refs_perm

/-- A file with one reference. -/
def lone : String := Markup.element "ComponentRef" [⟨"Id", "X"⟩]

/-- Two files that were read in the other order; the tables stand upside down. -/
theorem answers_scan_upsideDown :
    ∃ b a ix, Document.parse (Bytes.ofString lone) "b.wxs" = .ok b ∧
      Document.parse (Bytes.ofString lone) "a.wxs" = .ok a ∧
      Reordered ([b, a].foldl addDocument {}) ix ∧
      ix.definition? "Component" "X" =
        (firstDefiner [b, a] (.of "Component" "X")).map (·.definition) ∧
      Lists (fun x y : Reference => x.location.Before y.location)
        (((sites [b, a]).filter (·.isReference)).map (·.reference)) ix.allReferences := by
  have hparse : ∀ path, Document.parse (Bytes.ofString lone) path = .ok _ :=
    Document.parse_lone (Xml.isPlainName_of_letters rfl (by decide))
      (List.all_eq_true.mp (by decide))
  obtain ⟨b, hb⟩ : ∃ d, Document.parse (Bytes.ofString lone) "b.wxs" = .ok d := ⟨_, hparse _⟩
  obtain ⟨a, ha⟩ : ∃ d, Document.parse (Bytes.ofString lone) "a.wxs" = .ok d := ⟨_, hparse _⟩
  set base := [b, a].foldl addDocument {} with hbase
  have hreordered : Reordered base { base with defs := base.defs.reverse, refs := base.refs.reverse } :=
    ⟨List.reverse_perm _, List.reverse_perm _, rfl⟩
  have hpaths : ([b, a].map (·.path)).Nodup := by
    simp [Document.path_of_parse hb, Document.path_of_parse ha]
  obtain ⟨hdefinition, -, -, hreferences⟩ :=
    answers_scan (by simpa using ⟨⟨_, _, hb⟩, ⟨_, _, ha⟩⟩) hpaths hreordered
  exact ⟨b, a, _, hb, ha, hreordered, hdefinition "Component" "X", hreferences⟩

end SymbolIndex
end InstallerLint
