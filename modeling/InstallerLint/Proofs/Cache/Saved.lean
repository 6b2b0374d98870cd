import InstallerLint.Cache.Basic
import InstallerLint.Proofs.Assoc
import InstallerLint.Proofs.Diagnostic.Encodable
import InstallerLint.Proofs.Order

/-!
# What a cache writes is read back

A stored result is read as it was written (`eq_of_readBlob`), and so are the entries of a written
index (`find?_of_parse_render`).  An index whose numbers have 64 bits can always be read
(`parse_render`).

**Paths once.**  An index that is read has every path once, whatever its file holds, and the
operations on an index keep it so.
-/

namespace InstallerLint

open Json

namespace CacheEntry

/-- The fields of the saved form. -/
def slots (e : CacheEntry) : List (String × Option Json) := [
  ("content_hash", some (.str e.contentHash)), ("analyzed_at", some (.int e.analyzedAt)),
  ("tool_version", some (.str e.toolVersion)), ("result_file", some (.str e.resultFile)),
  ("context", optional e.context)]

theorem toJson_eq (e : CacheEntry) : e.toJson = .obj (filled e.slots) := by
  rw [toJson, optStr_eq, slots, filled_cons, filled_cons, filled_cons, filled_cons, filled_cons]
  simp [filled]

theorem apart_slots (e : CacheEntry) : (e.slots.map Prod.fst).Pairwise Apart := by
  show ["content_hash", "analyzed_at", "tool_version", "result_file", "context"].Pairwise Apart
  exact apart_of_nodup (by decide)

theorem exact_toJson (e : CacheEntry) : Exact e.toJson := by
  rw [toJson_eq]
  refine exact_filled fun s hs v hv => ?_
  simp only [slots, List.mem_cons, List.not_mem_nil, or_false] at hs
  rcases hs with rfl | rfl | rfl | rfl | rfl
  · cases hv
    trivial
  · cases hv
    exact ⟨e.analyzedAt, rfl⟩
  · cases hv
    trivial
  · cases hv
    trivial
  · exact exact_of_optional hv

/-- An entry is the only one its object is read as. -/
theorem eq_of_ofJson_toJson {e e' : CacheEntry} (h : ofJson e.toJson = some e') : e' = e := by
  have hap := e.apart_slots
  rw [toJson_eq, ofJson, guard_record rfl] at h
  simp only [textField_filled hap "content_hash" (s := e.contentHash) (by simp [slots]),
    textField_filled hap "tool_version" (s := e.toolVersion) (by simp [slots]),
    textField_filled hap "result_file" (s := e.resultFile) (by simp [slots]),
    textField_filled_optional hap "context" (s := e.context) (by simp [slots]),
    Option.bind_eq_bind, Option.bind_eq_some_iff, Option.pure_def, Option.some.injEq] at h
  obtain ⟨_, rfl, time, htime, _, rfl, _, rfl, _, rfl, rfl⟩ := h
  rw [eq_of_intField_filled hap (n := e.analyzedAt) (by simp [slots]) htime]

/-- An entry whose time fits is read back from its object. -/
theorem ofJson_toJson {e : CacheEntry} (h : Json.Fits e.analyzedAt) : ofJson e.toJson = some e := by
  have hap := e.apart_slots
  rw [toJson_eq, ofJson, guard_record rfl]
  simp only [textField_filled hap "content_hash" (s := e.contentHash) (by simp [slots]),
    intField_filled hap "analyzed_at" (n := e.analyzedAt) (by simp [slots]) h,
    textField_filled hap "tool_version" (s := e.toolVersion) (by simp [slots]),
    textField_filled hap "result_file" (s := e.resultFile) (by simp [slots]),
    textField_filled_optional hap "context" (s := e.context) (by simp [slots])]
  rfl

/-- The time of an entry that was read fits. -/
theorem fits_of_ofJson {j : Json} {e : CacheEntry} (h : ofJson j = some e) :
    Json.Fits e.analyzedAt := by
  unfold ofJson at h
  replace h := (of_guard_bind h).2
  simp only [Option.bind_eq_bind, Option.bind_eq_some_iff, Option.pure_def, Option.some.injEq] at h
  obtain ⟨_, -, time, htime, _, -, _, -, _, -, rfl⟩ := h
  exact fits_of_intField htime

end CacheEntry

namespace CacheIndex

/-- Every path has one entry. -/
def Distinct (ix : CacheIndex) : Prop := (ix.entries.map Prod.fst).Nodup

section Distinct

variable {ix : CacheIndex}

theorem distinct_fresh (now : Int) : (fresh now).Distinct := List.nodup_nil

theorem Distinct.filter (h : ix.Distinct) (p : String × CacheEntry → Bool) :
    Distinct { ix with entries := ix.entries.filter p } :=
  h.sublist (List.filter_sublist.map _)

theorem Distinct.erase (h : ix.Distinct) (path : String) : (ix.erase path).Distinct := h.filter _

/-- Storing an entry lists no path twice. -/
theorem Distinct.insert (h : ix.Distinct) (path : String) (e : CacheEntry) :
    (ix.insert path e).Distinct := by
  refine List.nodup_cons.mpr ⟨fun hmem => ?_, h.erase path⟩
  obtain ⟨x, hx, hpath⟩ := List.mem_map.mp hmem
  have hne := (List.mem_filter.mp hx).2
  simp [hpath] at hne

theorem find?_insert_self (ix : CacheIndex) (path : String) (e : CacheEntry) :
    (ix.insert path e).find? path = some e := by
  rw [find?, CacheIndex.insert, List.lookup_cons_self]

theorem find?_erase_self (ix : CacheIndex) (path : String) : (ix.erase path).find? path = none := by
  rw [find?, Assoc.lookup_eq_none_iff_key]
  intro hmem
  obtain ⟨x, hx, hpath⟩ := List.mem_map.mp hmem
  have hne := (List.mem_filter.mp hx).2
  simp [hpath] at hne

/-- Entries that a filter leaves were there before. -/
theorem find?_of_filter (h : ix.Distinct) {p : String × CacheEntry → Bool} {path : String}
    {e : CacheEntry}
    (he : find? { ix with entries := ix.entries.filter p } path = some e) :
    ix.find? path = some e :=
  Assoc.lookup_eq_some_of_mem h (List.mem_of_mem_filter (Assoc.mem_of_lookup_eq_some he))

/-- What is found after erasing a path was there before, under another path. -/
theorem find?_of_erase (h : ix.Distinct) {path other : String} {e : CacheEntry}
    (he : (ix.erase path).find? other = some e) : other ≠ path ∧ ix.find? other = some e := by
  refine ⟨?_, find?_of_filter h he⟩
  rintro rfl
  rw [find?_erase_self] at he
  cases he

/-- What is found after storing is the new entry, or was there under another path. -/
theorem find?_of_insert (h : ix.Distinct) {path other : String} {e new : CacheEntry}
    (he : (ix.insert path new).find? other = some e) :
    (other = path ∧ e = new) ∨ (other ≠ path ∧ ix.find? other = some e) := by
  by_cases hpath : other = path
  · subst hpath
    rw [find?_insert_self] at he
    exact Or.inl ⟨rfl, (Option.some.inj he).symm⟩
  · refine Or.inr ⟨hpath, ?_⟩
    have hrest : (ix.erase path).find? other = some e := by
      simpa [find?, insert, erase, List.lookup_cons, beq_false_of_ne hpath] using he
    exact (find?_of_erase h hrest).2

end Distinct

section Read

/-- Entries that are read have distinct paths. -/
theorem nodup_of_entriesOf {ms : List (String × Json)} {l : List (String × CacheEntry)}
    (h : entriesOf ms = some l) : (l.map Prod.fst).Nodup := by
  induction ms generalizing l with
  | nil =>
      obtain rfl := Option.some.inj h
      exact List.nodup_nil
  | cons m ms ih =>
      simp only [entriesOf, Option.bind_eq_bind, Option.bind_eq_some_iff, Option.pure_def,
        Option.some.injEq] at h
      obtain ⟨e, -, more, hmore, rfl⟩ := h
      cases hl : more.lookup m.1 with
      | some e' => exact ih hmore
      | none => exact List.nodup_cons.mpr ⟨Assoc.lookup_eq_none_iff_key.mp hl, ih hmore⟩

/-- Entries with distinct paths are read as they were written. -/
theorem eq_of_entriesOf {entries l : List (String × CacheEntry)}
    (hnodup : (entries.map Prod.fst).Nodup)
    (h : entriesOf (entries.map fun (p, e) => (p, e.toJson)) = some l) : l = entries := by
  induction entries generalizing l with
  | nil => exact (Option.some.inj h).symm
  | cons x entries ih =>
      obtain ⟨path, e⟩ := x
      rw [List.map_cons, List.nodup_cons] at hnodup
      simp only [List.map_cons, entriesOf, Option.bind_eq_bind, Option.bind_eq_some_iff,
        Option.pure_def, Option.some.injEq] at h
      obtain ⟨e', he', more, hmore, rfl⟩ := h
      obtain rfl := ih hnodup.2 hmore
      rw [CacheEntry.eq_of_ofJson_toJson he', Assoc.lookup_eq_none_iff_key.mpr hnodup.1]
      rfl

/-- An index that was read lists no path twice. -/
theorem distinct_of_ofJson {j : Json} {ix : CacheIndex} (h : ofJson j = some ix) :
    ix.Distinct := by
  unfold ofJson at h
  replace h := (of_guard_bind h).2
  simp only [Option.bind_eq_bind, Option.bind_eq_some_iff] at h
  obtain ⟨version, -, created, -, h⟩ := h
  split at h
  · obtain rfl := Option.some.inj h
    exact List.nodup_nil
  · simp only [Option.bind_eq_some_iff, Option.pure_def, Option.some.injEq] at h
    obtain ⟨l, hl, rfl⟩ := h
    exact nodup_of_entriesOf hl
  · cases h

theorem distinct_of_parse {s : Bytes} {ix : CacheIndex} (h : parse s = .ok ix) : ix.Distinct := by
  unfold parse at h
  split at h
  · cases h
  · split at h
    · cases h
      exact distinct_of_ofJson ‹_›
    · cases h

variable {ix ix' : CacheIndex}

theorem exact_toJson (ix : CacheIndex) : Exact ix.toJson := by
  refine ⟨⟨ix.version, rfl⟩, ⟨ix.createdAt, rfl⟩, ?_, trivial⟩
  show ExactMembers ((Order.sortBy Prod.fst ix.entries).map fun (p, e) => (p, e.toJson))
  induction Order.sortBy Prod.fst ix.entries with
  | nil => trivial
  | cons x l ih => exact ⟨x.2.exact_toJson, ih⟩

/-- The fields of the saved form. -/
def slots (ix : CacheIndex) : List (String × Option Json) := [
  ("version", some (.int ix.version)), ("created_at", some (.int ix.createdAt)),
  ("entries", some (.obj ((Order.sortBy Prod.fst ix.entries).map fun (p, e) => (p, e.toJson))))]

theorem apart_slots (ix : CacheIndex) : (ix.slots.map Prod.fst).Pairwise Apart := by
  show ["version", "created_at", "entries"].Pairwise Apart
  exact apart_of_nodup (by decide)

/-- The entries of a written index, by path. -/
theorem field?_entries (ix : CacheIndex) : ix.toJson.field? "entries" =
    some (.obj ((Order.sortBy Prod.fst ix.entries).map fun (p, e) => (p, e.toJson))) := by
  show (obj (filled ix.slots)).field? "entries" = _
  exact field?_filled ix.apart_slots
    (List.mem_cons_of_mem _ (List.mem_cons_of_mem _ List.mem_cons_self))

/-- A written index is read with the same entries. -/
theorem find?_of_parse_render (hdistinct : ix.Distinct) (h : parse ix.render = .ok ix')
    (path : String) : ix'.find? path = ix.find? path := by
  have hperm := Order.sortBy_perm Prod.fst ix.entries
  have hnodup : ((Order.sortBy Prod.fst ix.entries).map Prod.fst).Nodup :=
    (hperm.map Prod.fst).nodup_iff.mpr hdistinct
  unfold parse render at h
  rw [parseBytes_indented ix.exact_toJson 0] at h
  dsimp only at h
  split at h
  · rename_i read hread
    cases h
    rw [ofJson, guard_record rfl] at hread
    simp only [ix.field?_entries, Option.bind_eq_bind, Option.bind_eq_some_iff, Option.pure_def,
      Option.some.injEq] at hread
    obtain ⟨version, -, created, -, l, hl, rfl⟩ := hread
    rw [find?, eq_of_entriesOf hnodup hl]
    exact Assoc.lookup_eq_of_perm hnodup hperm path
  · cases h

end Read

/-- All numbers have 64 bits. -/
structure Fits (ix : CacheIndex) : Prop where
  version : Json.Fits ix.version
  created : Json.Fits ix.createdAt
  times : ∀ x ∈ ix.entries, Json.Fits x.2.analyzedAt

section Fits

variable {ix : CacheIndex}

theorem Fits.filter (h : ix.Fits) (p : String × CacheEntry → Bool) :
    Fits { ix with entries := ix.entries.filter p } :=
  ⟨h.version, h.created, fun x hx => h.times x (List.mem_of_mem_filter hx)⟩

theorem Fits.insert (h : ix.Fits) (path : String) {e : CacheEntry}
    (he : Json.Fits e.analyzedAt) : (ix.insert path e).Fits := by
  refine ⟨h.version, h.created, fun x hx => ?_⟩
  rcases List.mem_cons.mp hx with rfl | hx
  · exact he
  · exact h.times x (List.mem_of_mem_filter hx)

theorem fits_fresh {now : Int} (h : Json.Fits now) : (fresh now).Fits :=
  ⟨(by decide : Json.Fits formatVersion), h, fun x hx => absurd hx List.not_mem_nil⟩

/-- The times of entries that were read fit. -/
theorem fits_of_entriesOf {ms : List (String × Json)} {l : List (String × CacheEntry)}
    (h : entriesOf ms = some l) : ∀ x ∈ l, Json.Fits x.2.analyzedAt := by
  induction ms generalizing l with
  | nil =>
      obtain rfl := Option.some.inj h
      exact fun x hx => absurd hx List.not_mem_nil
  | cons m ms ih =>
      simp only [entriesOf, Option.bind_eq_bind, Option.bind_eq_some_iff, Option.pure_def,
        Option.some.injEq] at h
      obtain ⟨e, he, more, hmore, rfl⟩ := h
      split_ifs
      · exact ih hmore
      · exact List.forall_mem_cons.mpr ⟨CacheEntry.fits_of_ofJson he, ih hmore⟩

/-- The numbers of an index that was read have 64 bits. -/
theorem fits_of_parse {s : Bytes} (h : parse s = .ok ix) : ix.Fits := by
  unfold parse at h
  split at h
  · cases h
  split at h
  · next j _ _ hread =>
      cases h
      unfold ofJson at hread
      replace hread := (of_guard_bind hread).2
      simp only [Option.bind_eq_bind, Option.bind_eq_some_iff] at hread
      obtain ⟨version, hversion, created, hcreated, hread⟩ := hread
      have hnumbers := And.intro (fits_of_intField hversion) (fits_of_intField hcreated)
      split at hread
      · obtain rfl := Option.some.inj hread
        exact ⟨hnumbers.1, hnumbers.2, fun x hx => absurd hx List.not_mem_nil⟩
      · simp only [Option.bind_eq_some_iff, Option.pure_def, Option.some.injEq] at hread
        obtain ⟨l, hl, rfl⟩ := hread
        exact ⟨hnumbers.1, hnumbers.2, fits_of_entriesOf hl⟩
      · cases hread
  · cases h

/-- Entries with different paths are read back in their order. -/
theorem entriesOf_toJson {entries : List (String × CacheEntry)}
    (hnodup : (entries.map Prod.fst).Nodup)
    (h : ∀ x ∈ entries, Json.Fits x.2.analyzedAt) :
    entriesOf (entries.map fun (p, e) => (p, e.toJson)) = some entries := by
  induction entries with
  | nil => rfl
  | cons x entries ih =>
      rw [List.map_cons, List.nodup_cons] at hnodup
      obtain ⟨hfirst, hrest⟩ := List.forall_mem_cons.mp h
      simp only [List.map_cons, entriesOf, CacheEntry.ofJson_toJson hfirst, ih hnodup.2 hrest,
        Option.bind_eq_bind, Option.bind_some]
      rw [Assoc.lookup_eq_none_iff_key.mpr hnodup.1]
      rfl

/-- A written index is read, with its entries in the order of their paths. -/
theorem parse_render (hdistinct : ix.Distinct) (h : ix.Fits) :
    parse ix.render = .ok { ix with entries := Order.sortBy Prod.fst ix.entries } := by
  have hperm := Order.sortBy_perm Prod.fst ix.entries
  have hentries := entriesOf_toJson ((hperm.map Prod.fst).nodup_iff.mpr hdistinct)
    fun x hx => h.times x (hperm.subset hx)
  have hap := ix.apart_slots
  have hread : ofJson ix.toJson = some { ix with entries := Order.sortBy Prod.fst ix.entries } := by
    have hversion : ix.toJson.intField "version" = some ix.version :=
      intField_filled hap "version" (by simp [slots]) h.version
    have hcreated : ix.toJson.intField "created_at" = some ix.createdAt :=
      intField_filled hap "created_at" (by simp [slots]) h.created
    rw [ofJson, guard_record rfl, hversion, hcreated, field?_entries, Option.bind_eq_bind,
      Option.bind_some, Option.bind_eq_bind, Option.bind_some]
    show (entriesOf _).bind _ = _
    rw [hentries]
    rfl
  unfold parse render
  rw [parseBytes_indented ix.exact_toJson 0]
  simp only [hread]

end Fits

end CacheIndex

namespace Cache

/-- A stored result is read back as it was, and only for its own file. -/
theorem eq_of_readBlob {path : String} {r r' : FileResult} (hgraded : r.isGraded = true)
    (h : readBlob path (blobOf r) = some r') :
    r' = { r with fromCache := true } ∧ r.file = path := by
  unfold readBlob blobOf at h
  rw [parseBytes_compact true r.exact_toJson] at h
  obtain ⟨j, hj, h⟩ := Option.bind_eq_some_iff.mp h
  obtain rfl := Option.some.inj hj
  obtain ⟨read, hread, h⟩ := Option.bind_eq_some_iff.mp h
  obtain ⟨hpath, h⟩ := of_guard_bind h
  obtain rfl := FileResult.eq_of_ofJson_toJson hgraded hread
  exact ⟨(Option.some.inj h).symm, hpath⟩

end Cache

end InstallerLint
