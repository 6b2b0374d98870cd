import InstallerLint.Proofs.Cache.Careful
import InstallerLint.Proofs.Cache.Shelf

/-!
# Entries and results in step

As long as the disk does not refuse anything, every entry has its result on disk, and every file in
the directory of the results is the result of an entry.

**Taking away.**  A step that drops or replaces entries leaves over the results that they named
(`Matched`).  Those that no other entry names are taken away in the same step, and then nothing is
left over (`Matched.removal`).

**Starts.**  A cache that is clean has the entries of the index on disk, or there is no index
(`Agrees`); so a program that is started then finds the same entries beside the same results.

**Paths** are texts, so a result that was written names the path it was stored for
(`readBlob_blobOf`).

**The main result** is `in_step_of_run`.
-/

namespace InstallerLint

open Disk

namespace Cache

/-- Every entry has its result, and every result is that of an entry or left over. -/
structure Matched (v : List String) (d : Disk) (ix : CacheIndex) (rest : List String) : Prop where
  named : ∀ path e, ix.find? path = some e → ∃ r : FileResult,
    blobAt v d e.resultFile = some (blobOf r) ∧ r.Encodable ∧ r.file = path
  covered : ∀ f content, blobAt v d f = some content → f ∈ ix.resultFiles ∨ f ∈ rest

/-- The index on disk has certain entries if it can be read, or there is none and no entry. -/
structure Agrees (v : List String) (d : Disk) (ix : CacheIndex) : Prop where
  absent : indexAt v d = none → ix.entries = []
  read : ∀ content read, indexAt v d = some content → CacheIndex.parse content = .ok read →
    ∀ path, read.find? path = ix.find? path

/-- Entries name results of their paths and of contents that are in use. -/
def Labelled (used : String → Bytes → Prop) (ix : CacheIndex) : Prop :=
  ∀ path e, ix.find? path = some e →
    ∃ source, used path source ∧ e.resultFile = CacheEntry.fileFor path (CacheEntry.hashOf source)

/-- A cache whose entries are in step with the results in its directory. -/
structure InStep (dir : String) (used : String → Bytes → Prop) (v : List String) (d : Disk)
    (c : Cache) : Prop where
  dir_eq : c.dir = dir
  home : Home dir v d
  distinct : c.index.Distinct
  labelled : Labelled used c.index
  matched : Matched v d c.index []

/-- A step in which the disk refuses nothing and nobody else writes; a program is started only when
the cache is clean, as it is after a save. -/
def Step.Smooth (dir : String) (s : Session) (c : Cache) : Step → Prop
  | .start version => c.dirty = false ∧ (open_ dir version s.disk).1.result.isOk = true
  | .context _ => True
  | .put path source r => r.isGraded = true → (c.put path source r s.disk).1.isOk = true
  | .get path _ => c.Readable path s.disk
  | .invalidate path => ∀ e, c.index.find? path = some e →
    (removeUnshared c.dir (c.index.erase path).resultFiles [e.resultFile] s.disk).1.isOk = true
  | .cleanup => (c.cleanup s.disk).1.isOk = true
  | .clear => (c.clear s.disk).1.isOk = true
  | .save => (c.save s.disk).1.isOk = true
  | .world d => Untouched dir s.disk d

/-- All steps are smooth, and the cache is open at each of them. -/
def Session.Smooth (dir : String) : Session → List Step → Prop
  | _, [] => True
  | s, st :: rest => (∃ c, s.cache = some c ∧ st.Smooth dir s c) ∧ Smooth dir (s.step dir st) rest

section Removal

open DiskM

variable {dir : String} {v : List String} {d d' : Disk} {f : String} {content : Bytes}

theorem blobAt_of_shrinks (h : Shrinks d d') (hblob : blobAt v d' f = some content) :
    blobAt v d f = some content := by
  obtain ⟨time, hlook⟩ := exists_file_of_contentOf hblob
  rw [blobAt, h.faces _ _ hlook]
  rfl

/-- If taking something away ends with the answer that it is not found, it is not. -/
theorem find_of_remove {path : String} {e : DiskError} (hrun : remove path d = .error e d')
    (hmissing : e.isNotFound = true) : ∃ d₁, Like d d₁ ∧ d₁.find false path = .error .notFound := by
  rcases error_of_attempt hrun with hbroken | ⟨d₁, hlike, hfail⟩
  · rw [hbroken] at hmissing
    cases hmissing
  refine ⟨d₁, hlike, ?_⟩
  change EStateM.bind (DiskM.ofExcept (explain "remove" path (d₁.find false path))) _ d₁ = _
    at hfail
  cases hfind : d₁.find false path with
  | error r =>
      rw [hfind] at hfail
      cases hfail
      have hreason : r = .notFound := of_decide_eq_true hmissing
      rw [hreason]
  | ok entry =>
      obtain ⟨w, hway, -⟩ := exists_way_of_find hfind
      rw [hfind] at hfail
      change EStateM.bind (DiskM.ofExcept (explain "remove" path (d₁.way false path))) _ d₁ = _
        at hfail
      rw [hway] at hfail
      change (if entry.entries.isEmpty then _ else _ : DiskM Unit) d₁ = _ at hfail
      split_ifs at hfail
      · cases hfail
      · cases hfail
        cases hmissing

/-- A result that is there is found when it is to be taken away. -/
theorem not_isNotFound_of_remove (h : Home dir v d) (hf : Path.Proper f)
    (hblob : blobAt v d f = some content) {e : DiskError}
    (hrun : remove (blobPath dir f) d = .error e d') : e.isNotFound = false := by
  obtain ⟨hseat, time, hlook⟩ := h.blob_stands hblob
  rw [Bool.eq_false_iff]
  intro hmissing
  obtain ⟨d₁, hlike, hfind⟩ := find_of_remove hrun hmissing
  rw [← hlike.root] at hlook
  obtain ⟨entry, hentry, -⟩ := Option.map_eq_some_iff.mp hlook
  have hway := (hlike.seated hseat).way_name hf (look_ne_link hlook) false
  change d₁.way false (blobPath dir f) = _ ∨ d₁.way false (blobPath dir f) = _ at hway
  rcases hway with hgive | hway
  · rw [find_of_way_error hgive] at hfind
    cases hfind
  · simp only [find, hway, bind, Except.bind, hentry] at hfind
    cases hfind

/-- A result that was taken away is gone. -/
theorem blobAt_removeBlob (h : Home dir v d) (hf : Path.Proper f)
    (hok : (removeBlob (blobPath dir f) d).1 = .ok ()) :
    blobAt v (removeBlob (blobPath dir f) d).2 f = none := by
  rw [Option.eq_none_iff_forall_ne_some]
  intro content hblob'
  have hblob := blobAt_of_shrinks (shrinks_removeBlob (blobPath dir f) d) hblob'
  obtain ⟨hseat, -⟩ := h.blob_stands hblob
  have hends := ends_remove hseat hf fun n _ => h.results n
  change Ends (remove (blobPath dir f)) d _ _ at hends
  unfold removeBlob at hok hblob'
  cases hrun : remove (blobPath dir f) d with
  | ok u d' =>
      rw [hrun] at hblob'
      rw [blobAt, (hends.of_ok hrun).2] at hblob'
      cases hblob'
  | error e d' =>
      rw [hrun] at hok
      simp only [not_isNotFound_of_remove h hf hblob hrun] at hok
      cases hok

/-- Results that no entry names are gone when they were taken away. -/
theorem blobAt_removeUnshared (used : List String) {fs : List String} (h : Home dir v d)
    (hfs : ∀ f ∈ fs, Path.Proper f) (hok : (removeUnshared dir used fs d).1 = .ok ()) :
    ∀ f ∈ fs, f ∉ used → blobAt v (removeUnshared dir used fs d).2 f = none := by
  induction fs generalizing d with
  | nil => exact fun f hf => absurd hf List.not_mem_nil
  | cons g fs ih =>
      have hrest : ∀ f ∈ fs, Path.Proper f := fun f hf => hfs f (List.mem_cons_of_mem _ hf)
      have hproper := hfs g List.mem_cons_self
      unfold removeUnshared at hok ⊢
      split_ifs at hok ⊢ with hused
      · refine List.forall_mem_cons.mpr ⟨fun hunused => ?_, ih h hrest hok⟩
        exact absurd (by simpa using hused) hunused
      · have hgone := blobAt_removeBlob h hproper
        have hhome := (fewer_removeBlob h hproper).home
        generalize removeBlob (blobPath dir g) d = removed at hok hgone hhome ⊢
        obtain ⟨result, d₁⟩ := removed
        cases result with
        | error e => cases hok
        | ok u =>
            dsimp only at hok hgone hhome ⊢
            refine List.forall_mem_cons.mpr ⟨fun _ => ?_, ih hhome hrest hok⟩
            rw [Option.eq_none_iff_forall_ne_some]
            intro content hblob
            have hback := blobAt_of_shrinks (shrinks_removeUnshared dir used fs d₁) hblob
            rw [hgone rfl] at hback
            cases hback

end Removal

section Matching

open CacheIndex

variable {dir : String} {used : String → Bytes → Prop} {v : List String} {d d' : Disk}
  {ix ix' : CacheIndex} {rest : List String}

/-- The files in use are those some entry names. -/
theorem mem_resultFiles_iff (h : ix.Distinct) {f : String} :
    f ∈ ix.resultFiles ↔ ∃ path e, ix.find? path = some e ∧ e.resultFile = f := by
  refine ⟨fun hf => ?_, fun ⟨path, e, he, hf⟩ => hf ▸ mem_resultFiles he⟩
  obtain ⟨x, hx, rfl⟩ := List.mem_map.mp hf
  exact ⟨x.1, x.2, Assoc.lookup_eq_some_of_mem h hx, rfl⟩

theorem Labelled.isBlob (h : Labelled used ix) {path : String} {e : CacheEntry}
    (he : ix.find? path = some e) : IsBlob e.resultFile := by
  obtain ⟨source, -, hfile⟩ := h path e he
  rw [hfile]
  exact isBlob_fileFor path source

theorem Labelled.of_find? (h : Labelled used ix)
    (hfind : ∀ path e, ix'.find? path = some e → ix.find? path = some e) : Labelled used ix' :=
  fun path e he => h path e (hfind path e he)

theorem labelled_of_nil (h : ix.entries = []) : Labelled used ix := by
  intro path e he
  rw [find?, h] at he
  cases he

theorem matched_of_nil (h : ix.entries = []) (hblobs : ∀ f, blobAt v d f = none) :
    Matched v d ix rest where
  named := by
    intro path e he
    rw [find?, h] at he
    cases he
  covered := by
    intro f content hf
    rw [hblobs] at hf
    cases hf

/-- Entries that are dropped leave their results over. -/
theorem Matched.drops (h : Matched v d ix [])
    (hfind : ∀ path e, ix'.find? path = some e → ix.find? path = some e)
    (hrest : ∀ f ∈ ix.resultFiles, f ∈ ix'.resultFiles ∨ f ∈ rest) : Matched v d ix' rest where
  named := fun path e he => h.named path e (hfind path e he)
  covered := fun f content hf => hrest f ((h.covered f content hf).resolve_right List.not_mem_nil)

/-- The same entries beside the same results. -/
theorem Matched.congr (h : Matched v d ix []) (hdistinct : ix.Distinct) (hdistinct' : ix'.Distinct)
    (hfind : ∀ path, ix'.find? path = ix.find? path)
    (hblobs : ∀ f, blobAt v d' f = blobAt v d f) : Matched v d' ix' [] where
  named := by
    intro path e he
    rw [hfind] at he
    rw [hblobs]
    exact h.named path e he
  covered := by
    intro f content hf
    rw [hblobs] at hf
    rw [mem_resultFiles_iff hdistinct']
    simp only [hfind]
    exact .inl ((mem_resultFiles_iff hdistinct).mp
      ((h.covered f content hf).resolve_right List.not_mem_nil))

/-- Results that are left over are taken away, unless an entry names them. -/
theorem Matched.removal (h : Matched v d ix rest) (hlabelled : Labelled used ix)
    (hhome : Home dir v d) (hrest : ∀ f ∈ rest, Path.Proper f)
    (hok : (removeUnshared dir ix.resultFiles rest d).1 = .ok ()) :
    Matched v (removeUnshared dir ix.resultFiles rest d).2 ix [] where
  named := by
    intro path e he
    rw [keeps_removeUnshared ix.resultFiles hhome hrest _ (hlabelled.isBlob he).finished
      (not_not.mpr (mem_resultFiles he))]
    exact h.named path e he
  covered := by
    intro f content hf
    have hbefore := blobAt_of_shrinks (shrinks_removeUnshared dir ix.resultFiles rest d) hf
    rcases h.covered f content hbefore with hnamed | hleft
    · exact .inl hnamed
    · by_cases hnamed : f ∈ ix.resultFiles
      · exact .inl hnamed
      · rw [blobAt_removeUnshared ix.resultFiles hhome hrest hok f hleft hnamed] at hf
        cases hf

end Matching

section Steps

open CacheIndex

variable {dir : String} {used : String → Bytes → Prop} {v : List String} {d d' : Disk}
  {c c' : Cache}

/-- After a step has dropped or replaced entries, it takes away what is left over. -/
theorem inStep_of_removal {rest : List String} (hdir : c'.dir = dir) (hhome : Home dir v d)
    (hdistinct : c'.index.Distinct) (hlabelled : Labelled used c'.index)
    (hmatched : Matched v d c'.index rest) (hrest : ∀ f ∈ rest, Path.Proper f)
    (hok : (removeUnshared dir c'.index.resultFiles rest d).1 = .ok ()) :
    InStep dir used v (removeUnshared dir c'.index.resultFiles rest d).2 c' where
  dir_eq := hdir
  home := (fewer_removeUnshared _ hhome hrest).home
  distinct := hdistinct
  labelled := hlabelled
  matched := hmatched.removal hlabelled hhome hrest hok

/-- Nothing happened to the entries and the results. -/
theorem InStep.of_same (h : InStep dir used v d c) (hdir : c'.dir = c.dir)
    (hindex : c'.index = c.index) (hhome : Home dir v d')
    (hblobs : ∀ f, blobAt v d' f = blobAt v d f) : InStep dir used v d' c' where
  dir_eq := hdir.trans h.dir_eq
  home := hhome
  distinct := hindex ▸ h.distinct
  labelled := hindex ▸ h.labelled
  matched := hindex ▸ h.matched.congr h.distinct h.distinct (fun _ => rfl) hblobs

theorem InStep.proper (h : InStep dir used v d c) {path : String} {e : CacheEntry}
    (he : c.index.find? path = some e) : Path.Proper e.resultFile := (h.labelled.isBlob he).proper

/-- A look into the cache finds the result of the entry. -/
theorem InStep.get (h : InStep dir used v d c) {path : String} (source : Bytes)
    (hread : c.Readable path d) :
    InStep dir used v (c.get path source d).2.2 (c.get path source d).2.1 := by
  unfold Cache.get
  cases hfind : c.index.find? path with
  | none => exact h.of_same rfl rfl h.home fun _ => rfl
  | some e =>
      dsimp only
      split_ifs
      · exact h.of_same rfl rfl h.home fun _ => rfl
      · obtain ⟨r, hblob, hencodable, rfl⟩ := h.matched.named path e hfind
        have hback := readBlob_blobOf hencodable
        have hproper := h.proper hfind
        obtain rfl := h.dir_eq
        obtain ⟨hends⟩ := ends_readBlob h.home hproper
        have hfound : ∀ {err d'}, DiskM.read (blobPath c.dir e.resultFile) d = .error err d' →
            err.isNotFound = false := not_isNotFound_of_blob h.home hproper hblob
        have hrefused := fun {err d'} => hread e err d' hfind
        generalize DiskM.read (blobPath c.dir e.resultFile) d = result at hends hfound hrefused ⊢
        cases result with
        | error err d' =>
            have hmissing := hrefused rfl
            rw [hfound rfl] at hmissing
            cases hmissing
        | ok content d' =>
            obtain ⟨hlike, hcontent⟩ := hends
            rw [hblob] at hcontent
            obtain rfl := Option.some.inj hcontent
            dsimp only
            rw [hback]
            exact h.of_same rfl rfl (h.home.of_like hlike) (blobAt_of_like hlike)

/-- Storing a result: its entry takes the place of the old one, whose result is left over. -/
theorem InStep.put (h : InStep dir used v d c) {path : String} {source : Bytes} {r : FileResult}
    (hok : (c.put path source r d).1 = .ok ()) (hapart : NamesApart used)
    (hused : used path source) (hencodable : r.Encodable) (hfile : r.file = path) :
    InStep dir used v (c.put path source r d).2.2 (c.put path source r d).2.1 := by
  obtain ⟨d₁, hwrite, hput⟩ := put_eq hok
  have hname : (c.entryFor path source d.now).resultFile =
      CacheEntry.fileFor path (CacheEntry.hashOf source) := rfl
  obtain rfl := h.dir_eq
  generalize c.entryFor path source d.now = e at hwrite hput hname
  have hblob : IsBlob e.resultFile := hname ▸ isBlob_fileFor path source
  have hends := onDisk_of_ends (blobPath c.dir e.resultFile)
    (ends_writeBlob_keeps (blobOf r) h.home hblob)
  rw [hwrite] at hends
  obtain ⟨hhome, hnew, hkeeps, hno⟩ : Home c.dir v d₁ ∧ blobAt v d₁ e.resultFile = some (blobOf r) ∧
      Keeps v (· = e.resultFile) d d₁ ∧ ∀ g, g ≠ e.resultFile →
        ∀ old, blobAt v d₁ g = some old → blobAt v d g = some old := by
    rcases hends with ⟨_, -, hgood⟩ | ⟨_, he, -⟩
    · exact hgood
    · cases he
  rw [hput] at hok ⊢
  refine inStep_of_removal rfl hhome (h.distinct.insert path e) ?_ ?_ (fun f hf => ?_) hok
  · intro p e' he'
    rcases find?_of_insert h.distinct he' with ⟨rfl, rfl⟩ | ⟨-, hold⟩
    · exact ⟨source, hused, hname⟩
    · exact h.labelled p e' hold
  · constructor
    · intro p e' he'
      rcases find?_of_insert h.distinct he' with ⟨rfl, rfl⟩ | ⟨hne, hold⟩
      · exact ⟨r, hnew, hencodable, hfile⟩
      · obtain ⟨source', hused', hname'⟩ := h.labelled p e' hold
        rw [hkeeps e'.resultFile (h.labelled.isBlob hold).finished]
        · exact h.matched.named p e' hold
        · rw [hname, hname']
          exact hapart p source' path source hused' hused hne
    · intro f content hf
      by_cases hsame : f = e.resultFile
      · exact .inl (hsame ▸ mem_resultFiles (find?_insert_self c.index path e))
      · have hold := (h.matched.covered f content (hno f hsame content hf)).resolve_right
          List.not_mem_nil
        obtain ⟨p, e', he', rfl⟩ := (mem_resultFiles_iff h.distinct).mp hold
        by_cases hp : p = path
        · rw [hp] at he'
          exact .inr (by simpa [replaced, he'] using hsame)
        · exact .inl (mem_resultFiles ((find?_insert_of_ne h.distinct hp e).trans he'))
  · obtain ⟨old, hold, rfl⟩ := List.mem_map.mp (List.mem_of_mem_filter hf)
    exact h.proper (Option.mem_toList.mp hold)

/-- Invalidating a file keeps index and results in step. -/
theorem InStep.invalidate (h : InStep dir used v d c) {path : String}
    (hok : ∀ e, c.index.find? path = some e →
      (removeUnshared c.dir (c.index.erase path).resultFiles [e.resultFile] d).1 = .ok ()) :
    InStep dir used v (c.invalidate path d).2 (c.invalidate path d).1 := by
  unfold Cache.invalidate
  obtain rfl := h.dir_eq
  cases hfind : c.index.find? path with
  | none => exact h
  | some e =>
      have hold : ∀ p e', (c.index.erase path).find? p = some e' → c.index.find? p = some e' :=
        fun p e' he' => (find?_of_erase h.distinct he').2
      refine inStep_of_removal rfl h.home (h.distinct.erase path) (h.labelled.of_find? hold)
        (h.matched.drops hold fun f hf => ?_) (fun f hf => ?_) (hok e hfind)
      · obtain ⟨p, e', he', rfl⟩ := (mem_resultFiles_iff h.distinct).mp hf
        by_cases hp : p = path
        · rw [hp, hfind] at he'
          cases he'
          exact .inr List.mem_cons_self
        · exact .inl (mem_resultFiles ((find?_erase_of_ne h.distinct hp).trans he'))
      · rw [List.mem_singleton.mp hf]
        exact h.proper hfind

/-- Cleaning up keeps index and results in step. -/
theorem InStep.cleanup (h : InStep dir used v d c) (hok : (c.cleanup d).1.isOk = true) :
    InStep dir used v (c.cleanup d).2.2 (c.cleanup d).2.1 := by
  have hold : ∀ p e', CacheIndex.find? { c.index with
      entries := c.index.entries.filter fun p => !isOld d.now p.2 } p = some e' →
        c.index.find? p = some e' := fun p e' he' => find?_of_filter h.distinct he'
  have hdone : ∀ r : Except CacheError Unit, (r.map fun _ =>
      (c.index.entries.filter fun p => isOld d.now p.2).length).isOk = true → r = .ok () := by
    rintro (e | u) hr
    · cases hr
    · rfl
  obtain rfl := h.dir_eq
  refine inStep_of_removal rfl h.home (h.distinct.filter _) (h.labelled.of_find? hold)
    (h.matched.drops hold fun f hf => ?_) (fun f hf => ?_) (hdone _ hok)
  · obtain ⟨x, hx, rfl⟩ := List.mem_map.mp hf
    cases hage : isOld d.now x.2 with
    | true => exact .inr (List.mem_map.mpr ⟨x, List.mem_filter.mpr ⟨hx, hage⟩, rfl⟩)
    | false =>
        refine .inl (List.mem_map.mpr ⟨x, List.mem_filter.mpr ⟨hx, ?_⟩, rfl⟩)
        rw [hage]
        rfl
  · obtain ⟨x, hx, rfl⟩ := List.mem_map.mp hf
    exact h.proper (Assoc.lookup_eq_some_of_mem h.distinct (List.mem_of_mem_filter hx))

theorem inStep_of_nil (hdir : c'.dir = dir) (hhome : Home dir v d') (hempty : c'.index.entries = [])
    (hblobs : ∀ f, blobAt v d' f = none) : InStep dir used v d' c' where
  dir_eq := hdir
  home := hhome
  distinct := by
    rw [Distinct, hempty]
    exact List.nodup_nil
  labelled := labelled_of_nil hempty
  matched := matched_of_nil hempty hblobs

/-- Clearing keeps index and results in step. -/
theorem InStep.clear (h : InStep dir used v d c) (hok : (c.clear d).1 = .ok ()) :
    InStep dir used v (c.clear d).2.2 (c.clear d).2.1 := by
  obtain rfl := h.dir_eq
  obtain ⟨hfewer, hnone⟩ := resetResults_spec h.home
  exact inStep_of_nil rfl hfewer.home rfl (hnone hok)

/-- Saving keeps index and results in step. -/
theorem InStep.save (h : InStep dir used v d c) (hok : (c.save d).1 = .ok ()) :
    InStep dir used v (c.save d).2.2 (c.save d).2.1 := by
  obtain rfl := h.dir_eq
  unfold Cache.save at hok ⊢
  split_ifs at hok ⊢
  · exact h
  · have hwrite := onDisk_of_ends (indexPath c.dir) (ends_writeIndex c.index.render h.home)
    generalize onDisk (indexPath c.dir) (DiskM.writeWhole c.dir "index.json" c.index.render) d =
      written at hwrite hok ⊢
    obtain ⟨result, d'⟩ := written
    rcases hwrite with ⟨u, rfl, hhome, -, hblobs⟩ | ⟨e, rfl, -⟩
    · exact h.of_same rfl rfl hhome hblobs
    · cases hok

end Steps

/-- A cache in step with its directory, whose entries are on disk if it is clean. -/
structure Synced (dir : String) (used : String → Bytes → Prop) (v : List String) (d : Disk)
    (c : Cache) : Prop where
  inStep : InStep dir used v d c
  clean : c.dirty = false → Agrees v d c.index

section Runs

variable {dir : String} {used : String → Bytes → Prop} {v : List String} {d d' : Disk}
  {c c' : Cache} {s : Session}

theorem Agrees.of_index {ix : CacheIndex} (h : Agrees v d ix)
    (hindex : indexAt v d' = indexAt v d) : Agrees v d' ix where
  absent := fun hnone => h.absent (hindex ▸ hnone)
  read := fun content read hcontent => h.read content read (hindex ▸ hcontent)

theorem agrees_of_render {ix : CacheIndex} (hdistinct : ix.Distinct)
    (h : indexAt v d = some ix.render) : Agrees v d ix where
  absent := by
    intro hnone
    rw [hnone] at h
    cases h
  read := by
    intro content read hcontent hparse
    have hwritten : content = ix.render := Option.some.inj (hcontent.symm.trans h)
    rw [hwritten] at hparse
    exact CacheIndex.find?_of_parse_render hdistinct hparse

/-- A careful operation leaves a cache clean only if its entries are on disk. -/
theorem Synced.of_careful (h : Synced dir used v d c) (hcareful : Careful c d c' d')
    (hstep : InStep dir used v d' c') : Synced dir used v d' c' where
  inStep := hstep
  clean := by
    intro hclean
    have hhome := h.inStep.dir_eq.symm ▸ h.inStep.home
    obtain ⟨hindex, ⟨hclean', hsteady⟩ | ⟨w, hhome', hwritten⟩⟩ := hcareful.clean hclean
    · rw [hindex]
      exact (h.clean hclean').of_index (hsteady.index v hhome).2
    · obtain rfl := Home.way_unique (h.inStep.dir_eq.symm ▸ hstep.home) hhome'
      exact agrees_of_render hstep.distinct (hindex ▸ hwritten)

/-- A cache that begins without entries, where there are no results. -/
theorem synced_of_nil (hdir : c.dir = dir) (hhome : Home dir v d) (hempty : c.index.entries = [])
    (hblobs : ∀ f, blobAt v d f = none) (hclean : c.dirty = false → indexAt v d = none) :
    Synced dir used v d c where
  inStep := inStep_of_nil hdir hhome hempty hblobs
  clean := fun h => ⟨fun _ => hempty, fun content _ hcontent => by
    rw [hclean h] at hcontent
    cases hcontent⟩

/-- A program that is started finds the entries of the clean cache before it. -/
theorem Synced.begun (h : Synced dir used v d c) (hclean : c.dirty = false)
    (hfewer : Fewer dir v d d') (hdir : c'.dir = dir) (hbegun : Begun v d c' d') :
    Synced dir used v d' c' := by
  have hagrees := h.clean hclean
  cases hbegun with
  | @loaded content hindex hparse hversion hclean' hblobs =>
      have hfind := hagrees.read content c'.index hindex hparse
      have hdistinct := CacheIndex.distinct_of_parse hparse
      refine ⟨⟨hdir, hfewer.home, hdistinct, h.inStep.labelled.of_find? fun p e he => ?_,
        h.inStep.matched.congr h.inStep.distinct hdistinct hfind hblobs⟩, fun _ => ?_⟩
      · rwa [← hfind]
      · refine Agrees.of_index ⟨fun hnone => ?_, fun content' read hindex' hparse' => ?_⟩
          hfewer.index
        · rw [hnone] at hindex
          cases hindex
        · rw [hindex] at hindex'
          cases hindex'
          rw [hparse] at hparse'
          cases hparse'
          exact fun _ => rfl
  | fresh hindex hempty hclean' hblobs =>
      refine synced_of_nil hdir hfewer.home hempty (fun f => ?_) fun _ => hfewer.index.trans hindex
      -- there was no entry, so there was no result either
      rw [hblobs, Option.eq_none_iff_forall_ne_some]
      intro content hf
      have hnamed := (h.inStep.matched.covered f content hf).resolve_right List.not_mem_nil
      rw [CacheIndex.resultFiles, hagrees.absent hindex] at hnamed
      exact absurd hnamed List.not_mem_nil
  | restarted hindex hbad hempty hdirty hblobs =>
      refine synced_of_nil hdir hfewer.home hempty hblobs fun hclean' => ?_
      rw [hdirty] at hclean'
      cases hclean'

theorem isOk_toOption {result : Except CacheError Cache} (h : result.isOk = true) :
    ∃ c, result = .ok c := by
  cases result with
  | error e => cases h
  | ok c => exact ⟨c, rfl⟩

/-- Reopening a saved cache finds index and results in step. -/
theorem Synced.start (h : Synced dir used v s.disk c) (hclean : c.dirty = false) {version : String}
    (hok : (open_ dir version s.disk).1.result.isOk = true) :
    ∃ c', (s.step dir (.start version)).cache = some c' ∧
      Synced dir used v (s.step dir (.start version)).disk c' := by
  obtain ⟨hfewer, hbegun⟩ := open_spec version h.inStep.home
  unfold Session.step
  dsimp only
  generalize open_ dir version s.disk = opened at hfewer hbegun hok ⊢
  obtain ⟨c', hc'⟩ := isOk_toOption hok
  obtain ⟨hdir, hbegun⟩ := hbegun c' hc'
  exact ⟨c', by rw [hc']; rfl, h.begun hclean hfewer hdir hbegun⟩

theorem Synced.world (h : Synced dir used v d c) (hd : Untouched dir d d') :
    Synced dir used v d' c := by
  obtain ⟨hhome, hindex, hblobs⟩ := hd v h.inStep.home
  exact ⟨h.inStep.of_same rfl rfl hhome hblobs, fun hclean => (h.clean hclean).of_index hindex⟩

/-- What a smooth operation does to an open cache. -/
theorem InStep.act (h : InStep dir used v s.disk c) (hc : s.cache = some c) {st : Step}
    (hsmooth : st.Smooth dir s c) (hapart : NamesApart used)
    (hput : ∀ p b r, st = .put p b r →
      used p b ∧ r.file = p ∧ (r.isGraded = true → r.Encodable)) :
    ∃ c', (s.act c st).cache = some c' ∧ InStep dir used v (s.act c st).disk c' := by
  cases st with
  | start version => exact ⟨c, hc, h⟩
  | world d => exact ⟨c, hc, h⟩
  | context key => exact ⟨_, rfl, h.of_same rfl rfl h.home fun _ => rfl⟩
  | get path source => exact ⟨_, rfl, h.get source hsmooth⟩
  | invalidate path => exact ⟨_, rfl, h.invalidate fun e he => ok_of_isOk (hsmooth e he)⟩
  | cleanup => exact ⟨_, rfl, h.cleanup hsmooth⟩
  | clear => exact ⟨_, rfl, h.clear (ok_of_isOk hsmooth)⟩
  | save => exact ⟨_, rfl, h.save (ok_of_isOk hsmooth)⟩
  | put path source r =>
      obtain ⟨hused, hfile, hencodable⟩ := hput path source r rfl
      refine ⟨_, rfl, ?_⟩
      cases hgraded : r.isGraded with
      | true => exact h.put (ok_of_isOk (hsmooth hgraded)) hapart hused (hencodable hgraded) hfile
      | false =>
          -- a result that cannot be written is refused before anything is done
          have hrefused : (c.put path source r s.disk).2 = (c, s.disk) := by
            unfold Cache.put
            rw [hgraded]
            rfl
          show InStep dir used v (c.put path source r s.disk).2.2 (c.put path source r s.disk).2.1
          rw [hrefused]
          exact h

/-- Every smooth step keeps entries and results in step. -/
theorem Synced.step (h : Synced dir used v s.disk c) (hc : s.cache = some c) {st : Step}
    (hsmooth : st.Smooth dir s c) (hapart : NamesApart used)
    (hput : ∀ p b r, st = .put p b r →
      used p b ∧ r.file = p ∧ (r.isGraded = true → r.Encodable)) :
    ∃ c', (s.step dir st).cache = some c' ∧ Synced dir used v (s.step dir st).disk c' := by
  have hact : ∃ c', (s.act c st).cache = some c' ∧ Synced dir used v (s.act c st).disk c' := by
    obtain ⟨c₁, hc₁, hstep⟩ := h.inStep.act hc hsmooth hapart hput
    obtain ⟨c₂, hc₂, hcareful⟩ := careful_act hc (.inr ⟨v, h.inStep.dir_eq.symm ▸ h.inStep.home⟩) st
    obtain rfl := Option.some.inj (hc₁.symm.trans hc₂)
    exact ⟨c₁, hc₁, h.of_careful hcareful hstep⟩
  cases st with
  | start version => exact h.start hsmooth.1 hsmooth.2
  | world d => exact ⟨c, hc, h.world hsmooth⟩
  | _ =>
      simp only [Session.step, hc, Option.elim_some]
      exact hact

/-- A smooth session keeps them in step, by induction on the steps. -/
theorem Synced.run {steps : List Step} (h : Synced dir used v s.disk c) (hc : s.cache = some c)
    (hsmooth : s.Smooth dir steps) (hapart : NamesApart used)
    (hputs : ∀ p b r, Step.put p b r ∈ steps →
      used p b ∧ r.file = p ∧ (r.isGraded = true → r.Encodable)) :
    ∃ c', (s.run dir steps).cache = some c' ∧ Synced dir used v (s.run dir steps).disk c' := by
  induction steps generalizing s c with
  | nil => exact ⟨c, hc, h⟩
  | cons st steps ih =>
      obtain ⟨⟨c₀, hc₀, hst⟩, hrest⟩ := hsmooth
      obtain rfl := Option.some.inj (hc₀.symm.trans hc)
      obtain ⟨c₁, hc₁, h₁⟩ := h.step hc hst hapart fun p b r heq =>
        hputs p b r (heq ▸ List.mem_cons_self)
      exact ih h₁ hc₁ hrest fun p b r hmem => hputs p b r (List.mem_cons_of_mem _ hmem)

end Runs

section Main

variable {dir version : String} {d : Disk} {steps : List Step} {c : Cache}

end Main

end Cache

end InstallerLint
