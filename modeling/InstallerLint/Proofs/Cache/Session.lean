import InstallerLint.Proofs.Cache.Kept

/-!
# A cache over many starts

A `Session` is a disk, the cache that is open, if any, and the list of all results that were
stored, the newest first.  Each of these records knows what became of its entry: it is in memory
only, it was saved with the index, or the program was started again before that and it is lost.

**Stops.**  A program that stops in the middle of an operation leaves the disk as one that breaks
from there on would, and is started again later.  The world may move the clock, change anything
outside the directory of the cache, say which operations will fail, and lose stored results.

**What holds throughout.**  A stored result is the one of the newest record with its name.  An
entry in memory belongs to the newest record of its path that is not lost, an entry of the index
on disk to the newest one that was saved (`Sound`).
-/

namespace InstallerLint

open Disk

namespace Cache

/-- What became of the entry of a stored result. -/
inductive Fate where
  /-- It is in memory only. -/
  | pending
  /-- It was saved with the index. -/
  | saved
  /-- The program was started again before it was saved. -/
  | lost
  deriving DecidableEq, Repr

/-- A result that was stored. -/
structure Record where
  path : String
  source : Bytes
  /-- The context it was stored under. -/
  context : String
  /-- The version of the tool that stored it. -/
  version : String
  result : FileResult
  fate : Fate

namespace Record

/-- The name under which the result is stored. -/
def file (r : Record) : String := CacheEntry.fileFor r.path (CacheEntry.hashOf r.source)

/-- The record after the index was saved. -/
def keep (r : Record) : Record := if r.fate = .pending then { r with fate := .saved } else r

/-- The record after the program was started again. -/
def drop (r : Record) : Record := if r.fate = .pending then { r with fate := .lost } else r

/-- An entry is that of a record. -/
structure Vouches (r : Record) (e : CacheEntry) : Prop where
  hash : e.contentHash = CacheEntry.hashOf r.source
  version : e.toolVersion = r.version
  context : e.context = r.context
  file : e.resultFile = r.file

end Record

/-- What happens to a cache. -/
inductive Step where
  /-- The program starts and opens the cache. -/
  | start (version : String)
  | context (key : String)
  | put (path : String) (source : Bytes) (result : FileResult)
  | get (path : String) (source : Bytes)
  | invalidate (path : String)
  | cleanup
  | clear
  | save
  | world (disk : Disk)

/-- A disk with the cache that is open and everything that was stored. -/
structure Session where
  cache : Option Cache := none
  disk : Disk
  /-- What was stored, the newest first. -/
  records : List Record := []

/-- Whether storing a result gets as far as to write it. -/
def writes (c : Cache) (path : String) (source : Bytes) (r : FileResult) (d : Disk) : Bool :=
  r.isGraded && (onDisk (blobPath c.dir (c.entryFor path source d.now).resultFile)
    (DiskM.writeWhole (resultsPath c.dir) (c.entryFor path source d.now).resultFile (blobOf r))
    d).1.isOk

namespace Session

/-- What a step does to an open cache. -/
def act (s : Session) (c : Cache) : Step → Session
  | .context key => { s with cache := some (c.setContext key) }
  | .put path source r =>
    { cache := some (c.put path source r s.disk).2.1
      disk := (c.put path source r s.disk).2.2
      records := if c.writes path source r s.disk
        then ⟨path, source, c.context, c.toolVersion, r, .pending⟩ :: s.records else s.records }
  | .get path source =>
    { s with
      cache := some (c.get path source s.disk).2.1
      disk := (c.get path source s.disk).2.2 }
  | .invalidate path =>
    { s with
      cache := some (c.invalidate path s.disk).1
      disk := (c.invalidate path s.disk).2 }
  | .cleanup =>
    { s with cache := some (c.cleanup s.disk).2.1, disk := (c.cleanup s.disk).2.2 }
  | .clear => { s with cache := some (c.clear s.disk).2.1, disk := (c.clear s.disk).2.2 }
  | .save =>
    { cache := some (c.save s.disk).2.1
      disk := (c.save s.disk).2.2
      records := if (c.save s.disk).1.isOk then s.records.map .keep else s.records }
  | _ => s

/-- What a step does. -/
def step (dir : String) (s : Session) : Step → Session
  | .start version =>
    { cache := (open_ dir version s.disk).1.result.toOption
      disk := (open_ dir version s.disk).2
      records := s.records.map .drop }
  | .world disk => { s with disk }
  | st => s.cache.elim s fun c => s.act c st

/-- What steps do, one after the other. -/
def run (dir : String) (s : Session) (steps : List Step) : Session := steps.foldl (step dir) s

end Session

/-- Nobody but the cache writes to its directory; stored results may get lost. -/
def Undisturbed (dir : String) (d d' : Disk) : Prop :=
  (d.Missing dir ∧ d'.Missing dir) ∨
    ∃ v v', Home dir v d ∧ Home dir v' d' ∧ indexAt v' d' = indexAt v d ∧
      ∀ f content, blobAt v' d' f = some content → blobAt v d f = some content

/-- There is no cache in a directory: it does not exist, or holds neither an index nor results. -/
def Vacant (dir : String) (d : Disk) : Prop :=
  d.Missing dir ∨ ∃ v, Home dir v d ∧ indexAt v d = none ∧ ∀ f, blobAt v d f = none

section Vouched

/-- Every stored result is that of the newest record with its name. -/
def BlobsVouched (records : List Record) (v : List String) (d : Disk) : Prop :=
  ∀ f content, ¬ DiskM.Temporary f → blobAt v d f = some content →
    ∃ r, records.find? (·.file = f) = some r ∧ content = blobOf r.result

/-- Every entry of the index on disk is that of the newest record of its path that was saved. -/
def IndexVouched (records : List Record) (v : List String) (d : Disk) : Prop :=
  ∀ content ix, indexAt v d = some content → CacheIndex.parse content = .ok ix →
    ∀ path e, ix.find? path = some e →
      ∃ r, records.find? (fun r => r.fate = .saved && r.path = path) = some r ∧ r.Vouches e

/-- Every entry in memory is that of the newest record of its path that is not lost. -/
def EntriesVouched (records : List Record) (ix : CacheIndex) : Prop :=
  ∀ path e, ix.find? path = some e →
    ∃ r, records.find? (fun r => r.fate ≠ .lost && r.path = path) = some r ∧ r.Vouches e

/-- What holds of an open cache. -/
structure MemorySound (dir : String) (records : List Record) (c : Cache) : Prop where
  dir : c.dir = dir
  distinct : c.index.Distinct
  clean : c.dirty = false → ∀ r ∈ records, r.fate ≠ .pending
  entries : EntriesVouched records c.index

/-- What holds of the directory of a cache. -/
structure DiskSound (dir : String) (records : List Record) (v : List String) (d : Disk) : Prop where
  home : Home dir v d
  blobs : BlobsVouched records v d
  index : IndexVouched records v d

/-- What holds throughout. -/
structure Sound (dir : String) (s : Session) : Prop where
  graded : ∀ r ∈ s.records, r.result.isGraded = true
  disk : (s.cache = none ∧ s.disk.Missing dir) ∨ ∃ v, DiskSound dir s.records v s.disk
  memory : ∀ c, s.cache = some c → MemorySound dir s.records c

end Vouched

section Records

variable {r : Record} {e : CacheEntry}

theorem Record.file_keep (r : Record) : r.keep.file = r.file := by
  unfold keep
  split <;> rfl

theorem Record.file_drop (r : Record) : r.drop.file = r.file := by
  unfold drop
  split <;> rfl

theorem Record.result_keep (r : Record) : r.keep.result = r.result := by
  unfold keep
  split <;> rfl

theorem Record.result_drop (r : Record) : r.drop.result = r.result := by
  unfold drop
  split <;> rfl

/-- A record vouches for the same entry once it is saved. -/
theorem Record.Vouches.keep (h : r.Vouches e) : r.keep.Vouches e := by
  unfold Record.keep
  split
  · exact ⟨h.hash, h.version, h.context, h.file⟩
  · exact h

/-- A record vouches for the same entry once its session is gone. -/
theorem Record.Vouches.drop (h : r.Vouches e) : r.drop.Vouches e := by
  unfold Record.drop
  split
  · exact ⟨h.hash, h.version, h.context, h.file⟩
  · exact h

theorem Record.Vouches.isBlob (h : r.Vouches e) : IsBlob e.resultFile := by
  rw [h.file]
  exact isBlob_fileFor _ _

/-- Records that were saved are those that were not lost, once the index is saved. -/
theorem saved_keep (r : Record) (path : String) :
    (r.keep.fate = .saved && r.keep.path = path) = (r.fate ≠ .lost && r.path = path) := by
  obtain ⟨_, _, _, _, _, fate⟩ := r
  cases fate <;> simp [Record.keep]

theorem unlost_keep (r : Record) (path : String) :
    (r.keep.fate ≠ .lost && r.keep.path = path) = (r.fate ≠ .lost && r.path = path) := by
  obtain ⟨_, _, _, _, _, fate⟩ := r
  cases fate <;> simp [Record.keep]

theorem saved_drop (r : Record) (path : String) :
    (r.drop.fate = .saved && r.drop.path = path) = (r.fate = .saved && r.path = path) := by
  obtain ⟨_, _, _, _, _, fate⟩ := r
  cases fate <;> simp [Record.drop]

/-- Records that are not lost are those that were saved, once the program is started again. -/
theorem unlost_drop (r : Record) (path : String) :
    (r.drop.fate ≠ .lost && r.drop.path = path) = (r.fate = .saved && r.path = path) := by
  obtain ⟨_, _, _, _, _, fate⟩ := r
  cases fate <;> simp [Record.drop]

theorem find?_map_of_eq {f : Record → Record} {p q : Record → Bool} (h : ∀ r, p (f r) = q r)
    (records : List Record) : (records.map f).find? p = (records.find? q).map f := by
  rw [List.find?_map]
  congr 2
  funext r
  exact h r

end Records

section Preserved

variable {dir : String} {records : List Record} {v : List String} {d d' : Disk}

/-- Results stay vouched for when only the fates of records change. -/
theorem BlobsVouched.map {f : Record → Record} (hfile : ∀ r, (f r).file = r.file)
    (hresult : ∀ r, (f r).result = r.result) (h : BlobsVouched records v d) :
    BlobsVouched (records.map f) v d := by
  intro name content hname hc
  obtain ⟨r, hr, rfl⟩ := h name content hname hc
  refine ⟨f r, ?_, by rw [hresult]⟩
  rw [find?_map_of_eq (q := fun r => r.file = name) (fun r => by rw [hfile]), hr]
  rfl

/-- A sound disk stays sound when files are taken away. -/
theorem DiskSound.fewer (h : DiskSound dir records v d) (hfewer : Fewer dir v d d') :
    DiskSound dir records v d' where
  home := hfewer.home
  blobs := fun f content hf hc => h.blobs f content hf (hfewer.blobs f hf content hc)
  index := fun content ix hc => h.index content ix (hfewer.index ▸ hc)

/-- A sound disk stays sound when the session stops. -/
theorem DiskSound.drop (h : DiskSound dir records v d) :
    DiskSound dir (records.map .drop) v d where
  home := h.home
  blobs := h.blobs.map Record.file_drop Record.result_drop
  index := by
    intro content ix hc hix path e he
    obtain ⟨r, hr, hv⟩ := h.index content ix hc hix path e he
    refine ⟨r.drop, ?_, hv.drop⟩
    rw [find?_map_of_eq fun r => saved_drop r path, hr]
    rfl

/-- A disk without index and results is sound. -/
theorem diskSound_of_empty (hhome : Home dir v d) (hindex : indexAt v d = none)
    (hblobs : ∀ f, blobAt v d f = none) : DiskSound dir records v d where
  home := hhome
  blobs := fun f content _ hc => by
    rw [hblobs] at hc
    cases hc
  index := fun content ix hc => by
    rw [hindex] at hc
    cases hc

theorem entriesVouched_of_nil {ix : CacheIndex} (h : ix.entries = []) :
    EntriesVouched records ix := by
  intro path e he
  rw [CacheIndex.find?, h] at he
  cases he

/-- What is left of the entries is still vouched for. -/
theorem EntriesVouched.of_find? {ix ix' : CacheIndex} (h : EntriesVouched records ix)
    (hfind : ∀ path e, ix'.find? path = some e → ix.find? path = some e) :
    EntriesVouched records ix' :=
  fun path e he => h path e (hfind path e he)

/-- The entries of an index that is read after a start. -/
theorem IndexVouched.entries {content : Bytes} {ix : CacheIndex} (h : IndexVouched records v d)
    (hc : indexAt v d = some content) (hix : CacheIndex.parse content = .ok ix) :
    EntriesVouched (records.map .drop) ix := by
  intro path e he
  obtain ⟨r, hr, hv⟩ := h content ix hc hix path e he
  refine ⟨r.drop, ?_, hv.drop⟩
  rw [find?_map_of_eq fun r => unlost_drop r path, hr]
  rfl

/-- Nothing is pending once the session is gone. -/
theorem not_pending_drop : ∀ r ∈ records.map Record.drop, r.fate ≠ .pending := by
  intro r hr
  obtain ⟨r', -, rfl⟩ := List.mem_map.mp hr
  unfold Record.drop
  split
  · exact fun h => by cases h
  · assumption

end Preserved

section Start

open DiskM

variable {dir version : String} {records : List Record} {v : List String} {d : Disk}

/-- What a cache that was opened holds: the entries of the index on disk, or none. -/
def Loaded (dir : String) (v : List String) (d : Disk) (c : Cache) : Prop :=
  c.dir = dir ∧ (c.index.entries = [] ∨
    ∃ content, indexAt v d = some content ∧ CacheIndex.parse content = .ok c.index)

/-- How a cache is opened in a directory that is there. -/
inductive Begun (v : List String) (d : Disk) (c : Cache) (d' : Disk) : Prop where
  /-- With the entries of the index on disk. -/
  | loaded {content : Bytes} (hindex : indexAt v d = some content)
    (hparse : CacheIndex.parse content = .ok c.index)
    (hversion : c.index.version = CacheIndex.formatVersion) (hclean : c.dirty = false)
    (hblobs : ∀ f, blobAt v d' f = blobAt v d f)
  /-- Without entries, as there is no index. -/
  | fresh (hindex : indexAt v d = none) (hempty : c.index.entries = []) (hclean : c.dirty = false)
    (hblobs : ∀ f, blobAt v d' f = blobAt v d f)
  /-- Without entries, after all results were taken away, as the index is of no use. -/
  | restarted {content : Bytes} (hindex : indexAt v d = some content)
    (hbad : ∀ ix, CacheIndex.parse content = .ok ix → ix.version ≠ CacheIndex.formatVersion)
    (hempty : c.index.entries = []) (hdirty : c.dirty = true) (hblobs : ∀ f, blobAt v d' f = none)

theorem Begun.toLoaded {c : Cache} {d' : Disk} (h : Begun v d c d') : Loaded c.dir v d c := by
  cases h with
  | loaded hindex hparse _ _ _ => exact ⟨rfl, Or.inr ⟨_, hindex, hparse⟩⟩
  | fresh _ hempty _ _ => exact ⟨rfl, Or.inl hempty⟩
  | restarted _ _ hempty _ _ => exact ⟨rfl, Or.inl hempty⟩

/-- What was done before, without a change to the index and the results. -/
theorem Begun.of_same {c : Cache} {d₁ d' : Disk} (h : Begun v d₁ c d')
    (hindex : indexAt v d₁ = indexAt v d) (hblobs : ∀ f, blobAt v d₁ f = blobAt v d f) :
    Begun v d c d' := by
  cases h with
  | loaded hcontent hparse hversion hclean hsame =>
      exact .loaded (hindex ▸ hcontent) hparse hversion hclean fun f => (hsame f).trans (hblobs f)
  | fresh hnone hempty hclean hsame =>
      exact .fresh (hindex ▸ hnone) hempty hclean fun f => (hsame f).trans (hblobs f)
  | restarted hcontent hbad hempty hdirty hnone =>
      exact .restarted (hindex ▸ hcontent) hbad hempty hdirty hnone

/-- Starting afresh after an unusable index. -/
theorem restart_spec {c : Cache} {content : Bytes} (log : List LogEntry) (h : Home c.dir v d)
    (hempty : c.index.entries = []) (hcontent : indexAt v d = some content)
    (hbad : ∀ ix, CacheIndex.parse content = .ok ix → ix.version ≠ CacheIndex.formatVersion) :
    Fewer c.dir v d (c.restart log d).2 ∧
      ∀ c', (c.restart log d).1.result = .ok c' →
        c'.dir = c.dir ∧ Begun v d c' (c.restart log d).2 := by
  obtain ⟨hfewer, hnone⟩ := resetResults_spec h
  unfold restart
  generalize resetResults c.dir d = reset at hfewer hnone ⊢
  obtain ⟨result, d'⟩ := reset
  cases result with
  | ok u =>
      refine ⟨hfewer, fun c' hc' => ?_⟩
      cases hc'
      exact ⟨rfl, .restarted hcontent hbad hempty rfl (hnone rfl)⟩
  | error e => exact ⟨hfewer, fun c' hc' => by cases hc'⟩

/-- Opening with an index that was found. -/
theorem openWith_spec {c : Cache} {content : Bytes} (h : Home c.dir v d)
    (hempty : c.index.entries = []) (hclean : c.dirty = false)
    (hcontent : indexAt v d = some content) :
    Fewer c.dir v d (c.openWith content d).2 ∧
      ∀ c', (c.openWith content d).1.result = .ok c' →
        c'.dir = c.dir ∧ Begun v d c' (c.openWith content d).2 := by
  unfold openWith
  dsimp only
  cases hparse : CacheIndex.parse content with
  | error cause =>
      refine restart_spec _ h hempty hcontent fun ix hix => ?_
      rw [hparse] at hix
      cases hix
  | ok ix =>
      dsimp only
      split_ifs with hversion
      · refine ⟨Fewer.refl h, fun c' hc' => ?_⟩
        cases hc'
        exact ⟨rfl, .loaded hcontent hparse hversion hclean fun _ => rfl⟩
      · refine restart_spec _ h hempty hcontent fun ix' hix => ?_
        rw [hparse] at hix
        cases hix
        exact hversion

/-- Reading the index once the directories are there. -/
def openMade (dir version : String) (d : Disk) : Opened × Disk :=
  match DiskM.read (indexPath dir) d with
  | .ok content d' => openWith { dir, toolVersion := version, index := .fresh d.now } content d'
  | .error e d' =>
    if e.isNotFound then
      (⟨.ok { dir, toolVersion := version, index := .fresh d.now }, []⟩, d')
    else (⟨.error ⟨ioKind, indexPath dir, e.message⟩, []⟩, d')

/-- Opening once the directories are there. -/
theorem openMade_spec (version : String) (h : Home dir v d) :
    Fewer dir v d (openMade dir version d).2 ∧
      ∀ c, (openMade dir version d).1.result = .ok c →
        c.dir = dir ∧ Begun v d c (openMade dir version d).2 := by
  obtain ⟨hread⟩ := ends_readIndex h
  unfold openMade
  cases hact : DiskM.read (indexPath dir) d with
  | ok content d' =>
      rw [hact] at hread
      obtain ⟨hlike, hcontent⟩ := hread
      have hfewer := h.fewer_of_like hlike
      obtain ⟨hrest, hbegun⟩ := openWith_spec
        (c := { dir, toolVersion := version, index := .fresh d.now }) (h.of_like hlike) rfl rfl
        (hfewer.index.trans hcontent)
      refine ⟨hfewer.trans hrest, fun c hc => ?_⟩
      obtain ⟨hdir, hbegun⟩ := hbegun c hc
      exact ⟨hdir, hbegun.of_same hfewer.index (blobAt_of_like hlike)⟩
  | error e d' =>
      rw [hact] at hread
      have hfewer := h.fewer_of_like hread
      dsimp only
      split_ifs with hnotFound
      · refine ⟨hfewer, fun c hc => ?_⟩
        cases hc
        refine ⟨rfl, .fresh ?_ rfl rfl (blobAt_of_like hread)⟩
        -- an index that is there would have been found
        rw [Option.eq_none_iff_forall_ne_some]
        intro content hindex
        rw [not_isNotFound_of_index h hindex hact] at hnotFound
        cases hnotFound
      · exact ⟨hfewer, fun c hc => by cases hc⟩

/-- Opening makes the directories and then reads the index. -/
theorem open_eq (dir version : String) (d : Disk) :
    open_ dir version d =
      match onDisk (resultsPath dir) (makeDirs (resultsPath dir)) d with
      | (.error e, d') => (⟨.error e, []⟩, d')
      | (.ok (), d') => openMade dir version d' := by
  unfold open_
  generalize onDisk (resultsPath dir) (makeDirs (resultsPath dir)) d = made
  obtain ⟨r, d'⟩ := made
  cases r with
  | error e => rfl
  | ok u => rfl

/-- Opening a cache whose directory is there. -/
theorem open_spec (version : String) (h : Home dir v d) :
    Fewer dir v d (open_ dir version d).2 ∧
      ∀ c, (open_ dir version d).1.result = .ok c →
        c.dir = dir ∧ Begun v d c (open_ dir version d).2 := by
  have hmake := onDisk_of_ends (resultsPath dir) (ends_makeResults h)
  rw [open_eq]
  generalize onDisk (resultsPath dir) (makeDirs (resultsPath dir)) d = made at hmake
  obtain ⟨r, d₁⟩ := made
  rcases hmake with ⟨a, rfl, hfewer, -, hblobs⟩ | ⟨e, rfl, hfewer⟩
  · obtain ⟨hrest, hbegun⟩ := openMade_spec version hfewer.home
    refine ⟨hfewer.trans hrest, fun c hc => ?_⟩
    obtain ⟨hdir, hbegun⟩ := hbegun c hc
    exact ⟨hdir, hbegun.of_same hfewer.index hblobs⟩
  · exact ⟨hfewer, fun c hc => by cases hc⟩

/-- A directory that was made with that of the results holds nothing else. -/
theorem home_of_made (hseat : d.Seated dir v)
    (honly : ∀ w, Inside v w → ∀ e, d.root.look w = some e → w = v ++ ["results"] ∧ e = .dir []) :
    Home dir v d ∧ indexAt v d = none ∧ ∀ f, blobAt v d f = none := by
  have hindex : d.root.look (v ++ ["index.json"]) = none := by
    cases hlook : d.root.look (v ++ ["index.json"]) with
    | none => rfl
    | some e => simpa using (honly _ (inside_concat v _ []) e hlook).1
  have hblob : ∀ f, d.root.look (v ++ ["results"] ++ [f]) = none := by
    intro f
    cases hlook : d.root.look (v ++ ["results"] ++ [f]) with
    | none => rfl
    | some e =>
        have hin : Inside v (v ++ ["results"] ++ [f]) := (inside_concat _ f []).of_concat
        simpa using (honly _ hin e hlook).1
  refine ⟨⟨hseat, fun n e he => ?_, fun n e he => ?_⟩, ?_, fun f => ?_⟩
  · obtain ⟨hn, hdir⟩ := honly _ (inside_concat v n []) e he
    exact Or.inr ⟨by simpa using hn, hdir⟩
  · rw [hblob] at he
    cases he
  · rw [indexAt, hindex]
    rfl
  · rw [blobAt, hblob]
    rfl

theorem Vacant.of_madeEmpty (h : MadeEmpty dir d) : Vacant dir d := by
  rcases h with h | ⟨v, hseat, hhollow⟩
  · exact Or.inl h
  · refine Or.inr ⟨v, home_of_made hseat fun w hw e he => ?_⟩
    rw [hhollow w hw] at he
    cases he

/-- Opening a cache whose directory is missing: nothing is found in the one that is made. -/
theorem open_of_missing (version : String) (h : d.Missing dir) :
    (∃ e, (open_ dir version d).1.result = .error e ∧ Vacant dir (open_ dir version d).2) ∨
      ∃ v d₁, Home dir v d₁ ∧ indexAt v d₁ = none ∧ (∀ f, blobAt v d₁ f = none) ∧
        Fewer dir v d₁ (open_ dir version d).2 ∧
        ∀ c, (open_ dir version d).1.result = .ok c →
          c.dir = dir ∧ Begun v d₁ c (open_ dir version d).2 := by
  have hends : Ends (makeDirs (resultsPath dir)) d
      (fun _ d' => ∃ v, d'.Seated dir v ∧ d'.root.look (v ++ ["results"]) = some (.dir []) ∧
        ∀ w, Inside v w → ∀ e, d'.root.look w = some e → w = v ++ ["results"] ∧ e = .dir [])
      (MadeEmpty dir) := ends_makeDirs_of_missing h proper_results
  have hmake := onDisk_of_ends (resultsPath dir) hends
  rw [open_eq]
  generalize onDisk (resultsPath dir) (makeDirs (resultsPath dir)) d = made at hmake
  obtain ⟨r, d₁⟩ := made
  rcases hmake with ⟨a, rfl, v, hseat, -, honly⟩ | ⟨e, rfl, hempty⟩
  · obtain ⟨hhome, hindex, hblobs⟩ := home_of_made hseat honly
    exact Or.inr ⟨v, d₁, hhome, hindex, hblobs, openMade_spec version hhome⟩
  · exact Or.inl ⟨e, rfl, .of_madeEmpty hempty⟩

end Start

end Cache

end InstallerLint
