import InstallerLint.Proofs.Cache.Kept
import InstallerLint.Proofs.Cache.Soundness

/-!
# A cache is a keyed map

Between two starts a cache answers like a map from paths to results.  A `Shelf` is such a map: what
is stored replaces what was stored for the same path, and stays until its path is forgotten, it
becomes too old at a clean-up, or everything goes.

**Index and results.**  The index in memory holds the entry of what is on the shelf, and the result
of each entry is on disk under its name (`Stands`).  No operation takes away a result that an entry
names, and storing a result touches no other name, as long as different paths have different names.

**The main result** is `get_eq_shelf`.
-/

namespace InstallerLint

open Disk

namespace Cache

/-- What a map holds for a path. -/
structure Held where
  source : Bytes
  /-- The context when it was stored. -/
  context : String
  result : FileResult
  /-- When it was stored. -/
  time : Int

/-- A map from paths to results, and the present context. -/
structure Shelf where
  context : String := ""
  /-- What is held for each path. -/
  held : String → Option Held := fun _ => none

namespace Shelf

/-- The map with something else, or nothing, for a path. -/
def set (m : Shelf) (path : String) (x : Option Held) : Shelf :=
  { m with held := fun p => if p = path then x else m.held p }

theorem held_set (m : Shelf) (path : String) (x : Option Held) (p : String) :
    (m.set path x).held p = if p = path then x else m.held p := rfl

/-- What a step at some time does to a map. -/
def step (now : Int) (m : Shelf) : Step → Shelf
  | .context key => { m with context := key }
  | .put path source result => m.set path (some ⟨source, m.context, result, now⟩)
  | .invalidate path => m.set path none
  | .cleanup => { m with held := fun p => (m.held p).filter fun x => now - maxAge ≤ x.time }
  | .clear => { m with held := fun _ => none }
  | _ => m

/-- What steps do to a map; the clock is that of the disk. -/
def run (dir : String) : Session → Shelf → List Step → Shelf
  | _, m, [] => m
  | s, m, st :: rest => run dir (s.step dir st) (m.step s.disk.now st) rest

/-- What a map answers: the result that is held for a path, if it was stored for the same content
and under the present context. -/
def get (m : Shelf) (path : String) (source : Bytes) : Option FileResult :=
  ((m.held path).filter fun x => x.source = source ∧ x.context = m.context).map fun x =>
    { x.result with fromCache := true }

end Shelf

/-- Whether a step asks for a result. -/
def Step.isGet : Step → Bool
  | .get .. => true
  | _ => false

/-- Whether a step stores a result. -/
def Step.isPut : Step → Bool
  | .put .. => true
  | _ => false

/-- Nobody else writes to the directory of the cache. -/
def Untouched (dir : String) (d d' : Disk) : Prop :=
  ∀ v, Home dir v d →
    Home dir v d' ∧ indexAt v d' = indexAt v d ∧ ∀ f, blobAt v d' f = blobAt v d f

/-- The disk does not refuse to read the result that an entry names, unless there is none. -/
def Readable (c : Cache) (path : String) (d : Disk) : Prop :=
  ∀ e err d', c.index.find? path = some e →
    DiskM.read (blobPath c.dir e.resultFile) d = .error err d' → err.isNotFound = true

/-- A step of a running program in which the disk refuses neither to write nor to read, and nobody
else writes.  It does not matter whether the disk refuses to take something away. -/
def Step.Calm (dir : String) (s : Session) (c : Cache) : Step → Prop
  | .start _ => False
  | .put path source r => (c.put path source r s.disk).1.isOk = true
  | .get path _ => c.Readable path s.disk
  | .save => (c.save s.disk).1.isOk = true
  | .world d => Untouched dir s.disk d
  | _ => True

/-- All steps are calm, and the cache is open at each of them. -/
def Session.Calm (dir : String) : Session → List Step → Prop
  | _, [] => True
  | s, st :: rest => (∃ c, s.cache = some c ∧ st.Calm dir s c) ∧ Calm dir (s.step dir st) rest

namespace Held

/-- The name under which the result is stored. -/
def file (x : Held) (path : String) : String :=
  CacheEntry.fileFor path (CacheEntry.hashOf x.source)

/-- The entry in the index. -/
def entry (x : Held) (version path : String) : CacheEntry :=
  ⟨CacheEntry.hashOf x.source, x.time, version, x.file path, x.context⟩

theorem resultFile_entry (x : Held) (version path : String) :
    (x.entry version path).resultFile = x.file path := rfl

theorem isBlob_file (x : Held) (path : String) : IsBlob (x.file path) := isBlob_fileFor path x.source

end Held

/-- A cache stands for a map: the index holds the entries of what the map holds, and the results are
on disk.  All of them were stored for paths and contents that are in use. -/
structure Stands (dir : String) (used : String → Bytes → Prop) (s : Session) (c : Cache)
    (m : Shelf) : Prop where
  sound : Sound dir s
  cache : s.cache = some c
  context : c.context = m.context
  entries : ∀ path, c.index.find? path = (m.held path).map (·.entry c.toolVersion path)
  stored : ∃ v, Home dir v s.disk ∧
    ∀ path x, m.held path = some x → blobAt v s.disk (x.file path) = some (blobOf x.result)
  held : ∀ path x, m.held path = some x →
    used path x.source ∧ x.result.Encodable ∧ x.result.file = path

section Index

variable {ix : CacheIndex} {path other : String} {e : CacheEntry}

theorem find?_erase_of_ne (h : ix.Distinct) (hne : other ≠ path) :
    (ix.erase path).find? other = ix.find? other := by
  refine Option.ext fun e => ⟨fun he => (CacheIndex.find?_of_erase h he).2, fun he => ?_⟩
  refine Assoc.lookup_eq_some_of_mem (h.erase path) (List.mem_filter.mpr ⟨?_, by simpa using hne⟩)
  exact Assoc.mem_of_lookup_eq_some he

theorem find?_insert_of_ne (h : ix.Distinct) (hne : other ≠ path) (e : CacheEntry) :
    (ix.insert path e).find? other = ix.find? other := by
  rw [← find?_erase_of_ne h hne]
  simp [CacheIndex.find?, CacheIndex.insert, CacheIndex.erase, List.lookup_cons,
    beq_false_of_ne hne]

theorem mem_resultFiles (h : ix.find? path = some e) : e.resultFile ∈ ix.resultFiles :=
  List.mem_map.mpr ⟨(path, e), Assoc.mem_of_lookup_eq_some h, rfl⟩

end Index

section Steps

variable {dir : String} {used : String → Bytes → Prop} {s s' : Session} {c c' : Cache}
  {m m' : Shelf}

/-- An operation that may drop entries, and leaves the results of the others in place. -/
structure Drops (dir : String) (c : Cache) (d : Disk) (c' : Cache) (d' : Disk) : Prop where
  context : c'.context = c.context
  version : c'.toolVersion = c.toolVersion
  keeps : ∀ v, Home dir v d → Home dir v d' ∧ Keeps v (· ∉ c'.index.resultFiles) d d'

/-- A map that holds less, with the results that are still named in place. -/
theorem Stands.drops (h : Stands dir used s c m) (hdrops : Drops dir c s.disk c' s'.disk)
    (hsound : Sound dir s') (hcache : s'.cache = some c') (hcontext : m'.context = m.context)
    (hentries : ∀ path, c'.index.find? path = (m'.held path).map (·.entry c.toolVersion path))
    (hheld : ∀ path x, m'.held path = some x → m.held path = some x) :
    Stands dir used s' c' m' where
  sound := hsound
  cache := hcache
  context := hdrops.context.trans (h.context.trans hcontext.symm)
  entries := hdrops.version ▸ hentries
  stored := by
    obtain ⟨v, hhome, hblobs⟩ := h.stored
    obtain ⟨hhome', hsame⟩ := hdrops.keeps v hhome
    refine ⟨v, hhome', fun path x hx => ?_⟩
    have hfind : c'.index.find? path = some (x.entry c.toolVersion path) := by
      rw [hentries, hx]
      rfl
    have hnamed := mem_resultFiles hfind
    rw [x.resultFile_entry] at hnamed
    rw [hsame (x.file path) (x.isBlob_file path).finished (not_not.mpr hnamed)]
    exact hblobs path x (hheld path x hx)
  held := fun path x hx => h.held path x (hheld path x hx)

theorem Stands.distinct (h : Stands dir used s c m) : c.index.Distinct :=
  (h.sound.memory c h.cache).distinct

theorem Stands.dir_eq (h : Stands dir used s c m) : c.dir = dir := (h.sound.memory c h.cache).dir

theorem Stands.isCurrent_entry (h : Stands dir used s c m) (x : Held) (path hash : String) :
    c.isCurrent (x.entry c.toolVersion path) hash = true ↔
      CacheEntry.hashOf x.source = hash ∧ x.context = m.context := by
  rw [← h.context]
  simp only [isCurrent, Bool.and_eq_true, decide_eq_true_eq]
  exact ⟨fun hall => ⟨hall.1.1, hall.2⟩, fun hboth => ⟨⟨hboth.1, rfl⟩, hboth.2⟩⟩

/-- When a file needs to be analysed. -/
theorem Stands.needsAnalysis (h : Stands dir used s c m) (path : String) (source : Bytes) :
    c.needsAnalysis path source = true ↔ ((m.held path).filter fun x =>
      CacheEntry.hashOf x.source = CacheEntry.hashOf source ∧ x.context = m.context) = none := by
  unfold Cache.needsAnalysis
  rw [h.entries]
  cases m.held path with
  | none => exact ⟨fun _ => rfl, fun _ => rfl⟩
  | some x =>
      have hcurrent := h.isCurrent_entry x path (CacheEntry.hashOf source)
      by_cases hp : CacheEntry.hashOf x.source = CacheEntry.hashOf source ∧ x.context = m.context
      · simp [hcurrent.mpr hp, Option.filter, hp]
      · simp [Bool.eq_false_iff.mpr (mt hcurrent.mp hp), Option.filter, hp]

/-- Equal hashes are those of equal contents, when no two contents in use collide. -/
theorem Stands.filter_hash (h : Stands dir used s c m) (path : String) {source : Bytes}
    (hhash : ∀ b, used path b → CacheEntry.hashOf b = CacheEntry.hashOf source → b = source) :
    ((m.held path).filter fun x => CacheEntry.hashOf x.source = CacheEntry.hashOf source ∧
        x.context = m.context) =
      (m.held path).filter fun x => x.source = source ∧ x.context = m.context := by
  have hsome := fun x hx => hhash _ (h.held path x hx).1
  cases hx : m.held path with
  | none => rw [Option.filter_none, Option.filter_none]
  | some x =>
      have hiff : CacheEntry.hashOf x.source = CacheEntry.hashOf source ↔ x.source = source :=
        ⟨hsome x hx, fun heq => by rw [heq]⟩
      simp only [Option.filter_some, hiff]

/-- The result of a path that is held is read, unless the disk refuses it. -/
theorem Stands.read_held (h : Stands dir used s c m) {path : String} {x : Held}
    (hx : m.held path = some x) (hread : c.Readable path s.disk) :
    ∃ d, DiskM.read (blobPath c.dir (x.entry c.toolVersion path).resultFile) s.disk =
      .ok (blobOf x.result) d ∧ Like s.disk d := by
  have hfind := h.entries path
  rw [hx] at hfind
  obtain ⟨v, hhome, hblobs⟩ := h.stored
  have hproper : Path.Proper (x.file path) := (x.isBlob_file path).proper
  obtain ⟨hends⟩ := ends_readBlob hhome hproper
  have hfound : ∀ {e d'}, DiskM.read (blobPath dir (x.file path)) s.disk = .error e d' →
      e.isNotFound = false :=
    not_isNotFound_of_blob hhome hproper (hblobs path x hx)
  have hrefused := fun {err d'} => hread _ err d' hfind
  have hpath : blobPath c.dir (x.entry c.toolVersion path).resultFile =
      blobPath dir (x.file path) := by
    rw [h.dir_eq, x.resultFile_entry]
  rw [hpath] at hrefused ⊢
  generalize DiskM.read (blobPath dir (x.file path)) s.disk = result at hends hfound hrefused ⊢
  cases result with
  | error err d' =>
      have hyes := hrefused rfl
      rw [hfound rfl] at hyes
      cases hyes
  | ok content d' =>
      obtain ⟨hlike, hcontent⟩ := hends
      rw [hblobs path x hx] at hcontent
      obtain rfl := Option.some.inj hcontent
      exact ⟨d', rfl, hlike⟩

/-- How a look into the cache ends. -/
theorem Stands.get (h : Stands dir used s c m) {path : String} (source : Bytes)
    (hread : c.Readable path s.disk) :
    ∃ stats d, c.get path source s.disk =
        (((m.held path).filter fun x => CacheEntry.hashOf x.source = CacheEntry.hashOf source ∧
          x.context = m.context).map fun x => { x.result with fromCache := true },
          { c with stats }, d) ∧
      Like s.disk d ∧ stats.hits + stats.misses = c.stats.hits + c.stats.misses + 1 ∧
      stats.analyzed = c.stats.analyzed := by
  have hfind := h.entries path
  unfold Cache.get
  cases hx : m.held path with
  | none =>
      rw [hx] at hfind
      rw [hfind]
      exact ⟨_, _, rfl, Like.refl _, rfl, rfl⟩
  | some x =>
      rw [hx] at hfind
      have hcurrent := h.isCurrent_entry x path (CacheEntry.hashOf source)
      rw [hfind]
      dsimp only [Option.map_some]
      by_cases hp : CacheEntry.hashOf x.source = CacheEntry.hashOf source ∧ x.context = m.context
      · rw [hcurrent.mpr hp, if_neg (by decide)]
        obtain ⟨-, hencodable, hfile⟩ := h.held path x hx
        obtain ⟨d', hok, hlike⟩ := h.read_held hx hread
        have hback := readBlob_blobOf hencodable
        rw [hfile] at hback
        refine ⟨c.stats.addHit source.length, d', ?_, hlike, Nat.add_right_comm .., rfl⟩
        rw [hok]
        dsimp only
        rw [hback]
        simp [Option.filter, hp, hfile]
      · rw [Bool.eq_false_iff.mpr (mt hcurrent.mp hp), if_pos (by decide)]
        refine ⟨c.stats.addMiss .stale, s.disk, ?_, Like.refl _, rfl, rfl⟩
        simp [Option.filter, hp]

/-- How a step changes the counters of looks and of stored results. -/
structure Counts (st : Step) (c c' : Cache) : Prop where
  looks : c'.stats.hits + c'.stats.misses =
    c.stats.hits + c.stats.misses + if st.isGet then 1 else 0
  analyzed : c'.stats.analyzed = c.stats.analyzed + if st.isPut then 1 else 0

theorem counts_of_stats {st : Step} (hstats : c'.stats = c.stats) (hget : st.isGet = false)
    (hput : st.isPut = false) : Counts st c c' := by
  constructor
  · rw [hstats, hget]
    rfl
  · rw [hstats, hput]
    rfl

theorem Stands.context_step (h : Stands dir used s c m) (key : String) :
    Stands dir used (s.act c (.context key)) (c.setContext key)
      (m.step s.disk.now (.context key)) where
  sound := h.sound.context h.cache key
  cache := rfl
  context := rfl
  entries := h.entries
  stored := h.stored
  held := h.held

theorem Stands.get_step (h : Stands dir used s c m) {path : String} (source : Bytes)
    (hread : c.Readable path s.disk) :
    ∃ c', Stands dir used (s.act c (.get path source)) c' m ∧ Counts (.get path source) c c' := by
  obtain ⟨stats, d, heq, hlike, hlooks, hanalyzed⟩ := h.get source hread
  have hact : s.act c (.get path source) = { s with cache := some { c with stats }, disk := d } := by
    simp only [Session.act, heq]
  have hsound := h.sound.get h.cache path source
  rw [hact] at hsound ⊢
  refine ⟨{ c with stats }, h.drops ⟨rfl, rfl, fun v hhome => ?_⟩ hsound rfl rfl h.entries
    fun _ _ hx => hx, hlooks, hanalyzed⟩
  exact ⟨hhome.of_like hlike, keeps_of_like hlike⟩

/-- Entries are those of results with proper names. -/
theorem Stands.proper (h : Stands dir used s c m) {path : String} {e : CacheEntry}
    (he : c.index.find? path = some e) : Path.Proper e.resultFile :=
  (h.sound.memory c h.cache).proper he

theorem Stands.keeps_removal (h : Stands dir used s c m) (used' : List String) {fs : List String}
    (hfs : ∀ f ∈ fs, Path.Proper f) (v : List String) (hhome : Home dir v s.disk) :
    Home dir v (removeUnshared c.dir used' fs s.disk).2 ∧
      Keeps v (· ∉ used') s.disk (removeUnshared c.dir used' fs s.disk).2 := by
  rw [h.dir_eq]
  exact ⟨(fewer_removeUnshared used' hhome hfs).home, keeps_removeUnshared used' hhome hfs⟩

theorem Stands.invalidate_step (h : Stands dir used s c m) (path : String) :
    ∃ c', Stands dir used (s.act c (.invalidate path)) c' (m.set path none) ∧
      Counts (.invalidate path) c c' := by
  have hheld : ∀ p x, (m.set path none).held p = some x → m.held p = some x := by
    intro p x hx
    rw [Shelf.held_set] at hx
    split_ifs at hx
    exact hx
  have hdrops : Drops dir c s.disk (c.invalidate path s.disk).1 (c.invalidate path s.disk).2 ∧
      (c.invalidate path s.disk).1.stats = c.stats ∧
      ∀ p, (c.invalidate path s.disk).1.index.find? p =
        if p = path then none else c.index.find? p := by
    unfold Cache.invalidate
    cases hfind : c.index.find? path with
    | none =>
        refine ⟨⟨rfl, rfl, fun v hhome => ⟨hhome, Keeps.refl _⟩⟩, rfl, fun p => ?_⟩
        split_ifs with hp
        · exact hp ▸ hfind
        · rfl
    | some e =>
        refine ⟨⟨rfl, rfl, fun v hhome => ?_⟩, rfl, fun p => ?_⟩
        · refine h.keeps_removal _ (fun f hf => ?_) v hhome
          rw [List.mem_singleton.mp hf]
          exact h.proper hfind
        · split_ifs with hp
          · exact hp ▸ CacheIndex.find?_erase_self c.index path
          · exact find?_erase_of_ne h.distinct hp
  obtain ⟨hdrops, hstats, hfind⟩ := hdrops
  refine ⟨_, h.drops hdrops (h.sound.invalidate h.cache path) rfl rfl (fun p => ?_) hheld,
    counts_of_stats hstats rfl rfl⟩
  rw [hfind, Shelf.held_set]
  split_ifs
  · rfl
  · exact h.entries p

theorem Stands.cleanup_step (h : Stands dir used s c m) :
    ∃ c', Stands dir used (s.act c .cleanup) c' (m.step s.disk.now .cleanup) ∧
      Counts .cleanup c c' := by
  have hfind : ∀ p, (c.cleanup s.disk).2.1.index.find? p =
      (c.index.find? p).filter fun e => !isOld s.disk.now e := fun p =>
    Assoc.lookup_filter_snd h.distinct (fun e => !isOld s.disk.now e) p
  have hdrops : Drops dir c s.disk (c.cleanup s.disk).2.1 (c.cleanup s.disk).2.2 := by
    refine ⟨rfl, rfl, fun v hhome => h.keeps_removal _ (fun f hf => ?_) v hhome⟩
    obtain ⟨x, hx, rfl⟩ := List.mem_map.mp hf
    exact h.proper (Assoc.lookup_eq_some_of_mem h.distinct (List.mem_of_mem_filter hx))
  have hheld : ∀ p, (m.step s.disk.now .cleanup).held p =
      (m.held p).filter fun x => s.disk.now - maxAge ≤ x.time := fun _ => rfl
  refine ⟨_, h.drops hdrops (h.sound.cleanup h.cache) rfl rfl (fun p => ?_) fun p x hx => ?_,
    counts_of_stats rfl rfl rfl⟩
  · have hage : ∀ x : Held, (!isOld s.disk.now (x.entry c.toolVersion p)) =
        decide (s.disk.now - maxAge ≤ x.time) := by
      intro x
      rw [Bool.eq_iff_iff, Bool.not_eq_true', isOld, decide_eq_false_iff_not, decide_eq_true_eq,
        Int.not_lt]
      rfl
    rw [hfind, h.entries, hheld, Option.filter_map]
    simp only [Function.comp_def, hage]
  · exact (Option.filter_eq_some_iff.mp hx).1

theorem Stands.clear_step (h : Stands dir used s c m) :
    ∃ c', Stands dir used (s.act c .clear) c' (m.step s.disk.now .clear) ∧ Counts .clear c c' := by
  have hdrops : Drops dir c s.disk (c.clear s.disk).2.1 (c.clear s.disk).2.2 := by
    refine ⟨rfl, rfl, fun v hhome => ⟨?_, fun f _ hf => absurd List.not_mem_nil hf⟩⟩
    have hreset := (fewer_resetResults hhome).home
    rw [← h.dir_eq] at hreset ⊢
    exact hreset
  have hnone : ∀ p x, (m.step s.disk.now .clear).held p = some x → m.held p = some x := by
    intro p x hx
    cases hx
  exact ⟨_, h.drops hdrops (h.sound.clear h.cache) rfl rfl (fun _ => rfl) hnone,
    counts_of_stats rfl rfl rfl⟩

theorem Stands.save_step (h : Stands dir used s c m) (hok : (c.save s.disk).1 = .ok ()) :
    ∃ c', Stands dir used (s.act c .save) c' m ∧ Counts .save c c' := by
  have hdrops : Drops dir c s.disk (c.save s.disk).2.1 (c.save s.disk).2.2 ∧
      (c.save s.disk).2.1.stats = c.stats ∧ (c.save s.disk).2.1.index = c.index := by
    unfold Cache.save at hok ⊢
    split_ifs at hok ⊢ with hclean
    · exact ⟨⟨rfl, rfl, fun v hhome => ⟨hhome, Keeps.refl _⟩⟩, rfl, rfl⟩
    · have hwrite := fun v (hhome : Home dir v s.disk) =>
        onDisk_of_ends (indexPath c.dir) (ends_writeIndex c.index.render hhome)
      rw [← h.dir_eq] at hwrite ⊢
      generalize onDisk (indexPath c.dir) (DiskM.writeWhole c.dir "index.json" c.index.render)
        s.disk = written at hwrite hok ⊢
      obtain ⟨result, d⟩ := written
      cases result with
      | error e => cases hok
      | ok u =>
          refine ⟨⟨rfl, rfl, fun v hhome => ?_⟩, rfl, rfl⟩
          rcases hwrite v hhome with ⟨_, -, hhome', -, hblobs⟩ | ⟨e, he, -⟩
          · exact ⟨hhome', fun f _ _ => hblobs f⟩
          · cases he
  obtain ⟨hdrops, hstats, hindex⟩ := hdrops
  refine ⟨_, h.drops hdrops (h.sound.save h.cache) rfl rfl (fun p => ?_) fun _ _ hx => hx,
    counts_of_stats hstats rfl rfl⟩
  rw [hindex]
  exact h.entries p

theorem Untouched.undisturbed {d : Disk} (hd : Untouched dir s.disk d) (h : Sound dir s)
    (hc : s.cache = some c) : Undisturbed dir s.disk d := by
  obtain ⟨v, hdisk⟩ := h.opened hc
  obtain ⟨hhome, hindex, hblobs⟩ := hd v hdisk.home
  exact Or.inr ⟨v, v, hdisk.home, hhome, hindex, fun f content hcontent => hblobs f ▸ hcontent⟩

theorem Stands.world_step (h : Stands dir used s c m) {d : Disk} (hd : Untouched dir s.disk d) :
    Stands dir used (s.step dir (.world d)) c m := by
  have hdrops : Drops dir c s.disk c d := by
    refine ⟨rfl, rfl, fun v hhome => ?_⟩
    obtain ⟨hhome', -, hblobs⟩ := hd v hhome
    exact ⟨hhome', fun f _ _ => hblobs f⟩
  exact h.drops hdrops (h.sound.world (hd.undisturbed h.sound h.cache)) h.cache rfl h.entries
    fun _ _ hx => hx

/-- Storing a result that is written. -/
theorem put_eq {path : String} {source : Bytes} {r : FileResult} {d : Disk}
    (hok : (c.put path source r d).1 = .ok ()) :
    ∃ d₁, onDisk (blobPath c.dir (c.entryFor path source d.now).resultFile)
        (DiskM.writeWhole (resultsPath c.dir) (c.entryFor path source d.now).resultFile (blobOf r))
        d = (.ok (), d₁) ∧
      c.put path source r d =
        ((removeUnshared c.dir (c.record path (c.entryFor path source d.now)).index.resultFiles
          (c.replaced path (c.entryFor path source d.now)) d₁).1,
        c.record path (c.entryFor path source d.now),
        (removeUnshared c.dir (c.record path (c.entryFor path source d.now)).index.resultFiles
          (c.replaced path (c.entryFor path source d.now)) d₁).2) := by
  unfold Cache.put at hok ⊢
  generalize c.entryFor path source d.now = e at hok ⊢
  cases hgraded : r.isGraded with
  | false =>
      simp only [hgraded, Bool.not_false, if_true] at hok
      cases hok
  | true =>
      simp only [hgraded, Bool.not_true, Bool.false_eq_true, if_false] at hok ⊢
      generalize onDisk (blobPath c.dir e.resultFile)
        (DiskM.writeWhole (resultsPath c.dir) e.resultFile (blobOf r)) d = written at hok ⊢
      obtain ⟨result, d₁⟩ := written
      cases result with
      | error e => cases hok
      | ok u => exact ⟨d₁, rfl, rfl⟩

/-- Storing a result: its entry takes the place of the old one, and no other result is touched. -/
theorem Stands.put_step (h : Stands dir used s c m) {path : String} {source : Bytes}
    {r : FileResult} (hok : (c.put path source r s.disk).1 = .ok ())
    (hapart : ∀ p y, m.held p = some y → p ≠ path →
      y.file p ≠ CacheEntry.fileFor path (CacheEntry.hashOf source))
    (hused : used path source) (hencodable : r.Encodable) (hfile : r.file = path) :
    ∃ c', Stands dir used (s.act c (.put path source r)) c'
        (m.step s.disk.now (.put path source r)) ∧ Counts (.put path source r) c c' := by
  let x : Held := ⟨source, m.context, r, s.disk.now⟩
  have hentry : c.entryFor path source s.disk.now = x.entry c.toolVersion path := by
    show CacheEntry.mk _ _ _ _ _ = CacheEntry.mk _ _ _ _ _
    rw [h.context]
    rfl
  have hheld : ∀ p, (m.step s.disk.now (.put path source r)).held p =
      if p = path then some x else m.held p := m.held_set path (some x)
  obtain ⟨d₁, hwrite, hput⟩ := put_eq hok
  rw [hentry, x.resultFile_entry] at hwrite
  rw [hentry] at hput
  have hfind : ∀ p, (c.record path (x.entry c.toolVersion path)).index.find? p =
      ((m.step s.disk.now (.put path source r)).held p).map (·.entry c.toolVersion p) := by
    intro p
    rw [hheld]
    split_ifs with hp
    · rw [hp]
      exact CacheIndex.find?_insert_self c.index path _
    · exact (find?_insert_of_ne h.distinct hp _).trans (h.entries p)
  refine ⟨c.record path (x.entry c.toolVersion path), ?_, ⟨rfl, rfl⟩⟩
  have hcache : (s.act c (.put path source r)).cache =
      some (c.record path (x.entry c.toolVersion path)) := by
    show some (c.put path source r s.disk).2.1 = _
    rw [hput]
  refine ⟨h.sound.put h.cache path source r, hcache, h.context, hfind, ?_, ?_⟩
  · obtain ⟨v, hhome, hblobs⟩ := h.stored
    have hproper : ∀ f ∈ c.replaced path (x.entry c.toolVersion path), Path.Proper f := by
      intro f hf
      obtain ⟨old, hold, rfl⟩ := List.mem_map.mp (List.mem_of_mem_filter hf)
      exact h.proper (Option.mem_toList.mp hold)
    obtain ⟨hhome', hblob, hkept⟩ := stored_and_kept (h.dir_eq ▸ hhome) (x.isBlob_file path) hwrite
      (c.record path (x.entry c.toolVersion path)).index.resultFiles hproper
    have hdisk : (s.act c (.put path source r)).disk =
        (removeUnshared c.dir (c.record path (x.entry c.toolVersion path)).index.resultFiles
          (c.replaced path (x.entry c.toolVersion path)) d₁).2 := congrArg (·.2.2) hput
    rw [hdisk]
    refine ⟨v, h.dir_eq ▸ hhome', fun p y hy => ?_⟩
    have hnamed := mem_resultFiles (by rw [hfind, hy]; rfl)
    rw [y.resultFile_entry] at hnamed
    rw [hheld] at hy
    split_ifs at hy with hp
    · cases hy
      rw [hp] at hnamed ⊢
      exact hblob hnamed
    · rw [hkept (y.file p) (y.isBlob_file p) hnamed (hapart p y hy hp)]
      exact hblobs p y hy
  · intro p y hy
    rw [hheld] at hy
    split_ifs at hy with hp
    · cases hy
      rw [hp]
      exact ⟨hused, hencodable, hfile⟩
    · exact h.held p y hy

theorem ok_of_isOk {result : Except CacheError Unit} (h : result.isOk = true) : result = .ok () := by
  cases result with
  | error e => cases h
  | ok u => rfl

/-- Different paths have different names for their results. -/
def NamesApart (used : String → Bytes → Prop) : Prop :=
  ∀ p b p' b', used p b → used p' b' → p ≠ p' →
    CacheEntry.fileFor p (CacheEntry.hashOf b) ≠ CacheEntry.fileFor p' (CacheEntry.hashOf b')

theorem step_eq_act (hc : s.cache = some c) {st : Step} (hcalm : st.Calm dir s c)
    (hworld : ∀ d, st ≠ .world d) : s.step dir st = s.act c st := by
  cases st with
  | start version => exact hcalm.elim
  | world d => exact absurd rfl (hworld d)
  | _ => simp only [Session.step, hc, Option.elim_some]

/-- Every calm step does to the cache what it does to the map. -/
theorem Stands.step (h : Stands dir used s c m) {st : Step} (hcalm : st.Calm dir s c)
    (hput : ∀ p b r, st = .put p b r → used p b ∧ r.Encodable ∧ r.file = p)
    (hapart : NamesApart used) :
    ∃ c', Stands dir used (s.step dir st) c' (m.step s.disk.now st) ∧ Counts st c c' := by
  have hact : (∀ d, st ≠ .world d) → s.step dir st = s.act c st := step_eq_act h.cache hcalm
  cases st with
  | start version => exact hcalm.elim
  | world d => exact ⟨c, h.world_step hcalm, counts_of_stats rfl rfl rfl⟩
  | context key =>
      rw [hact nofun]
      exact ⟨_, h.context_step key, counts_of_stats rfl rfl rfl⟩
  | get path source =>
      rw [hact nofun]
      exact h.get_step source hcalm
  | invalidate path =>
      rw [hact nofun]
      exact h.invalidate_step path
  | cleanup =>
      rw [hact nofun]
      exact h.cleanup_step
  | clear =>
      rw [hact nofun]
      exact h.clear_step
  | save =>
      rw [hact nofun]
      exact h.save_step (ok_of_isOk hcalm)
  | put path source r =>
      rw [hact nofun]
      obtain ⟨hused, hencodable, hfile⟩ := hput path source r rfl
      refine h.put_step (ok_of_isOk hcalm) (fun p y hy hne => ?_) hused hencodable hfile
      exact hapart p y.source path source (h.held p y hy).1 hused hne

/-- A calm run does to the cache what it does to the map. -/
theorem Stands.run {steps : List Step} (h : Stands dir used s c m) (hcalm : s.Calm dir steps)
    (hputs : ∀ p b r, Step.put p b r ∈ steps → used p b ∧ r.Encodable ∧ r.file = p)
    (hapart : NamesApart used) :
    ∃ c', Stands dir used (s.run dir steps) c' (Shelf.run dir s m steps) ∧
      c'.stats.hits + c'.stats.misses =
        c.stats.hits + c.stats.misses + steps.countP (·.isGet) ∧
      c'.stats.analyzed = c.stats.analyzed + steps.countP (·.isPut) := by
  induction steps generalizing s c m with
  | nil => exact ⟨c, h, rfl, rfl⟩
  | cons st steps ih =>
      obtain ⟨⟨c₀, hc₀, hst⟩, hrest⟩ := hcalm
      obtain rfl : c₀ = c := Option.some.inj (hc₀.symm.trans h.cache)
      obtain ⟨c₁, h₁, hcounts⟩ := h.step hst
        (fun p b r heq => hputs p b r (heq ▸ List.mem_cons_self)) hapart
      obtain ⟨c', h', hlooks, hanalyzed⟩ := ih h₁ hrest
        fun p b r hmem => hputs p b r (List.mem_cons_of_mem _ hmem)
      refine ⟨c', h', ?_, ?_⟩
      · rw [hlooks, hcounts.looks, List.countP_cons]
        omega
      · rw [hanalyzed, hcounts.analyzed, List.countP_cons]
        omega

/-- Nobody disturbs a cache in a calm run. -/
theorem Session.Calm.quiet {steps : List Step} (hcalm : s.Calm dir steps) (h : Sound dir s) :
    s.Quiet dir steps := by
  induction steps generalizing s with
  | nil => trivial
  | cons st steps ih =>
      obtain ⟨⟨c, hc, hst⟩, hrest⟩ := hcalm
      have hquiet : st.Quiet dir s := by
        cases st with
        | world d => exact Untouched.undisturbed hst h hc
        | _ => trivial
      exact ⟨hquiet, ih hrest (h.step hquiet)⟩

end Steps

section Start

variable {dir version : String} {d : Disk} {c : Cache}

theorem fresh_of_restart {c' : Cache} {log : List LogEntry}
    (h : (c.restart log d).1.result = .ok c') : c'.context = c.context ∧ c'.stats = c.stats := by
  unfold restart at h
  split at h
  · cases h
    exact ⟨rfl, rfl⟩
  · cases h

theorem fresh_of_openWith {c' : Cache} {content : Bytes}
    (h : (c.openWith content d).1.result = .ok c') :
    c'.context = c.context ∧ c'.stats = c.stats := by
  unfold openWith at h
  dsimp only at h
  split at h
  · exact fresh_of_restart h
  · split_ifs at h
    · cases h
      exact ⟨rfl, rfl⟩
    · exact fresh_of_restart h

/-- A cache that was just opened has no context yet and counted nothing. -/
theorem fresh_of_open (h : (open_ dir version d).1.result = .ok c) :
    c.context = "" ∧ c.stats = {} := by
  rw [open_eq] at h
  split at h
  · cases h
  · unfold openMade at h
    split at h
    · exact fresh_of_openWith h
    · split_ifs at h
      cases h
      exact ⟨rfl, rfl⟩

/-- The program started on a disk where there was no cache. -/
def Session.started (dir version : String) (d : Disk) : Session :=
  Session.step dir { disk := d } (.start version)

theorem Shelf.held_empty (path : String) : ({} : Shelf).held path = none := rfl

/-- A cache that was opened where there was none stands for the empty map. -/
theorem stands_started (used : String → Bytes → Prop) (hvacant : Vacant dir d)
    (hc : (Session.started dir version d).cache = some c) :
    Stands dir used (Session.started dir version d) c {} ∧ c.stats = {} := by
  have hsound : Sound dir (Session.started dir version d) :=
    (sound_of_vacant hvacant).start version
  have hopen : (open_ dir version d).1.result.toOption = some c := by
    simpa only [Session.started, Session.step] using hc
  obtain ⟨hcontext, hstats⟩ := fresh_of_open (ok_of_toOption hopen)
  obtain ⟨v, hdisk⟩ := hsound.opened hc
  have hnone : ∀ path x, ({} : Shelf).held path ≠ some x := by
    intro path x hx
    rw [Shelf.held_empty] at hx
    cases hx
  refine ⟨⟨hsound, hc, hcontext, fun path => ?_, ?_, fun p x hx => absurd hx (hnone p x)⟩, hstats⟩
  · cases hfind : c.index.find? path with
    | none => rfl
    | some e =>
        obtain ⟨r, hr, -⟩ := (hsound.memory c hc).entries path e hfind
        cases hr
  · exact ⟨v, hdisk.home, fun p x hx => absurd hx (hnone p x)⟩

end Start

section Main

variable {dir version path : String} {d : Disk} {steps : List Step} {c : Cache} {source : Bytes}

theorem exists_cache_run {s : Session} (hc : (s.run dir steps).cache = some c)
    (hcalm : s.Calm dir steps) : ∃ c', s.cache = some c' := by
  cases steps with
  | nil => exact ⟨c, hc⟩
  | cons st steps =>
      obtain ⟨⟨c', hc', -⟩, -⟩ := hcalm
      exact ⟨c', hc'⟩

/-- **Within one process a cache is a keyed map.**  A look into a cache that was opened empty
answers as the map does to which the same steps were done; a file needs to be analysed exactly if
such a look finds nothing.  Every look is counted once, and so is every stored result.  Even if
names of results collide, a result that is found was stored for the path that was asked for. -/
theorem get_eq_shelf (hvacant : Vacant dir d)
    (hcalm : (Session.started dir version d).Calm dir steps)
    (hputs : ∀ p b r, Step.put p b r ∈ steps → r.Encodable ∧ r.file = p)
    (hc : ((Session.started dir version d).run dir steps).cache = some c)
    (hread : c.Readable path ((Session.started dir version d).run dir steps).disk)
    (hhash : ∀ p b r, Step.put p b r ∈ steps →
      CacheEntry.hashOf b = CacheEntry.hashOf source → b = source) :
    (NamesApart (fun p b => ∃ r, Step.put p b r ∈ steps) →
      (c.get path source ((Session.started dir version d).run dir steps).disk).1 =
          (Shelf.run dir (Session.started dir version d) {} steps).get path source ∧
        (c.needsAnalysis path source = true ↔
          (c.get path source ((Session.started dir version d).run dir steps).disk).1 = none) ∧
        c.stats.hits + c.stats.misses = steps.countP (·.isGet) ∧
        c.stats.analyzed = steps.countP (·.isPut)) ∧
    ∀ r, (c.get path source ((Session.started dir version d).run dir steps).disk).1 = some r →
      ∃ b f, Step.put path b f ∈ steps ∧ r = { f with fromCache := true } := by
  obtain ⟨c₀, hc₀⟩ := exists_cache_run hc hcalm
  have hsound : Sound dir (Session.started dir version d) :=
    (sound_of_vacant hvacant).start version
  have hrecords : (Session.started dir version d).records = [] := rfl
  obtain ⟨hstands, hfresh⟩ := stands_started
    (fun p b => ∃ r, Step.put p b r ∈ steps) hvacant hc₀
  generalize Session.started dir version d = s at *
  constructor
  · intro hapart
    obtain ⟨c', h, hlooks, hanalyzed⟩ := hstands.run hcalm
      (fun p b r hput => ⟨⟨r, hput⟩, hputs p b r hput⟩) hapart
    obtain rfl : c' = c := Option.some.inj (h.cache.symm.trans hc)
    obtain ⟨stats, d', hget, -⟩ := h.get source hread
    generalize Shelf.run dir s {} steps = m at h hget ⊢
    have hsame := h.filter_hash path fun b ⟨r, hput⟩ =>
      hhash path b r hput
    rw [hfresh] at hlooks hanalyzed
    refine ⟨?_, ?_, ?_, ?_⟩
    · rw [hget, hsame]
      rfl
    · rw [h.needsAnalysis, hget]
      exact Option.map_eq_none_iff.symm
    · rw [hlooks]
      exact Nat.zero_add _
    · rw [hanalyzed]
      exact Nat.zero_add _
  · intro r hit
    obtain ⟨q, w, -, -, -, -, hw, hr, hfile⟩ := (hsound.run (hcalm.quiet hsound)).hit hc hit
    rcases put_mem_of_mem_records (List.mem_of_find?_eq_some hw) with ⟨w', hw', -⟩ | hput
    · rw [hrecords] at hw'
      cases hw'
    · have hpath : w.path = path := (hputs _ _ _ hput).2.symm.trans hfile
      exact ⟨w.source, w.result, hpath ▸ hput, hr⟩

/-- Results for two files with one content, under different contexts. -/
def twoFiles : List Step := [
  .put "a" [60] ⟨"a", [], 1, false⟩, .context "k", .put "b" [60] ⟨"b", [], 2, false⟩]

/-- The result of the second file is found under the second context. -/
theorem get_eq_shelf_stored :
    ∃ c, ((Session.started "/c" "v" {}).run "/c" twoFiles).cache = some c ∧
      (c.get "b" [60] ((Session.started "/c" "v" {}).run "/c" twoFiles).disk).1 =
        some ⟨"b", [], 2, true⟩ ∧
      c.stats.analyzed = 2 := by
  obtain ⟨hfirst, hmiddle, hsecond, hend⟩ :
      (Session.started "/c" "v" {}).cache.any (fun c =>
        (c.put "a" [60] ⟨"a", [], 1, false⟩ (Session.started "/c" "v" {}).disk).1.isOk) = true ∧
      ((Session.started "/c" "v" {}).step "/c" (.put "a" [60] ⟨"a", [], 1, false⟩)).cache.isSome =
        true ∧
      (((Session.started "/c" "v" {}).step "/c" (.put "a" [60] ⟨"a", [], 1, false⟩)).step "/c"
        (.context "k")).cache.any (fun c => (c.put "b" [60] ⟨"b", [], 2, false⟩
          (((Session.started "/c" "v" {}).step "/c" (.put "a" [60] ⟨"a", [], 1, false⟩)).step "/c"
            (.context "k")).disk).1.isOk) = true ∧
      ((Session.started "/c" "v" {}).run "/c" twoFiles).cache.any (fun c =>
        (c.index.find? "b").all fun e => DiskM.read (blobPath c.dir e.resultFile)
          ((Session.started "/c" "v" {}).run "/c" twoFiles).disk matches .ok ..) = true := by
    decide +kernel
  obtain ⟨c₁, hc₁⟩ := Option.isSome_iff_exists.mp hmiddle
  have hcalm : (Session.started "/c" "v" {}).Calm "/c" twoFiles :=
    ⟨(Option.any_eq_true _ _).mp hfirst, ⟨c₁, hc₁, trivial⟩, (Option.any_eq_true _ _).mp hsecond,
      trivial⟩
  obtain ⟨c, hc, hreads⟩ := (Option.any_eq_true _ _).mp hend
  have hread : c.Readable "b" ((Session.started "/c" "v" {}).run "/c" twoFiles).disk := by
    intro e err d' he herr
    rw [he, Option.all_some, herr] at hreads
    cases hreads
  have hmem : ∀ p b r, Step.put p b r ∈ twoFiles →
      b = [60] ∧ r.Encodable ∧ r.file = p ∧ (p = "a" ∨ p = "b") := by
    intro p b r h
    simp only [twoFiles, List.mem_cons, List.not_mem_nil, or_false, reduceCtorEq, false_or,
      Step.put.injEq] at h
    rcases h with ⟨rfl, rfl, rfl⟩ | ⟨rfl, rfl, rfl⟩
    all_goals exact ⟨rfl, ⟨fun _ h => absurd h List.not_mem_nil, by decide⟩, rfl, by decide⟩
  have hapart : NamesApart fun p b => ∃ r, Step.put p b r ∈ twoFiles := by
    have hnames : CacheEntry.fileFor "a" (CacheEntry.hashOf [60]) ≠
        CacheEntry.fileFor "b" (CacheEntry.hashOf [60]) := by
      decide +kernel
    rintro p b p' b' ⟨r, hr⟩ ⟨r', hr'⟩ hne
    obtain ⟨rfl, -, -, hp⟩ := hmem p b r hr
    obtain ⟨rfl, -, -, hp'⟩ := hmem p' b' r' hr'
    rcases hp with rfl | rfl <;> rcases hp' with rfl | rfl
    · exact absurd rfl hne
    · exact hnames
    · exact hnames.symm
    · exact absurd rfl hne
  obtain ⟨hget, -, -, hcount⟩ := (get_eq_shelf (Or.inl missing_of_empty) hcalm
    (fun p b r h => ⟨(hmem p b r h).2.1, (hmem p b r h).2.2.1⟩) hc hread
    fun p b r h _ => (hmem p b r h).1).1 hapart
  refine ⟨c, hc, hget.trans ?_, hcount⟩
  decide +kernel

end Main

end Cache

end InstallerLint
