import InstallerLint.Proofs.Cache.Session

/-!
# What a cache serves

Every step keeps a session sound, and so does a whole run.  In a sound session a result that is
served was stored for its path by the newest record with its name.  If this record is not lost, it
was stored for the content, the context and the version that were asked for
(`get_after_stops`).

**Lost records.**  A result is stored under a name that does not tell its context and version.  One
that was stored just before a stop replaces the content under that name, while the entry on disk
still speaks for the older one; so a lost record may be served in its place.
-/

namespace InstallerLint

open Disk

namespace Cache

section Steps

variable {dir : String} {s : Session} {c : Cache}

theorem Sound.opened (h : Sound dir s) (hc : s.cache = some c) :
    ∃ v, DiskSound dir s.records v s.disk := by
  rcases h.disk with ⟨hnone, -⟩ | hdisk
  · rw [hnone] at hc
    cases hc
  · exact hdisk

theorem ok_of_toOption {result : Except CacheError Cache} (h : result.toOption = some c) :
    result = .ok c := by
  cases result with
  | error e => cases h
  | ok c' =>
      cases h
      rfl

theorem MemorySound.of_loaded {v : List String} {d : Disk} (h : IndexVouched s.records v d)
    (hc : Loaded dir v d c) : MemorySound dir (s.records.map .drop) c where
  dir := hc.1
  distinct := by
    rcases hc.2 with hempty | ⟨content, -, hparse⟩
    · unfold CacheIndex.Distinct
      rw [hempty]
      exact List.nodup_nil
    · exact CacheIndex.distinct_of_parse hparse
  clean := fun _ => not_pending_drop
  entries := by
    rcases hc.2 with hempty | ⟨content, hcontent, hparse⟩
    · exact entriesVouched_of_nil hempty
    · exact h.entries hcontent hparse

theorem Sound.start (h : Sound dir s) (version : String) :
    Sound dir (s.step dir (.start version)) := by
  have hhome := fun v (hv : Home dir v s.disk) => open_spec version hv
  have hmissing := fun hm : s.disk.Missing dir => open_of_missing version hm
  unfold Session.step
  dsimp only
  generalize open_ dir version s.disk = opened at hhome hmissing ⊢
  obtain ⟨⟨result, log⟩, d⟩ := opened
  dsimp only at hhome hmissing ⊢
  have hgraded : ∀ r ∈ s.records.map Record.drop, r.result.isGraded = true := by
    intro r hr
    obtain ⟨r', hr', rfl⟩ := List.mem_map.mp hr
    rw [Record.result_drop]
    exact h.graded r' hr'
  rcases h.disk with ⟨-, hnone⟩ | ⟨v, hdisk⟩
  · rcases hmissing hnone with ⟨e, rfl, hvacant⟩ | ⟨v, d₁, hd₁, hindex, hblobs, hfewer, hbegun⟩
    · refine ⟨hgraded, ?_, fun c hc => by cases hc⟩
      rcases hvacant with hgone | ⟨v, hd, hindex, hblobs⟩
      · exact Or.inl ⟨rfl, hgone⟩
      · exact Or.inr ⟨v, diskSound_of_empty hd hindex hblobs⟩
    · have hsound : DiskSound dir s.records v d₁ := diskSound_of_empty hd₁ hindex hblobs
      refine ⟨hgraded, Or.inr ⟨v, (hsound.fewer hfewer).drop⟩, fun c hc => ?_⟩
      obtain ⟨hdir, hbegun⟩ := hbegun c (ok_of_toOption hc)
      exact .of_loaded hsound.index (hdir ▸ hbegun.toLoaded)
  · obtain ⟨hfewer, hbegun⟩ := hhome v hdisk.home
    refine ⟨hgraded, Or.inr ⟨v, (hdisk.fewer hfewer).drop⟩, fun c hc => ?_⟩
    obtain ⟨hdir, hbegun⟩ := hbegun c (ok_of_toOption hc)
    exact .of_loaded hdisk.index (hdir ▸ hbegun.toLoaded)

theorem Sound.context (h : Sound dir s) (hc : s.cache = some c) (key : String) :
    Sound dir (s.act c (.context key)) where
  graded := h.graded
  disk := Or.inr (h.opened hc)
  memory := by
    rintro _ ⟨⟩
    obtain ⟨hdir, hdistinct, hclean, hentries⟩ := h.memory c hc
    exact ⟨hdir, hdistinct, hclean, hentries⟩

/-- A cache with fewer entries on a disk with fewer results. -/
theorem Sound.fewer (h : Sound dir s) (hc : s.cache = some c) {c' : Cache} {d : Disk}
    (hdisk : ∀ v, DiskSound dir s.records v s.disk → Fewer dir v s.disk d) (hdir : c'.dir = c.dir)
    (hdistinct : c'.index.Distinct)
    (hfind : ∀ path e, c'.index.find? path = some e → c.index.find? path = some e)
    (hdirty : c'.dirty = false → c.dirty = false) :
    Sound dir { s with cache := some c', disk := d } where
  graded := h.graded
  disk := by
    obtain ⟨v, hv⟩ := h.opened hc
    exact Or.inr ⟨v, hv.fewer (hdisk v hv)⟩
  memory := by
    rintro _ ⟨⟩
    have hmem := h.memory c hc
    exact ⟨hdir.trans hmem.dir, hdistinct, fun hclean => hmem.clean (hdirty hclean),
      hmem.entries.of_find? hfind⟩

theorem MemorySound.proper {path : String} {e : CacheEntry} (h : MemorySound dir s.records c)
    (he : c.index.find? path = some e) : Path.Proper e.resultFile := by
  obtain ⟨r, -, hv⟩ := h.entries path e he
  exact hv.isBlob.proper

theorem Sound.get (h : Sound dir s) (hc : s.cache = some c) (path : String) (source : Bytes) :
    Sound dir (s.act c (.get path source)) := by
  have hmem := h.memory c hc
  have hstay : ∀ stats : CacheStats,
      Sound dir { s with cache := some { c with stats }, disk := s.disk } := fun stats =>
    h.fewer hc (fun v hv => Fewer.refl hv.home) rfl hmem.distinct (fun _ _ he => he) id
  unfold Session.act Cache.get
  dsimp only
  cases hfind : c.index.find? path with
  | none => exact hstay _
  | some e =>
      dsimp only
      split_ifs
      · exact hstay _
      · have hread : ∀ v, DiskSound dir s.records v s.disk →
            DiskM.Ends (DiskM.read (blobPath c.dir e.resultFile)) s.disk (fun _ => Like s.disk)
              (Like s.disk) := by
          intro v hv
          rw [hmem.dir]
          exact (ends_readBlob hv.home (hmem.proper hfind)).mono (fun _ _ h => h.1) fun _ h => h
        have hdrop : ∀ d, Like s.disk d →
            Sound dir { s with cache := some (c.dropCorrupt path), disk := d } := fun d hlike =>
          h.fewer hc (fun v hv => hv.home.fewer_of_like hlike) rfl (hmem.distinct.erase path)
            (fun _ _ he => (CacheIndex.find?_of_erase hmem.distinct he).2) fun hf => by cases hf
        obtain ⟨v, hv⟩ := h.opened hc
        obtain ⟨hend⟩ := hread v hv
        generalize DiskM.read (blobPath c.dir e.resultFile) s.disk = result at hend ⊢
        cases result with
        | error err d => exact hdrop d hend
        | ok content d =>
            dsimp only at hend ⊢
            cases readBlob path content with
            | none => exact hdrop d hend
            | some r =>
                exact h.fewer hc (fun v hv => hv.home.fewer_of_like hend) rfl hmem.distinct
                  (fun _ _ he => he) id

theorem Sound.invalidate (h : Sound dir s) (hc : s.cache = some c) (path : String) :
    Sound dir (s.act c (.invalidate path)) := by
  have hmem := h.memory c hc
  unfold Session.act Cache.invalidate
  dsimp only
  cases hfind : c.index.find? path with
  | none =>
      exact h.fewer hc (fun v hv => Fewer.refl hv.home) rfl hmem.distinct (fun _ _ he => he) id
  | some e =>
      refine h.fewer hc (fun v hv => ?_) rfl (hmem.distinct.erase path)
        (fun _ _ he => (CacheIndex.find?_of_erase hmem.distinct he).2) fun hf => by cases hf
      rw [hmem.dir]
      refine fewer_removeUnshared _ hv.home fun f hf => ?_
      rw [List.mem_singleton.mp hf]
      exact hmem.proper hfind

theorem Sound.cleanup (h : Sound dir s) (hc : s.cache = some c) :
    Sound dir (s.act c .cleanup) := by
  have hmem := h.memory c hc
  unfold Session.act Cache.cleanup
  dsimp only
  refine h.fewer hc (fun v hv => ?_) rfl (hmem.distinct.filter _)
    (fun _ _ he => CacheIndex.find?_of_filter hmem.distinct he) fun hf => ?_
  · rw [hmem.dir]
    refine fewer_removeUnshared _ hv.home fun f hf => ?_
    obtain ⟨x, hx, rfl⟩ := List.mem_map.mp hf
    have hfind : c.index.find? x.1 = some x.2 :=
      Assoc.lookup_eq_some_of_mem hmem.distinct (List.mem_of_mem_filter hx)
    exact hmem.proper hfind
  · exact (Bool.or_eq_false_iff.mp hf).1

theorem Sound.clear (h : Sound dir s) (hc : s.cache = some c) : Sound dir (s.act c .clear) := by
  have hmem := h.memory c hc
  unfold Session.act Cache.clear
  dsimp only
  refine h.fewer hc (fun v hv => ?_) rfl (CacheIndex.distinct_fresh _)
    (fun _ _ he => by cases he) fun hf => by cases hf
  rw [hmem.dir]
  exact fewer_resetResults hv.home

theorem map_keep_of_not_pending {records : List Record} (h : ∀ r ∈ records, r.fate ≠ .pending) :
    records.map Record.keep = records := by
  refine (List.map_congr_left fun r hr => ?_).trans (List.map_id _)
  rw [Record.keep, if_neg (h r hr)]
  rfl

theorem map_drop_of_not_pending {records : List Record} (h : ∀ r ∈ records, r.fate ≠ .pending) :
    records.map Record.drop = records := by
  refine (List.map_congr_left fun r hr => ?_).trans (List.map_id _)
  rw [Record.drop, if_neg (h r hr)]
  rfl

/-- The index on disk is vouched for by the records in memory once it is saved. -/
theorem DiskSound.keep {records : List Record} {v : List String} {d d' : Disk}
    (h : DiskSound dir records v d) (hmem : MemorySound dir records c) (hhome : Home dir v d')
    (hindex : indexAt v d' = some c.index.render) (hblobs : ∀ f, blobAt v d' f = blobAt v d f) :
    DiskSound dir (records.map .keep) v d' where
  home := hhome
  blobs := by
    refine BlobsVouched.map Record.file_keep Record.result_keep fun f content hf hc => ?_
    rw [hblobs] at hc
    exact h.blobs f content hf hc
  index := by
    intro content ix hc hparse path e he
    rw [hindex, Option.some.injEq] at hc
    rw [← hc] at hparse
    rw [CacheIndex.find?_of_parse_render hmem.distinct hparse] at he
    obtain ⟨r, hr, hv⟩ := hmem.entries path e he
    refine ⟨r.keep, ?_, hv.keep⟩
    rw [find?_map_of_eq fun r => saved_keep r path, hr]
    rfl

theorem MemorySound.keep {records : List Record} (h : MemorySound dir records c) :
    MemorySound dir (records.map .keep) { c with dirty := false } where
  dir := h.dir
  distinct := h.distinct
  clean := by
    intro _ r hr
    obtain ⟨r', -, rfl⟩ := List.mem_map.mp hr
    unfold Record.keep
    split
    · exact fun h => by cases h
    · assumption
  entries := by
    intro path e he
    obtain ⟨r, hr, hv⟩ := h.entries path e he
    refine ⟨r.keep, ?_, hv.keep⟩
    rw [find?_map_of_eq fun r => unlost_keep r path, hr]
    rfl

theorem Sound.save (h : Sound dir s) (hc : s.cache = some c) : Sound dir (s.act c .save) := by
  have hmem := h.memory c hc
  obtain ⟨v, hdisk⟩ := h.opened hc
  unfold Session.act Cache.save
  dsimp only
  cases hdirty : c.dirty with
  | false =>
      have hsame := map_keep_of_not_pending (hmem.clean hdirty)
      simp only [Bool.not_false, if_true, Except.isOk, Except.toBool, hsame]
      exact ⟨h.graded, Or.inr ⟨v, hdisk⟩, fun c' hc' => by cases hc'; exact hmem⟩
  | true =>
      have hwrite := onDisk_of_ends (indexPath c.dir) (ends_writeIndex c.index.render hdisk.home)
      rw [← hmem.dir] at hwrite
      generalize onDisk (indexPath c.dir) (DiskM.writeWhole c.dir "index.json" c.index.render)
        s.disk = written at hwrite ⊢
      obtain ⟨result, d⟩ := written
      rcases hwrite with ⟨u, rfl, hhome, hindex, hblobs⟩ | ⟨e, rfl, hfewer⟩
      · refine ⟨?_, Or.inr ⟨v, ?_⟩, ?_⟩
        · intro r hr
          obtain ⟨r', hr', rfl⟩ := List.mem_map.mp hr
          rw [Record.result_keep]
          exact h.graded r' hr'
        · rw [hmem.dir] at hhome
          exact hdisk.keep hmem hhome hindex hblobs
        · rintro _ ⟨⟩
          exact hmem.keep
      · rw [hmem.dir] at hfewer
        exact ⟨h.graded, Or.inr ⟨v, hdisk.fewer hfewer⟩, fun c' hc' => by cases hc'; exact hmem⟩

/-- The new record vouches for the result that was stored and for its entry. -/
theorem DiskSound.stored {records : List Record} {v : List String} {d d' : Disk} {r : Record}
    (h : DiskSound dir records v d) (hstored : Stored dir v r.file (blobOf r.result) d d')
    (hfate : r.fate = .pending) : DiskSound dir (r :: records) v d' where
  home := hstored.home
  blobs := by
    intro f content hf hc
    by_cases hname : r.file = f
    · refine ⟨r, List.find?_cons_of_pos (by simpa using hname), ?_⟩
      rw [← hname, hstored.blob] at hc
      exact (Option.some.inj hc).symm
    · obtain ⟨q, hq, hcontent⟩ :=
        h.blobs f content hf (hstored.blobs f hf (Ne.symm hname) content hc)
      exact ⟨q, by rw [List.find?_cons_of_neg (by simpa using hname), hq], hcontent⟩
  index := by
    intro content ix hc hparse path e he
    rw [hstored.index] at hc
    obtain ⟨q, hq, hv⟩ := h.index content ix hc hparse path e he
    exact ⟨q, by rw [List.find?_cons_of_neg (by simp [hfate]), hq], hv⟩

theorem MemorySound.record {records : List Record} {r : Record} {e : CacheEntry}
    (h : MemorySound dir records c) (hfate : r.fate = .pending) (hv : r.Vouches e) :
    MemorySound dir (r :: records) (c.record r.path e) where
  dir := h.dir
  distinct := h.distinct.insert r.path e
  clean := fun hclean => by cases hclean
  entries := by
    intro path e' he'
    rcases CacheIndex.find?_of_insert h.distinct he' with ⟨rfl, rfl⟩ | ⟨hpath, hold⟩
    · exact ⟨r, List.find?_cons_of_pos (by simp [hfate]), hv⟩
    · obtain ⟨q, hq, hv'⟩ := h.entries path e' hold
      exact ⟨q, by rw [List.find?_cons_of_neg (by simp [Ne.symm hpath]), hq], hv'⟩

theorem vouches_entryFor (c : Cache) (path : String) (source : Bytes) (r : FileResult) (now : Int) :
    Record.Vouches ⟨path, source, c.context, c.toolVersion, r, .pending⟩
      (c.entryFor path source now) :=
  ⟨rfl, rfl, rfl, rfl⟩

theorem Sound.put (h : Sound dir s) (hc : s.cache = some c) (path : String) (source : Bytes)
    (r : FileResult) : Sound dir (s.act c (.put path source r)) := by
  have hmem := h.memory c hc
  obtain ⟨v, hdisk⟩ := h.opened hc
  unfold Session.act Cache.put Cache.writes
  dsimp only
  cases hgraded : r.isGraded with
  | false =>
      simp only [Bool.not_false, if_true, Bool.false_and, Bool.false_eq_true, if_false]
      exact ⟨h.graded, Or.inr ⟨v, hdisk⟩, fun c' hc' => by cases hc'; exact hmem⟩
  | true =>
      simp only [Bool.not_true, Bool.false_eq_true, if_false, Bool.true_and]
      have hblob : IsBlob (c.entryFor path source s.disk.now).resultFile := isBlob_fileFor _ _
      have hwrite := onDisk_of_ends (blobPath c.dir (c.entryFor path source s.disk.now).resultFile)
        (ends_writeBlob (blobOf r) hdisk.home hblob)
      have hv := vouches_entryFor c path source r s.disk.now
      rw [← hmem.dir] at hwrite
      generalize c.entryFor path source s.disk.now = e at hwrite hv ⊢
      generalize onDisk (blobPath c.dir e.resultFile)
        (DiskM.writeWhole (resultsPath c.dir) e.resultFile (blobOf r)) s.disk = written
        at hwrite ⊢
      obtain ⟨result, d⟩ := written
      rcases hwrite with ⟨u, rfl, hstored⟩ | ⟨err, rfl, hfewer⟩
      · rw [hmem.dir, hv.file] at hstored
        have hnew := hdisk.stored hstored rfl
        have hmem' := hmem.record rfl hv
        have hproper : ∀ f ∈ c.replaced path e, Path.Proper f := by
          intro f hf
          obtain ⟨old, hold, rfl⟩ := List.mem_map.mp (List.mem_of_mem_filter hf)
          exact hmem.proper (Option.mem_toList.mp hold)
        have hremove := fewer_removeUnshared (c.record path e).index.resultFiles hnew.home hproper
        rw [← hmem.dir] at hremove
        refine ⟨?_, Or.inr ⟨v, hnew.fewer (hmem.dir ▸ hremove)⟩, ?_⟩
        · intro q hq
          rcases List.mem_cons.mp hq with rfl | hq
          · exact hgraded
          · exact h.graded q hq
        · rintro _ ⟨⟩
          exact hmem'
      · rw [hmem.dir] at hfewer
        exact ⟨h.graded, Or.inr ⟨v, hdisk.fewer hfewer⟩, fun c' hc' => by cases hc'; exact hmem⟩

/-- The world leaves a cache sound that it does not disturb. -/
theorem Sound.world (h : Sound dir s) {d : Disk} (hd : Undisturbed dir s.disk d) :
    Sound dir (s.step dir (.world d)) where
  graded := h.graded
  disk := by
    rcases h.disk with ⟨hnone, hmissing⟩ | ⟨v, hdisk⟩
    · rcases hd with ⟨-, hgone⟩ | ⟨v, -, hhome, -⟩
      · exact Or.inl ⟨hnone, hgone⟩
      · exact absurd hhome.seated.leads (hmissing v)
    · rcases hd with ⟨hgone, -⟩ | ⟨v', w, hhome, hhome', hindex, hblobs⟩
      · exact absurd hdisk.home.seated.leads (hgone v)
      · obtain rfl := hhome.seated.leads.unique hdisk.home.seated.leads
        refine Or.inr ⟨w, hhome', ?_, ?_⟩
        · exact fun f content hf hc => hdisk.blobs f content hf (hblobs f content hc)
        · exact fun content ix hc => hdisk.index content ix (hindex ▸ hc)
  memory := h.memory

end Steps

section Run

variable {dir : String} {s : Session}

/-- A step of the world that leaves the directory of the cache alone. -/
def Step.Quiet (dir : String) (s : Session) : Step → Prop
  | .world d => Undisturbed dir s.disk d
  | _ => True

/-- All steps of the world leave the directory of the cache alone. -/
def Session.Quiet (dir : String) : Session → List Step → Prop
  | _, [] => True
  | s, st :: rest => st.Quiet dir s ∧ Quiet dir (s.step dir st) rest

theorem Sound.act (h : Sound dir s) {c : Cache} (hc : s.cache = some c) (st : Step) :
    Sound dir (s.act c st) := by
  cases st with
  | start version => exact h
  | context key => exact h.context hc key
  | put path source r => exact h.put hc path source r
  | get path source => exact h.get hc path source
  | invalidate path => exact h.invalidate hc path
  | cleanup => exact h.cleanup hc
  | clear => exact h.clear hc
  | save => exact h.save hc
  | world d => exact h

/-- Every step keeps a session sound. -/
theorem Sound.step (h : Sound dir s) {st : Step} (hst : st.Quiet dir s) :
    Sound dir (s.step dir st) := by
  have hopen : Sound dir (s.cache.elim s fun c => s.act c st) := by
    cases hc : s.cache with
    | none => exact h
    | some c => exact h.act hc st
  cases st with
  | start version => exact h.start version
  | world d => exact h.world hst
  | context key => exact hopen
  | put path source r => exact hopen
  | get path source => exact hopen
  | invalidate path => exact hopen
  | cleanup => exact hopen
  | clear => exact hopen
  | save => exact hopen

theorem Sound.run {steps : List Step} (h : Sound dir s) (hquiet : s.Quiet dir steps) :
    Sound dir (s.run dir steps) := by
  induction steps generalizing s with
  | nil => exact h
  | cons st steps ih => exact ih (h.step hquiet.1) hquiet.2

theorem sound_of_vacant {d : Disk} (h : Vacant dir d) : Sound dir { disk := d } where
  graded := fun r hr => by cases hr
  disk := by
    rcases h with hmissing | ⟨v, hhome, hindex, hblobs⟩
    · exact Or.inl ⟨rfl, hmissing⟩
    · exact Or.inr ⟨v, diskSound_of_empty hhome hindex hblobs⟩
  memory := fun c hc => by cases hc

end Run

section Hits

variable {dir : String} {s : Session} {c : Cache} {path : String} {source : Bytes} {r : FileResult}

/-- The first elements with two properties are one if each has both. -/
theorem find?_eq_of_both {α : Type} {p q : α → Bool} {a b : α} {l : List α}
    (ha : l.find? p = some a) (hb : l.find? q = some b) (hpb : p b = true) (hqa : q a = true) :
    a = b := by
  induction l with
  | nil => cases ha
  | cons x l ih =>
      cases hp : p x with
      | true =>
          rw [List.find?_cons_of_pos hp] at ha
          cases ha
          rw [List.find?_cons_of_pos hqa] at hb
          exact Option.some.inj hb
      | false =>
          cases hq : q x with
          | true =>
              rw [List.find?_cons_of_pos hq] at hb
              cases hb
              rw [hp] at hpb
              cases hpb
          | false =>
              rw [List.find?_cons_of_neg (by simp [hp])] at ha
              rw [List.find?_cons_of_neg (by simp [hq])] at hb
              exact ih ha hb

/-- What a look into the cache needs to end with a result. -/
theorem get_eq_some {d : Disk} (h : (c.get path source d).1 = some r) :
    ∃ e content d', c.index.find? path = some e ∧
      c.isCurrent e (CacheEntry.hashOf source) = true ∧
      DiskM.read (blobPath c.dir e.resultFile) d = .ok content d' ∧
      readBlob path content = some r := by
  unfold Cache.get at h
  cases hfind : c.index.find? path with
  | none =>
      rw [hfind] at h
      cases h
  | some e =>
      rw [hfind] at h
      dsimp only at h
      split_ifs at h with hcurrent
      generalize hread : DiskM.read (blobPath c.dir e.resultFile) d = result at h
      cases result with
      | error err d' => cases h
      | ok content d' =>
          dsimp only at h
          cases hblob : readBlob path content with
          | none =>
              rw [hblob] at h
              cases h
          | some r' =>
              rw [hblob] at h
              cases h
              exact ⟨e, content, d', rfl, by simpa using hcurrent, hread, hblob⟩

/-- A result that a sound session serves is that of the newest record with its name; the entry that
speaks for it is that of the newest record of the path that is not lost. -/
theorem Sound.hit (h : Sound dir s) (hc : s.cache = some c)
    (hit : (c.get path source s.disk).1 = some r) :
    ∃ q w, s.records.find? (fun r => r.fate ≠ .lost && r.path = path) = some q ∧
      CacheEntry.hashOf q.source = CacheEntry.hashOf source ∧
      q.version = c.toolVersion ∧ q.context = c.context ∧
      s.records.find? (·.file = q.file) = some w ∧
      r = { w.result with fromCache := true } ∧ w.result.file = path := by
  obtain ⟨e, content, d', hfind, hcurrent, hread, hblob⟩ := get_eq_some hit
  have hmem := h.memory c hc
  obtain ⟨v, hdisk⟩ := h.opened hc
  obtain ⟨q, hq, hv⟩ := hmem.entries path e hfind
  simp only [isCurrent, Bool.and_eq_true, decide_eq_true_eq] at hcurrent
  obtain ⟨⟨hhash, hversion⟩, hcontext⟩ := hcurrent
  obtain ⟨hend⟩ := ends_readBlob hdisk.home hv.isBlob.proper
  rw [← hmem.dir, hread] at hend
  obtain ⟨w, hw, rfl⟩ := hdisk.blobs _ _ hv.isBlob.finished hend.2
  obtain ⟨hr, hfile⟩ := eq_of_readBlob (h.graded w (List.mem_of_find?_eq_some hw)) hblob
  rw [hv.file] at hw
  exact ⟨q, w, hq, hv.hash.symm.trans hhash, hv.version.symm.trans hversion,
    hv.context.symm.trans hcontext, hw, hr, hfile⟩

/-- Two records are about the same result of the same file. -/
structure Record.Same (q q' : Record) : Prop where
  path : q'.path = q.path
  source : q'.source = q.source
  result : q'.result = q.result

theorem Record.same_keep (q : Record) : q.Same q.keep := by
  unfold Record.keep
  split <;> exact ⟨rfl, rfl, rfl⟩

theorem Record.same_drop (q : Record) : q.Same q.drop := by
  unfold Record.drop
  split <;> exact ⟨rfl, rfl, rfl⟩

theorem mem_records_act {st : Step} {q : Record} (h : q ∈ (s.act c st).records) :
    (∃ q' ∈ s.records, q'.Same q) ∨ st = .put q.path q.source q.result := by
  have hsame : q ∈ s.records → ∃ q' ∈ s.records, q'.Same q := fun h => ⟨q, h, rfl, rfl, rfl⟩
  cases st with
  | put path source r =>
      simp only [Session.act] at h
      split_ifs at h
      · rcases List.mem_cons.mp h with rfl | h
        · exact Or.inr rfl
        · exact Or.inl (hsame h)
      · exact Or.inl (hsame h)
  | save =>
      simp only [Session.act] at h
      split_ifs at h
      · obtain ⟨q', hq', rfl⟩ := List.mem_map.mp h
        exact Or.inl ⟨q', hq', q'.same_keep⟩
      · exact Or.inl (hsame h)
  | _ => exact Or.inl (hsame h)

theorem mem_records_step {st : Step} {q : Record} (h : q ∈ (s.step dir st).records) :
    (∃ q' ∈ s.records, q'.Same q) ∨ st = .put q.path q.source q.result := by
  have hopen : q ∈ (s.cache.elim s fun c => s.act c st).records →
      (∃ q' ∈ s.records, q'.Same q) ∨ st = .put q.path q.source q.result := by
    cases s.cache with
    | none => exact fun h => Or.inl ⟨q, h, rfl, rfl, rfl⟩
    | some c => exact mem_records_act
  cases st with
  | start version =>
      obtain ⟨q', hq', rfl⟩ := List.mem_map.mp h
      exact Or.inl ⟨q', hq', q'.same_drop⟩
  | world d => exact Or.inl ⟨q, h, rfl, rfl, rfl⟩
  | context key => exact hopen h
  | put path source r => exact hopen h
  | get path source => exact hopen h
  | invalidate path => exact hopen h
  | cleanup => exact hopen h
  | clear => exact hopen h
  | save => exact hopen h

/-- Every record comes from a step that stored it. -/
theorem put_mem_of_mem_records {steps : List Step} {q : Record}
    (h : q ∈ (s.run dir steps).records) :
    (∃ q' ∈ s.records, q'.Same q) ∨ .put q.path q.source q.result ∈ steps := by
  induction steps generalizing s with
  | nil => exact Or.inl ⟨q, h, rfl, rfl, rfl⟩
  | cons st steps ih =>
      rcases ih h with ⟨q', hq', hsame⟩ | hput
      · rcases mem_records_step hq' with ⟨q'', hq'', hsame'⟩ | rfl
        · exact Or.inl ⟨q'', hq'', hsame.path.trans hsame'.path, hsame.source.trans hsame'.source,
            hsame.result.trans hsame'.result⟩
        · refine Or.inr ?_
          rw [hsame.path, hsame.source, hsame.result]
          exact List.mem_cons_self
      · exact Or.inr (List.mem_cons_of_mem _ hput)

/-- What a cache serves after any number of starts and stops: the result of the newest record with
the name that it is stored under.  It is one for the path that was asked for; and unless this record
is lost, it is one for the content, the context and the version that were asked for.  In any case
such a record exists. -/
theorem get_after_stops {d : Disk} {steps : List Step} (hvacant : Vacant dir d)
    (hquiet : Session.Quiet dir { disk := d } steps)
    (hfiles : ∀ p b f, Step.put p b f ∈ steps → f.file = p)
    (hhash : ∀ p b f, Step.put p b f ∈ steps →
      CacheEntry.hashOf b = CacheEntry.hashOf source → b = source)
    (hc : (Session.run dir { disk := d } steps).cache = some c)
    (hit : (c.get path source (Session.run dir { disk := d } steps).disk).1 = some r) :
    ∃ w ∈ (Session.run dir { disk := d } steps).records,
      (Session.run dir { disk := d } steps).records.find?
        (·.file = CacheEntry.fileFor path (CacheEntry.hashOf source)) = some w ∧
      w.path = path ∧ r = { w.result with fromCache := true } ∧
      (w.fate ≠ .lost →
        w.source = source ∧ w.context = c.context ∧ w.version = c.toolVersion) ∧
      ∃ q ∈ (Session.run dir { disk := d } steps).records, q.fate ≠ .lost ∧ q.path = path ∧
        q.source = source ∧ q.context = c.context ∧ q.version = c.toolVersion := by
  obtain ⟨q, w, hq, hhashq, hversion, hcontext, hw, hr, hfile⟩ :=
    ((sound_of_vacant hvacant).run hquiet).hit hc hit
  have hput : ∀ x ∈ (Session.run dir { disk := d } steps).records,
      Step.put x.path x.source x.result ∈ steps := by
    intro x hx
    rcases put_mem_of_mem_records hx with ⟨x', hx', -⟩ | hput
    · cases hx'
    · exact hput
  have hqmem := List.mem_of_find?_eq_some hq
  have hwmem := List.mem_of_find?_eq_some hw
  obtain ⟨hunlost, hqpath⟩ : q.fate ≠ .lost ∧ q.path = path := by
    simpa using List.find?_some hq
  have hqsource : q.source = source := hhash _ _ _ (hput q hqmem) hhashq
  have hwpath : w.path = path := (hfiles _ _ _ (hput w hwmem)).symm.trans hfile
  refine ⟨w, hwmem, ?_, hwpath, hr, fun hw' => ?_, q, hqmem, hunlost, hqpath, hqsource, hcontext,
    hversion⟩
  · rw [← hw, Record.file, hqpath, hqsource]
  · -- both are the newest: one of its name, the other of its path among those not lost
    obtain rfl : w = q := find?_eq_of_both hw hq (by simp) (by simp [hw', hwpath])
    exact ⟨hqsource, hcontext, hversion⟩

theorem missing_of_empty : Disk.Missing { root := .dir [] } "/c" := by
  intro v h
  have htrail : Disk.trail { root := .dir [] } "/c" = ["", "c"] := by decide
  rw [htrail] at h
  have hsome := DiskM.isSome_of_leads_name (h.of_idle (by decide)) (by decide)
  exact absurd hsome (by decide)

/-- A result is stored and lost, and another one is stored for the same file after the program was
started again, with another version and under another context. -/
def restarted : List Step := [
  .start "v", .put "a" [60] ⟨"a", [], 1, false⟩,
  .start "w", .context "k", .put "a" [60] ⟨"a", [], 2, false⟩]

/-- The second result is served, and there is a record of it under the second context. -/
theorem get_after_stops_stored :
    ∃ c, (Session.run "/c" { disk := {} } restarted).cache = some c ∧ c.context = "k" ∧
      (c.get "a" [60] (Session.run "/c" { disk := {} } restarted).disk).1 =
        some ⟨"a", [], 2, true⟩ ∧
      ∃ q ∈ (Session.run "/c" { disk := {} } restarted).records,
        q.fate ≠ .lost ∧ q.path = "a" ∧ q.source = [60] ∧ q.context = "k" ∧
          q.version = c.toolVersion := by
  have heval : ((Session.run "/c" { disk := {} } restarted).cache.map fun c => (c.context,
      (c.get "a" [60] (Session.run "/c" { disk := {} } restarted).disk).1)) =
        some ("k", some ⟨"a", [], 2, true⟩) := by
    decide +kernel
  obtain ⟨c, hc, hpair⟩ := Option.map_eq_some_iff.mp heval
  obtain ⟨hcontext, hit⟩ := Prod.mk.inj hpair
  have hmem : ∀ p b f, Step.put p b f ∈ restarted → f.file = p ∧ b = [60] := by
    intro p b f hput
    simp only [restarted, List.mem_cons, List.not_mem_nil, or_false, reduceCtorEq, false_or,
      Step.put.injEq] at hput
    rcases hput with ⟨rfl, rfl, rfl⟩ | ⟨rfl, rfl, rfl⟩ <;> exact ⟨rfl, rfl⟩
  obtain ⟨w, -, -, -, -, -, q, hq, hunlost, hpath, hsource, hunder, hversion⟩ :=
    get_after_stops (Or.inl missing_of_empty)
      (by exact ⟨trivial, trivial, trivial, trivial, trivial, trivial⟩)
      (fun p b f hput => (hmem p b f hput).1) (fun p b f hput _ => (hmem p b f hput).2) hc hit
  exact ⟨c, hc, hcontext, hit, q, hq, hunlost, hpath, hsource, hunder.trans hcontext, hversion⟩

end Hits

end Cache

end InstallerLint
