import InstallerLint.Proofs.Cache.Careful
import InstallerLint.Proofs.Disk.Passable

/-!
# A clean cache is on disk

A cache that is not marked as changed has the entries that its directory gives when it is opened
again (`Recoverable`).  An index is read as it was written when its numbers have 64 bits, as those
of the clock have.

**The main result** is `reopens_of_run`: a clean cache need not be written, and one that was written
is found again.
-/

namespace InstallerLint

open Disk

namespace Cache

/-- The entries are those of the index on disk, which can be read, or there are none and there is
no index. -/
inductive Persisted (v : List String) (d : Disk) (ix : CacheIndex) : Prop where
  | absent (hindex : indexAt v d = none) (hempty : ix.entries = [])
  | written {content : Bytes} {read : CacheIndex} (hindex : indexAt v d = some content)
    (hparse : CacheIndex.parse content = .ok read)
    (hversion : read.version = CacheIndex.formatVersion)
    (hsame : ∀ path, read.find? path = ix.find? path)

/-- What holds of a cache and its directory throughout, whatever fails. -/
structure Recoverable (dir : String) (s : Session) : Prop where
  homely : Homely dir s.disk
  clock : Json.Fits s.disk.now
  dir_eq : ∀ c, s.cache = some c → c.dir = dir
  writable : ∀ c, s.cache = some c → c.index.Writable
  clean : ∀ c, s.cache = some c → c.dirty = false →
    ∃ v, Home dir v s.disk ∧ Persisted v s.disk c.index

/-- Opening a cache gives certain entries. -/
structure Reopens (dir version : String) (d : Disk) (ix : CacheIndex) : Prop where
  /-- If it is opened, it is clean and has the entries. -/
  entries : ∀ c, (open_ dir version d).1.result = .ok c →
    c.dirty = false ∧ ∀ path, c.index.find? path = ix.find? path
  /-- It is opened if the disk does not refuse. -/
  opens : d.failures = [] →
    (∀ path ∈ indexPath dir :: DiskM.stages (resultsPath dir), d.Passable path) →
    ∃ c, (open_ dir version d).1.result = .ok c

section Persisted

variable {dir version : String} {v v' : List String} {d d' : Disk} {ix : CacheIndex} {c : Cache}

theorem Persisted.of_index (h : Persisted v d ix) (hindex : indexAt v' d' = indexAt v d) :
    Persisted v' d' ix := by
  cases h with
  | absent hnone hempty => exact .absent (hindex.trans hnone) hempty
  | written hcontent hparse hversion hsame =>
      exact .written (hindex.trans hcontent) hparse hversion hsame

/-- An index that was written is read with all its entries. -/
theorem persisted_of_render (hw : ix.Writable) (h : indexAt v d = some ix.render) :
    Persisted v d ix := by
  have hparse := CacheIndex.parse_render hw.distinct hw.fits
  exact .written h hparse hw.version (CacheIndex.find?_of_parse_render hw.distinct hparse)

theorem Begun.persisted (h : Begun v d c d') (hclean : c.dirty = false) :
    Persisted v d c.index := by
  cases h with
  | loaded hindex hparse hversion _ _ => exact .written hindex hparse hversion fun _ => rfl
  | fresh hindex hempty _ _ => exact .absent hindex hempty
  | restarted _ _ _ hdirty _ =>
      rw [hdirty] at hclean
      cases hclean

/-- A cache is opened with the entries that are on disk. -/
theorem Persisted.begun (h : Persisted v d ix) (hc : Begun v d c d') :
    c.dirty = false ∧ ∀ path, c.index.find? path = ix.find? path := by
  cases h with
  | absent hnone hempty =>
      cases hc with
      | fresh _ hempty' hclean _ =>
          refine ⟨hclean, fun path => ?_⟩
          rw [CacheIndex.find?, CacheIndex.find?, hempty, hempty']
      | loaded hindex _ _ _ _ =>
          rw [hnone] at hindex
          cases hindex
      | restarted hindex _ _ _ _ =>
          rw [hnone] at hindex
          cases hindex
  | written hindex hparse hversion hsame =>
      cases hc with
      | loaded hindex' hparse' _ hclean _ =>
          rw [hindex] at hindex'
          cases hindex'
          rw [hparse] at hparse'
          cases hparse'
          exact ⟨hclean, hsame⟩
      | fresh hnone _ _ _ =>
          rw [hindex] at hnone
          cases hnone
      | restarted hindex' hbad _ _ _ =>
          rw [hindex] at hindex'
          cases hindex'
          exact absurd hversion (hbad _ hparse)

/-- A cache with a usable index or none is opened, unless the disk refuses. -/
theorem Persisted.isOk_openMade (h : Persisted v d ix) (hhome : Home dir v d)
    (hfailures : d.failures = []) (hpass : d.Passable (indexPath dir)) :
    ∃ c, (openMade dir version d).1.result = .ok c := by
  have hread := DiskM.read_passable hhome.seated proper_index (hhome.onlyFiles (by decide) _ rfl)
    hfailures hpass
  obtain ⟨hends⟩ := ends_readIndex hhome
  unfold openMade
  rcases hread with ⟨content, hread⟩ | ⟨e, hread, hnotFound⟩
  · rw [indexPath] at hends ⊢
    rw [hread] at hends ⊢
    obtain ⟨-, hcontent⟩ := hends
    cases h with
    | absent hnone _ =>
        rw [hnone] at hcontent
        cases hcontent
    | @written _ read hindex hparse hversion _ =>
        rw [hindex] at hcontent
        cases hcontent
        refine ⟨{ dir, toolVersion := version, index := read }, ?_⟩
        simp only [openWith, hparse, hversion, if_true]
  · rw [indexPath, hread]
    simp only [hnotFound, if_true]
    exact ⟨_, rfl⟩

theorem Persisted.isOk_open (h : Persisted v d ix) (hhome : Home dir v d)
    (hfailures : d.failures = [])
    (hpass : ∀ path ∈ indexPath dir :: DiskM.stages (resultsPath dir), d.Passable path) :
    ∃ c, (open_ dir version d).1.result = .ok c := by
  have hmake := onDisk_of_ends (resultsPath dir) (DiskM.ends_makeDirs_passable hhome.seated
    proper_results (fun e he => hhome.look_results he) hfailures
    fun s hs => hpass s (List.mem_cons_of_mem _ hs))
  have hindexPass := hpass _ List.mem_cons_self
  rw [open_eq]
  generalize hrun : onDisk (resultsPath dir) (DiskM.makeDirs (Path.join [dir, "results"])) d = made
    at hmake
  rw [resultsPath] at *
  rw [hrun]
  obtain ⟨result, d₁⟩ := made
  rcases hmake with ⟨u, rfl, hquiet, hd₁⟩ | ⟨e, -, hno⟩
  · rcases hd₁ with rfl | hmade
    · exact h.isOk_openMade hhome hquiet hindexPass
    · -- making the results changes nothing about the way to the index
      have hfewer := hhome.fewer_of_made hmade
      have hsame := hmade.others (v ++ ["index.json"]) (by simp)
      refine (h.of_index hfewer.index).isOk_openMade hfewer.home hquiet fun hgive => hindexPass ?_
      refine (hhome.seated.giveUp_iff proper_index proper_index (hhome.no_link _)
        (hfewer.home.no_link _) hmade.cwd (fun w hw => hmade.others w ?_) (by rw [hsame]) true
        true).mp hgive
      rintro rfl
      exact hw (inside_concat v "results" [])
  · exact hno.elim

/-- What is on disk is found by whoever opens it. -/
theorem Persisted.reopens (h : Persisted v d ix) (hhome : Home dir v d) (hlike : Like d d') :
    Reopens dir version d' ix := by
  have hhome' := hhome.of_like hlike
  have h' : Persisted v d' ix := h.of_index (hhome.fewer_of_like hlike).index
  refine ⟨fun c hc => ?_, h'.isOk_open hhome'⟩
  exact h'.begun ((open_spec version hhome').2 c hc).2

end Persisted

section Open

variable {dir version : String} {d : Disk} {c : Cache}

theorem now_restart (c : Cache) (log : List LogEntry) (d : Disk) :
    (c.restart log d).2.now = d.now := by
  have hnow := now_resetResults c.dir d
  unfold restart
  generalize resetResults c.dir d = reset at hnow ⊢
  obtain ⟨result, d'⟩ := reset
  cases result with
  | ok u => exact hnow
  | error e => exact hnow

theorem now_openWith (c : Cache) (content : Bytes) (d : Disk) :
    (c.openWith content d).2.now = d.now := by
  unfold openWith
  dsimp only
  split
  · exact now_restart ..
  · split_ifs
    · rfl
    · exact now_restart ..

theorem now_openMade (dir version : String) (d : Disk) :
    (openMade dir version d).2.now = d.now := by
  obtain ⟨hread⟩ := DiskM.timeless_read (indexPath dir) d rfl
  unfold openMade
  cases hact : DiskM.read (indexPath dir) d with
  | ok content d' =>
      rw [hact] at hread
      exact (now_openWith ..).trans hread
  | error e d' =>
      rw [hact] at hread
      dsimp only
      split_ifs
      · exact hread
      · exact hread

theorem writable_of_restart {c' : Cache} {log : List LogEntry} (hw : c.index.Writable)
    (h : (c.restart log d).1.result = .ok c') : c'.index.Writable := by
  unfold restart at h
  split at h
  · cases h
    exact hw
  · cases h

theorem writable_of_openWith {c' : Cache} {content : Bytes} (hw : c.index.Writable)
    (h : (c.openWith content d).1.result = .ok c') : c'.index.Writable := by
  unfold openWith at h
  dsimp only at h
  split at h
  · exact writable_of_restart hw h
  · next ix hparse =>
      split_ifs at h with hversion
      · cases h
        exact CacheIndex.writable_of_parse hparse hversion
      · exact writable_of_restart hw h

theorem writable_of_openMade (hclock : Json.Fits d.now)
    (h : (openMade dir version d).1.result = .ok c) : c.index.Writable := by
  unfold openMade at h
  split at h
  · exact writable_of_openWith (CacheIndex.writable_fresh hclock) h
  · split_ifs at h
    cases h
    exact CacheIndex.writable_fresh hclock

/-- Opening does not move the clock, and gives an index that can be written. -/
theorem open_clock (dir version : String) (d : Disk) : (open_ dir version d).2.now = d.now ∧
    (Json.Fits d.now → ∀ c, (open_ dir version d).1.result = .ok c → c.index.Writable) := by
  have hmake := now_onDisk (resultsPath dir)
    (DiskM.timeless_makeDirs (t := d.now) (resultsPath dir))
  rw [open_eq]
  generalize onDisk (resultsPath dir) (DiskM.makeDirs (resultsPath dir)) d = made at hmake
  obtain ⟨result, d₁⟩ := made
  cases result with
  | error e => exact ⟨hmake, fun _ c hc => by cases hc⟩
  | ok u =>
      refine ⟨(now_openMade ..).trans hmake, fun hclock c hc => writable_of_openMade ?_ hc⟩
      rwa [hmake]

/-- Wherever opening ends, it leaves a directory of which the cache holds what is on disk. -/
theorem open_homely (version : String) (h : Homely dir d) :
    Homely dir (open_ dir version d).2 ∧ ∀ c, (open_ dir version d).1.result = .ok c →
      c.dir = dir ∧ (c.dirty = false →
        ∃ v, Home dir v (open_ dir version d).2 ∧ Persisted v (open_ dir version d).2 c.index) := by
  rcases h with hmissing | ⟨v, hhome⟩
  · rcases open_of_missing version hmissing with ⟨e, he, hvacant⟩ | ⟨v, d₁, -, -, -, hfewer, hbegun⟩
    · refine ⟨hvacant.homely, fun c hc => ?_⟩
      rw [he] at hc
      cases hc
    · refine ⟨.inr ⟨v, hfewer.home⟩, fun c hc => ⟨(hbegun c hc).1, fun hclean => ?_⟩⟩
      exact ⟨v, hfewer.home, ((hbegun c hc).2.persisted hclean).of_index hfewer.index⟩
  · obtain ⟨hfewer, hbegun⟩ := open_spec version hhome
    refine ⟨.inr ⟨v, hfewer.home⟩, fun c hc => ⟨(hbegun c hc).1, fun hclean => ?_⟩⟩
    exact ⟨v, hfewer.home, ((hbegun c hc).2.persisted hclean).of_index hfewer.index⟩

end Open

section Steps

variable {dir : String} {s : Session} {c : Cache} {st : Step}

theorem recoverable_of_homely {d : Disk} (h : Homely dir d) (hclock : Json.Fits d.now) :
    Recoverable dir { disk := d } :=
  ⟨h, hclock, nofun, nofun, nofun⟩

theorem Recoverable.start (h : Recoverable dir s) (version : String) :
    Recoverable dir (s.step dir (.start version)) := by
  obtain ⟨hhomely, hopened⟩ := open_homely version h.homely
  obtain ⟨hnow, hwritable⟩ := open_clock dir version s.disk
  unfold Session.step
  dsimp only
  generalize open_ dir version s.disk = opened at hhomely hopened hnow hwritable ⊢
  exact {
    homely := hhomely
    clock := hnow.symm ▸ h.clock
    dir_eq := fun c hc => (hopened c (ok_of_toOption hc)).1
    writable := fun c hc => hwritable h.clock c (ok_of_toOption hc)
    clean := fun c hc => (hopened c (ok_of_toOption hc)).2 }

theorem Recoverable.world (h : Recoverable dir s) {d : Disk} (hd : Undisturbed dir s.disk d)
    (hclock : Json.Fits d.now) : Recoverable dir (s.step dir (.world d)) where
  homely := hd.imp And.right fun ⟨_, v, _, hhome, _⟩ => ⟨v, hhome⟩
  clock := hclock
  dir_eq := h.dir_eq
  writable := h.writable
  clean := by
    intro c hc hclean
    obtain ⟨v, hhome, hpersisted⟩ := h.clean c hc hclean
    rcases hd with ⟨hmissing, -⟩ | ⟨w, w', hhome', hmoved, hindex, -⟩
    · exact absurd hhome.seated.leads (hmissing v)
    · obtain rfl := hhome.way_unique hhome'
      exact ⟨w', hmoved, hpersisted.of_index hindex⟩

theorem Recoverable.act (h : Recoverable dir s) (hc : s.cache = some c) (st : Step) :
    Recoverable dir (s.act c st) := by
  obtain rfl := h.dir_eq c hc
  obtain ⟨c', hc', hcareful⟩ := careful_act hc h.homely st
  have hwritable := hcareful.writable h.clock (h.writable c hc)
  have hsame : ∀ {c''}, (s.act c st).cache = some c'' → c'' = c' := fun hc'' =>
    Option.some.inj (hc''.symm.trans hc')
  exact {
    homely := hcareful.homely
    clock := hcareful.now.symm ▸ h.clock
    dir_eq := fun c'' hc'' => hsame hc'' ▸ hcareful.dir
    writable := fun c'' hc'' => hsame hc'' ▸ hwritable
    clean := by
      intro c'' hc'' hclean
      obtain rfl := hsame hc''
      obtain ⟨hindex, ⟨hclean', hsteady⟩ | ⟨v, hhome, hwritten⟩⟩ := hcareful.clean hclean
      · obtain ⟨v, hhome, hpersisted⟩ := h.clean c hc hclean'
        obtain ⟨hhome', hindex'⟩ := hsteady.index v hhome
        exact ⟨v, hhome', hindex ▸ hpersisted.of_index hindex'⟩
      · exact ⟨v, hhome, persisted_of_render hwritable (hindex ▸ hwritten)⟩ }

/-- Every step keeps what can be recovered, be it that it succeeds or fails. -/
theorem Recoverable.step (h : Recoverable dir s) (hst : st.Quiet dir s)
    (hclock : ∀ d, st = .world d → Json.Fits d.now) : Recoverable dir (s.step dir st) := by
  have hopen : Recoverable dir (s.cache.elim s fun c => s.act c st) := by
    cases hc : s.cache with
    | none => exact h
    | some c => exact h.act hc st
  cases st with
  | start version => exact h.start version
  | world d => exact h.world hst (hclock d rfl)
  | context key => exact hopen
  | put path source r => exact hopen
  | get path source => exact hopen
  | invalidate path => exact hopen
  | cleanup => exact hopen
  | clear => exact hopen
  | save => exact hopen

theorem Recoverable.run {steps : List Step} (h : Recoverable dir s) (hquiet : s.Quiet dir steps)
    (hclock : ∀ d, Step.world d ∈ steps → Json.Fits d.now) :
    Recoverable dir (s.run dir steps) := by
  induction steps generalizing s with
  | nil => exact h
  | cons st steps ih =>
      refine ih (h.step hquiet.1 fun d hd => hclock d (hd ▸ List.mem_cons_self)) hquiet.2 ?_
      exact fun d hd => hclock d (List.mem_cons_of_mem _ hd)

theorem Recoverable.reopens (h : Recoverable dir s) (hc : s.cache = some c)
    (hclean : c.dirty = false) {d : Disk} (hlike : Like s.disk d) (version : String) :
    Reopens dir version d c.index := by
  obtain ⟨v, hhome, hpersisted⟩ := h.clean c hc hclean
  exact hpersisted.reopens hhome hlike

/-- A saved cache is clean and has the same entries. -/
theorem save_clean {d : Disk} (h : (c.save d).1 = .ok ()) :
    (c.save d).2.1.dirty = false ∧ (c.save d).2.1.index = c.index := by
  unfold save at h ⊢
  split_ifs at h ⊢ with hclean
  · exact ⟨by simpa using hclean, rfl⟩
  · split at h
    · exact ⟨rfl, rfl⟩
    · cases h

end Steps

section Main

variable {dir : String} {d : Disk} {steps : List Step} {c : Cache}

/-- **Clean means persisted.**  After any steps, of which each may have failed: if the cache is
clean, there is nothing to write, and whoever opens the directory gets exactly the same entries; and
if the cache was written, whoever opens the directory then gets exactly these entries. -/
theorem reopens_of_run (hhome : Homely dir d) (hclock : Json.Fits d.now)
    (hquiet : Session.Quiet dir { disk := d } steps)
    (hclocks : ∀ d', Step.world d' ∈ steps → Json.Fits d'.now)
    (hc : (Session.run dir { disk := d } steps).cache = some c) :
    (c.dirty = false →
      c.save (Session.run dir { disk := d } steps).disk =
          (.ok (), c, (Session.run dir { disk := d } steps).disk) ∧
        ∀ d' version, Like (Session.run dir { disk := d } steps).disk d' →
          Reopens dir version d' c.index) ∧
    ((c.save (Session.run dir { disk := d } steps).disk).1 = .ok () →
      ∀ d' version, Like (c.save (Session.run dir { disk := d } steps).disk).2.2 d' →
        Reopens dir version d' c.index) := by
  have h := (recoverable_of_homely hhome hclock).run hquiet hclocks
  generalize Session.run dir { disk := d } steps = s at h hc ⊢
  refine ⟨fun hclean => ⟨?_, fun d' version hlike => h.reopens hc hclean hlike version⟩,
    fun hok d' version hlike => ?_⟩
  · unfold save
    rw [hclean]
    rfl
  · obtain ⟨hclean, hindex⟩ := save_clean hok
    rw [← hindex]
    exact (h.act hc .save).reopens rfl hclean hlike version

/-- What was stored and written is there after the next start, also of another version. -/
theorem reopens_of_run_saved :
    ∃ c c', (Session.run "/c" { disk := {} }
        [.start "v", .put "a" [60] ⟨"a", [], 1, false⟩, .save]).cache = some c ∧
      c.dirty = false ∧ (c.index.find? "a").isSome = true ∧
      (open_ "/c" "w" (Session.run "/c" { disk := {} }
        [.start "v", .put "a" [60] ⟨"a", [], 1, false⟩, .save]).disk).1.result = .ok c' ∧
      ∀ path, c'.index.find? path = c.index.find? path := by
  have heval : (Session.run "/c" { disk := {} }
      [.start "v", .put "a" [60] ⟨"a", [], 1, false⟩, .save]).cache.any (fun c =>
        !c.dirty && (c.index.find? "a").isSome) = true ∧
      (Session.run "/c" { disk := {} }
        [.start "v", .put "a" [60] ⟨"a", [], 1, false⟩, .save]).disk.failures = [] ∧
      ∀ path ∈ indexPath "/c" :: DiskM.stages (resultsPath "/c"), (Session.run "/c" { disk := {} }
        [.start "v", .put "a" [60] ⟨"a", [], 1, false⟩, .save]).disk.Passable path := by
    decide +kernel
  obtain ⟨hcache, hfailures, hpass⟩ := heval
  obtain ⟨c, hc, hstate⟩ := (Option.any_eq_true _ _).mp hcache
  rw [Bool.and_eq_true, Bool.not_eq_true'] at hstate
  obtain ⟨-, hreopens⟩ := (reopens_of_run (.inl missing_of_empty) (by decide) (by trivial)
    (by simp) hc).1 hstate.1
  obtain ⟨c', hc'⟩ := (hreopens _ "w" (Like.refl _)).opens hfailures hpass
  exact ⟨c, c', hc, hstate.1, hstate.2, hc', ((hreopens _ "w" (Like.refl _)).entries c' hc').2⟩

end Main

end Cache

end InstallerLint
