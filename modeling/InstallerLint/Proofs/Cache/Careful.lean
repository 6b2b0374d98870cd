import InstallerLint.Proofs.Cache.Session
import InstallerLint.Proofs.Cache.Soundness
import InstallerLint.Proofs.Disk.Clock
import InstallerLint.Proofs.Disk.Removal

/-!
# Which operations leave a cache clean

An operation that leaves a cache clean leaves its entries alone, and either the index on disk as
well, or it has just written the present one (`Careful`).  Everything that drops or adds entries
marks the cache, also where the disk breaks in the middle.

**Missing directories.**  An entry of an index that somebody else wrote may name any file as its
result, so taking results away may take away anything; then the directory of the cache is where it
was, or it is missing (`Homely.of_shrinks`).  Whatever happens, writing the index gives a directory
that holds this index, unless it fails and leaves the old one alone (`ends_writeIndex_homely`).
-/

namespace InstallerLint

open Disk

namespace Cache

/-- The directory of a cache is missing, or it stands somewhere and holds what a cache writes. -/
def Homely (dir : String) (d : Disk) : Prop := d.Missing dir ∨ ∃ v, Home dir v d

/-- A disk on which the directory of a cache is where it was, with the same index. -/
structure Steady (dir : String) (d d' : Disk) : Prop where
  homely : Homely dir d'
  index : ∀ v, Home dir v d → Home dir v d' ∧ indexAt v d' = indexAt v d

section Homely

variable {dir : String} {v : List String} {d d' d'' : Disk}

/-- Disks with the same files are homely together. -/
theorem Homely.of_like (h : Homely dir d) (hlike : Like d d') : Homely dir d' := by
  rcases h with hmissing | ⟨v, hhome⟩
  · exact .inl (hmissing.of_like hlike)
  · exact .inr ⟨v, hhome.of_like hlike⟩

/-- Where something goes, the directory stays, or it is missing. -/
theorem Homely.of_shrinks (h : Homely dir d) (hshrinks : Shrinks d d') : Homely dir d' := by
  rcases h with hmissing | ⟨v, hhome⟩
  · exact .inl (hmissing.of_shrinks hshrinks)
  rcases hhome.seated.of_shrinks hshrinks with hmissing | hseat
  · exact .inl hmissing
  · exact .inr ⟨v, hseat, fun n e he => hhome.plain n e (hshrinks.faces _ e he),
      fun n e he => hhome.results n e (hshrinks.faces _ e he)⟩

theorem Vacant.homely (h : Vacant dir d) : Homely dir d :=
  h.imp_right fun ⟨v, hhome, _⟩ => ⟨v, hhome⟩

/-- A directory has one way. -/
theorem Home.way_unique {v' : List String} (h : Home dir v d) (h' : Home dir v' d) : v' = v :=
  h'.seated.leads.unique h.seated.leads

/-- Taking files of the directory away leaves everything else steady. -/
theorem Fewer.steady (h : Fewer dir v d d') (hhome : Home dir v d) : Steady dir d d' where
  homely := .inr ⟨v, h.home⟩
  index := by
    intro v' hhome'
    obtain rfl := hhome.way_unique hhome'
    exact ⟨h.home, h.index⟩

theorem steady_of_missing (h : d.Missing dir) (h' : Homely dir d') : Steady dir d d' :=
  ⟨h', fun v hhome => absurd hhome.seated.leads (h v)⟩

theorem Homely.steady_of_like (h : Homely dir d) (hlike : Like d d') : Steady dir d d' where
  homely := h.of_like hlike
  index := fun v hhome => ⟨hhome.of_like hlike, by rw [indexAt, indexAt, hlike.root]⟩

end Homely

section Operations

open DiskM

variable {dir : String} {d : Disk}

theorem ends_read_like (path : String) (d : Disk) :
    Ends (read path) d (fun _ => Like d) (Like d) :=
  ends_attempt_then _ _ (fun _ h => h) fun _ hlike =>
    ends_get_then (ends_ofExcept (fun _ _ => hlike) hlike)

/-- Removing a blob removes at most that file. -/
theorem shrinks_removeBlob (path : String) (d : Disk) : Shrinks d (removeBlob path d).2 := by
  obtain ⟨hend⟩ := ends_remove_shrinks path d
  unfold removeBlob
  cases hrun : remove path d with
  | ok a d' =>
      rw [hrun] at hend
      exact hend
  | error e d' =>
      rw [hrun] at hend
      exact hend.shrinks

/-- Removing blobs that are not shared only removes files. -/
theorem shrinks_removeUnshared (dir : String) (used fs : List String) (d : Disk) :
    Shrinks d (removeUnshared dir used fs d).2 := by
  induction fs generalizing d with
  | nil => exact Shrinks.refl d
  | cons f fs ih =>
      unfold removeUnshared
      split_ifs
      · exact ih d
      · have hmany := (shrinks_removeBlob (blobPath dir f) d).trans (ih _)
        dsimp only
        split
        · exact hmany
        · exact hmany

/-- Storing a result leaves the index alone if it fails. -/
theorem ends_writeBlob_homely (content : Bytes) (h : Homely dir d) {f : String} (hf : IsBlob f) :
    Ends (writeWhole (resultsPath dir) f content) d (fun _ => Homely dir) (Steady dir d) := by
  rcases h with hmissing | ⟨v, hhome⟩
  · have hmake : Ends (makeDirs (resultsPath dir)) d
        (fun _ d' => ∃ v, Home dir v d' ∧ d'.root.look (v ++ ["results"]) = some (.dir []))
        (Steady dir d) := by
      refine (ends_makeDirs_of_missing hmissing proper_results).mono ?_ fun d' hempty =>
        steady_of_missing hmissing (Vacant.of_madeEmpty hempty).homely
      rintro - d' ⟨v, hseat, hdir, honly⟩
      exact ⟨v, (home_of_made hseat honly).1, hdir⟩
    refine hmake.bind ?_
    rintro - d₁ ⟨v, hhome, hdir⟩
    refine (ends_replace content (hhome.seated_results hdir) hf.proper
      fun n _ => hhome.results n).mono ?_ fun d' hedits => ?_
    · exact fun _ d' hedits => .inr ⟨v, hhome.of_edits_results hedits.1⟩
    · exact steady_of_missing hmissing (.inr ⟨v, hhome.of_edits_results hedits⟩)
  · exact (ends_writeBlob content hhome hf).mono (fun _ d' hstored => .inr ⟨v, hstored.home⟩)
      fun d' hfewer => hfewer.steady hhome

/-- Writing the index gives a directory that holds it, or leaves the old one alone. -/
theorem ends_writeIndex_homely (content : Bytes) (h : Homely dir d) :
    Ends (writeWhole dir "index.json" content) d
      (fun _ d' => ∃ v, Home dir v d' ∧ indexAt v d' = some content) (Steady dir d) := by
  rcases h with hmissing | ⟨v, hhome⟩
  · have hsteady : ∀ {d'}, MadeEmpty dir d' → Steady dir d d' := fun hempty =>
      steady_of_missing hmissing (Vacant.of_madeEmpty hempty).homely
    refine ((ends_makeDirs_missing hmissing).mono (fun _ _ h => h) fun _ => hsteady).bind ?_
    rintro - d₁ hempty
    rcases id hempty with hstill | ⟨v, hseat, hhollow⟩
    · refine ((ends_createTemp_missing _ hstill (proper_temp proper_index)).mono (fun _ _ h => h)
        fun _ hlike => hsteady (hempty.of_like hlike)).bind fun _ _ hno => hno.elim
    · have hhome : Home dir v d₁ := (home_of_made hseat fun w hw e he => by
        rw [hhollow w hw] at he
        cases he).1
      refine (ends_replaceIndex content hhome).mono (fun _ d' h => ⟨v, h.1, h.2.1⟩)
        fun d' hfewer => steady_of_missing hmissing (.inr ⟨v, hfewer.home⟩)
  · exact (ends_writeIndex content hhome).mono (fun _ d' h => ⟨v, h.1, h.2.1⟩)
      fun d' hfewer => hfewer.steady hhome

/-- Resetting the results keeps a place for the cache. -/
theorem homely_resetResults (h : Homely dir d) : Homely dir (resetResults dir d).2 := by
  rcases h with hmissing | ⟨v, hhome⟩
  · have hact : Ends (do removeAll (resultsPath dir); makeDirs (resultsPath dir)) d
        (fun _ => Homely dir) (Homely dir) := by
      refine ((ends_removeAll_missing hmissing proper_results).mono (fun _ _ h => h)
        fun _ hlike => .inl (hmissing.of_like hlike)).bind fun _ d₁ hlike => ?_
      refine (ends_makeDirs_of_missing (hmissing.of_like hlike) proper_results).mono ?_
        fun d' hempty => (Vacant.of_madeEmpty hempty).homely
      rintro - d' ⟨v, hseat, -, honly⟩
      exact .inr ⟨v, (home_of_made hseat honly).1⟩
    unfold resetResults
    rcases onDisk_of_ends (resultsPath dir) hact with ⟨_, -, h⟩ | ⟨_, -, h⟩
    · exact h
    · exact h
  · exact .inr ⟨v, (fewer_resetResults hhome).home⟩

end Operations

end Cache

/-- An index that is read with all its entries once it is written. -/
structure CacheIndex.Writable (ix : CacheIndex) : Prop where
  distinct : ix.Distinct
  fits : ix.Fits
  version : ix.version = formatVersion

namespace CacheIndex

variable {ix : CacheIndex}

theorem writable_fresh {now : Int} (h : Json.Fits now) : (fresh now).Writable :=
  ⟨distinct_fresh now, fits_fresh h, rfl⟩

/-- An index that was read can be written again. -/
theorem writable_of_parse {content : Bytes} (h : parse content = .ok ix)
    (hversion : ix.version = formatVersion) : ix.Writable :=
  ⟨distinct_of_parse h, fits_of_parse h, hversion⟩

/-- An index stays writable when entries are dropped. -/
theorem Writable.filter (h : ix.Writable) (p : String × CacheEntry → Bool) :
    Writable { ix with entries := ix.entries.filter p } :=
  ⟨h.distinct.filter p, h.fits.filter p, h.version⟩

theorem Writable.insert (h : ix.Writable) (path : String) {e : CacheEntry}
    (he : Json.Fits e.analyzedAt) : (ix.insert path e).Writable :=
  ⟨h.distinct.insert path e, h.fits.insert path he, h.version⟩

end CacheIndex

namespace Cache

/-- What an operation does to a cache and its disk.  If the cache is clean afterwards, its entries
are as before, and the index on disk is as before or holds them. -/
structure Careful (c : Cache) (d : Disk) (c' : Cache) (d' : Disk) : Prop where
  dir : c'.dir = c.dir
  homely : Homely c.dir d'
  now : d'.now = d.now
  writable : Json.Fits d.now → c.index.Writable → c'.index.Writable
  clean : c'.dirty = false → c'.index = c.index ∧ (c.dirty = false ∧ Steady c.dir d d' ∨
    ∃ v, Home c.dir v d' ∧ indexAt v d' = some c.index.render)

section Operations

open DiskM

variable {c c' : Cache} {d d' : Disk}

/-- Only operations that take time move the clock. -/
theorem now_onDisk {α : Type} {act : DiskM α} (path : String) (h : Timeless d.now act) :
    (onDisk path act d).2.now = d.now := by
  obtain ⟨hend⟩ := h d rfl
  unfold onDisk
  cases hact : act d with
  | ok a d' =>
      rw [hact] at hend
      exact hend
  | error e d' =>
      rw [hact] at hend
      exact hend

theorem now_resetResults (dir : String) (d : Disk) : (resetResults dir d).2.now = d.now :=
  now_onDisk _ ((timeless_removeAll _).bind fun _ => timeless_makeDirs _)

theorem now_removeUnshared (dir : String) (used fs : List String) (d : Disk) :
    (removeUnshared dir used fs d).2.now = d.now := by
  have hone : ∀ (path : String) (d : Disk), (removeBlob path d).2.now = d.now := by
    intro path d
    obtain ⟨hend⟩ := timeless_remove path d rfl
    unfold removeBlob
    cases hact : remove path d with
    | ok a d' =>
        rw [hact] at hend
        exact hend
    | error e d' =>
        rw [hact] at hend
        exact hend
  induction fs generalizing d with
  | nil => rfl
  | cons f fs ih =>
      unfold removeUnshared
      split_ifs
      · exact ih d
      · have hmany := (ih (removeBlob (blobPath dir f) d).2).trans (hone _ d)
        dsimp only
        split
        · exact hmany
        · exact hmany

/-- Entries changed, and the cache is marked. -/
theorem careful_of_dirty (hdir : c'.dir = c.dir) (hhomely : Homely c.dir d')
    (hnow : d'.now = d.now) (hwritable : Json.Fits d.now → c.index.Writable → c'.index.Writable)
    (hdirty : c'.dirty = true) : Careful c d c' d' where
  dir := hdir
  homely := hhomely
  now := hnow
  writable := hwritable
  clean := fun hclean => by
    rw [hdirty] at hclean
    cases hclean

/-- Entries changed, the cache is marked, and then results are taken away. -/
theorem careful_of_removal {used fs : List String} (hdir : c'.dir = c.dir)
    (hhomely : Homely c.dir d') (hnow : d'.now = d.now)
    (hwritable : Json.Fits d.now → c.index.Writable → c'.index.Writable)
    (hdirty : c'.dirty = true) : Careful c d c' (removeUnshared c.dir used fs d').2 :=
  careful_of_dirty hdir (hhomely.of_shrinks (shrinks_removeUnshared ..))
    ((now_removeUnshared ..).trans hnow) hwritable hdirty

/-- No entry changed, and the index on disk did not either. -/
theorem careful_of_steady (hdir : c'.dir = c.dir) (hindex : c'.index = c.index)
    (hdirty : c'.dirty = c.dirty) (hnow : d'.now = d.now) (hsteady : Steady c.dir d d') :
    Careful c d c' d' where
  dir := hdir
  homely := hsteady.homely
  now := hnow
  writable := fun _ h => by rwa [hindex]
  clean := fun hclean => ⟨hindex, .inl ⟨hdirty ▸ hclean, hsteady⟩⟩

theorem Homely.steady (h : Homely c.dir d) : Steady c.dir d d := h.steady_of_like (Like.refl d)

/-- A look-up marks the index when it drops an entry. -/
theorem careful_get (h : Homely c.dir d) (path : String) (source : Bytes) :
    Careful c d (c.get path source d).2.1 (c.get path source d).2.2 := by
  unfold Cache.get
  cases c.index.find? path with
  | none => exact careful_of_steady rfl rfl rfl rfl h.steady
  | some e =>
      dsimp only
      split_ifs
      · exact careful_of_steady rfl rfl rfl rfl h.steady
      · obtain ⟨hend⟩ := ends_read_like (blobPath c.dir e.resultFile) d
        obtain ⟨htime⟩ := timeless_read (blobPath c.dir e.resultFile) d rfl
        have hdrop : ∀ {d'}, Like d d' → d'.now = d.now → Careful c d (c.dropCorrupt path) d' :=
          fun hlike hnow => careful_of_dirty rfl (h.of_like hlike) hnow
            (fun _ hw => hw.filter _) rfl
        generalize DiskM.read (blobPath c.dir e.resultFile) d = result at hend htime ⊢
        cases result with
        | error err d' => exact hdrop hend htime
        | ok content d' =>
            dsimp only at hend htime ⊢
            cases readBlob path content with
            | none => exact hdrop hend htime
            | some r => exact careful_of_steady rfl rfl rfl htime (h.steady_of_like hend)

/-- Storing a result marks the index. -/
theorem careful_put (h : Homely c.dir d) (path : String) (source : Bytes) (r : FileResult) :
    Careful c d (c.put path source r d).2.1 (c.put path source r d).2.2 := by
  unfold Cache.put
  cases hgraded : r.isGraded with
  | false => exact careful_of_steady rfl rfl rfl rfl h.steady
  | true =>
      simp only [Bool.not_true, Bool.false_eq_true, if_false]
      have hblob : IsBlob (c.entryFor path source d.now).resultFile := isBlob_fileFor _ _
      have hat : (c.entryFor path source d.now).analyzedAt = d.now := rfl
      generalize c.entryFor path source d.now = e at hblob hat ⊢
      have hwrite := onDisk_of_ends (blobPath c.dir e.resultFile)
        (ends_writeBlob_homely (blobOf r) h hblob)
      have hnow := now_onDisk (blobPath c.dir e.resultFile)
        (timeless_writeWhole (t := d.now) (resultsPath c.dir) e.resultFile (blobOf r))
      generalize onDisk (blobPath c.dir e.resultFile)
        (DiskM.writeWhole (resultsPath c.dir) e.resultFile (blobOf r)) d = written
        at hwrite hnow ⊢
      obtain ⟨result, d₁⟩ := written
      rcases hwrite with ⟨u, rfl, hhomely⟩ | ⟨err, rfl, hsteady⟩
      · refine careful_of_removal rfl hhomely hnow (fun hfits hw => hw.insert path ?_) rfl
        rwa [hat]
      · exact careful_of_steady rfl rfl rfl hnow hsteady

/-- Invalidating marks the index when an entry goes. -/
theorem careful_invalidate (h : Homely c.dir d) (path : String) :
    Careful c d (c.invalidate path d).1 (c.invalidate path d).2 := by
  unfold Cache.invalidate
  cases c.index.find? path with
  | none => exact careful_of_steady rfl rfl rfl rfl h.steady
  | some e => exact careful_of_removal rfl h rfl (fun _ hw => hw.filter _) rfl

/-- Cleaning up marks the index when it drops entries. -/
theorem careful_cleanup (h : Homely c.dir d) :
    Careful c d (c.cleanup d).2.1 (c.cleanup d).2.2 where
  dir := rfl
  homely := h.of_shrinks (shrinks_removeUnshared ..)
  now := now_removeUnshared ..
  writable := fun _ hw => hw.filter _
  clean := by
    intro hclean
    obtain ⟨hdirty, hnone⟩ := Bool.or_eq_false_iff.mp hclean
    have hold : (c.index.entries.filter fun p => isOld d.now p.2) = [] := by simpa using hnone
    have hkept : (c.index.entries.filter fun p => !isOld d.now p.2) = c.index.entries := by
      rw [List.filter_eq_self]
      intro p hp
      simpa using List.filter_eq_nil_iff.mp hold p hp
    unfold Cache.cleanup
    rw [hold, hkept]
    exact ⟨rfl, .inl ⟨hdirty, h.steady⟩⟩

/-- Clearing marks the emptied index. -/
theorem careful_clear (h : Homely c.dir d) : Careful c d (c.clear d).2.1 (c.clear d).2.2 :=
  careful_of_dirty rfl (homely_resetResults h) (now_resetResults ..)
    (fun hfits _ => CacheIndex.writable_fresh hfits) rfl

/-- Saving takes the mark off when the index is on disk. -/
theorem careful_save (h : Homely c.dir d) : Careful c d (c.save d).2.1 (c.save d).2.2 := by
  unfold Cache.save
  split_ifs with hclean
  · exact careful_of_steady rfl rfl rfl rfl h.steady
  · have hwrite := onDisk_of_ends (indexPath c.dir) (ends_writeIndex_homely c.index.render h)
    have hnow := now_onDisk (indexPath c.dir)
      (timeless_writeWhole (t := d.now) c.dir "index.json" c.index.render)
    generalize onDisk (indexPath c.dir) (DiskM.writeWhole c.dir "index.json" c.index.render) d =
      written at hwrite hnow ⊢
    obtain ⟨result, d₁⟩ := written
    rcases hwrite with ⟨u, rfl, v, hhome, hindex⟩ | ⟨e, rfl, hsteady⟩
    · exact ⟨rfl, .inr ⟨v, hhome⟩, hnow, fun _ hw => hw, fun _ => ⟨rfl, .inr ⟨v, hhome, hindex⟩⟩⟩
    · exact careful_of_steady rfl rfl rfl hnow hsteady

/-- Every operation is careful. -/
theorem careful_act {s : Session} (hc : s.cache = some c) (h : Homely c.dir s.disk) (st : Step) :
    ∃ c', (s.act c st).cache = some c' ∧ Careful c s.disk c' (s.act c st).disk := by
  have hsame := careful_of_steady (c := c) rfl rfl rfl rfl h.steady
  cases st with
  | start version => exact ⟨c, hc, hsame⟩
  | world d => exact ⟨c, hc, hsame⟩
  | context key => exact ⟨_, rfl, careful_of_steady rfl rfl rfl rfl h.steady⟩
  | put path source r => exact ⟨_, rfl, careful_put h path source r⟩
  | get path source => exact ⟨_, rfl, careful_get h path source⟩
  | invalidate path => exact ⟨_, rfl, careful_invalidate h path⟩
  | cleanup => exact ⟨_, rfl, careful_cleanup h⟩
  | clear => exact ⟨_, rfl, careful_clear h⟩
  | save => exact ⟨_, rfl, careful_save h⟩

end Operations

end Cache

end InstallerLint
