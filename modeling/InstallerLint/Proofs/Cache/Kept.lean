import InstallerLint.Proofs.Cache.Directory
import InstallerLint.Proofs.Cache.Saved
import InstallerLint.Proofs.Diagnostic.Encodable

/-!
# What operations leave in place

Each operation on a cache writes or takes away the results of some names and leaves all others as
they are (`Keeps`).  Results that entries name are never taken away (`keeps_removeUnshared`).

**Reading.**  A result that is there is found: if it is not read, the disk refused it for another
reason (`not_isNotFound_of_blob`).
-/

namespace InstallerLint

open Disk

namespace Cache

/-- Results without certain names are as they were. -/
def Keeps (v : List String) (names : String → Prop) (d d' : Disk) : Prop :=
  ∀ f, ¬ DiskM.Temporary f → ¬ names f → blobAt v d' f = blobAt v d f

section Keeps

open DiskM

variable {dir : String} {v : List String} {names names' : String → Prop} {d d' d'' : Disk}

theorem Keeps.refl (d : Disk) : Keeps v names d d := fun _ _ _ => rfl

theorem Keeps.trans (h : Keeps v names d d') (h' : Keeps v names d' d'') : Keeps v names d d'' :=
  fun f hf hn => (h' f hf hn).trans (h f hf hn)

theorem Keeps.mono (h : Keeps v names d d') (hnames : ∀ f, names f → names' f) :
    Keeps v names' d d' :=
  fun f hf hn => h f hf fun hn' => hn (hnames f hn')

theorem keeps_of_like (h : Like d d') : Keeps v names d d' := fun f _ _ => blobAt_of_like h f

theorem keeps_of_edits_results (h : Edits (v ++ ["results"]) names d d') : Keeps v names d d' :=
  fun _ _ hn => blobAt_of_edits_results h hn

/-- Storing a result leaves all others in place, and no other comes. -/
theorem ends_writeBlob_keeps (content : Bytes) (h : Home dir v d) {f : String} (hf : IsBlob f) :
    Ends (writeWhole (resultsPath dir) f content) d
      (fun _ d' => Home dir v d' ∧ blobAt v d' f = some content ∧ Keeps v (· = f) d d' ∧
        ∀ g, g ≠ f → ∀ old, blobAt v d' g = some old → blobAt v d g = some old)
      fun _ => True := by
  refine ((ends_makeResults h).mono (fun _ _ h => h) fun _ _ => trivial).bind ?_
  rintro - d₁ ⟨hfewer, hdir, hsame⟩
  have hhome := hfewer.home
  refine (ends_replace content (hhome.seated_results hdir) hf.proper
    fun n _ => hhome.results n).mono ?_ fun _ _ => trivial
  rintro - d' ⟨hedits, ⟨time, hlook⟩, -, htidy⟩
  refine ⟨hhome.of_edits_results hedits, ?_, fun g hg hne => ?_, fun g hne old hold => ?_⟩
  · rw [blobAt, hlook]
    rfl
  · rw [blobAt_of_edits_results hedits (not_or.mpr ⟨hg, hne⟩)]
    exact hsame g
  · rw [← hsame g]
    unfold blobAt at hold ⊢
    rcases htidy g hne with hkept | hnone
    · rwa [← hkept]
    · rw [hnone] at hold
      cases hold

theorem keeps_removeBlob (h : Home dir v d) {f : String} (hf : Path.Proper f) :
    Keeps v (· = f) d (removeBlob (blobPath dir f) d).2 := by
  have hact : Ends (remove (blobPath dir f)) d (fun _ => Keeps v (· = f) d)
      (Keeps v (· = f) d) := by
    cases hresults : d.root.look (v ++ ["results"]) with
    | some e =>
        obtain rfl := h.look_results hresults
        refine (ends_remove (h.seated_results hresults) hf fun n _ => h.results n).mono ?_
          fun _ => keeps_of_like
        exact fun _ d' hd' => keeps_of_edits_results hd'.1
    | none =>
        -- there is nothing to take away, and nothing is found
        refine ends_attempt_then _ _ (fun _ => keeps_of_like) fun d' hlike => ?_
        rw [← hlike.root] at hresults
        obtain ⟨reason, hway⟩ := (hlike.seated h.seated).way_missing proper_results hresults hf false
        refine ends_get_then ?_
        change d'.way false (blobPath dir f) = .error reason at hway
        rw [find_of_way_error hway]
        exact ends_throw_then (keeps_of_like hlike)
  obtain ⟨hact⟩ := hact
  unfold removeBlob
  cases hrun : remove (blobPath dir f) d with
  | ok a d' =>
      rw [hrun] at hact
      exact hact
  | error e d' =>
      rw [hrun] at hact
      exact hact

/-- Results that are in use are never taken away. -/
theorem keeps_removeUnshared (used : List String) {fs : List String} (h : Home dir v d)
    (hfs : ∀ f ∈ fs, Path.Proper f) :
    Keeps v (· ∉ used) d (removeUnshared dir used fs d).2 := by
  induction fs generalizing d with
  | nil => exact Keeps.refl d
  | cons f fs ih =>
      have hrest : ∀ g ∈ fs, Path.Proper g := fun g hg => hfs g (List.mem_cons_of_mem _ hg)
      have hproper := hfs f List.mem_cons_self
      unfold removeUnshared
      split_ifs with hused
      · exact ih h hrest
      · have hone : Keeps v (· ∉ used) d (removeBlob (blobPath dir f) d).2 := by
          refine (keeps_removeBlob h hproper).mono fun g hg => ?_
          rw [hg]
          simpa using hused
        have hmany := hone.trans (ih (fewer_removeBlob h hproper).home hrest)
        dsimp only
        split
        · exact hmany
        · exact hmany

/-- After a result was stored and others were taken away, it is there, and so are all others that
are still in use. -/
theorem stored_and_kept {content : Bytes} {f : String} {d₁ : Disk} (h : Home dir v d)
    (hf : IsBlob f)
    (hwrite : onDisk (blobPath dir f) (writeWhole (resultsPath dir) f content) d = (.ok (), d₁))
    (used : List String) {fs : List String} (hfs : ∀ g ∈ fs, Path.Proper g) :
    Home dir v (removeUnshared dir used fs d₁).2 ∧
      (f ∈ used → blobAt v (removeUnshared dir used fs d₁).2 f = some content) ∧
      ∀ g, IsBlob g → g ∈ used → g ≠ f →
        blobAt v (removeUnshared dir used fs d₁).2 g = blobAt v d g := by
  have hends := onDisk_of_ends (blobPath dir f) (ends_writeBlob_keeps content h hf)
  rw [hwrite] at hends
  rcases hends with ⟨_, -, hhome, hblob, hkeeps, -⟩ | ⟨e, he, -⟩
  · have hrest := keeps_removeUnshared used hhome hfs
    refine ⟨(fewer_removeUnshared used hhome hfs).home, fun hused => ?_, fun g hg hused hne => ?_⟩
    · rw [hrest f hf.finished (not_not.mpr hused), hblob]
    · rw [hrest g hg.finished (not_not.mpr hused), hkeeps g hg.finished hne]
  · cases he

end Keeps

section Reading

variable {dir : String} {v : List String} {d d' : Disk} {f : String} {content : Bytes}

/-- The way to a file that is there leads to it, unless the disk gives up. -/
theorem read_of_look {w : List String} (h : d.Seated dir w) (hf : Path.Proper f) {time : Int}
    (hlook : d.root.look (w ++ [f]) = some (.file content time)) :
    d.read (Path.join [dir, f]) = .ok content ∨
      ∃ e, d.read (Path.join [dir, f]) = .error e ∧ e.reason = .tooManyLinks := by
  rcases h.way_name hf (look_ne_link hlook) true with hway | hway
  · refine Or.inr ⟨⟨"open", Path.join [dir, f], .tooManyLinks⟩, ?_, rfl⟩
    rw [Disk.read, find_of_way_error hway]
  · exact Or.inl (read_of_way hway hlook)

theorem exists_file_of_contentOf {o : Option Entry} (h : contentOf o = some content) :
    ∃ time, o = some (.file content time) := by
  unfold contentOf at h
  split at h
  · next content' time =>
      obtain rfl := Option.some.inj h
      exact ⟨time, rfl⟩
  · cases h

/-- A result stands in the directory of the results. -/
theorem Home.blob_stands (h : Home dir v d) (hblob : blobAt v d f = some content) :
    d.Seated (resultsPath dir) (v ++ ["results"]) ∧
      ∃ time, d.root.look (v ++ ["results"] ++ [f]) = some (.file content time) := by
  obtain ⟨time, hlook⟩ := exists_file_of_contentOf hblob
  refine ⟨h.seated_results ?_, time, hlook⟩
  exact Entry.look_eq_dir_of_look_append (List.cons_ne_nil f []) (Option.isSome_of_eq_some hlook)

/-- An operation that is refused is refused by the disk itself or in its further steps. -/
theorem error_of_attempt {α : Type} {operation path : String} {next : DiskM α} {e : DiskError}
    (h : (do DiskM.attempt operation path; next) d = .error e d') :
    e.isNotFound = false ∨ ∃ d₁, Like d d₁ ∧ next d₁ = .error e d' := by
  change EStateM.bind _ _ d = _ at h
  unfold EStateM.bind at h
  rw [DiskM.attempt] at h
  cases hfailures : d.failures with
  | nil =>
      rw [hfailures] at h
      exact .inr ⟨d, Like.refl d, h⟩
  | cons b rest =>
      rw [hfailures] at h
      cases b with
      | true =>
          cases h
          exact .inl rfl
      | false => exact .inr ⟨{ d with failures := rest }, ⟨rfl, rfl⟩, h⟩

/-- A file that is there is found: what hinders reading is something else. -/
theorem not_isNotFound_of_file {w : List String} (h : d.Seated dir w) (hf : Path.Proper f)
    {time : Int} (hlook : d.root.look (w ++ [f]) = some (.file content time)) {e : DiskError}
    (hread : DiskM.read (Path.join [dir, f]) d = .error e d') : e.isNotFound = false := by
  rcases error_of_attempt hread with hbroken | ⟨d₁, hlike, hfail⟩
  · exact hbroken
  change DiskM.ofExcept (d₁.read (Path.join [dir, f])) d₁ = .error e d' at hfail
  rw [← hlike.root] at hlook
  rcases read_of_look (hlike.seated h) hf hlook with hok | ⟨e', he', hreason⟩
  · rw [hok] at hfail
    cases hfail
  · rw [he'] at hfail
    cases hfail
    simp [DiskError.isNotFound, hreason]

/-- A result that is there is found. -/
theorem not_isNotFound_of_blob (h : Home dir v d) (hf : Path.Proper f)
    (hblob : blobAt v d f = some content) {e : DiskError}
    (hread : DiskM.read (blobPath dir f) d = .error e d') : e.isNotFound = false := by
  obtain ⟨hseat, time, hlook⟩ := h.blob_stands hblob
  exact not_isNotFound_of_file hseat hf hlook hread

/-- An index that is there is found. -/
theorem not_isNotFound_of_index (h : Home dir v d) (hindex : indexAt v d = some content)
    {e : DiskError} (hread : DiskM.read (indexPath dir) d = .error e d') :
    e.isNotFound = false := by
  obtain ⟨time, hlook⟩ := exists_file_of_contentOf hindex
  exact not_isNotFound_of_file h.seated proper_index hlook hread

theorem readBlob_blobOf {r : FileResult} (h : r.Encodable) :
    readBlob r.file (blobOf r) = some { r with fromCache := true } := by
  unfold readBlob blobOf
  rw [Json.parseBytes_compact true r.exact_toJson]
  show ((FileResult.ofJson r.toJson).bind _) = _
  rw [FileResult.ofJson_toJson h]
  simp [guard]

end Reading

end Cache

end InstallerLint
