import InstallerLint.Cache.Basic
import InstallerLint.Proofs.Disk.Directory

/-!
# The directory of a cache

What a cache keeps on disk is known by the content of its index and by the contents of its results,
each under its name (`indexAt`, `blobAt`).  A directory that only a cache writes to holds files and
the directory of the results, and no links (`Home`).

**Interruptions.**  Every operation either does what it should or, wherever the disk breaks, leaves
the index as it was and at most loses results (`Fewer`).
-/

namespace InstallerLint

open Disk

namespace Cache

/-- The content of a file. -/
def contentOf : Option Entry → Option Bytes
  | some (.file content _) => some content
  | _ => none

/-- The content of the index of a cache at a way. -/
def indexAt (v : List String) (d : Disk) : Option Bytes :=
  contentOf (d.root.look (v ++ ["index.json"]))

/-- The content of a result of a cache at a way. -/
def blobAt (v : List String) (d : Disk) (name : String) : Option Bytes :=
  contentOf (d.root.look (v ++ ["results"] ++ [name]))

/-- The directory of a cache stands at a way, and holds what a cache writes. -/
structure Home (dir : String) (v : List String) (d : Disk) : Prop where
  seated : d.Seated dir v
  plain : ∀ n e, d.root.look (v ++ [n]) = some e →
    n ≠ "results" ∧ e.isFile = true ∨ n = "results" ∧ e = .dir []
  results : ∀ n e, d.root.look (v ++ ["results"] ++ [n]) = some e → e.isFile = true

/-- A disk on which the index is as it was, and no result came or changed. -/
structure Fewer (dir : String) (v : List String) (d d' : Disk) : Prop where
  home : Home dir v d'
  index : indexAt v d' = indexAt v d
  blobs : ∀ f, ¬ DiskM.Temporary f → ∀ content, blobAt v d' f = some content →
    blobAt v d f = some content

/-- A name under which results are stored. -/
structure IsBlob (name : String) : Prop where
  proper : Path.Proper name
  finished : ¬ DiskM.Temporary name

section Names

theorem proper_results : Path.Proper "results" := ⟨by decide, by decide, by decide, by decide⟩

theorem proper_index : Path.Proper "index.json" := ⟨by decide, by decide, by decide, by decide⟩

/-- The characters of hexadecimal numbers. -/
def hexChars : List Char :=
  ['0', '1', '2', '3', '4', '5', '6', '7', '8', '9', 'a', 'b', 'c', 'd', 'e', 'f']

/-- Every written digit is one of the sixteen. -/
theorem hexChar_mem (n : Nat) : Quoted.hexChar n ∈ hexChars := by
  have hall : ∀ k : Fin 16, Quoted.hexChar k ∈ hexChars := by decide
  have hmod : Quoted.hexChar n = Quoted.hexChar (n % 16) := by
    unfold Quoted.hexChar
    rw [Nat.mod_mod]
  rw [hmod]
  exact hall ⟨n % 16, Nat.mod_lt _ (by decide)⟩

theorem mem_hexWidth {w n : Nat} {c : Char} (h : c ∈ Quoted.hexWidth w n) : c ∈ hexChars := by
  induction w generalizing n with
  | zero => cases h
  | succ w ih =>
      rcases List.mem_append.mp h with h | h
      · exact ih h
      · rw [List.mem_singleton.mp h]
        exact hexChar_mem n

/-- Hashes consist of hexadecimal digits. -/
theorem mem_hashOf {source : Bytes} {c : Char} (h : c ∈ (CacheEntry.hashOf source).toList) :
    c ∈ hexChars := by
  have hwords : ∀ l : List UInt32, c ∈ (String.join (l.map Hash.hex32)).toList → c ∈ hexChars := by
    intro l hc
    rw [String.toList_join] at hc
    obtain ⟨s, hs, hc⟩ := List.mem_flatMap.mp hc
    obtain ⟨x, -, rfl⟩ := List.mem_map.mp hs
    rw [Hash.hex32, String.toList_ofList] at hc
    exact mem_hexWidth hc
  exact hwords _ h

/-- Marks of paths consist of hexadecimal digits. -/
theorem mem_pathMark {path : String} {c : Char} (h : c ∈ (CacheEntry.pathMark path).toList) :
    c ∈ hexChars := by
  unfold CacheEntry.pathMark Hash.xxh64 Hash.hex64 at h
  rw [String.toList_ofList, String.toList_ofList] at h
  exact mem_hexWidth (List.mem_of_mem_drop h)

/-- The name of a result: digits of the hash, a dash, the mark of the path. -/
theorem toList_fileFor (path hash : String) : (CacheEntry.fileFor path hash).toList =
    hash.toList.take 16 ++ '-' :: ((CacheEntry.pathMark path).toList ++ ".json".toList) := by
  simp [CacheEntry.fileFor, String.toList_append]

/-- Results are stored under proper names. -/
theorem isBlob_fileFor (path : String) (source : Bytes) :
    IsBlob (CacheEntry.fileFor path (CacheEntry.hashOf source)) := by
  have hlist := toList_fileFor path (CacheEntry.hashOf source)
  have hlong : ∀ s : String, s.toList.length < 5 →
      CacheEntry.fileFor path (CacheEntry.hashOf source) ≠ s := by
    rintro s hs rfl
    rw [hlist] at hs
    simp only [List.length_append, List.length_cons, show ".json".toList.length = 5 from rfl] at hs
    omega
  have hfront : ∀ c ∈ (CacheEntry.hashOf source).toList.take 16, c ∈ hexChars :=
    fun c hc => mem_hashOf (List.mem_of_mem_take hc)
  refine ⟨⟨hlong _ (by decide), hlong _ (by decide), hlong _ (by decide), ?_⟩, ?_⟩
  · rw [hlist]
    intro hmem
    simp only [List.mem_append, List.mem_cons] at hmem
    rcases hmem with hmem | hmem | hmem | hmem
    · exact absurd (hfront _ hmem) (by decide)
    · exact absurd hmem (by decide)
    · exact absurd (mem_pathMark hmem) (by decide)
    · exact absurd hmem (by decide)
  · -- the first character is a digit of the hash or the dash behind it, and no dot
    unfold DiskM.Temporary
    rw [hlist]
    rintro ⟨rest, hrest⟩
    cases hh : (CacheEntry.hashOf source).toList.take 16 with
    | nil =>
        rw [hh] at hrest
        exact absurd (List.cons.inj hrest).1 (by decide)
    | cons c cs =>
        rw [hh] at hrest hfront
        obtain rfl : '.' = c := (List.cons.inj hrest).1
        exact absurd (hfront '.' List.mem_cons_self) (by decide)

end Names

section Home

variable {dir : String} {v : List String} {d d' d'' : Disk} {names : String → Prop}

theorem Home.of_like (h : Home dir v d) (hlike : Like d d') : Home dir v d' where
  seated := hlike.seated h.seated
  plain := by rw [hlike.root]; exact h.plain
  results := by rw [hlike.root]; exact h.results

theorem eq_of_prefix_results {m n : String} (h : v ++ [m] <+: v ++ ["results"] ++ [n]) :
    m = "results" := by
  rw [List.append_assoc, List.prefix_append_right_inj] at h
  exact (List.cons_prefix_cons.mp h).1

theorem not_results_prefix (m n : String) : ¬ v ++ ["results"] ++ [m] <+: v ++ [n] := by
  intro h
  have hlen := h.length_le
  simp only [List.length_append, List.length_cons, List.length_nil] at hlen
  omega

/-- Edits of other files leave the cache its home. -/
theorem Home.of_edits (h : Home dir v d) (hedits : Edits v names d d')
    (hnames : ¬ names "results") : Home dir v d' where
  seated := hedits.seated h.seated
  plain := by
    intro n e he
    by_cases hn : names n
    · refine Or.inl ⟨fun heq => hnames (heq ▸ hn), hedits.files n hn (fun e he => ?_) e he⟩
      rcases h.plain n e he with ⟨-, hfile⟩ | ⟨rfl, -⟩
      · exact hfile
      · exact absurd hn hnames
    · rw [hedits.other hn] at he
      exact h.plain n e he
  results := by
    intro n e he
    rw [hedits.others _ fun m hm hpre => hnames (eq_of_prefix_results hpre ▸ hm)] at he
    exact h.results n e he

/-- Edits among the results leave the cache its home. -/
theorem Home.of_edits_results (h : Home dir v d)
    (hedits : Edits (v ++ ["results"]) names d d') : Home dir v d' where
  seated := by
    refine h.seated.congr hedits.cwd fun way hway => hedits.others way ?_
    rintro n - ⟨rest, rfl⟩
    refine hway ?_
    rw [List.append_assoc, List.append_assoc]
    exact inside_concat v "results" _
  plain := by
    intro n e he
    rw [hedits.others _ fun m _ => not_results_prefix m n] at he
    exact h.plain n e he
  results := by
    intro n e he
    by_cases hn : names n
    · exact hedits.files n hn (h.results n) e he
    · rw [hedits.other hn] at he
      exact h.results n e he

/-- Edits beside the results leave every result. -/
theorem blobAt_of_edits (hedits : Edits v names d d') (hnames : ¬ names "results") (f : String) :
    blobAt v d' f = blobAt v d f := by
  unfold blobAt
  rw [hedits.others _ fun m hm hpre => hnames (eq_of_prefix_results hpre ▸ hm)]

/-- Edits of other files leave the index. -/
theorem indexAt_of_edits (hedits : Edits v names d d') (hnames : ¬ names "index.json") :
    indexAt v d' = indexAt v d := by
  unfold indexAt
  rw [hedits.other hnames]

/-- Edits among the results leave the index. -/
theorem indexAt_of_edits_results (hedits : Edits (v ++ ["results"]) names d d') :
    indexAt v d' = indexAt v d := by
  unfold indexAt
  rw [hedits.others _ fun m _ => not_results_prefix m _]

/-- Edits among the results leave those not named. -/
theorem blobAt_of_edits_results (hedits : Edits (v ++ ["results"]) names d d') {f : String}
    (hf : ¬ names f) : blobAt v d' f = blobAt v d f := by
  unfold blobAt
  rw [hedits.other hf]

theorem blobAt_of_like (h : Like d d') (f : String) : blobAt v d' f = blobAt v d f := by
  rw [blobAt, blobAt, h.root]

theorem Fewer.refl (h : Home dir v d) : Fewer dir v d d := ⟨h, rfl, fun _ _ _ h => h⟩

theorem Fewer.trans (h : Fewer dir v d d') (h' : Fewer dir v d' d'') : Fewer dir v d d'' where
  home := h'.home
  index := h'.index.trans h.index
  blobs := fun f hf content hc => h.blobs f hf content (h'.blobs f hf content hc)

theorem Home.fewer_of_like (h : Home dir v d) (hlike : Like d d') : Fewer dir v d d' where
  home := h.of_like hlike
  index := by rw [indexAt, indexAt, hlike.root]
  blobs := fun f _ content hc => by rwa [blobAt_of_like hlike] at hc

theorem not_temporary_results : ¬ DiskM.Temporary "results" := by
  unfold DiskM.Temporary
  decide

theorem not_temporary_index : ¬ DiskM.Temporary "index.json" := by
  unfold DiskM.Temporary
  decide

/-- Temporary files come and go beside the index. -/
theorem Home.fewer_of_temporary (h : Home dir v d) (hedits : Edits v DiskM.Temporary d d') :
    Fewer dir v d d' where
  home := h.of_edits hedits not_temporary_results
  index := indexAt_of_edits hedits not_temporary_index
  blobs := fun f _ content hc => by rwa [blobAt_of_edits hedits not_temporary_results] at hc

/-- Temporary files come and go beside the results. -/
theorem Home.fewer_of_temporary_results (h : Home dir v d)
    (hedits : Edits (v ++ ["results"]) DiskM.Temporary d d') : Fewer dir v d d' where
  home := h.of_edits_results hedits
  index := indexAt_of_edits_results hedits
  blobs := fun f hf content hc => by rwa [blobAt_of_edits_results hedits hf] at hc

theorem look_below_none {w : List String} (h : d.root.look w = none) (n : String) :
    d.root.look (w ++ [n]) = none := by
  cases hlook : d.root.look (w ++ [n]) with
  | none => rfl
  | some e =>
      have hdir := Entry.look_eq_dir_of_look_append (List.cons_ne_nil n [])
        (Option.isSome_of_eq_some hlook)
      rw [h] at hdir
      cases hdir

theorem blobAt_of_look_none (h : d.root.look (v ++ ["results"]) = none) (f : String) :
    blobAt v d f = none := by
  rw [blobAt, look_below_none h]
  rfl

/-- Making the directory of results makes no result. -/
theorem blobAt_of_made (h : Made (v ++ ["results"]) d d') (f : String) :
    blobAt v d' f = blobAt v d f := by
  rw [blobAt, blobAt, look_below_none h.before, h.below (inside_concat _ f [])]

/-- Without the directory of the results there are no results. -/
theorem Home.fewer_of_erased (h : Home dir v d) (hedits : Edits v (· = "results") d d')
    (hnone : d'.root.look (v ++ ["results"]) = none) : Fewer dir v d d' where
  home := by
    refine ⟨hedits.seated h.seated, ?_, ?_⟩
    · intro n e he
      by_cases hn : n = "results"
      · rw [hn, hnone] at he
        cases he
      · rw [hedits.other hn] at he
        exact h.plain n e he
    · intro n e he
      rw [look_below_none hnone] at he
      cases he
  index := indexAt_of_edits hedits (by decide)
  blobs := fun f _ content hc => by
    rw [blobAt_of_look_none hnone] at hc
    cases hc

/-- A result that was taken away. -/
theorem Home.fewer_of_removed (h : Home dir v d) {f : String}
    (hedits : Edits (v ++ ["results"]) (· = f) d d')
    (hnone : d'.root.look (v ++ ["results"] ++ [f]) = none) : Fewer dir v d d' where
  home := h.of_edits_results hedits
  index := indexAt_of_edits_results hedits
  blobs := fun g _ content hc => by
    by_cases hg : g = f
    · rw [hg, blobAt, hnone] at hc
      cases hc
    · rwa [blobAt_of_edits_results hedits hg] at hc

/-- A directory of results that was made holds nothing. -/
theorem Home.fewer_of_made (h : Home dir v d) (hmade : Made (v ++ ["results"]) d d') :
    Fewer dir v d d' where
  home := by
    refine ⟨hmade.seated_of_inside h.seated (inside_concat v "results" []), ?_, ?_⟩
    · intro n e he
      by_cases hn : n = "results"
      · subst hn
        rw [hmade.after] at he
        exact Or.inr ⟨rfl, (Option.some.inj he).symm⟩
      · rw [hmade.others _ (by simpa using hn)] at he
        exact h.plain n e he
    · intro n e he
      rw [hmade.below (inside_concat _ n [])] at he
      cases he
  index := by
    unfold indexAt
    rw [hmade.others _ (by simp)]
  blobs := fun f _ content hc => by rwa [blobAt_of_made hmade] at hc

end Home

section Operations

open DiskM

variable {dir : String} {v : List String} {d : Disk}

/-- At home the results stand in a directory. -/
theorem Home.look_results (h : Home dir v d) {e : Entry}
    (he : d.root.look (v ++ ["results"]) = some e) : e = .dir [] := by
  rcases h.plain "results" e he with ⟨hne, -⟩ | ⟨-, hdir⟩
  · exact absurd rfl hne
  · exact hdir

theorem Home.no_link (h : Home dir v d) (n target : String) :
    d.root.look (v ++ [n]) ≠ some (.link target) := by
  intro hlink
  rcases h.plain n _ hlink with ⟨-, hfile⟩ | ⟨-, hdir⟩
  · cases hfile
  · cases hdir

theorem Home.onlyFiles (h : Home dir v d) {names : String → Prop} (hnames : ¬ names "results") :
    d.OnlyFiles v names := by
  intro n hn e he
  rcases h.plain n e he with ⟨-, hfile⟩ | ⟨rfl, -⟩
  · exact hfile
  · exact absurd hn hnames

theorem Home.seated_results (h : Home dir v d)
    (hdir : d.root.look (v ++ ["results"]) = some (.dir [])) :
    d.Seated (resultsPath dir) (v ++ ["results"]) :=
  h.seated.join proper_results hdir

/-- How an operation with errors about a path ends. -/
theorem onDisk_of_ends {α : Type} {act : DiskM α} {good : α → Disk → Prop} {bad : Disk → Prop}
    (path : String) (h : Ends act d good bad) :
    (∃ a, (onDisk path act d).1 = .ok a ∧ good a (onDisk path act d).2) ∨
      (∃ e, (onDisk path act d).1 = .error e ∧ bad (onDisk path act d).2) := by
  obtain ⟨h⟩ := h
  unfold onDisk
  cases hact : act d with
  | ok a d' =>
      rw [hact] at h
      exact Or.inl ⟨a, rfl, h⟩
  | error e d' =>
      rw [hact] at h
      exact Or.inr ⟨_, rfl, h⟩

/-- The directory of the results is there afterwards, unless something fails. -/
theorem ends_makeResults (h : Home dir v d) :
    Ends (makeDirs (resultsPath dir)) d
      (fun _ d' => Fewer dir v d d' ∧ d'.root.look (v ++ ["results"]) = some (.dir []) ∧
        ∀ f, blobAt v d' f = blobAt v d f)
      (Fewer dir v d) := by
  refine (ends_makeDirs_join h.seated proper_results fun e he => h.look_results he).mono ?_
    fun _ hlike => h.fewer_of_like hlike
  rintro - d' (⟨hlike, hdir⟩ | hmade)
  · exact ⟨h.fewer_of_like hlike, by rwa [hlike.root], blobAt_of_like hlike⟩
  · exact ⟨h.fewer_of_made hmade, hmade.after, blobAt_of_made hmade⟩

/-- All results go, unless something fails. -/
theorem ends_reset (h : Home dir v d) :
    Ends (do removeAll (resultsPath dir); makeDirs (resultsPath dir)) d
      (fun _ d' => Fewer dir v d d' ∧ ∀ f, blobAt v d' f = none) (Fewer dir v d) := by
  refine ((ends_removeAll h.seated proper_results (h.no_link _)).mono (fun _ _ h => h)
    fun _ hlike => h.fewer_of_like hlike).bind ?_
  rintro - d₁ (⟨hlike, hgive⟩ | ⟨hedits, hnone⟩)
  · -- the results were not found, so their directory is not made either
    rw [← hlike.way_eq] at hgive
    refine (ends_makeDirs_giveUp (hlike.seated h.seated) proper_results hgive).mono
      (fun _ _ hno => hno.elim) fun _ hlike' => h.fewer_of_like (hlike.trans hlike')
  · have hfewer := h.fewer_of_erased hedits hnone
    refine (ends_makeResults hfewer.home).mono ?_ fun _ => hfewer.trans
    rintro - d' ⟨hmade, -, hsame⟩
    exact ⟨hfewer.trans hmade, fun f => (hsame f).trans (blobAt_of_look_none hnone f)⟩

/-- Resetting takes files away, and all results when it succeeds. -/
theorem resetResults_spec (h : Home dir v d) :
    Fewer dir v d (resetResults dir d).2 ∧
      ((resetResults dir d).1 = .ok () → ∀ f, blobAt v (resetResults dir d).2 f = none) := by
  unfold resetResults
  rcases onDisk_of_ends (resultsPath dir) (ends_reset h) with ⟨_, -, hfewer, hnone⟩ | ⟨e, he, hfewer⟩
  · exact ⟨hfewer, fun _ => hnone⟩
  · refine ⟨hfewer, fun hok => ?_⟩
    rw [he] at hok
    cases hok

theorem fewer_resetResults (h : Home dir v d) : Fewer dir v d (resetResults dir d).2 :=
  (resetResults_spec h).1

theorem find_of_way_error {last : Bool} {path : String} {reason : DiskReason}
    (h : d.way last path = .error reason) : d.find last path = .error reason := by
  unfold Disk.find
  rw [h]
  rfl

theorem read_ne_ok_of_way {path : String} {reason : DiskReason}
    (h : d.way true path = .error reason) (content : Bytes) : d.read path ≠ .ok content := by
  unfold Disk.read
  rw [find_of_way_error h]
  simp

/-- The index is read as it stands. -/
theorem ends_readIndex (h : Home dir v d) :
    Ends (read (indexPath dir)) d (fun content d' => Like d d' ∧ indexAt v d = some content)
      (Like d) := by
  refine (ends_read h.seated proper_index (h.onlyFiles (by decide))).mono ?_ fun _ h => h
  rintro content d' ⟨hlike, time, hlook⟩
  exact ⟨hlike, by rw [indexAt, hlook]; rfl⟩

/-- A result is read as it stands. -/
theorem ends_readBlob (h : Home dir v d) {f : String} (hf : Path.Proper f) :
    Ends (read (blobPath dir f)) d (fun content d' => Like d d' ∧ blobAt v d f = some content)
      (Like d) := by
  cases hresults : d.root.look (v ++ ["results"]) with
  | some e =>
      obtain rfl := h.look_results hresults
      refine (ends_read (h.seated_results hresults) hf fun n _ => h.results n).mono ?_ fun _ h => h
      rintro content d' ⟨hlike, time, hlook⟩
      exact ⟨hlike, by rw [blobAt, hlook]; rfl⟩
  | none =>
      refine ends_attempt_then _ _ (fun _ h => h) fun d' hlike => ?_
      refine ends_get_then (ends_ofExcept (fun content hread => ?_) hlike)
      rw [← hlike.root] at hresults
      obtain ⟨reason, hway⟩ := (hlike.seated h.seated).way_missing proper_results hresults hf true
      exact absurd hread (read_ne_ok_of_way hway content)

/-- Taking away a result. -/
theorem fewer_removeBlob (h : Home dir v d) {f : String} (hf : Path.Proper f) :
    Fewer dir v d (removeBlob (blobPath dir f) d).2 := by
  have hact : Ends (remove (blobPath dir f)) d (fun _ => Fewer dir v d) (Fewer dir v d) := by
    cases hresults : d.root.look (v ++ ["results"]) with
    | some e =>
        obtain rfl := h.look_results hresults
        refine (ends_remove (h.seated_results hresults) hf fun n _ => h.results n).mono ?_
          fun _ hlike => h.fewer_of_like hlike
        rintro - d' ⟨hedits, hnone⟩
        exact h.fewer_of_removed hedits hnone
    | none =>
        refine ends_attempt_then _ _ (fun _ hlike => h.fewer_of_like hlike) fun d' hlike => ?_
        rw [← hlike.root] at hresults
        obtain ⟨reason, hway⟩ := (hlike.seated h.seated).way_missing proper_results hresults hf false
        refine ends_get_then ?_
        change d'.way false (blobPath dir f) = .error reason at hway
        rw [find_of_way_error hway]
        exact ends_throw_then (h.fewer_of_like hlike)
  obtain ⟨hact⟩ := hact
  unfold removeBlob
  cases hrun : remove (blobPath dir f) d with
  | ok a d' =>
      rw [hrun] at hact
      exact hact
  | error e d' =>
      rw [hrun] at hact
      exact hact

/-- Removing results that are not shared takes files away and nothing else. -/
theorem fewer_removeUnshared (used : List String) {fs : List String} (h : Home dir v d)
    (hfs : ∀ f ∈ fs, Path.Proper f) : Fewer dir v d (removeUnshared dir used fs d).2 := by
  induction fs generalizing d with
  | nil => exact Fewer.refl h
  | cons f fs ih =>
      have hrest : ∀ g ∈ fs, Path.Proper g := fun g hg => hfs g (List.mem_cons_of_mem _ hg)
      unfold removeUnshared
      split_ifs
      · exact ih h hrest
      · have hone := fewer_removeBlob h (hfs f List.mem_cons_self)
        have hmany := hone.trans (ih hone.home hrest)
        dsimp only
        split
        · exact hmany
        · exact hmany

/-- A disk on which a result was stored and nothing else came or changed. -/
structure Stored (dir : String) (v : List String) (name : String) (content : Bytes)
    (d d' : Disk) : Prop where
  home : Home dir v d'
  index : indexAt v d' = indexAt v d
  blob : blobAt v d' name = some content
  blobs : ∀ f, ¬ DiskM.Temporary f → f ≠ name → ∀ content, blobAt v d' f = some content →
    blobAt v d f = some content

/-- A result is stored as a whole, or no result comes or changes. -/
theorem ends_writeBlob (content : Bytes) (h : Home dir v d) {f : String} (hf : IsBlob f) :
    Ends (writeWhole (resultsPath dir) f content) d (fun _ => Stored dir v f content d)
      (Fewer dir v d) := by
  refine (ends_makeResults h).bind fun _ d₁ hd₁ => ?_
  obtain ⟨hfewer, hdir, -⟩ := hd₁
  have hhome := hfewer.home
  refine (ends_replace content (hhome.seated_results hdir) hf.proper
    fun n _ => hhome.results n).mono ?_ fun _ hedits =>
      hfewer.trans (hhome.fewer_of_temporary_results hedits)
  rintro - d' ⟨hedits, ⟨time, hlook⟩, -⟩
  refine ⟨hhome.of_edits_results hedits, ?_, ?_, ?_⟩
  · rw [indexAt_of_edits_results hedits, hfewer.index]
  · rw [blobAt, hlook]
    rfl
  · intro g hg hne content' hc
    rw [blobAt_of_edits_results hedits (not_or.mpr ⟨hg, hne⟩)] at hc
    exact hfewer.blobs g hg content' hc

/-- A new index gets its name in a directory that is there, or the index stays as it was. -/
theorem ends_replaceIndex (content : Bytes) (h : Home dir v d) :
    Ends (do
        let temp ← createTemp dir (".tmp-" ++ "index.json" ++ "-")
        onTemp temp (write temp content)
        onTemp temp (attempt "sync" temp)
        onTemp temp (attempt "close" temp)
        rename temp (Path.join [dir, "index.json"])) d
      (fun _ d' => Home dir v d' ∧ indexAt v d' = some content ∧
        ∀ f, blobAt v d' f = blobAt v d f)
      (Fewer dir v d) := by
  have hnames : ¬ (Temporary "results" ∨ "results" = "index.json") :=
    not_or.mpr ⟨not_temporary_results, by decide⟩
  refine (ends_replace content h.seated proper_index (h.onlyFiles hnames)).mono ?_
    fun _ hedits => h.fewer_of_temporary hedits
  rintro - d' ⟨hedits, ⟨time, hlook⟩, -⟩
  refine ⟨h.of_edits hedits hnames, ?_, blobAt_of_edits hedits hnames⟩
  rw [indexAt, hlook]
  rfl

/-- The index is replaced as a whole, or it stays as it was. -/
theorem ends_writeIndex (content : Bytes) (h : Home dir v d) :
    Ends (writeWhole dir "index.json" content) d
      (fun _ d' => Home dir v d' ∧ indexAt v d' = some content ∧
        ∀ f, blobAt v d' f = blobAt v d f)
      (Fewer dir v d) := by
  refine ((ends_makeDirs h.seated.leads).mono (fun _ _ h => h)
    fun _ hlike => h.fewer_of_like hlike).bind fun _ d₁ hlike => ?_
  refine (ends_replaceIndex content (h.of_like hlike)).mono ?_
    fun _ hfewer => (h.fewer_of_like hlike).trans hfewer
  rintro - d' ⟨hhome, hindex, hblobs⟩
  exact ⟨hhome, hindex, fun f => (hblobs f).trans (blobAt_of_like hlike f)⟩

end Operations

end Cache

end InstallerLint
