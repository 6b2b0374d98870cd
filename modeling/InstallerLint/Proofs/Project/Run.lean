import InstallerLint.Project
import InstallerLint.Proofs.Analysis.Verdict
import InstallerLint.Proofs.Order
import InstallerLint.Proofs.Symbol.Documents
import Mathlib.Data.List.Nodup

/-!
# A run without a cache

The documents of a run stand in the order of their paths, each path once.  Every document gets one
result, its verdict against the index of all documents; a file that is no document gets the result
of its parse failure.
-/

namespace InstallerLint
namespace Project

/-- The documents of a run: what its files hold, as far as they are read and parsed. -/
def documents (cfg : Config) (files : List String) (disk : Disk) : List Document :=
  ((distinctFiles files).map (readFile disk cfg)).filterMap (·.document?)

/-- The results of files that are no documents. -/
def failures (a : Analyzer) (cfg : Config) (files : List String) (disk : Disk) : List FileResult :=
  ((distinctFiles files).map (readFile disk cfg)).filterMap (·.failure? a)

section Files

theorem clean_not_mem_of_mem_go {seen files : List String} {f : String}
    (h : f ∈ distinctFiles.go seen files) : Path.clean f ∉ seen := by
  induction files generalizing seen with
  | nil => cases h
  | cons g files ih =>
      unfold distinctFiles.go at h
      split_ifs at h with hseen
      · exact ih h
      · rcases List.mem_cons.mp h with rfl | h
        · simpa using hseen
        · exact fun hf => ih h (List.mem_cons_of_mem _ hf)

/-- No file is kept twice. -/
theorem nodup_go (seen files : List String) : (distinctFiles.go seen files).Nodup := by
  induction files generalizing seen with
  | nil => exact List.nodup_nil
  | cons g files ih =>
      unfold distinctFiles.go
      split_ifs
      · exact ih seen
      · refine List.nodup_cons.mpr ⟨fun h => ?_, ih _⟩
        exact clean_not_mem_of_mem_go h List.mem_cons_self

/-- The files of a run stand in order, each once. -/
theorem pairwise_distinctFiles (files : List String) : (distinctFiles files).Pairwise (· < ·) := by
  have hnodup : (distinctFiles files).Nodup :=
    (Order.sort_perm _).nodup_iff.mpr (nodup_go [] files)
  have hsorted := Order.pairwise_sort (distinctFiles.go [] files)
  refine (hsorted.and hnodup).imp ?_
  rintro a b ⟨hle, hne⟩
  simp only [Order.le, decide_eq_true_eq] at hle
  exact String.not_le.mp fun hba => hne (String.le_antisymm hle hba)

theorem mem_of_mem_go {seen files : List String} {f : String}
    (h : f ∈ distinctFiles.go seen files) : f ∈ files := by
  induction files generalizing seen with
  | nil => cases h
  | cons g files ih =>
      unfold distinctFiles.go at h
      split_ifs at h
      · exact List.mem_cons_of_mem _ (ih h)
      · rcases List.mem_cons.mp h with rfl | h
        · exact List.mem_cons_self
        · exact List.mem_cons_of_mem _ (ih h)

theorem mem_of_mem_distinctFiles {files : List String} {f : String}
    (h : f ∈ distinctFiles files) : f ∈ files :=
  mem_of_mem_go ((Order.sort_perm _).mem_iff.mp h)

/-- A document of a run was read from its file. -/
theorem document_of_readFile {disk : Disk} {cfg : Config} {path : String} {d : Document}
    (h : (readFile disk cfg path).document? = some d) :
    cfg.excludes path = false ∧
      ∃ source, disk.read path = .ok source ∧ Document.parse source path = .ok d := by
  unfold readFile at h
  cases hex : cfg.excludes path with
  | true => simp [hex, ReadFile.document?] at h
  | false =>
  refine ⟨rfl, ?_⟩
  rw [hex, if_neg (by decide)] at h
  cases hread : disk.read path with
  | error e => simp [hread, ReadFile.document?] at h
  | ok source =>
      rw [hread] at h
      dsimp only at h
      cases hparse : Document.parse source path with
      | error e => simp [hparse, ReadFile.document?] at h
      | ok e =>
          rw [hparse] at h
          cases h
          exact ⟨source, rfl, hparse⟩

/-- A document of a run was read from a listed file that is not excluded. -/
theorem mem_documents {cfg : Config} {files : List String} {disk : Disk} {d : Document}
    (h : d ∈ documents cfg files disk) :
    d.path ∈ files ∧ cfg.excludes d.path = false ∧
      ∃ source, disk.read d.path = .ok source ∧ Document.parse source d.path = .ok d := by
  obtain ⟨r, hr, hd⟩ := List.mem_filterMap.mp h
  obtain ⟨path, hpath, rfl⟩ := List.mem_map.mp hr
  obtain ⟨hex, source, hread, hparse⟩ := document_of_readFile hd
  obtain rfl := Document.path_of_parse hparse
  exact ⟨mem_of_mem_distinctFiles hpath, hex, source, hread, hparse⟩

/-- Documents stand in the order of their paths, each path once. -/
theorem pairwise_documents (cfg : Config) (files : List String) (disk : Disk) :
    (documents cfg files disk).Pairwise fun d e => d.path < e.path := by
  unfold documents
  rw [List.filterMap_map]
  refine List.Pairwise.filterMap _ ?_ (pairwise_distinctFiles files)
  intro path path' hlt d hd e he
  obtain ⟨-, _, -, hparse⟩ := document_of_readFile hd
  obtain ⟨-, _, -, hparse'⟩ := document_of_readFile he
  rwa [Document.path_of_parse hparse, Document.path_of_parse hparse']

/-- No two documents of a run have the same path. -/
theorem nodup_paths (cfg : Config) (files : List String) (disk : Disk) :
    ((documents cfg files disk).map (·.path)).Nodup := by
  rw [List.Nodup, List.pairwise_map]
  refine (pairwise_documents cfg files disk).imp fun {d e} h he => ?_
  rw [he] at h
  exact String.lt_irrefl _ h

end Files

section Uncached

variable (a : Analyzer) (ix : SymbolIndex)

/-- A document analysed without a cache adds its verdict. -/
theorem step_uncached {s : State} (hcache : s.cache = none) (hmemo : s.memo.Faithful)
    (d : Document) :
    (step a ix s d).cache = none ∧ (step a ix s d).memo.Faithful ∧
      (step a ix s d).results = s.results ++ [a.verdict d ix.resolver] := by
  obtain ⟨hfst, hsnd⟩ := a.analyze_of_faithful d ix.resolver hmemo
  simp only [step, stored, store, hcache]
  exact ⟨trivial, hsnd, by rw [hfst]⟩

/-- Without a cache every document gets its verdict, one after the other. -/
theorem foldl_step_uncached (docs : List Document) {s : State} (hcache : s.cache = none)
    (hmemo : s.memo.Faithful) :
    (docs.foldl (step a ix) s).cache = none ∧
      (docs.foldl (step a ix) s).results =
        s.results ++ docs.map fun d => a.verdict d ix.resolver := by
  induction docs generalizing s with
  | nil => simp [hcache]
  | cons d docs ih =>
      obtain ⟨hcache', hmemo', hresults⟩ := step_uncached a ix hcache hmemo d
      obtain ⟨hlast, hall⟩ := ih hcache' hmemo'
      refine ⟨hlast, ?_⟩
      rw [List.foldl_cons, hall, hresults, List.append_assoc]
      rfl

theorem finish_uncached {s : State} (h : s.cache = none) : finish s = s := by
  unfold finish
  rw [h]

end Uncached

/-- What a run starts to analyse with. -/
def opening (rules : List Rule) (cfg : Config) (cache : Option Cache) (files : List String)
    (disk : Disk) : State where
  cache := cache.map (·.setContext
    (contextKey (Analyzer.new rules cfg) (indexOf (documents cfg files disk))))
  disk := disk
  log := ((distinctFiles files).map (readFile disk cfg)).filterMap (·.logged?)

/-- What a run has after its last document. -/
def closing (rules : List Rule) (cfg : Config) (cache : Option Cache) (files : List String)
    (disk : Disk) : State :=
  (documents cfg files disk).foldl
    (step (Analyzer.new rules cfg) (indexOf (documents cfg files disk)))
    (opening rules cfg cache files disk)

/-- The results of a run: files that failed and documents that were analyzed, in order. -/
theorem results_run (rules : List Rule) (cfg : Config) (cache : Option Cache)
    (files : List String) (disk : Disk) :
    (run rules cfg cache files disk false).results =
      FileResult.sort (failures (Analyzer.new rules cfg) cfg files disk ++
        (finish (closing rules cfg cache files disk)).results) := rfl

/-- The results of a run without a cache are parse failures and verdicts, by path. -/
theorem results_run_uncached (rules : List Rule) (cfg : Config) (files : List String)
    (disk : Disk) :
    (run rules cfg none files disk false).results =
      FileResult.sort (failures (Analyzer.new rules cfg) cfg files disk ++
        (documents cfg files disk).map fun d =>
          (Analyzer.new rules cfg).verdict d (indexOf (documents cfg files disk)).resolver) := by
  obtain ⟨hcache, hresults⟩ := foldl_step_uncached (Analyzer.new rules cfg)
    (indexOf (documents cfg files disk)) (documents cfg files disk)
    (s := opening rules cfg none files disk) rfl Memo.faithful_nil
  rw [results_run, closing, finish_uncached hcache, hresults]
  rfl

end Project
end InstallerLint
