import InstallerLint.Proofs.Cache.Soundness
import InstallerLint.Proofs.Document.Change
import InstallerLint.Proofs.Project.Context
import InstallerLint.Proofs.Project.Run

/-!
# Results that are used again

A `Workplace` is a disk with the cache that is open on it.  The program is started, files are
analysed, and in between files, rules and settings are edited.

**Records.**  A run stores a result for a path with the hash of the content and the context of the
run.  Throughout, every result that was stored is the one that some run found in one of its
documents (`Grounded`).  As the cache is saved at the end of each run, no record is lost at a start,
so what is served is the newest result for the path.

**The main result** is `results_run_cached`: a run with the cache has the results of one without, as
long as the hashes do not collide and the first definitions of duplicates agree (`Snapshot.Agree`).
-/

namespace InstallerLint

namespace FileResult

/-- A result without the mark of the cache. -/
def unmarked (r : FileResult) : FileResult := { r with fromCache := false }

theorem map_unmarked_sort (rs : List FileResult) :
    (sort rs).map unmarked = sort (rs.map unmarked) :=
  List.map_mergeSort fun _ _ _ _ => rfl

end FileResult

namespace Cache

variable {c : Cache} {path : String} {source : Bytes} {d : Disk}

/-- A look-up keeps the context. -/
theorem context_get : (c.get path source d).2.1.context = c.context := by
  unfold get
  split
  · rfl
  · split_ifs
    · rfl
    · split
      · rfl
      · split <;> rfl

/-- Storing a result keeps the context. -/
theorem context_put {r : FileResult} : (c.put path source r d).2.1.context = c.context := by
  unfold put
  split_ifs
  · rfl
  · dsimp only
    split <;> rfl

/-- A cache after a look for a file that it does not know. -/
def missed (c : Cache) : Cache := { c with stats := c.stats.addMiss .miss }

theorem get_of_missing (h : c.index.find? path = none) :
    c.get path source d = (none, c.missed, d) := by
  unfold get
  rw [h]
  rfl

theorem index_setContext (c : Cache) (key : String) : (c.setContext key).index = c.index := rfl

end Cache

namespace Project

open Cache (Record Session Sound)

/-- The record of a result that a run found in one of its documents. -/
def Snapshot.Found (x : Snapshot) (q : Record) : Prop :=
  ∃ e ∈ x.docs, q.path = e.path ∧ q.source = e.source ∧ q.context = x.key ∧ q.result = x.verdict e

theorem Snapshot.Found.keep {x : Snapshot} {q : Record} (h : x.Found q) : x.Found q.keep := by
  unfold Record.keep
  split <;> exact h

/-- A sound session whose records were found by runs, and of which none is lost. -/
structure Grounded (dir : String) (runs : List Snapshot) (s : Session) : Prop where
  sound : Sound dir s
  kept : ∀ q ∈ s.records, q.fate ≠ .lost
  idle : s.cache = none → ∀ q ∈ s.records, q.fate ≠ .pending
  found : ∀ q ∈ s.records, ∃ x ∈ runs, x.Found q

section Sessions

variable {dir : String} {runs runs' : List Snapshot} {s : Session} {c : Cache} {y : Snapshot}
  {d : Document}

/-- What is grounded in some runs is grounded in more. -/
theorem Grounded.mono (h : Grounded dir runs s) (hruns : ∀ x ∈ runs, x ∈ runs') :
    Grounded dir runs' s where
  sound := h.sound
  kept := h.kept
  idle := h.idle
  found := fun q hq => (h.found q hq).imp fun x hx => ⟨hruns x hx.1, hx.2⟩

/-- A new context keeps what is stored grounded. -/
theorem Grounded.context (h : Grounded dir runs s) (hc : s.cache = some c) (key : String) :
    Grounded dir runs (s.act c (.context key)) where
  sound := h.sound.context hc key
  kept := h.kept
  idle := nofun
  found := h.found

/-- A look-up keeps what is stored grounded. -/
theorem Grounded.get (h : Grounded dir runs s) (hc : s.cache = some c) (path : String)
    (source : Bytes) : Grounded dir runs (s.act c (.get path source)) where
  sound := h.sound.get hc path source
  kept := h.kept
  idle := nofun
  found := h.found

/-- Storing a result adds its record, under the present context. -/
theorem mem_records_put {path : String} {source : Bytes} {r : FileResult} {q : Record}
    (h : q ∈ (s.act c (.put path source r)).records) :
    q ∈ s.records ∨ q = ⟨path, source, c.context, c.toolVersion, r, .pending⟩ := by
  simp only [Session.act] at h
  split_ifs at h
  · exact (List.mem_cons.mp h).symm
  · exact Or.inl h

/-- A run adds the record of what it finds. -/
theorem Grounded.put (h : Grounded dir runs s) (hc : s.cache = some c) (hy : y ∈ runs)
    (hd : d ∈ y.docs) (hcontext : c.context = y.key) :
    Grounded dir runs (s.act c (.put d.path d.source (y.verdict d))) where
  sound := h.sound.put hc _ _ _
  kept := by
    intro q hq
    rcases mem_records_put hq with hq | rfl
    · exact h.kept q hq
    · exact fun hfate => by cases hfate
  idle := nofun
  found := by
    intro q hq
    rcases mem_records_put hq with hq | rfl
    · exact h.found q hq
    · exact ⟨y, hy, d, hd, rfl, rfl, hcontext, rfl⟩

/-- When the cache is saved, nothing is left that a start could lose. -/
theorem Grounded.save (h : Grounded dir runs s) (hc : s.cache = some c)
    (hok : (c.save s.disk).1.isOk = true) :
    Grounded dir runs (s.act c .save) ∧ ∀ q ∈ (s.act c .save).records, q.fate ≠ .pending := by
  have hsettled : ∀ q ∈ s.records.map Record.keep, q.fate = .saved := by
    intro q hq
    obtain ⟨q', hq', rfl⟩ := List.mem_map.mp hq
    have hkept := h.kept q' hq'
    unfold Record.keep
    split_ifs with hfate
    · rfl
    · cases hq : q'.fate with
      | pending => exact absurd hq hfate
      | saved => rfl
      | lost => exact absurd hq hkept
  have hrecords : (s.act c .save).records = s.records.map Record.keep := by
    simp only [Session.act, hok, if_true]
  refine ⟨⟨h.sound.save hc, ?_, (fun hnone => by cases hnone), ?_⟩, ?_⟩
  · rw [hrecords]
    exact fun q hq => by simp [hsettled q hq]
  · rw [hrecords]
    intro q hq
    obtain ⟨q', hq', rfl⟩ := List.mem_map.mp hq
    obtain ⟨x, hx, hfound⟩ := h.found q' hq'
    exact ⟨x, hx, hfound.keep⟩
  · rw [hrecords]
    exact fun q hq => by simp [hsettled q hq]

/-- A start loses nothing when everything is saved. -/
theorem Grounded.start (h : Grounded dir runs s) (hsettled : ∀ q ∈ s.records, q.fate ≠ .pending)
    (version : String) :
    Grounded dir runs ⟨(Cache.open_ dir version s.disk).1.result.toOption,
      (Cache.open_ dir version s.disk).2, s.records⟩ := by
  have hsound := h.sound.start version
  unfold Session.step at hsound
  rw [Cache.map_drop_of_not_pending hsettled] at hsound
  exact ⟨hsound, h.kept, fun _ => hsettled, h.found⟩

/-- Changes outside the cache keep what is stored grounded. -/
theorem Grounded.world (h : Grounded dir runs s) {disk : Disk}
    (hdisk : Cache.Undisturbed dir s.disk disk) :
    Grounded dir runs (s.step dir (.world disk)) where
  sound := h.sound.world hdisk
  kept := h.kept
  idle := h.idle
  found := h.found

/-- What is served to a run is what it would find itself. -/
theorem Grounded.served (h : Grounded dir runs s) (hc : s.cache = some c)
    (hserves : ∀ x ∈ runs, x.Serves y) (hd : d ∈ y.docs) (hcontext : c.context = y.key)
    {r : FileResult} (hit : (c.get d.path d.source s.disk).1 = some r) :
    r.unmarked = y.verdict d := by
  obtain ⟨q, w, hq, hhash, -, hkey, hw, rfl, hfile⟩ := h.sound.hit hc hit
  have hpath : ∀ p ∈ s.records, p.path = p.result.file := by
    intro p hp
    obtain ⟨x, -, e, -, hpath, -, -, hresult⟩ := h.found p hp
    rw [hpath, hresult]
    exact (Analyzer.file_verdict _ _ _).symm
  have hwmem := List.mem_of_find?_eq_some hw
  -- both are the newest: one of its name, the other of its path
  obtain rfl : w = q := Cache.find?_eq_of_both hw hq (by simp)
    (by simp [h.kept w hwmem, hpath w hwmem, hfile])
  obtain ⟨x, hx, e, he, hpathe, hsource, hkeye, hresult⟩ := h.found w hwmem
  have hserved := hserves x hx e he d hd (hpathe ▸ (hpath w hwmem).trans hfile)
    (hsource ▸ hhash) (hkeye.symm.trans (hkey.trans hcontext))
  rw [hresult, hserved]
  rfl

end Sessions

section Runs

variable {dir : String} {runs : List Snapshot} {y : Snapshot} {s : State} {d : Document}

/-- The cache and the disk of a run, with what was stored. -/
def State.session (s : State) (records : List Record) : Session := ⟨s.cache, s.disk, records⟩

/-- In the middle of a run. -/
structure Amid (dir : String) (runs : List Snapshot) (y : Snapshot) (s : State) : Prop where
  grounded : ∃ records, Grounded dir runs (s.session records)
  memo : s.memo.Faithful
  context : ∀ c, s.cache = some c → c.context = y.key

section Documents

variable (a : Analyzer) (ix : SymbolIndex) {c : Cache} {r : FileResult}

theorem stored_cached (hc : s.cache = some c) (d : Document) :
    stored s d = ((c.get d.path d.source s.disk).1,
      { s with
        cache := some (c.get d.path d.source s.disk).2.1
        disk := (c.get d.path d.source s.disk).2.2 }) := by
  unfold stored
  rw [hc]

theorem store_cached (hc : s.cache = some c) (d : Document) (r : FileResult) :
    (store s d r).cache = some (c.put d.path d.source r s.disk).2.1 ∧
      (store s d r).disk = (c.put d.path d.source r s.disk).2.2 ∧
      (store s d r).memo = s.memo ∧ (store s d r).results = s.results := by
  unfold store
  rw [hc]
  exact ⟨rfl, rfl, rfl, rfl⟩

/-- A result that is served is added as it is. -/
theorem step_hit (hc : s.cache = some c) (hit : (c.get d.path d.source s.disk).1 = some r)
    (records : List Record) :
    (step a ix s d).session records =
        (s.session records).act c (.get d.path d.source) ∧
      (step a ix s d).memo = s.memo ∧ (step a ix s d).results = s.results ++ [r] := by
  unfold step
  rw [stored_cached hc, hit]
  exact ⟨rfl, rfl, rfl⟩

/-- What is not served is found and stored. -/
theorem step_miss (hc : s.cache = some c) (hit : (c.get d.path d.source s.disk).1 = none)
    (hmemo : s.memo.Faithful) (records : List Record) :
    (∃ records', (step a ix s d).session records' =
        ((s.session records).act c (.get d.path d.source)).act
          (c.get d.path d.source s.disk).2.1 (.put d.path d.source (a.verdict d ix.resolver))) ∧
      (step a ix s d).memo.Faithful ∧
      (step a ix s d).results = s.results ++ [a.verdict d ix.resolver] := by
  obtain ⟨hverdict, hfaithful⟩ := a.analyze_of_faithful d ix.resolver hmemo
  obtain ⟨s', hstep, hcache, hdisk, hmemo', hresults⟩ : ∃ s' : State,
      step a ix s d = store s' d (a.verdict d ix.resolver) ∧
        s'.cache = some (c.get d.path d.source s.disk).2.1 ∧
        s'.disk = (c.get d.path d.source s.disk).2.2 ∧
        s'.memo = (a.analyze d ix.resolver s.memo).2.2 ∧
        s'.results = s.results ++ [a.verdict d ix.resolver] := by
    unfold step
    rw [stored_cached hc, hit]
    dsimp only
    rw [hverdict]
    exact ⟨_, rfl, rfl, rfl, rfl, rfl⟩
  obtain ⟨hcache', hdisk', hmemo'', hresults'⟩ := store_cached hcache d (a.verdict d ix.resolver)
  let looked := (s.session records).act c (.get d.path d.source)
  let kept := looked.act (c.get d.path d.source s.disk).2.1
    (.put d.path d.source (a.verdict d ix.resolver))
  rw [hstep]
  refine ⟨⟨kept.records, ?_⟩, ?_, hresults'.trans hresults⟩
  · rw [State.session, hcache', hdisk', hdisk]
    rfl
  · rw [hmemo'', hmemo']
    exact hfaithful

theorem session_step_uncached (hc : s.cache = none) (records : List Record) :
    (step a ix s d).session records = s.session records := by
  simp only [State.session, step, stored, store, hc]

end Documents

/-- A document adds a result, and that of the run if the earlier runs serve it. -/
theorem Amid.step (h : Amid dir runs y s) (hy : y ∈ runs) (hd : d ∈ y.docs) :
    Amid dir runs y (step y.analyzer y.index s d) ∧
      ((∀ x ∈ runs, x.Serves y) → (step y.analyzer y.index s d).results.map (·.unmarked) =
        s.results.map (·.unmarked) ++ [y.verdict d]) := by
  obtain ⟨⟨records, hgrounded⟩, hmemo, hcontext⟩ := h
  cases hc : s.cache with
  | none =>
      obtain ⟨hcache, hmemo, hresults⟩ := step_uncached y.analyzer y.index hc hmemo d
      refine ⟨⟨⟨records, ?_⟩, hmemo, fun c hc => ?_⟩, fun _ => ?_⟩
      · rw [session_step_uncached y.analyzer y.index hc]
        exact hgrounded
      · rw [hcache] at hc
        cases hc
      · rw [hresults, List.map_append]
        rfl
  | some c =>
      have hget := hgrounded.get hc d.path d.source
      cases hit : (c.get d.path d.source s.disk).1 with
      | some r =>
          obtain ⟨hsession, hmemo', hresults⟩ := step_hit y.analyzer y.index hc hit records
          refine ⟨⟨⟨records, hsession ▸ hget⟩, hmemo'.symm ▸ hmemo, fun c' hc' => ?_⟩, ?_⟩
          · obtain rfl : _ = c' := Option.some.inj ((congrArg Session.cache hsession).symm.trans hc')
            exact Cache.context_get.trans (hcontext c hc)
          · intro hserves
            rw [hresults, List.map_append]
            exact congrArg (s.results.map (·.unmarked) ++ [·])
              (hgrounded.served hc hserves hd (hcontext c hc) hit)
      | none =>
          obtain ⟨⟨records', hsession⟩, hmemo', hresults⟩ :=
            step_miss y.analyzer y.index hc hit hmemo records
          have hkey : (c.get d.path d.source s.disk).2.1.context = y.key :=
            Cache.context_get.trans (hcontext c hc)
          refine ⟨⟨⟨records', ?_⟩, hmemo', fun c' hc' => ?_⟩, fun _ => ?_⟩
          · rw [hsession]
            exact hget.put rfl hy hd hkey
          · obtain rfl : _ = c' := Option.some.inj ((congrArg Session.cache hsession).symm.trans hc')
            exact Cache.context_put.trans hkey
          · rw [hresults, List.map_append]
            rfl

/-- Documents add their results one after the other. -/
theorem Amid.foldl (h : Amid dir runs y s) (hy : y ∈ runs) {docs : List Document}
    (hdocs : ∀ d ∈ docs, d ∈ y.docs) :
    Amid dir runs y (docs.foldl (Project.step y.analyzer y.index) s) ∧
      ((∀ x ∈ runs, x.Serves y) →
        (docs.foldl (Project.step y.analyzer y.index) s).results.map (·.unmarked) =
          s.results.map (·.unmarked) ++ docs.map y.verdict) := by
  induction docs generalizing s with
  | nil => exact ⟨h, fun _ => (List.append_nil _).symm⟩
  | cons d docs ih =>
      rw [List.forall_mem_cons] at hdocs
      obtain ⟨hstep, hresult⟩ := h.step hy hdocs.1
      obtain ⟨hlast, hresults⟩ := ih hstep hdocs.2
      refine ⟨hlast, fun hserves => ?_⟩
      rw [List.foldl_cons, hresults hserves, hresult hserves, List.append_assoc]
      rfl

theorem results_finish (s : State) : (finish s).results = s.results := by
  unfold finish
  split <;> rfl

/-- At the end of a run everything is saved. -/
theorem Amid.finish (h : Amid dir runs y s)
    (hok : ∀ c, s.cache = some c → (c.save s.disk).1.isOk = true) :
    ∃ records, Grounded dir runs ((finish s).session records) ∧
      ∀ q ∈ records, q.fate ≠ .pending := by
  obtain ⟨records, hgrounded⟩ := h.grounded
  cases hc : s.cache with
  | none =>
      rw [finish_uncached hc]
      exact ⟨records, hgrounded, hgrounded.idle hc⟩
  | some c =>
      obtain ⟨hsaved, hsettled⟩ := hgrounded.save hc (hok c hc)
      refine ⟨((s.session records).act c .save).records, ?_, hsettled⟩
      unfold Project.finish
      rw [hc]
      exact hsaved

end Runs

/-- What a run works with. -/
def snapshot (rules : List Rule) (cfg : Config) (files : List String) (disk : Disk) : Snapshot :=
  ⟨rules, cfg, documents cfg files disk⟩

section Calls

variable {dir : String} {runs : List Snapshot} {rules : List Rule} {cfg : Config}
  {cache : Option Cache} {files : List String} {disk : Disk} {records : List Record}

/-- Opening a grounded session starts the run. -/
theorem amid_opening (h : Grounded dir runs ⟨cache, disk, records⟩) :
    Amid dir runs (snapshot rules cfg files disk) (opening rules cfg cache files disk) where
  grounded := by
    cases cache with
    | none => exact ⟨records, h⟩
    | some c => exact ⟨records, h.context rfl _⟩
  memo := Memo.faithful_nil
  context := by
    intro c hc
    obtain ⟨c', -, rfl⟩ := Option.map_eq_some_iff.mp hc
    rfl

/-- After the last document. -/
theorem amid_closing (h : Grounded dir runs ⟨cache, disk, records⟩)
    (hy : snapshot rules cfg files disk ∈ runs) :
    Amid dir runs (snapshot rules cfg files disk) (closing rules cfg cache files disk) ∧
      ((∀ x ∈ runs, x.Serves (snapshot rules cfg files disk)) →
        (closing rules cfg cache files disk).results.map (·.unmarked) =
          (snapshot rules cfg files disk).docs.map (snapshot rules cfg files disk).verdict) :=
  (amid_opening h).foldl hy fun _ hd => hd

theorem map_unmarked_failures (a : Analyzer) (cfg : Config) (files : List String) (disk : Disk) :
    (failures a cfg files disk).map (·.unmarked) = failures a cfg files disk := by
  refine (List.map_congr_left fun r hr => ?_).trans (List.map_id _)
  obtain ⟨f, -, hf⟩ := List.mem_filterMap.mp hr
  cases f with
  | malformed path e =>
      cases hf
      rfl
  | excluded => cases hf
  | unreadable path e => cases hf
  | document d => cases hf

/-- A run that earlier runs serve has the results of one without a cache. -/
theorem results_run_of_serves (h : Grounded dir runs ⟨cache, disk, records⟩)
    (hy : snapshot rules cfg files disk ∈ runs)
    (hserves : ∀ x ∈ runs, x.Serves (snapshot rules cfg files disk)) :
    (run rules cfg cache files disk false).results.map (·.unmarked) =
      (run rules cfg none files disk false).results := by
  rw [results_run, results_run_uncached, FileResult.map_unmarked_sort, List.map_append,
    map_unmarked_failures, results_finish, (amid_closing h hy).2 hserves]
  rfl

end Calls

section Missing

variable {rules : List Rule} {cfg : Config} {c : Cache} {files : List String} {disk : Disk}
  {d : Document}

/-- One file that parses is the one document of its run. -/
theorem documents_of_parse {f : String} {source : Bytes} (hex : cfg.excludes f = false)
    (hread : disk.read f = .ok source) (hparse : Document.parse source f = .ok d) :
    documents cfg [f] disk = [d] := by
  have hfile : readFile disk cfg f = .document d := by
    unfold readFile
    rw [hex, hread]
    simp [hparse]
  simp [documents, distinctFiles, distinctFiles.go, Order.sort, hfile, ReadFile.document?]

/-- A document that the cache does not know is analysed and stored. -/
theorem step_of_missing {a : Analyzer} {ix : SymbolIndex} {s : State} (hc : s.cache = some c)
    (hmemo : s.memo.Faithful) (hmissing : c.index.find? d.path = none) :
    (step a ix s d).cache =
        some (c.missed.put d.path d.source (a.verdict d ix.resolver) s.disk).2.1 ∧
      (step a ix s d).disk =
        (c.missed.put d.path d.source (a.verdict d ix.resolver) s.disk).2.2 := by
  have hget : c.get d.path d.source s.disk = (none, c.missed, s.disk) :=
    Cache.get_of_missing hmissing
  obtain ⟨⟨records, hsession⟩, -, -⟩ :=
    step_miss a ix hc (congrArg Prod.fst hget) hmemo []
  simp only [State.session, Session.act, hget] at hsession
  exact ⟨congrArg Session.cache hsession, congrArg Session.disk hsession⟩

/-- The cache and the disk after a run over one document that the cache does not know. -/
def afterMissing (a : Analyzer) (c : Cache) (d : Document) (disk : Disk) : Cache × Disk :=
  ((c.setContext (contextKey a (indexOf [d]))).missed.put d.path d.source
    (a.verdict d (indexOf [d]).resolver) disk).2

theorem closing_of_missing (rules : List Rule) (hdocs : documents cfg files disk = [d])
    (hmissing : c.index.find? d.path = none) :
    (closing rules cfg (some c) files disk).cache =
        some (afterMissing (.new rules cfg) c d disk).1 ∧
      (closing rules cfg (some c) files disk).disk = (afterMissing (.new rules cfg) c d disk).2 := by
  have hclosing : closing rules cfg (some c) files disk =
      step (.new rules cfg) (indexOf [d]) (opening rules cfg (some c) files disk) d := by
    unfold closing
    rw [hdocs, List.foldl_cons, List.foldl_nil]
  have hopening : (opening rules cfg (some c) files disk).cache =
      some (c.setContext (contextKey (.new rules cfg) (indexOf [d]))) := by
    unfold opening
    rw [hdocs, Option.map_some]
  rw [← Cache.index_setContext c (contextKey (.new rules cfg) (indexOf [d]))] at hmissing
  rw [hclosing]
  exact step_of_missing hopening Memo.faithful_nil hmissing

theorem disk_run (cache : Option Cache) : (run rules cfg cache files disk false).disk =
    (finish (closing rules cfg cache files disk)).disk := rfl

theorem disk_finish {s : State} (hc : s.cache = some c) :
    (finish s).disk = (c.save s.disk).2.2 := by
  unfold finish
  rw [hc]

end Missing

/-- What happens around a cache. -/
inductive Event where
  /-- Files are edited, or something else changes the disk. -/
  | edit (disk : Disk)
  /-- The program starts and opens the cache. -/
  | start (version : String)
  | call (rules : List Rule) (cfg : Config) (files : List String)

/-- A disk with the cache that is open. -/
structure Workplace where
  cache : Option Cache := none
  disk : Disk

namespace Workplace

/-- What an event does. -/
def step (dir : String) (w : Workplace) : Event → Workplace
  | .edit disk => { w with disk }
  | .start version =>
    ⟨(Cache.open_ dir version w.disk).1.result.toOption, (Cache.open_ dir version w.disk).2⟩
  | .call rules cfg files =>
    ⟨(Project.run rules cfg w.cache files w.disk false).cache,
      (Project.run rules cfg w.cache files w.disk false).disk⟩

/-- What events do, one after the other. -/
def run (dir : String) (w : Workplace) (events : List Event) : Workplace :=
  events.foldl (step dir) w

/-- What an event analyses. -/
def analysed (w : Workplace) : Event → List Snapshot
  | .call rules cfg files => [snapshot rules cfg files w.disk]
  | _ => []

/-- What is analysed in the course of events. -/
def history (dir : String) : Workplace → List Event → List Snapshot
  | _, [] => []
  | w, e :: events => w.analysed e ++ history dir (w.step dir e) events

/-- Nobody else writes to the directory of the cache, and at the end of a run it is saved. -/
def Allows (dir : String) (w : Workplace) : Event → Prop
  | .edit disk => Cache.Undisturbed dir w.disk disk
  | .start _ => True
  | .call rules cfg files => ∀ c, (closing rules cfg w.cache files w.disk).cache = some c →
      (c.save (closing rules cfg w.cache files w.disk).disk).1.isOk = true

/-- All events are allowed. -/
def Smooth (dir : String) : Workplace → List Event → Prop
  | _, [] => True
  | w, e :: events => w.Allows dir e ∧ Smooth dir (w.step dir e) events

/-- Everything that was stored is saved, and was found by runs. -/
def Settled (dir : String) (runs : List Snapshot) (w : Workplace) : Prop :=
  ∃ records, Grounded dir runs ⟨w.cache, w.disk, records⟩ ∧ ∀ q ∈ records, q.fate ≠ .pending

variable {dir : String} {runs : List Snapshot} {w : Workplace} {e : Event} {events : List Event}

/-- Every event keeps a workplace settled, over the runs so far. -/
theorem Settled.step (h : w.Settled dir runs) (he : w.Allows dir e) :
    (w.step dir e).Settled dir (runs ++ w.analysed e) := by
  obtain ⟨records, hgrounded, hsettled⟩ := h
  cases e with
  | edit disk =>
      simp only [analysed, List.append_nil]
      exact ⟨records, hgrounded.world he, hsettled⟩
  | start version =>
      have hstart := hgrounded.start hsettled version
      unfold Workplace.step
      simp only [analysed, List.append_nil] at hstart ⊢
      -- how the cache is opened does not matter any more
      generalize Cache.open_ dir version w.disk = opened at hstart ⊢
      exact ⟨records, hstart, hsettled⟩
  | call rules cfg files =>
      have hgrown : Grounded dir (runs ++ [snapshot rules cfg files w.disk])
          ⟨w.cache, w.disk, records⟩ := hgrounded.mono fun x hx => List.mem_append_left _ hx
      exact (amid_closing hgrown (by simp)).1.finish he

/-- A smooth history keeps a workplace settled, by induction on the events. -/
theorem Settled.run (h : w.Settled dir runs) (hsmooth : w.Smooth dir events) :
    (w.run dir events).Settled dir (runs ++ w.history dir events) := by
  induction events generalizing w runs with
  | nil => exact (List.append_nil runs).symm ▸ h
  | cons e events ih =>
      have hlast := ih (h.step hsmooth.1) hsmooth.2
      rwa [List.append_assoc] at hlast

/-- A workplace without a cache is settled. -/
theorem settled_of_vacant {disk : Disk} (h : Cache.Vacant dir disk) :
    (⟨none, disk⟩ : Workplace).Settled dir [] :=
  ⟨[], ⟨Cache.sound_of_vacant h, by simp, by simp, by simp⟩, by simp⟩

/-- What a history analyzes are snapshots. -/
theorem exists_of_mem_history {x : Snapshot} (h : x ∈ w.history dir events) :
    ∃ rules cfg files disk, x = snapshot rules cfg files disk := by
  induction events generalizing w with
  | nil => cases h
  | cons e events ih =>
      rcases List.mem_append.mp h with h | h
      · cases e with
        | call rules cfg files => exact ⟨rules, cfg, files, w.disk, List.mem_singleton.mp h⟩
        | edit disk => cases h
        | start version => cases h
      · exact ih h

end Workplace

theorem proper_snapshot {rules : List Rule} {cfg : Config} {files : List String} {disk : Disk}
    (hrules : ∀ r ∈ rules, r.severity ≠ .unset)
    (hpaths : ∀ d ∈ documents cfg files disk, Char.ofNat 0 ∉ d.path.toList) :
    (snapshot rules cfg files disk).Proper where
  graded := hrules
  parsed := by
    intro d hd
    obtain ⟨-, -, source, -, hparse⟩ := mem_documents hd
    rwa [Document.source_of_parse hparse]
  distinct := nodup_paths cfg files disk
  clear := hpaths

/-- **Results that are used again are those that a run without a cache finds.**  The history begins
with an empty directory of the cache, to which nobody else writes; between the runs anything else
changes, and the program may be started again.  Then a run returns the same results in the same
order with the cache as without one, up to the mark of what was served.  It is assumed that the
hashes of this run and of each earlier one tell apart what is different, and that where both have
one key the first definitions of duplicates agree. -/
theorem results_run_cached {dir : String} {disk : Disk} {events : List Event}
    (hvacant : Cache.Vacant dir disk) (hsmooth : Workplace.Smooth dir { disk } events)
    (rules : List Rule) (cfg : Config) (files : List String) :
    let w := Workplace.run dir { disk } events
    let y := snapshot rules cfg files w.disk
    let past := Workplace.history dir { disk } events
    (∀ x ∈ y :: past, ∀ r ∈ x.rules, r.severity ≠ .unset) →
    (∀ x ∈ y :: past, ∀ d ∈ x.docs, Char.ofNat 0 ∉ d.path.toList) →
    (∀ x ∈ past, x.Apart y) → (∀ x ∈ past, x.Agree y) →
    (run rules cfg w.cache files w.disk false).results.map (·.unmarked) =
      (run rules cfg none files w.disk false).results := by
  intro w y past hrules hpaths hapart hagree
  rw [List.forall_mem_cons] at hrules hpaths
  have hy : y.Proper := proper_snapshot hrules.1 hpaths.1
  have hpast : ∀ x ∈ past, x.Proper := by
    intro x hx
    obtain ⟨rules, cfg, files, disk, rfl⟩ := Workplace.exists_of_mem_history hx
    exact proper_snapshot (hrules.2 _ hx) (hpaths.2 _ hx)
  obtain ⟨records, hgrounded, -⟩ := (Workplace.settled_of_vacant hvacant).run hsmooth
  refine results_run_of_serves (hgrounded.mono fun x hx => List.mem_cons_of_mem y hx)
    List.mem_cons_self (List.forall_mem_cons.mpr ⟨Snapshot.serves_self hy, fun x hx => ?_⟩)
  exact Snapshot.serves_of_apart (hpast x hx) hy (hapart x hx) (hagree x hx)

section Lone

variable {c : Cache} {disk : Disk}

/-- The text of a component that nothing takes up. -/
def lone : Bytes := Bytes.ofString (Markup.element "Component" [⟨"Id", "X"⟩])

/-- The document that it is read as. -/
def loneDocument : Document :=
  .ofElement lone "/a.wxs" (.mk ⟨"Component", [⟨"Id", "X"⟩],
    ⟨0, lone.length, lone.length, lone.length, true⟩, ""⟩ [])

/-- A disk that holds it. -/
def loneDisk : Disk where
  root := .dir [("a.wxs", .file lone 0)]

theorem parse_lone : Document.parse lone "/a.wxs" = .ok loneDocument :=
  Document.parse_lone (Xml.isPlainName_of_letters rfl (by decide)) (List.all_eq_true.mp (by decide)) _

theorem snapshot_lone (h : disk.read "/a.wxs" = .ok lone) :
    snapshot [] {} ["/a.wxs"] disk = ⟨[], {}, [loneDocument]⟩ := by
  rw [snapshot, documents_of_parse (by decide +kernel) h parse_lone]

theorem isGraded_lone :
    ((Analyzer.new [] {}).verdict loneDocument (indexOf [loneDocument]).resolver).isGraded =
      true := by
  have hperm := Analyzer.diagnostics_verdict_perm (d := loneDocument)
    (r := (indexOf [loneDocument]).resolver) (Analyzer.new [] {}) (by decide) (Int.le_refl 0)
    (by decide +kernel)
  unfold FileResult.isGraded
  rw [hperm.all_eq]
  decide +kernel

theorem missing_loneDisk : loneDisk.Missing "/c" := by
  intro v h
  have htrail : loneDisk.trail "/c" = ["", "c"] := by decide
  rw [htrail] at h
  exact absurd (DiskM.isSome_of_leads_name (h.of_idle (by decide)) (by decide)) (by decide)

/-- Whether a cache can take up the component and be saved, so that the file is still there. -/
def storesLone (c : Cache) (disk : Disk) : Bool :=
  (c.index.find? loneDocument.path).isNone &&
    ((afterMissing (.new [] {}) c loneDocument disk).1.save
      (afterMissing (.new [] {}) c loneDocument disk).2).1.isOk &&
    decide (((afterMissing (.new [] {}) c loneDocument disk).1.save
      (afterMissing (.new [] {}) c loneDocument disk).2).2.2.read "/a.wxs" = .ok lone)

/-- The program is started on the disk. -/
def loneStart : Workplace := Workplace.step "/c" ⟨none, loneDisk⟩ (.start "v")

theorem exists_cache_loneStart :
    ∃ c, loneStart.cache = some c ∧ storesLone c loneStart.disk = true := by
  have hstores : (loneStart.cache.any fun c => storesLone c loneStart.disk) = true := by
    -- the order of the findings cannot be evaluated, but it is not needed to store them
    simp only [storesLone, afterMissing, Cache.put, isGraded_lone, Bool.not_true,
      Bool.false_eq_true, if_false]
    decide +kernel
  exact (Option.any_eq_true _ _).mp hstores

theorem read_loneStart : loneStart.disk.read "/a.wxs" = .ok lone := by decide +kernel

/-- The first run over the component. -/
theorem Workplace.call_lone (dir : String) {w : Workplace} (hc : w.cache = some c)
    (hread : w.disk.read "/a.wxs" = .ok lone) (h : storesLone c w.disk = true) :
    w.Allows dir (.call [] {} ["/a.wxs"]) ∧
      (w.step dir (.call [] {} ["/a.wxs"])).disk.read "/a.wxs" = .ok lone := by
  rw [storesLone, Bool.and_eq_true, Bool.and_eq_true, Option.isNone_iff_eq_none,
    decide_eq_true_eq] at h
  obtain ⟨⟨hmissing, hok⟩, hlast⟩ := h
  have hdocs : documents {} ["/a.wxs"] w.disk = [loneDocument] :=
    documents_of_parse (by decide +kernel) hread parse_lone
  obtain ⟨hcache, hdisk⟩ := closing_of_missing [] hdocs hmissing
  rw [← hc] at hcache hdisk
  constructor
  · intro c' hc'
    rw [hcache] at hc'
    obtain rfl := Option.some.inj hc'
    rw [hdisk]
    exact hok
  · rw [Workplace.step, disk_run, disk_finish hcache, hdisk]
    exact hlast

/-- A file is put on the disk, the program is started, and the file is analysed twice. -/
theorem results_run_cached_lone :
    let events : List Event := [.edit loneDisk, .start "v", .call [] {} ["/a.wxs"]]
    let w := Workplace.run "/c" { disk := {} } events
    let y := snapshot [] {} ["/a.wxs"] w.disk
    Cache.Vacant "/c" {} ∧ Workplace.Smooth "/c" { disk := {} } events ∧
      y.docs = [loneDocument] ∧ Workplace.history "/c" { disk := {} } events = [y] ∧
      y.Apart y ∧ y.Agree y ∧
      (run [] {} w.cache ["/a.wxs"] w.disk false).results.map (·.unmarked) =
        (run [] {} none ["/a.wxs"] w.disk false).results := by
  intro events w y
  obtain ⟨c, hc, hstores⟩ := exists_cache_loneStart
  obtain ⟨hallows, hlast⟩ := Workplace.call_lone "/c" hc read_loneStart hstores
  have hsmooth : Workplace.Smooth "/c" { disk := {} } events :=
    ⟨Or.inl ⟨Cache.missing_of_empty, missing_loneDisk⟩, trivial, hallows, trivial⟩
  have hlone : y = ⟨[], {}, [loneDocument]⟩ := snapshot_lone hlast
  have hhistory : Workplace.history "/c" { disk := {} } events =
      [snapshot [] {} ["/a.wxs"] loneStart.disk] := rfl
  rw [snapshot_lone read_loneStart, ← hlone] at hhistory
  have hdocs : y.docs = [loneDocument] := by rw [hlone]
  have hpath : ∀ d ∈ y.docs, Char.ofNat 0 ∉ d.path.toList := by
    rw [hdocs, List.forall_mem_singleton]
    decide
  have hapart : y.Apart y := by
    refine ⟨fun e he d hd _ => ?_, fun _ => rfl, fun _ => rfl, fun _ => rfl⟩
    rw [hdocs, List.mem_singleton] at he hd
    rw [he, hd]
  have hagree : y.Agree y := by
    have hnone : y.index.dups = [] := by
      rw [hlone]
      exact List.isEmpty_iff.mp (by decide +kernel)
    intro _ d _ _ p hp
    rw [SymbolIndex.duplicatesOf, hnone] at hp
    cases hp
  refine ⟨Or.inl Cache.missing_of_empty, hsmooth, hdocs, hhistory, hapart, hagree, ?_⟩
  have hall : ∀ x ∈ y :: Workplace.history "/c" { disk := {} } events, x = y := by
    rw [hhistory]
    simp
  refine results_run_cached (Or.inl Cache.missing_of_empty) hsmooth [] {} ["/a.wxs"]
    (fun x hx r hr => ?_) (fun x hx => ?_) (fun x hx => ?_) (fun x hx => ?_)
  · rw [hall x hx, hlone] at hr
    cases hr
  · rw [hall x hx]
    exact hpath
  · rw [hall x (List.mem_cons_of_mem y hx)]
    exact hapart
  · rw [hall x (List.mem_cons_of_mem y hx)]
    exact hagree

end Lone

end Project

end InstallerLint
