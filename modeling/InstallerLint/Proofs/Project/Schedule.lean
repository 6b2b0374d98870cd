import InstallerLint.Proofs.Project.Run
import Mathlib.Algebra.GroupWithZero.Nat
import Mathlib.Data.List.Perm.Basic
import Mathlib.Logic.Relation

/-!
# Many workers

The documents of a run can be analysed by several workers at once.  A producer hands each document
to a worker that is free, the worker analyses it with the patterns it has read so far and sends an
outcome through a channel that holds as many outcomes as there are workers, and one collector takes
the outcomes in and adds up the statistics.

**Steps.**  `Pool.Step` has one step for each of these moves; any worker can make the next one.

**What holds at every moment.**  No document is lost or taken twice, every outcome is the one that
the document has by itself, and every memo is faithful (`Pool.Sound`).  A pool that is not finished
can go on, and every move brings it closer to the end (`Pool.exists_done`).

**Result.**  However the moves are mixed, and in whatever order the files are given, a finished
pool returns what the run with one worker returns (`schedule_independent`).
-/

namespace InstallerLint

namespace Tally

/-- Two additions can be made in either order. -/
theorem add_right_comm (k k' : String) (n n' : Nat) (t : Tally) :
    add k n (add k' n' t) = add k' n' (add k n t) := by
  induction t with
  | nil => grind [add, Order.le, String.le_total, String.le_antisymm]
  | cons e t ih => grind [add, Order.le, String.le_total, String.le_antisymm, String.le_trans]

theorem merge_right_comm (a b c : Tally) : (a.merge b).merge c = (a.merge c).merge b := by
  have hcomm : RightCommutative fun (t : Tally) (e : String × Nat) => add e.1 e.2 t :=
    ⟨fun t e e' => add_right_comm e'.1 e.1 e'.2 e.2 t⟩
  unfold merge
  rw [← List.foldl_append, ← List.foldl_append]
  exact List.perm_append_comm.foldl_eq a

end Tally

theorem Stats.merge_right_comm (a b c : Stats) : (a.merge b).merge c = (a.merge c).merge b := by
  simp only [Stats.merge, Stats.mk.injEq]
  exact ⟨Nat.add_right_comm .., Nat.add_right_comm .., Nat.add_right_comm ..,
    Tally.merge_right_comm .., Tally.merge_right_comm ..⟩

/-- Statistics of several documents add up to the same in every order. -/
theorem Stats.foldl_merge_perm {l l' : List Stats} (h : l.Perm l') (s : Stats) :
    l.foldl Stats.merge s = l'.foldl Stats.merge s := by
  have hcomm : RightCommutative Stats.merge := ⟨Stats.merge_right_comm⟩
  exact h.foldl_eq s

namespace Analyzer

/-- The statistics of a document when no pattern was read before. -/
def census (a : Analyzer) (d : Document) (r : Resolver) : Stats := (a.analyze d r []).2.1

/-- Statistics do not depend on the patterns read before. -/
theorem census_of_faithful (a : Analyzer) (d : Document) (r : Resolver) {m : Memo}
    (h : m.Faithful) : (a.analyze d r m).2.1 = a.census d r := by
  obtain ⟨hfst, -⟩ := Engine.transparent_evaluate a.engine d m h
  dsimp only at hfst
  simp only [census, analyze, findings, hfst]
  rfl

end Analyzer

namespace Project

/-- What a worker sends. -/
structure Outcome where
  doc : Document
  result : FileResult
  stats : Stats

/-- What a worker is doing. -/
inductive Task where
  | idle
  /-- It has a document to analyse. -/
  | busy (d : Document)
  /-- It has an outcome to send. -/
  | ready (o : Outcome)

/-- A worker with the patterns it has read. -/
structure Worker where
  memo : Memo
  task : Task

/-- A producer, workers, a channel and a collector. -/
structure Pool where
  /-- Documents that no worker has taken, in order. -/
  waiting : List Document
  workers : List Worker
  /-- Outcomes that were sent and not taken in, oldest first. -/
  channel : List Outcome
  results : List FileResult
  /-- How many outcomes were taken in. -/
  evaluated : Nat
  rules : Stats

namespace Task

/-- The document that a worker has in hand. -/
def docs : Task → List Document
  | idle => []
  | busy d => [d]
  | ready o => [o.doc]

/-- How many moves a worker has to make until it is free. -/
def moves : Task → Nat
  | idle => 0
  | busy _ => 3
  | ready _ => 2

end Task

namespace Pool

/-- A pool of `n` workers that have read nothing. -/
def start (n : Nat) (docs : List Document) : Pool where
  waiting := docs
  workers := List.replicate n ⟨[], .idle⟩
  channel := []
  results := []
  evaluated := 0
  rules := {}

/-- One move of a pool. -/
inductive Step (a : Analyzer) (r : Resolver) : Pool → Pool → Prop
  | take {p : Pool} {d : Document} {ds : List Document} {m : Memo} {before after : List Worker} :
      p.waiting = d :: ds →
      p.workers = before ++ ⟨m, .idle⟩ :: after →
      Step a r p { p with waiting := ds, workers := before ++ ⟨m, .busy d⟩ :: after }
  | analyze {p : Pool} {d : Document} {m : Memo} {before after : List Worker} :
      p.workers = before ++ ⟨m, .busy d⟩ :: after →
      Step a r p { p with workers := before ++
        ⟨(a.analyze d r m).2.2, .ready ⟨d, (a.analyze d r m).1, (a.analyze d r m).2.1⟩⟩ :: after }
  | send {p : Pool} {o : Outcome} {m : Memo} {before after : List Worker} :
      p.workers = before ++ ⟨m, .ready o⟩ :: after →
      p.channel.length < p.workers.length →
      Step a r p { p with
        workers := before ++ ⟨m, .idle⟩ :: after
        channel := p.channel ++ [o] }
  | collect {p : Pool} {o : Outcome} {rest : List Outcome} :
      p.channel = o :: rest →
      Step a r p { p with
        channel := rest
        results := p.results ++ [o.result]
        evaluated := p.evaluated + 1
        rules := p.rules.merge o.stats }

/-- Any number of moves. -/
def Reaches (a : Analyzer) (r : Resolver) : Pool → Pool → Prop := Relation.ReflTransGen (Step a r)

/-- Every document was handed out and every outcome taken in. -/
def Done (p : Pool) : Prop :=
  p.waiting = [] ∧ (∀ w ∈ p.workers, w.task = .idle) ∧ p.channel = []

section Invariant

variable {a : Analyzer} {r : Resolver} {docs : List Document}

/-- The outcome that a document has by itself. -/
def outcome (a : Analyzer) (r : Resolver) (d : Document) : Outcome :=
  ⟨d, a.verdict d r, a.census d r⟩

/-- A worker whose memo is faithful and whose outcome is the one of its document. -/
def WorkerSound (a : Analyzer) (r : Resolver) (w : Worker) : Prop :=
  w.memo.Faithful ∧ ∀ o, w.task = .ready o → o = outcome a r o.doc

/-- What holds of a pool at every moment: `past` are the documents whose outcomes were taken in. -/
structure Sound (a : Analyzer) (r : Resolver) (docs past : List Document) (p : Pool) : Prop where
  workers : ∀ w ∈ p.workers, WorkerSound a r w
  /-- Every outcome is the one of its document. -/
  channel : ∀ o ∈ p.channel, o = outcome a r o.doc
  results : p.results = past.map fun d => a.verdict d r
  evaluated : p.evaluated = past.length
  rules : p.rules = (past.map fun d => a.census d r).foldl Stats.merge {}
  /-- Every document is in one place. -/
  docs : (p.waiting ++ p.workers.flatMap (·.task.docs) ++ p.channel.map (·.doc) ++ past).Perm docs

theorem sound_start (n : Nat) : Sound a r docs [] (start n docs) where
  workers := by
    intro w hw
    obtain rfl := List.eq_of_mem_replicate hw
    exact ⟨Memo.faithful_nil, fun o h => by cases h⟩
  channel := by simp [start]
  results := rfl
  evaluated := rfl
  rules := rfl
  docs := by
    have hidle : ((start n docs).workers.flatMap (·.task.docs)) = [] := by
      simp [start, Task.docs]
    rw [hidle]
    simp [start]

theorem workers_replace {before after : List Worker} {w w' : Worker}
    (h : ∀ x ∈ before ++ w :: after, WorkerSound a r x)
    (h' : WorkerSound a r w → WorkerSound a r w') :
    ∀ x ∈ before ++ w' :: after, WorkerSound a r x := by
  intro x hx
  rcases List.mem_append.mp hx with hx | hx
  · exact h x (List.mem_append_left _ hx)
  · rcases List.mem_cons.mp hx with rfl | hx
    · exact h' (h w (by simp))
    · exact h x (by simp [hx])

/-- Every move keeps a pool sound. -/
theorem Sound.step {p q : Pool} {past : List Document} (h : Sound a r docs past p)
    (hstep : Step a r p q) : ∃ past', Sound a r docs past' q := by
  cases hstep with
  | @take d ds m before after hwait hwork =>
      refine ⟨past, ?_, h.channel, h.results, h.evaluated, h.rules, ?_⟩
      · refine workers_replace (w := ⟨m, .idle⟩) (hwork ▸ h.workers) fun hw => ⟨hw.1, ?_⟩
        intro o ho
        cases ho
      · refine List.Perm.trans ?_ h.docs
        rw [hwait, hwork]
        refine List.Perm.append_right _ (List.Perm.append_right _ ?_)
        simp only [List.flatMap_append, List.flatMap_cons, Task.docs, List.nil_append,
          List.cons_append]
        rw [← List.append_assoc, ← List.append_assoc]
        exact List.perm_middle
  | @analyze d m before after hwork =>
      refine ⟨past, ?_, h.channel, h.results, h.evaluated, h.rules, ?_⟩
      · refine workers_replace (w := ⟨m, .busy d⟩) (hwork ▸ h.workers) fun hw => ?_
        obtain ⟨hresult, hmemo⟩ := a.analyze_of_faithful d r hw.1
        refine ⟨hmemo, ?_⟩
        intro o ho
        cases ho
        simp only [outcome, hresult, a.census_of_faithful d r hw.1]
      · refine List.Perm.trans (List.Perm.of_eq ?_) h.docs
        rw [hwork]
        simp [Task.docs]
  | @send o m before after hwork hroom =>
      have ho : o = outcome a r o.doc := (h.workers ⟨m, .ready o⟩ (by simp [hwork])).2 o rfl
      refine ⟨past, ?_, ?_, h.results, h.evaluated, h.rules, ?_⟩
      · refine workers_replace (w := ⟨m, .ready o⟩) (hwork ▸ h.workers) fun hw => ⟨hw.1, ?_⟩
        intro o' ho'
        cases ho'
      · intro x hx
        rcases List.mem_append.mp hx with hx | hx
        · exact h.channel x hx
        · obtain rfl := List.mem_singleton.mp hx
          exact ho
      · refine List.Perm.trans ?_ h.docs
        rw [hwork]
        refine List.Perm.append_right _ ?_
        simp only [List.flatMap_append, List.flatMap_cons, Task.docs, List.nil_append,
          List.map_append, List.map_cons, List.map_nil, List.append_assoc]
        refine List.Perm.append_left _ (List.Perm.append_left _ ?_)
        rw [← List.append_assoc]
        exact List.perm_append_comm
  | @collect o rest hchan =>
      have ho : o = outcome a r o.doc := h.channel o (by simp [hchan])
      refine ⟨past ++ [o.doc], h.workers, fun x hx => h.channel x (by simp [hchan, hx]), ?_, ?_,
        ?_, ?_⟩
      · rw [h.results, List.map_append, List.map_singleton]
        exact congrArg (fun x => _ ++ [x]) (congrArg Outcome.result ho)
      · rw [List.length_append, ← h.evaluated]
        rfl
      · rw [List.map_append, List.foldl_append, ← h.rules]
        exact congrArg p.rules.merge (congrArg Outcome.stats ho)
      · refine List.Perm.trans ?_ h.docs
        rw [hchan, List.map_cons]
        simp only [List.append_assoc, List.cons_append]
        refine List.Perm.append_left _ (List.Perm.append_left _ ?_)
        rw [← List.append_assoc]
        exact List.perm_append_comm

/-- A sound pool stays sound along every schedule. -/
theorem Sound.reaches {p q : Pool} {past : List Document} (h : Sound a r docs past p)
    (hreach : Reaches a r p q) : ∃ past', Sound a r docs past' q := by
  induction hreach with
  | refl => exact ⟨past, h⟩
  | tail _ hstep ih =>
      obtain ⟨past', h'⟩ := ih
      exact h'.step hstep

/-- In a finished pool the outcomes of all documents were taken in. -/
theorem Sound.done {p : Pool} {past : List Document} (h : Sound a r docs past p) (hdone : p.Done) :
    past.Perm docs := by
  obtain ⟨hwait, hidle, hchan⟩ := hdone
  have hwork : p.workers.flatMap (·.task.docs) = [] := by
    rw [List.flatMap_eq_nil_iff]
    intro w hw
    rw [hidle w hw]
    rfl
  simpa [hwait, hwork, hchan] using h.docs

end Invariant

section Progress

variable {a : Analyzer} {r : Resolver}

/-- How many moves are left. -/
def movesLeft (p : Pool) : Nat :=
  4 * p.waiting.length + (p.workers.map (·.task.moves)).sum + p.channel.length

/-- Every move leaves fewer moves. -/
theorem movesLeft_lt_of_step {p q : Pool} (h : Step a r p q) : q.movesLeft < p.movesLeft := by
  cases h with
  | take hwait hwork =>
      simp only [movesLeft, hwait, hwork, List.map_append, List.map_cons, List.sum_append,
        List.sum_cons, Task.moves, List.length_cons]
      omega
  | analyze hwork =>
      simp only [movesLeft, hwork, List.map_append, List.map_cons, List.sum_append,
        List.sum_cons, Task.moves]
      omega
  | send hwork =>
      simp only [movesLeft, hwork, List.map_append, List.map_cons, List.sum_append,
        List.sum_cons, Task.moves, List.length_append, List.length_cons, List.length_nil]
      omega
  | collect hchan =>
      simp only [movesLeft, hchan, List.length_cons]
      omega

/-- A pool with a worker is finished or can make a move. -/
theorem done_or_step {p : Pool} (hwork : p.workers ≠ []) : p.Done ∨ ∃ q, Step a r p q := by
  by_cases hchan : p.channel = []
  · by_cases hidle : ∀ w ∈ p.workers, w.task = .idle
    · cases hwait : p.waiting with
      | nil => exact Or.inl ⟨hwait, hidle, hchan⟩
      | cons d ds =>
          obtain ⟨w, rest, hw⟩ := List.exists_cons_of_ne_nil hwork
          have htask := hidle w (by simp [hw])
          have hsplit : p.workers = [] ++ ⟨w.memo, .idle⟩ :: rest := by
            rw [hw, ← htask]
            rfl
          exact Or.inr ⟨_, .take hwait hsplit⟩
    · push Not at hidle
      obtain ⟨⟨m, task⟩, hw, htask⟩ := hidle
      obtain ⟨before, after, hsplit⟩ := List.append_of_mem hw
      cases task with
      | idle => exact absurd rfl htask
      | busy d => exact Or.inr ⟨_, .analyze hsplit⟩
      | ready o =>
          refine Or.inr ⟨_, .send hsplit ?_⟩
          rw [hchan]
          exact List.length_pos_iff.mpr hwork
  · obtain ⟨o, rest, hcons⟩ := List.exists_cons_of_ne_nil hchan
    exact Or.inr ⟨_, .collect hcons⟩

theorem workers_ne_nil_of_step {p q : Pool} (h : Step a r p q) (hp : p.workers ≠ []) :
    q.workers ≠ [] := by
  cases h with
  | collect => exact hp
  | _ => simp

/-- A pool with a worker can always be brought to its end. -/
theorem exists_done (p : Pool) (hwork : p.workers ≠ []) : ∃ q, Reaches a r p q ∧ q.Done := by
  induction hn : p.movesLeft using Nat.strongRecOn generalizing p with
  | _ n ih =>
      rcases done_or_step (a := a) (r := r) hwork with hdone | ⟨q, hstep⟩
      · exact ⟨p, .refl, hdone⟩
      · obtain ⟨t, hreach, hdone⟩ := ih q.movesLeft (hn ▸ movesLeft_lt_of_step hstep) q
          (workers_ne_nil_of_step hstep hwork) rfl
        exact ⟨t, .head hstep hreach, hdone⟩

theorem workers_ne_nil_of_reaches {p q : Pool} (h : Reaches a r p q) (hp : p.workers ≠ []) :
    q.workers ≠ [] := by
  induction h with
  | refl => exact hp
  | tail _ hstep ih => exact workers_ne_nil_of_step hstep ih

end Progress

end Pool

section Sequential

variable (a : Analyzer) (ix : SymbolIndex)

/-- A document analysed without a cache is counted. -/
theorem counts_step_uncached {s : State} (hcache : s.cache = none) (hmemo : s.memo.Faithful)
    (d : Document) :
    (step a ix s d).fromCache = s.fromCache ∧ (step a ix s d).evaluated = s.evaluated + 1 ∧
      (step a ix s d).rules = s.rules.merge (a.census d ix.resolver) := by
  simp only [step, stored, store, hcache, a.census_of_faithful d ix.resolver hmemo, and_self]

theorem counts_foldl_step_uncached (docs : List Document) {s : State} (hcache : s.cache = none)
    (hmemo : s.memo.Faithful) :
    (docs.foldl (step a ix) s).fromCache = s.fromCache ∧
      (docs.foldl (step a ix) s).evaluated = s.evaluated + docs.length ∧
      (docs.foldl (step a ix) s).rules =
        (docs.map fun d => a.census d ix.resolver).foldl Stats.merge s.rules := by
  induction docs generalizing s with
  | nil => exact ⟨rfl, rfl, rfl⟩
  | cons d docs ih =>
      obtain ⟨hcache', hmemo', -⟩ := step_uncached a ix hcache hmemo d
      obtain ⟨hfrom, heval, hrules⟩ := counts_step_uncached a ix hcache hmemo d
      obtain ⟨hfrom', heval', hrules'⟩ := ih hcache' hmemo'
      refine ⟨hfrom'.trans hfrom, ?_, ?_⟩
      · rw [List.foldl_cons, heval', heval, List.length_cons]
        omega
      · rw [List.foldl_cons, hrules', hrules]
        rfl

end Sequential

section Answers

/-- The result for a file, if it can be read. -/
def ReadFile.answer? (a : Analyzer) (r : Resolver) : ReadFile → Option FileResult
  | malformed path e => some (a.parseFailure path e)
  | document d => some (a.verdict d r)
  | _ => none

/-- One result for each file that can be read, in the order of the paths. -/
def answers (a : Analyzer) (r : Resolver) (cfg : Config) (files : List String) (disk : Disk) :
    List FileResult :=
  ((distinctFiles files).map (readFile disk cfg)).filterMap (·.answer? a r)

variable {a : Analyzer} {r : Resolver} {cfg : Config} {files : List String} {disk : Disk}

theorem answers_perm :
    (failures a cfg files disk ++
      (documents cfg files disk).map fun d => a.verdict d r).Perm (answers a r cfg files disk) := by
  unfold failures documents answers
  induction (distinctFiles files).map (readFile disk cfg) with
  | nil => exact .nil
  | cons x reads ih =>
      cases x with
      | malformed path e => exact ih.cons _
      | document d => exact List.perm_middle.trans (ih.cons _)
      | excluded => exact ih
      | unreadable path e => exact ih

/-- The answer for a file stands under its path, and there is one unless the file is left out or
cannot be read. -/
theorem answer?_readFile (path : String) :
    (∀ f, (readFile disk cfg path).answer? a r = some f → f.file = path) ∧
      (((readFile disk cfg path).answer? a r).isSome = true ↔
        cfg.excludes path = false ∧ ∃ source, disk.read path = .ok source) := by
  unfold readFile
  cases cfg.excludes path with
  | true => simp [ReadFile.answer?]
  | false =>
      cases disk.read path with
      | error e => simp [ReadFile.answer?]
      | ok source =>
          simp only [Bool.false_eq_true, if_false]
          cases hparse : Document.parse source path with
          | error e => simp [ReadFile.answer?, Analyzer.parseFailure]
          | ok d =>
              simp [ReadFile.answer?, Analyzer.file_verdict, Document.path_of_parse hparse]

theorem pairwise_answers : (answers a r cfg files disk).Pairwise fun x y => x.file < y.file := by
  unfold answers
  rw [List.filterMap_map]
  refine List.Pairwise.filterMap _ ?_ (pairwise_distinctFiles files)
  intro path path' hlt f hf f' hf'
  rwa [(answer?_readFile path).1 f hf, (answer?_readFile path').1 f' hf']

/-- The files with answers are those that are read. -/
theorem mem_files_answers {path : String} :
    path ∈ (answers a r cfg files disk).map (·.file) ↔
      path ∈ distinctFiles files ∧ cfg.excludes path = false ∧
        ∃ source, disk.read path = .ok source := by
  unfold answers
  rw [List.filterMap_map, List.mem_map, ← (answer?_readFile (a := a) (r := r) path).2]
  simp only [List.mem_filterMap, Function.comp_apply, Option.isSome_iff_exists]
  constructor
  · rintro ⟨f, ⟨path', hpath', hf⟩, rfl⟩
    obtain rfl := (answer?_readFile path').1 f hf
    exact ⟨hpath', f, hf⟩
  · rintro ⟨hpath, f, hf⟩
    exact ⟨f, ⟨path, hpath, hf⟩, (answer?_readFile path).1 f hf⟩

/-- Results in any order, sorted, are the answers. -/
theorem sort_eq_answers {l : List FileResult} (h : l.Perm (answers a r cfg files disk)) :
    FileResult.sort l = answers a r cfg files disk := by
  have hstrict : (answers a r cfg files disk).Pairwise fun x y => x.file < y.file :=
    pairwise_answers
  have hsorted : (FileResult.sort l).Pairwise fun x y => Order.le x.file y.file = true :=
    Order.pairwise_sortBy (·.file) l
  have hperm := (Order.sortBy_perm (·.file) l).trans h
  have hnodup : ((answers a r cfg files disk).map (·.file)).Nodup := by
    rw [List.Nodup, List.pairwise_map]
    refine hstrict.imp fun {x y} hlt heq => ?_
    rw [heq] at hlt
    exact String.lt_irrefl _ hlt
  refine List.Perm.eq_of_pairwise ?_ hsorted ?_ hperm
  · intro x y hx hy hxy hyx
    simp only [Order.le, decide_eq_true_eq] at hxy hyx
    exact List.inj_on_of_nodup_map hnodup (hperm.mem_iff.mp hx) hy (String.le_antisymm hxy hyx)
  · exact hstrict.imp fun hlt => decide_eq_true (String.not_lt.mp (String.lt_asymm hlt))

/-- Every file that is not left out is unreadable, malformed or a document. -/
theorem length_reads (a : Analyzer) (reads : List ReadFile) :
    (reads.filter fun x => !x.isExcluded).length =
      (reads.filter (·.isUnreadable)).length + (reads.filterMap (·.failure? a)).length +
        (reads.filterMap (·.document?)).length := by
  induction reads with
  | nil => rfl
  | cons x reads ih =>
      cases x <;>
        simp [ReadFile.isExcluded, ReadFile.isUnreadable, ReadFile.failure?,
          ReadFile.document?] at ih ⊢ <;> omega

end Answers

section Order

theorem go_eq_self {seen files : List String} (hnodup : (files.map Path.clean).Nodup)
    (hseen : ∀ f ∈ files, Path.clean f ∉ seen) : distinctFiles.go seen files = files := by
  induction files generalizing seen with
  | nil => rfl
  | cons f files ih =>
      rw [List.map_cons, List.nodup_cons] at hnodup
      have hnew : Path.clean f ∉ seen := hseen f List.mem_cons_self
      rw [distinctFiles.go, if_neg (by simpa using hnew), ih hnodup.2]
      intro g hg hmem
      rcases List.mem_cons.mp hmem with heq | hmem
      · exact hnodup.1 (heq ▸ List.mem_map_of_mem hg)
      · exact hseen g (List.mem_cons_of_mem _ hg) hmem

/-- Files with different clean paths are all looked at, in the order of their paths. -/
theorem distinctFiles_eq_sort {files : List String} (h : (files.map Path.clean).Nodup) :
    distinctFiles files = Order.sort files := by
  rw [distinctFiles, go_eq_self h (by simp)]

end Order

section Conclusion

variable (rules : List Rule) (cfg : Config) (files : List String) (disk : Disk)

/-- What a run without a cache returns for the results, the number and the statistics of its
documents. -/
def concluded (results : List FileResult) (evaluated : Nat) (stats : Stats) :
    List FileResult × ProjectStats :=
  let a := Analyzer.new rules cfg
  let reads := (distinctFiles files).map (readFile disk cfg)
  let results := FileResult.sort (reads.filterMap (·.failure? a) ++ results)
  (results, {
    files := (reads.filter fun r => !r.isExcluded).length
    excluded := (reads.filter (·.isExcluded)).length
    unreadable := (reads.filter (·.isUnreadable)).length
    parseFailures := (reads.filterMap (·.failure? a)).length
    evaluated
    diagnostics := FileResult.total results
    rules := stats })

/-- What a run without a cache returns when a pool has analysed its documents. -/
def Pool.returned (p : Pool) : List FileResult × ProjectStats :=
  concluded rules cfg files disk p.results p.evaluated p.rules

/-- The answers about the symbols of the documents of a run. -/
abbrev resolverOf : Resolver := (indexOf (documents cfg files disk)).resolver

theorem concluded_fst_of_perm {results : List FileResult} {n : Nat} {stats : Stats}
    (h : results.Perm ((documents cfg files disk).map fun d =>
      (Analyzer.new rules cfg).verdict d (resolverOf cfg files disk))) :
    (concluded rules cfg files disk results n stats).1 =
      answers (Analyzer.new rules cfg) (resolverOf cfg files disk) cfg files disk :=
  sort_eq_answers ((h.append_left _).trans answers_perm)

/-- The order of the results does not show. -/
theorem concluded_of_perm {results results' : List FileResult} {n : Nat} {stats : Stats}
    (h : results.Perm ((documents cfg files disk).map fun d =>
      (Analyzer.new rules cfg).verdict d (resolverOf cfg files disk)))
    (h' : results'.Perm results) :
    concluded rules cfg files disk results' n stats =
      concluded rules cfg files disk results n stats := by
  have hsort : (concluded rules cfg files disk results' n stats).1 =
      (concluded rules cfg files disk results n stats).1 :=
    (concluded_fst_of_perm rules cfg files disk (h'.trans h)).trans
      (concluded_fst_of_perm rules cfg files disk h).symm
  simp only [concluded] at hsort ⊢
  rw [hsort]

/-- A run without a cache concludes with the verdicts of its documents. -/
theorem run_eq_concluded :
    ((run rules cfg none files disk false).results, (run rules cfg none files disk false).stats) =
      concluded rules cfg files disk
        ((documents cfg files disk).map fun d =>
          (Analyzer.new rules cfg).verdict d (resolverOf cfg files disk))
        (documents cfg files disk).length
        (((documents cfg files disk).map fun d =>
          (Analyzer.new rules cfg).census d (resolverOf cfg files disk)).foldl Stats.merge {}) := by
  obtain ⟨hcache, hresults⟩ := foldl_step_uncached (Analyzer.new rules cfg)
    (indexOf (documents cfg files disk)) (documents cfg files disk)
    (s := opening rules cfg none files disk) rfl Memo.faithful_nil
  obtain ⟨hfrom, heval, hrules⟩ := counts_foldl_step_uncached (Analyzer.new rules cfg)
    (indexOf (documents cfg files disk)) (documents cfg files disk)
    (s := opening rules cfg none files disk) rfl Memo.faithful_nil
  have hrun : ((run rules cfg none files disk false).results,
      (run rules cfg none files disk false).stats) =
      let s := finish (closing rules cfg none files disk)
      let c := concluded rules cfg files disk s.results s.evaluated s.rules
      (c.1, { c.2 with fromCache := s.fromCache, cache := (s.cache.map (·.stats)).getD {} }) := rfl
  rw [hrun, closing, finish_uncached hcache]
  dsimp only
  rw [hresults, heval, hrules, hfrom, hcache]
  simp [opening, concluded]

/-- A pool that is done returns what the run in order does. -/
theorem returned_eq_run {p : Pool} {past : List Document}
    (h : Pool.Sound (Analyzer.new rules cfg) (resolverOf cfg files disk)
      (documents cfg files disk) past p) (hdone : p.Done) :
    p.returned rules cfg files disk =
      ((run rules cfg none files disk false).results,
        (run rules cfg none files disk false).stats) := by
  have hpast := h.done hdone
  rw [run_eq_concluded, Pool.returned, h.evaluated, h.rules, hpast.length_eq,
    Stats.foldl_merge_perm (hpast.map _)]
  exact concluded_of_perm rules cfg files disk (List.Perm.refl _) (h.results ▸ hpast.map _)

/-- The order of the files does not matter to a run. -/
theorem run_of_perm {files' : List String} (hclean : (files.map Path.clean).Nodup)
    (hperm : files'.Perm files) (cancelled : Bool) :
    run rules cfg none files' disk cancelled = run rules cfg none files disk cancelled := by
  have hclean' : (files'.map Path.clean).Nodup := (hperm.map _).nodup_iff.mpr hclean
  have hfiles : distinctFiles files' = distinctFiles files := by
    rw [distinctFiles_eq_sort hclean, distinctFiles_eq_sort hclean', Order.sort_eq_of_perm hperm]
  simp only [run, hfiles]

end Conclusion

/-- **Schedule independence.**  Take the files of a run in any order and any number of workers.
From every state that the pool can reach it can come to its end; and when it has come to its end, it
returns the results and the statistics of the run that analyses one document after the other.  These
are one result for each file that is not left out and can be read, by path, and every file that is
not left out is counted once. -/
theorem schedule_independent (rules : List Rule) (cfg : Config) (files files' : List String)
    (disk : Disk) (hclean : (files.map Path.clean).Nodup) (hperm : files'.Perm files)
    (workers : Nat) (hworkers : 1 ≤ workers) (p : Pool)
    (hreach : Pool.Reaches (Analyzer.new rules cfg) (indexOf (documents cfg files' disk)).resolver
      (Pool.start workers (documents cfg files' disk)) p) :
    let R := run rules cfg none files disk false
    (∃ q, Pool.Reaches (Analyzer.new rules cfg) (indexOf (documents cfg files' disk)).resolver p q ∧
      q.Done) ∧
    (p.Done → p.returned rules cfg files' disk = (R.results, R.stats)) ∧
    R.results.Pairwise (fun x y => x.file < y.file) ∧
    (∀ path, path ∈ R.results.map (·.file) ↔
      path ∈ files ∧ cfg.excludes path = false ∧ ∃ source, disk.read path = .ok source) ∧
    R.stats.files = R.stats.unreadable + R.stats.parseFailures + R.stats.evaluated := by
  intro R
  have hresults : R.results =
      answers (Analyzer.new rules cfg) (resolverOf cfg files disk) cfg files disk :=
    (congrArg Prod.fst (run_eq_concluded rules cfg files disk)).trans
      (concluded_fst_of_perm rules cfg files disk (List.Perm.refl _))
  refine ⟨?_, ?_, ?_, ?_, ?_⟩
  · refine Pool.exists_done p (Pool.workers_ne_nil_of_reaches hreach ?_)
    obtain ⟨n, rfl⟩ : ∃ n, workers = n + 1 := ⟨workers - 1, by omega⟩
    simp [Pool.start]
  · intro hdone
    obtain ⟨past, hsound⟩ := (Pool.sound_start workers).reaches hreach
    rw [returned_eq_run rules cfg files' disk hsound hdone,
      run_of_perm rules cfg files disk hclean hperm]
  · rw [hresults]
    exact pairwise_answers
  · intro path
    rw [hresults, mem_files_answers, distinctFiles_eq_sort hclean, (Order.sort_perm _).mem_iff]
  · have hstats := congrArg Prod.snd (run_eq_concluded rules cfg files disk)
    rw [show R.stats = _ from hstats]
    exact length_reads _ _

/-- Two documents and a file that is none. -/
def threeFiles : Disk where
  root := .dir [
    ("a.wxs", .file (Bytes.ofString "<Wix><Component Id='X'/></Wix>") 0),
    ("b.wxs", .file (Bytes.ofString "<Wix>") 0),
    ("c.wxs", .file (Bytes.ofString "<Wix><ComponentRef Id='X'/></Wix>") 0)]

theorem schedule_independent_threeFiles :
    let files := ["/a.wxs", "/b.wxs", "/c.wxs"]
    let given := ["/c.wxs", "/a.wxs", "/b.wxs"]
    let docs := documents {} given threeFiles
    let R := run [] {} none files threeFiles false
    (files.map Path.clean).Nodup ∧ given.Perm files ∧ (∀ f ∈ files, f ∈ R.results.map (·.file)) ∧
    ∃ p, Pool.Reaches (Analyzer.new [] {}) (indexOf docs).resolver (Pool.start 2 docs) p ∧ p.Done ∧
      p.returned [] {} given threeFiles = (R.results, R.stats) := by
  intro files given docs R
  have hclean : (files.map Path.clean).Nodup := by decide +kernel
  have hperm : given.Perm files := by decide +kernel
  obtain ⟨⟨p, hreach, hdone⟩, -, -, hfiles, -⟩ :=
    schedule_independent [] {} files given threeFiles hclean hperm 2 (by decide)
      (Pool.start 2 docs) .refl
  obtain ⟨-, hreturned, -⟩ :=
    schedule_independent [] {} files given threeFiles hclean hperm 2 (by decide) p hreach
  refine ⟨hclean, hperm, fun f hf => (hfiles f).mpr ⟨hf, ?_⟩, p, hreach, hdone, hreturned hdone⟩
  simp only [files, List.mem_cons, List.not_mem_nil, or_false] at hf
  rcases hf with rfl | rfl | rfl <;> exact ⟨by decide +kernel, _, rfl⟩

end Project
end InstallerLint
