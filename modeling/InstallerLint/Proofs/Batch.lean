import Mathlib.Data.List.Forall2
import Mathlib.Data.List.Induction
import InstallerLint.Proofs.Assoc
import InstallerLint.Proofs.Order
import InstallerLint.Watch

/-!
# Batches of changes

Changes of many paths come in any order.  A batch keeps one of them for each path, and hands them
over when it is asked to.

**What the changes of a path come to.**  `Outcome` says it of all changes of one path, in their
order.  The cell of the path holds this outcome: the first change is its own outcome, and combining
the outcome with one more change gives the next one (`Outcome.concat`).

**What is collected.**  A batch is compared with all changes since it was handed over last
(`Collects`).  Taking in a change keeps this (`Collects.add`), and an empty batch has collected
nothing; so no change is lost or carried over, however often a batch is handed over
(`summarizes_serve`).
-/

namespace InstallerLint

/-- What changes of one path come to. -/
inductive Outcome (changes : List WatchedChange) : WatchedChange → Prop
  | removed (last : changes.getLast? = some .removed) : Outcome changes .removed
  /-- Nothing but writing came after the path was created. -/
  | created (before : List WatchedChange) (writes : Nat)
      (eq : changes = before ++ .created :: List.replicate writes .written) :
      Outcome changes .created
  | written (some_change : changes ≠ []) (not_removed : changes.getLast? ≠ some .removed)
      (not_created : ∀ before writes,
        changes ≠ before ++ .created :: List.replicate writes .written) :
      Outcome changes .written

namespace Outcome

variable {changes : List WatchedChange} {op op' : WatchedChange}

theorem ne_nil (h : Outcome changes op) : changes ≠ [] := by
  cases h with
  | removed last =>
      rintro rfl
      cases last
  | created before writes eq =>
      rw [eq]
      simp
  | written some_change => exact some_change

/-- After a creation and writing the last change is one of these. -/
theorem last_of_created (before : List WatchedChange) (writes : Nat) :
    (before ++ WatchedChange.created :: List.replicate writes .written).getLast? ≠
      some .removed := by
  cases writes with
  | zero => simp
  | succ writes =>
      rw [List.replicate_succ', ← List.cons_append, ← List.append_assoc, List.getLast?_concat]
      simp

/-- A history of a path has one outcome. -/
theorem unique (h : Outcome changes op) (h' : Outcome changes op') : op = op' := by
  cases h with
  | removed last =>
      cases h' with
      | removed => rfl
      | created before writes eq => exact absurd (eq ▸ last) (last_of_created before writes)
      | written _ not_removed => exact absurd last not_removed
  | created before writes eq =>
      cases h' with
      | removed last => exact absurd (eq ▸ last) (last_of_created before writes)
      | created => rfl
      | written _ _ not_created => exact absurd eq (not_created before writes)
  | written _ not_removed not_created =>
      cases h' with
      | removed last => exact absurd last not_removed
      | created before writes eq => exact absurd eq (not_created before writes)
      | written => rfl

/-- One event is its own outcome. -/
theorem single (op : WatchedChange) : Outcome [op] op := by
  cases op with
  | removed => exact .removed rfl
  | created => exact .created [] 0 rfl
  | written =>
      refine .written (List.cons_ne_nil _ _) (by simp) fun before writes eq => ?_
      have hmem : WatchedChange.created ∈ [WatchedChange.written] := by
        rw [eq]
        simp
      simp at hmem

theorem eq_of_concat_written {before : List WatchedChange} {writes : Nat}
    (h : changes ++ [.written] = before ++ .created :: List.replicate writes .written) :
    ∃ fewer, changes = before ++ .created :: List.replicate fewer .written := by
  cases writes with
  | zero =>
      have hlast := congrArg List.getLast? h
      simp at hlast
  | succ fewer =>
      rw [List.replicate_succ', ← List.cons_append, ← List.append_assoc] at h
      exact ⟨fewer, (List.append_inj' h rfl).1⟩

/-- One more change of the path. -/
theorem concat (h : Outcome changes op) (later : WatchedChange) :
    Outcome (changes ++ [later]) (Batch.combine op later) := by
  cases later with
  | removed =>
      have hcombine : Batch.combine op .removed = .removed := by cases op <;> rfl
      rw [hcombine]
      exact .removed List.getLast?_concat
  | created =>
      have hcombine : Batch.combine op .created = .created := by cases op <;> rfl
      rw [hcombine]
      exact .created changes 0 rfl
  | written =>
      have hlast : (changes ++ [WatchedChange.written]).getLast? ≠ some .removed := by
        rw [List.getLast?_concat]
        simp
      cases h with
      | created before writes eq =>
          refine .created before (writes + 1) ?_
          rw [eq, List.replicate_succ', List.append_assoc, List.cons_append]
      | removed last =>
          refine .written (by simp) hlast fun before writes eq => ?_
          obtain ⟨fewer, heq⟩ := eq_of_concat_written eq
          exact last_of_created before fewer (heq ▸ last)
      | written _ _ not_created =>
          refine .written (by simp) hlast fun before writes eq => ?_
          obtain ⟨fewer, heq⟩ := eq_of_concat_written eq
          exact not_created before fewer heq

/-- Changes come to something as soon as there is one. -/
theorem exists_of_ne_nil (h : changes ≠ []) : ∃ op, Outcome changes op := by
  induction changes using List.reverseRecOn with
  | nil => exact absurd rfl h
  | append_singleton before later ih =>
      by_cases hbefore : before = []
      · rw [hbefore]
        exact ⟨later, single later⟩
      · obtain ⟨op, hop⟩ := ih hbefore
        exact ⟨_, hop.concat later⟩

end Outcome

namespace Batch

/-- The changes of a path, in order. -/
def own (path : String) (changes : List (String × WatchedChange)) : List WatchedChange :=
  (changes.filter (·.1 = path)).map Prod.snd

/-- A batch holds the outcomes of some changes. -/
structure Collects (changes : List (String × WatchedChange)) (b : Batch) : Prop where
  keys : (b.map Prod.fst).Nodup
  found : ∀ path op, b.lookup path = some op ↔ Outcome (own path changes) op

section Collects

variable {changes : List (String × WatchedChange)} {b : Batch} {path : String} {op : WatchedChange}

theorem own_concat_self : own path (changes ++ [(path, op)]) = own path changes ++ [op] := by
  simp [own]

theorem own_concat_of_ne {other : String} (h : path ≠ other) :
    own other (changes ++ [(path, op)]) = own other changes := by
  simp [own, h]

/-- A path has events of its own just when it is mentioned. -/
theorem own_eq_nil : own path changes = [] ↔ path ∉ changes.map Prod.fst := by
  simp only [own, List.map_eq_nil_iff, List.filter_eq_nil_iff, decide_eq_true_eq, List.mem_map,
    not_exists, not_and]

/-- An event is combined with what the batch holds for its path. -/
theorem lookup_add_self (b : Batch) (path : String) (op : WatchedChange) :
    (b.add path op).lookup path = some ((b.lookup path).elim op (combine · op)) := by
  induction b with
  | nil => simp [add]
  | cons entry b ih =>
      obtain ⟨p, old⟩ := entry
      rw [add]
      split_ifs with h
      · rw [h, List.lookup_cons_self, List.lookup_cons_self, Option.elim_some]
      · rw [List.lookup_cons, List.lookup_cons, beq_false_of_ne (Ne.symm h)]
        exact ih

/-- An event leaves other paths alone. -/
theorem lookup_add_of_ne {other : String} (h : path ≠ other) :
    (b.add path op).lookup other = b.lookup other := by
  induction b with
  | nil => simp [add, List.lookup_cons, beq_false_of_ne (Ne.symm h)]
  | cons entry b ih =>
      obtain ⟨p, old⟩ := entry
      rw [add]
      split_ifs with hp
      · rw [List.lookup_cons, List.lookup_cons, hp, beq_false_of_ne (Ne.symm h)]
      · rw [List.lookup_cons, List.lookup_cons, ih]

/-- A new path is listed last. -/
theorem keys_add (b : Batch) (path : String) (op : WatchedChange) :
    (b.add path op).map Prod.fst =
      if path ∈ b.map Prod.fst then b.map Prod.fst else b.map Prod.fst ++ [path] := by
  induction b with
  | nil => rfl
  | cons entry b ih =>
      obtain ⟨p, old⟩ := entry
      rw [add]
      by_cases hp : p = path
      · simp [hp]
      · rw [if_neg hp, List.map_cons, ih, List.map_cons]
        simp only [List.mem_cons, Ne.symm hp, false_or]
        split_ifs <;> rfl

theorem nodup_keys_add (h : (b.map Prod.fst).Nodup) : ((b.add path op).map Prod.fst).Nodup := by
  rw [keys_add]
  split_ifs with hmem
  · exact h
  · exact List.nodup_append.mpr ⟨h, List.nodup_singleton _, by grind⟩

theorem collects_nil : Collects [] [] where
  keys := List.nodup_nil
  found path op := iff_of_false (by simp) fun h => h.ne_nil rfl

/-- Only a path without changes has no cell. -/
theorem Collects.lookup_eq_none_iff (h : Collects changes b) (path : String) :
    b.lookup path = none ↔ own path changes = [] := by
  constructor
  · intro hnone
    by_contra hne
    obtain ⟨op, hop⟩ := Outcome.exists_of_ne_nil hne
    rw [(h.found path op).mpr hop] at hnone
    cases hnone
  · intro hnil
    cases hfound : b.lookup path with
    | none => rfl
    | some op => exact absurd hnil ((h.found path op).mp hfound).ne_nil

/-- Taking in a change touches the cell of its path only. -/
theorem Collects.add (h : Collects changes b) (path : String) (op : WatchedChange) :
    Collects (changes ++ [(path, op)]) (b.add path op) where
  keys := nodup_keys_add h.keys
  found other op' := by
    by_cases hother : path = other
    · obtain rfl := hother
      have hcell : Outcome (own path changes ++ [op]) ((b.lookup path).elim op (combine · op)) := by
        cases hold : b.lookup path with
        | some old => exact ((h.found path old).mp hold).concat op
        | none =>
            rw [(h.lookup_eq_none_iff path).mp hold]
            exact .single op
      rw [lookup_add_self, own_concat_self, Option.some.injEq]
      constructor
      · rintro rfl
        exact hcell
      · exact hcell.unique
    · rw [lookup_add_of_ne hother, own_concat_of_ne hother]
      exact h.found other op'

end Collects

/-- The changes that come between the calls that ask for them, after those that came before. -/
def stretches : List (String × WatchedChange) → List Call → List (List (String × WatchedChange))
  | _, [] => []
  | since, .add path op :: calls => stretches (since ++ [(path, op)]) calls
  | since, .drain :: calls => since :: stretches [] calls

/-- What is handed over sums up some changes. -/
structure Summarizes (changes : List (String × WatchedChange)) (handed : Batch) : Prop where
  sorted : (handed.map Prod.fst).Pairwise (· < ·)
  paths : ∀ path, path ∈ handed.map Prod.fst ↔ path ∈ changes.map Prod.fst
  outcome : ∀ path op, (path, op) ∈ handed → Outcome (own path changes) op

section Summarizes

variable {changes : List (String × WatchedChange)} {b : Batch}

theorem Collects.mem_keys (h : Collects changes b) (path : String) :
    path ∈ b.map Prod.fst ↔ path ∈ changes.map Prod.fst := by
  rw [← not_iff_not, ← Assoc.lookup_eq_none_iff_key, ← own_eq_nil]
  exact h.lookup_eq_none_iff path

/-- What is drained summarizes the events since the last drain. -/
theorem Collects.summarizes (h : Collects changes b) : Summarizes changes b.drain := by
  have hperm : b.drain.Perm b := Order.sortBy_perm Prod.fst b
  have hkeys : (b.drain.map Prod.fst).Nodup := (hperm.map _).nodup_iff.mpr h.keys
  refine ⟨?_, fun path => ?_, fun path op hmem => ?_⟩
  · have hle : (b.drain.map Prod.fst).Pairwise fun p q => Order.le p q = true :=
      List.pairwise_map.mpr (Order.pairwise_sortBy Prod.fst b)
    refine (hle.and hkeys).imp fun {p q} hpq => ?_
    exact Std.lt_of_le_of_ne (of_decide_eq_true hpq.1) hpq.2
  · rw [(hperm.map Prod.fst).mem_iff]
    exact h.mem_keys path
  · exact (h.found path op).mp (Assoc.lookup_eq_some_of_mem h.keys (hperm.mem_iff.mp hmem))

/-- Every answer summarizes its stretch of events, by induction on the calls. -/
theorem serve_of_collects (h : Collects changes b) (calls : List Call) :
    List.Forall₂ Summarizes (stretches changes calls) (serve b calls) := by
  induction calls generalizing changes b with
  | nil => exact .nil
  | cons call calls ih =>
      cases call with
      | add path op => exact ih (h.add path op)
      | drain => exact .cons h.summarizes (ih collects_nil)

end Summarizes

/-- **Batches sum up what came since the one before.**  Whenever changes are taken in and handed
over, each batch that is handed over is sorted by path and has exactly one entry for every path
with a change since the batch before, and none for other paths.  This entry depends on the changes
of its own path alone: the path is gone if it was removed last, it is new if nothing but writing
came after its last creation, and else it was written. -/
theorem summarizes_serve (calls : List Call) :
    List.Forall₂ Summarizes (stretches [] calls) (serve [] calls) :=
  serve_of_collects collects_nil calls

example : serve [] [.add "b" .created, .add "a" .written, .add "b" .written, .drain, .drain] =
    [[("a", .written), ("b", .created)], []] := by cbv

end Batch
end InstallerLint
