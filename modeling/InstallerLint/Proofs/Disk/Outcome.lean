import InstallerLint.Proofs.Disk.Write

/-!
# Which error an operation ends with

`Runs` says how an operation ends as `Ends` does, and of a failure also what holds of its error.  What
`Ends` says of a run is taken over (`Ends.runs`), and two statements about one run are put together
(`Runs.and`).

**Failures to come.**  Every operation on the disk uses up one failure to come at most, and it breaks
exactly when this says so (`runs_attempt`).  So an operation that is done in steps of one name leaves the
later failures to come, and its error has this name (`Named`).
-/

namespace InstallerLint

namespace Disk

/-- Nothing changed but that failures which were to come are over. -/
structure Later (d d' : Disk) : Prop extends Like d d' where
  failures : d'.failures <:+ d.failures

end Disk

namespace DiskM

open Disk

variable {α β : Type}

/-- How an operation ends: what holds of its result if it succeeds, and of its error if it fails. -/
structure Runs (act : DiskM α) (d : Disk) (good : α → Disk → Prop) (bad : DiskError → Disk → Prop) :
    Prop where
  outcome : match act d with
    | .ok a d' => good a d'
    | .error e d' => bad e d'

section Logic

variable {act : DiskM α} {d : Disk} {good good' : α → Disk → Prop}
  {bad bad' : DiskError → Disk → Prop}

theorem runs_pure {a : α} (h : good a d) : Runs (pure a) d good bad := ⟨h⟩

theorem runs_throw {e : DiskError} (h : bad e d) : Runs (throw e : DiskM α) d good bad := ⟨h⟩

/-- An action that first looks at the disk. -/
theorem runs_get_then {next : Disk → DiskM α} (h : Runs (next d) d good bad) :
    Runs (get >>= next) d good bad := ⟨h.outcome⟩

/-- An action ends in one of two ways. -/
theorem Runs.ok_or_error (h : Runs act d good bad) :
    (∃ a d', act d = .ok a d' ∧ good a d') ∨ ∃ e d', act d = .error e d' ∧ bad e d' := by
  obtain ⟨h⟩ := h
  cases hact : act d with
  | ok a d' =>
      rw [hact] at h
      exact .inl ⟨a, d', rfl, h⟩
  | error e d' =>
      rw [hact] at h
      exact .inr ⟨e, d', rfl, h⟩

/-- What an action is said to do may be weakened. -/
theorem Runs.mono (h : Runs act d good bad) (hgood : ∀ a d', good a d' → good' a d')
    (hbad : ∀ e d', bad e d' → bad' e d') : Runs act d good' bad' := by
  obtain ⟨h⟩ := h
  constructor
  split at h
  · exact hgood _ _ h
  · exact hbad _ _ h

/-- Two things that are said of one action hold together. -/
theorem Runs.and (h : Runs act d good bad) (h' : Runs act d good' bad') :
    Runs act d (fun a d' => good a d' ∧ good' a d') fun e d' => bad e d' ∧ bad' e d' := by
  obtain ⟨h⟩ := h
  obtain ⟨h'⟩ := h'
  constructor
  cases hact : act d with
  | ok a d' =>
      rw [hact] at h h'
      exact ⟨h, h'⟩
  | error e d' =>
      rw [hact] at h h'
      exact ⟨h, h'⟩

/-- What is said of the disk alone is a case of what is said of errors too. -/
theorem Ends.runs {bad : Disk → Prop} (h : Ends act d good bad) : Runs act d good fun _ => bad :=
  ⟨h.outcome⟩

/-- One action after the other: the second starts where the first one ended. -/
theorem Runs.bind {next : α → DiskM β} {final : β → Disk → Prop} (h : Runs act d good bad)
    (hnext : ∀ a d', good a d' → Runs (next a) d' final bad) : Runs (act >>= next) d final bad := by
  obtain ⟨h⟩ := h
  constructor
  show match EStateM.bind act next d with
    | .ok a d' => final a d'
    | .error e d' => bad e d'
  unfold EStateM.bind
  cases hact : act d with
  | ok a d' =>
      rw [hact] at h
      exact (hnext a d' h).outcome
  | error e d' =>
      rw [hact] at h
      exact h

/-- An action whose errors are handled. -/
theorem Runs.tryCatch {handle : DiskError → DiskM α} (h : Runs act d good bad)
    (hhandle : ∀ e d', bad e d' → Runs (handle e) d' good bad') :
    Runs (MonadExcept.tryCatch act handle) d good bad' := by
  obtain ⟨h⟩ := h
  constructor
  simp only [MonadExcept.tryCatch, tryCatchThe, MonadExceptOf.tryCatch, EStateM.tryCatch]
  cases hact : act d with
  | ok a d' =>
      rw [hact] at h
      exact h
  | error e d' =>
      rw [hact] at h
      exact (hhandle e d' h).outcome

theorem runs_ok_then {a : α} {next : α → DiskM β} {good : β → Disk → Prop}
    (h : Runs (next a) d good bad) : Runs (ofExcept (.ok a) >>= next) d good bad := ⟨h.outcome⟩

/-- When the way to a path is known, finding it does not fail. -/
theorem runs_wayTo_then {operation path : String} {w : List String} {next : List String → DiskM α}
    (hway : d.way false path = .ok w) (h : Runs (next w) d good bad) :
    Runs (wayTo operation path >>= next) d good bad := by
  have hto : wayTo operation path d = .ok w d := by
    show ofExcept (explain operation path (d.way false path)) d = _
    rw [hway]
    rfl
  constructor
  show match EStateM.bind (wayTo operation path) next d with
    | .ok a d' => good a d'
    | .error e d' => bad e d'
  unfold EStateM.bind
  rw [hto]
  exact h.outcome

/-- The disk breaks when the next failure to come says so, and otherwise nothing is refused. -/
theorem runs_attempt (operation path : String) (d : Disk) :
    Runs (attempt operation path) d (fun _ d' => Later d d') fun e d' =>
      e.operation = operation ∧ Later d d' ∧ d.failures = true :: d'.failures := by
  constructor
  unfold attempt
  cases hfailures : d.failures with
  | nil => exact ⟨Like.refl d, List.suffix_refl _⟩
  | cons b rest =>
      cases b with
      | false => exact ⟨⟨rfl, rfl⟩, hfailures ▸ List.suffix_cons false rest⟩
      | true => exact ⟨rfl, ⟨⟨rfl, rfl⟩, hfailures ▸ List.suffix_cons true rest⟩, rfl⟩

end Logic

section Named

variable {act : DiskM α} {operation path : String}

/-- An operation whose errors have one name and which uses up failures to come from the front. -/
def Named (operation : String) (act : DiskM α) : Prop :=
  ∀ d, Runs act d (fun _ d' => d'.failures <:+ d.failures) fun e d' =>
    e.operation = operation ∧ d'.failures <:+ d.failures

theorem named_pure (a : α) : Named operation (pure a : DiskM α) :=
  fun _ => runs_pure (List.suffix_refl _)

/-- An error names the operation it is thrown with. -/
theorem named_throw (reason : DiskReason) :
    Named operation (throw ⟨operation, path, reason⟩ : DiskM α) :=
  fun _ => runs_throw ⟨rfl, List.suffix_refl _⟩

theorem named_get_then {next : Disk → DiskM α} (h : ∀ d, Named operation (next d)) :
    Named operation (get >>= next) :=
  fun d => runs_get_then (h d d)

/-- All errors of two actions, one after the other, name one operation if those of each do. -/
theorem Named.bind {next : α → DiskM β} (h : Named operation act)
    (hnext : ∀ a, Named operation (next a)) : Named operation (act >>= next) := by
  intro d
  refine ((h d).mono (fun _ _ h => h) fun _ _ h => h).bind fun a d' hd' => ?_
  exact (hnext a d').mono (fun _ _ h => h.trans hd') fun _ _ h => ⟨h.1, h.2.trans hd'⟩

/-- An operation that fails names itself. -/
theorem named_attempt : Named operation (attempt operation path) := by
  refine fun d => (runs_attempt operation path d).mono (fun _ _ h => h.failures) ?_
  rintro e d' ⟨hname, hlater, -⟩
  exact ⟨hname, hlater.failures⟩

theorem named_setEntry (way : List String) (e : Entry) : Named operation (setEntry way e) :=
  fun _ => ⟨List.suffix_refl _⟩

/-- A way that is not found is reported under the operation that looked for it. -/
theorem named_wayTo : Named operation (wayTo operation path) := by
  refine named_get_then fun d => ?_
  cases d.way false path with
  | ok w => exact named_pure w
  | error reason => exact named_throw reason

theorem named_makeDir (path : String) : Named "mkdir" (makeDir path) := by
  refine named_get_then fun d => ?_
  cases d.find true path with
  | ok e =>
      dsimp only
      split_ifs
      · exact named_pure _
      · exact named_throw _
  | error reason =>
      cases reason with
      | notFound =>
          refine named_attempt.bind fun _ => named_wayTo.bind fun w => named_get_then fun d' => ?_
          split_ifs
          · exact (named_throw _).bind fun _ => named_setEntry w (.dir [])
          · exact named_setEntry w (.dir [])
      | _ => exact named_throw _

/-- Also the directories above are made under the one name. -/
theorem named_makeDirs (path : String) : Named "mkdir" (makeDirs path) := by
  have heach : ∀ l : List String, Named "mkdir" (makeEach l) := by
    intro l
    induction l with
    | nil => exact named_pure ()
    | cons p l ih => exact (named_makeDir p).bind fun _ => ih
  exact heach (stages path)

end Named

end DiskM

end InstallerLint
