import InstallerLint.Proofs.Disk.Write

/-!
# The clock of a disk

No operation on a disk moves its clock, be it that it succeeds or fails.
-/

namespace InstallerLint

namespace DiskM

open Disk

variable {α β : Type} {t : Int} {act : DiskM α}

/-- An operation that leaves the clock at a time. -/
def Timeless (t : Int) (act : DiskM α) : Prop :=
  ∀ d, d.now = t → Ends act d (fun _ d' => d'.now = t) fun d' => d'.now = t

section Logic

/-- What does nothing takes no time. -/
theorem timeless_pure (a : α) : Timeless t (pure a : DiskM α) := fun _ hd => ends_pure hd

theorem timeless_throw (e : DiskError) : Timeless t (throw e : DiskM α) := fun _ hd => ends_throw hd

/-- Steps that take no time, one after the other, take none. -/
theorem Timeless.bind {next : α → DiskM β} (h : Timeless t act) (hnext : ∀ a, Timeless t (next a)) :
    Timeless t (act >>= next) :=
  fun d hd => (h d hd).bind fun a d' hd' => hnext a d' hd'

/-- Looking at the disk takes no time. -/
theorem timeless_get_then {next : Disk → DiskM α}
    (h : ∀ d, d.now = t → Timeless t (next d)) : Timeless t (get >>= next) :=
  fun d hd => ends_get_then (h d hd d hd)

theorem timeless_set {d : Disk} (h : d.now = t) : Timeless t (set d : DiskM Unit) :=
  fun _ _ => ⟨h⟩

theorem timeless_ofExcept (r : Except DiskError α) : Timeless t (ofExcept r) :=
  fun _ hd => ends_ofExcept (fun _ _ => hd) hd

theorem Timeless.tryCatch {handle : DiskError → DiskM α} (h : Timeless t act)
    (hhandle : ∀ e, Timeless t (handle e)) : Timeless t (MonadExcept.tryCatch act handle) :=
  fun d hd => (h d hd).tryCatch fun e d' hd' => hhandle e d' hd'

/-- An operation that may fail takes no time, whether it does or not. -/
theorem timeless_attempt (operation path : String) : Timeless t (attempt operation path) := by
  intro d hd
  constructor
  unfold attempt
  cases d.failures with
  | nil => exact hd
  | cons b rest => cases b <;> exact hd

end Logic

section Operations

theorem timeless_setEntry (way : List String) (e : Entry) : Timeless t (setEntry way e) :=
  fun _ hd => ⟨hd⟩

/-- Finding the way to a path takes no time. -/
theorem timeless_wayTo (operation path : String) : Timeless t (wayTo operation path) :=
  timeless_get_then fun _ _ => timeless_ofExcept _

/-- Reading a file takes no time. -/
theorem timeless_read (path : String) : Timeless t (read path) :=
  (timeless_attempt _ _).bind fun _ => timeless_get_then fun _ _ => timeless_ofExcept _

theorem timeless_makeDir (path : String) : Timeless t (makeDir path) := by
  refine timeless_get_then fun d _ => ?_
  cases d.find true path with
  | ok e =>
      dsimp only
      split_ifs
      · exact timeless_pure _
      · exact timeless_throw _
  | error r =>
      cases r with
      | notFound =>
          refine (timeless_attempt _ _).bind fun _ => (timeless_wayTo _ _).bind fun w =>
            timeless_get_then fun d' _ => ?_
          split_ifs
          · exact (timeless_throw _).bind fun _ => timeless_setEntry w (.dir [])
          · exact timeless_setEntry w (.dir [])
      | _ => exact timeless_throw _

/-- Making a directory with those above it takes no time. -/
theorem timeless_makeDirs (path : String) : Timeless t (makeDirs path) := by
  have heach : ∀ l : List String, Timeless t (makeEach l) := by
    intro l
    induction l with
    | nil => exact timeless_pure ()
    | cons p l ih => exact (timeless_makeDir p).bind fun _ => ih
  exact heach (stages path)

/-- Writing a file takes no time; the file gets the time of the clock. -/
theorem timeless_write (path : String) (content : Bytes) : Timeless t (write path content) := by
  refine (timeless_attempt _ _).bind fun _ => timeless_get_then fun d _ => ?_
  split
  · exact timeless_throw _
  · split
    · exact timeless_throw _
    · exact timeless_setEntry _ _

/-- Making a temporary file takes no time. -/
theorem timeless_createTemp (dir stem : String) : Timeless t (createTemp dir stem) := by
  refine timeless_get_then fun d _ => (timeless_attempt _ _).bind fun _ => ?_
  have hmake : ∀ path, Timeless t (do
      setEntry (← wayTo "open" path) (.file [] d.now)
      return path) := fun path =>
    (timeless_wayTo _ _).bind fun _ => (timeless_setEntry _ _).bind fun _ => timeless_pure _
  split
  · exact (timeless_throw _).bind fun _ => hmake _
  · split_ifs
    · exact (timeless_pure _).bind fun _ => hmake _
    · exact (timeless_throw _).bind fun _ => hmake _

/-- Renaming takes no time. -/
theorem timeless_rename (old new : String) : Timeless t (rename old new) := by
  refine (timeless_attempt _ _).bind fun _ => timeless_get_then fun d hd => ?_
  refine (timeless_ofExcept _).bind fun source => (timeless_ofExcept _).bind fun from_ =>
    (timeless_ofExcept _).bind fun target => ?_
  split_ifs
  · exact (timeless_throw _).bind fun _ => timeless_set hd
  · exact timeless_set hd

theorem timeless_remove (path : String) : Timeless t (remove path) := by
  refine (timeless_attempt _ _).bind fun _ => timeless_get_then fun d hd => ?_
  refine (timeless_ofExcept _).bind fun e => (timeless_wayTo _ _).bind fun w => ?_
  split_ifs
  · exact timeless_set hd
  · exact timeless_throw _

/-- Taking away a directory with what is in it takes no time. -/
theorem timeless_removeAll (path : String) : Timeless t (removeAll path) := by
  refine (timeless_attempt _ _).bind fun _ => timeless_get_then fun d hd => ?_
  split
  · exact timeless_set hd
  · exact timeless_pure _

/-- A step on a temporary file that is taken away when the step fails. -/
theorem timeless_onTemp (temp : String) {step : DiskM Unit} (h : Timeless t step) :
    Timeless t (onTemp temp step) := by
  refine h.tryCatch fun e => ?_
  exact ((timeless_remove temp).tryCatch fun _ => timeless_pure _).bind fun _ => timeless_throw _

/-- Writing a file as a whole takes no time. -/
theorem timeless_writeWhole (dir name : String) (content : Bytes) :
    Timeless t (writeWhole dir name content) := by
  refine (timeless_makeDirs dir).bind fun _ => (timeless_createTemp _ _).bind fun temp => ?_
  refine (timeless_onTemp _ (timeless_write _ _)).bind fun _ => ?_
  refine (timeless_onTemp _ (timeless_attempt _ _)).bind fun _ => ?_
  exact (timeless_onTemp _ (timeless_attempt _ _)).bind fun _ => timeless_rename _ _

end Operations

end DiskM

end InstallerLint
