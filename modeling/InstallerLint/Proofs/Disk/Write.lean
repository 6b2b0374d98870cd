import InstallerLint.Proofs.Disk.Place
import InstallerLint.Proofs.Json.Number

/-!
# What writing changes

`Ends` says how an operation ends: what holds of its result and of the disk if it succeeds, and
what holds of the disk if it fails.  The operations on a name in a seated directory change what
stands under this name and nothing else (`Edits`), be it that they succeed or that the disk breaks
in the middle.

**Whole files.**  Until the new file gets its name, only files with temporary names change; once it
has its name, its content is read under it (`ends_replace`).
-/

namespace InstallerLint

namespace Disk

/-- Nothing changed but the failures to come. -/
structure Like (d d' : Disk) : Prop where
  root : d'.root = d.root
  cwd : d'.cwd = d.cwd

/-- Only what stands under some names in a directory changed, and where files stood no links or
directories came. -/
structure Edits (v : List String) (names : String → Prop) (d d' : Disk) : Prop where
  cwd : d'.cwd = d.cwd
  others : ∀ way, (∀ n, names n → ¬ v ++ [n] <+: way) → d'.root.look way = d.root.look way
  files : ∀ n, names n → (∀ e, d.root.look (v ++ [n]) = some e → e.isFile = true) →
    ∀ e, d'.root.look (v ++ [n]) = some e → e.isFile = true

/-- Under some names in a directory only files stand. -/
def OnlyFiles (d : Disk) (v : List String) (names : String → Prop) : Prop :=
  ∀ n, names n → ∀ e, d.root.look (v ++ [n]) = some e → e.isFile = true

section Edits

variable {v : List String} {names names' : String → Prop} {d d' d'' : Disk} {dir name : String}

theorem Like.refl (d : Disk) : Like d d := ⟨rfl, rfl⟩

theorem Like.trans (h : Like d d') (h' : Like d' d'') : Like d d'' :=
  ⟨h'.root.trans h.root, h'.cwd.trans h.cwd⟩

theorem Like.edits (h : Like d d') : Edits v names d d' where
  cwd := h.cwd
  others := fun way _ => by rw [h.root]
  files := fun n _ hfile => by rwa [h.root]

theorem Edits.refl (d : Disk) : Edits v names d d := (Like.refl d).edits

/-- Edits one after the other are edits. -/
theorem Edits.trans (h : Edits v names d d') (h' : Edits v names d' d'') : Edits v names d d'' where
  cwd := h'.cwd.trans h.cwd
  others := fun way hway => (h'.others way hway).trans (h.others way hway)
  files := fun n hn hfile => h'.files n hn (h.files n hn hfile)

theorem concat_prefix_concat {m n : String} (h : v ++ [m] <+: v ++ [n]) : m = n := by
  have := (List.prefix_append_right_inj v).mp h
  simpa using this

/-- Edits leave every name that is not theirs. -/
theorem Edits.other (h : Edits v names d d') {n : String} (hn : ¬ names n) :
    d'.root.look (v ++ [n]) = d.root.look (v ++ [n]) := by
  refine h.others _ fun m hm hpre => hn ?_
  rwa [← concat_prefix_concat hpre]

theorem Edits.mono (h : Edits v names d d') (hnames : ∀ n, names n → names' n) :
    Edits v names' d d' where
  cwd := h.cwd
  others := fun way hway => h.others way fun n hn => hway n (hnames n hn)
  files := by
    intro n _ hfile
    by_cases hn : names n
    · exact h.files n hn hfile
    · rw [h.other hn]
      exact hfile

/-- Edits leave everything outside their directory. -/
theorem Edits.outside (h : Edits v names d d') {way : List String} (hway : ¬ Inside v way) :
    d'.root.look way = d.root.look way := by
  refine h.others way fun n _ hpre => hway ?_
  obtain ⟨rest, rfl⟩ := hpre
  rw [List.append_assoc]
  exact inside_concat v n rest

/-- Edits leave the directory in its place. -/
theorem Edits.seated (h : Edits v names d d') (hseat : d.Seated dir v) : d'.Seated dir v :=
  hseat.congr h.cwd fun _ hway => h.outside hway

/-- A directory has the same place on a disk with the same files. -/
theorem Like.seated (h : Like d d') (hseat : d.Seated dir v) : d'.Seated dir v :=
  hseat.congr h.cwd fun _ _ => by rw [h.root]

theorem Like.onlyFiles (h : Like d d') (hfiles : d.OnlyFiles v names) : d'.OnlyFiles v names := by
  intro n hn e he
  rw [h.root] at he
  exact hfiles n hn e he

theorem OnlyFiles.no_link (h : d.OnlyFiles v names) (hname : names name) (target : String) :
    d.root.look (v ++ [name]) ≠ some (.link target) := by
  intro hlink
  cases h name hname _ hlink

theorem look_put_name (hdir : d.root.look v = some (.dir [])) (e : Entry) :
    (d.root.put (v ++ [name]) e).look (v ++ [name]) = some e.face := by
  have hput : (d.root.put (v ++ [name]) e).look (v ++ [name] ++ []) = e.look [] :=
    Entry.look_put_append e [] (by simp) (by simpa using hdir)
  rwa [List.append_nil] at hput

theorem look_erase_name (root : Entry) :
    (root.erase (v ++ [name])).look (v ++ [name]) = none := by
  have herase : (root.erase (v ++ [name])).look (v ++ [name] ++ []) = none :=
    Entry.look_erase_append [] (by simp)
  rwa [List.append_nil] at herase

/-- Setting a file under a name. -/
theorem edits_put (name : String) (hdir : d.root.look v = some (.dir [])) (content : Bytes)
    (time : Int) :
    Edits v (· = name) d { d with root := d.root.put (v ++ [name]) (.file content time) } where
  cwd := rfl
  others := fun way hway => Entry.look_put_of_not_prefix _ (hway name rfl)
  files := by
    rintro n rfl - e he
    rw [look_put_name hdir] at he
    cases he
    rfl

/-- Taking away what stands under a name. -/
theorem edits_erase (d : Disk) (v : List String) (name : String) :
    Edits v (· = name) d { d with root := d.root.erase (v ++ [name]) } where
  cwd := rfl
  others := fun way hway => Entry.look_erase_of_not_prefix (hway name rfl)
  files := by
    rintro n rfl - e he
    rw [look_erase_name] at he
    cases he

end Edits

end Disk

namespace DiskM

open Disk

variable {α β : Type}

/-- How an operation ends: what holds if it succeeds, and what holds if it fails. -/
structure Ends (act : DiskM α) (d : Disk) (good : α → Disk → Prop) (bad : Disk → Prop) : Prop where
  outcome : match act d with
    | .ok a d' => good a d'
    | .error _ d' => bad d'

section Logic

variable {act : DiskM α} {d : Disk} {good good' : α → Disk → Prop} {bad bad' : Disk → Prop}

theorem ends_pure {a : α} (h : good a d) : Ends (pure a) d good bad := ⟨h⟩

theorem ends_throw {e : DiskError} (h : bad d) : Ends (throw e : DiskM α) d good bad := ⟨h⟩

theorem Ends.of_ok (h : Ends act d good bad) {a : α} {d' : Disk} (hrun : act d = .ok a d') :
    good a d' := by
  have hgood := h.outcome
  rwa [hrun] at hgood

theorem Ends.mono (h : Ends act d good bad) (hgood : ∀ a d', good a d' → good' a d')
    (hbad : ∀ d', bad d' → bad' d') : Ends act d good' bad' := by
  obtain ⟨h⟩ := h
  constructor
  split at h
  · exact hgood _ _ h
  · exact hbad _ h

theorem Ends.bind {next : α → DiskM β} {final : β → Disk → Prop} (h : Ends act d good bad)
    (hnext : ∀ a d', good a d' → Ends (next a) d' final bad) :
    Ends (act >>= next) d final bad := by
  obtain ⟨h⟩ := h
  constructor
  show match EStateM.bind act next d with
    | .ok a d' => final a d'
    | .error _ d' => bad d'
  unfold EStateM.bind
  cases hact : act d with
  | ok a d' =>
      rw [hact] at h
      exact (hnext a d' h).outcome
  | error e d' =>
      rw [hact] at h
      exact h

theorem Ends.tryCatch {handle : DiskError → DiskM α} (h : Ends act d good bad)
    (hhandle : ∀ e d', bad d' → Ends (handle e) d' good bad') :
    Ends (MonadExcept.tryCatch act handle) d good bad' := by
  obtain ⟨h⟩ := h
  constructor
  simp only [MonadExcept.tryCatch, tryCatchThe, MonadExceptOf.tryCatch, EStateM.tryCatch]
  cases hact : act d with
  | ok a d' =>
      rw [hact] at h
      exact h
  | error e d' =>
      rw [hact] at h
      exact (hhandle e d' h).outcome

theorem ends_attempt (operation path : String) (d : Disk) :
    Ends (attempt operation path) d (fun _ d' => Like d d') (Like d) := by
  constructor
  unfold attempt
  cases d.failures with
  | nil => exact Like.refl d
  | cons b rest => cases b <;> exact ⟨rfl, rfl⟩

theorem ends_ofExcept {r : Except DiskError α} (h : ∀ a, r = .ok a → good a d) (hbad : bad d) :
    Ends (ofExcept r) d good bad := by
  cases r with
  | ok a => exact ends_pure (h a rfl)
  | error e => exact ends_throw hbad

theorem ends_throw_then {e : DiskError} {next : α → DiskM β} {final : β → Disk → Prop}
    (h : bad d) : Ends ((throw e : DiskM α) >>= next) d final bad := ⟨h⟩

theorem ends_get_then {next : Disk → DiskM α} (h : Ends (next d) d good bad) :
    Ends (get >>= next) d good bad := ⟨h.outcome⟩

/-- An operation that the disk itself may refuse first. -/
theorem ends_attempt_then (operation path : String) {next : DiskM α}
    (hbad : ∀ d', Like d d' → bad d') (hnext : ∀ d', Like d d' → Ends next d' good bad) :
    Ends (do attempt operation path; next) d good bad := by
  refine ((ends_attempt operation path d).mono (fun _ _ h => h) hbad).bind fun _ d' h => ?_
  exact hnext d' h

end Logic

section Names

variable {d : Disk} {dir name : String} {v : List String}

theorem way_of_ok {last : Bool} {w : List String} (hseat : d.Seated dir v)
    (hname : Path.Proper name) (hfiles : d.OnlyFiles v (· = name))
    (h : d.way last (Path.join [dir, name]) = .ok w) : w = v ++ [name] := by
  rcases hseat.way_name hname (hfiles.no_link rfl) last with hway | hway
  · rw [hway] at h
    cases h
  · rw [hway] at h
    cases h
    rfl

theorem get?_of_find {last : Bool} {e : Entry} (hseat : d.Seated dir v) (hname : Path.Proper name)
    (hfiles : d.OnlyFiles v (· = name)) (h : d.find last (Path.join [dir, name]) = .ok e) :
    d.root.get? (v ++ [name]) = some e := by
  obtain ⟨w, hway, he⟩ := exists_way_of_find h
  rwa [way_of_ok hseat hname hfiles hway] at he

theorem ok_of_explain {operation path : String} {r : Except DiskReason α} {a : α}
    (h : explain operation path r = .ok a) : r = .ok a := by
  cases r with
  | error e => cases h
  | ok b =>
      cases h
      rfl

theorem ends_wayTo (operation : String) (hseat : d.Seated dir v) (hname : Path.Proper name)
    (hfiles : d.OnlyFiles v (· = name)) :
    Ends (wayTo operation (Path.join [dir, name])) d (fun w d' => w = v ++ [name] ∧ d' = d)
      (· = d) := by
  refine ends_get_then (ends_ofExcept (fun w hw => ⟨?_, rfl⟩) rfl)
  exact way_of_ok hseat hname hfiles (ok_of_explain hw)

/-- A file in a seated directory is read as it stands. -/
theorem ends_read (hseat : d.Seated dir v) (hname : Path.Proper name)
    (hfiles : d.OnlyFiles v (· = name)) :
    Ends (read (Path.join [dir, name])) d
      (fun content d' => Like d d' ∧ ∃ time, d.root.look (v ++ [name]) = some (.file content time))
      (Like d) := by
  refine ends_attempt_then _ _ (fun _ h => h) fun d' hlike => ?_
  refine ends_get_then (ends_ofExcept (fun content hread => ⟨hlike, ?_⟩) hlike)
  unfold Disk.read at hread
  split at hread
  · cases hread
  · rename_i content' time hfind
    cases hread
    refine ⟨time, ?_⟩
    rw [Entry.look, ← hlike.root, get?_of_find (hlike.seated hseat) hname (hlike.onlyFiles hfiles) hfind]
    rfl
  · cases hread

/-- Writing to a name in a seated directory. -/
theorem ends_write (content : Bytes) (hseat : d.Seated dir v) (hname : Path.Proper name)
    (hfiles : d.OnlyFiles v (· = name)) :
    Ends (write (Path.join [dir, name]) content) d
      (fun _ d' => Edits v (· = name) d d' ∧
        ∃ time, d'.root.look (v ++ [name]) = some (.file content time))
      (Like d) := by
  refine ends_attempt_then _ _ (fun _ h => h) fun d' hlike => ?_
  have hseat' := hlike.seated hseat
  refine ends_get_then ?_
  split
  · exact ends_throw hlike
  · rename_i w hway
    obtain rfl := way_of_ok hseat' hname (hlike.onlyFiles hfiles) hway
    split
    · exact ends_throw hlike
    · refine ⟨hlike.edits.trans (edits_put _ hseat'.look_eq content d'.now), d'.now, ?_⟩
      exact look_put_name hseat'.look_eq _

/-- Taking away a name in a seated directory. -/
theorem ends_remove (hseat : d.Seated dir v) (hname : Path.Proper name)
    (hfiles : d.OnlyFiles v (· = name)) :
    Ends (remove (Path.join [dir, name])) d
      (fun _ d' => Edits v (· = name) d d' ∧ d'.root.look (v ++ [name]) = none) (Like d) := by
  refine ends_attempt_then _ _ (fun _ h => h) fun d' hlike => ?_
  have hfind : Ends (ofExcept (explain "remove" (Path.join [dir, name])
      (d'.find false (Path.join [dir, name])))) d' (fun _ d'' => d'' = d') (Like d) :=
    ends_ofExcept (fun _ _ => rfl) hlike
  refine ends_get_then (hfind.bind ?_)
  rintro e _ rfl
  refine ((ends_wayTo "remove" (hlike.seated hseat) hname (hlike.onlyFiles hfiles)).mono
    (fun _ _ h => h) fun _ h => h ▸ hlike).bind ?_
  rintro w _ ⟨rfl, rfl⟩
  split_ifs
  · exact ⟨hlike.edits.trans (edits_erase _ _ _), look_erase_name _⟩
  · exact ends_throw hlike

end Names

section Whole

variable {d : Disk} {dir name old new : String} {v : List String}

/-- Giving a file in a seated directory another name there: it is found under the new one, and only
there. -/
theorem ends_rename (hseat : d.Seated dir v) (hold : Path.Proper old) (hnew : Path.Proper new)
    (hfiles : d.OnlyFiles v fun n => n = old ∨ n = new) :
    Ends (rename (Path.join [dir, old]) (Path.join [dir, new])) d
      (fun _ d' => Edits v (fun n => n = old ∨ n = new) d d' ∧
        d'.root.look (v ++ [new]) = d.root.look (v ++ [old]) ∧
        (∀ content time, d.root.look (v ++ [old]) = some (.file content time) →
          d'.read (Path.join [dir, new]) = .ok content) ∧
        (old ≠ new → d'.root.look (v ++ [old]) = none))
      (Like d) := by
  refine ends_attempt_then _ _ (fun _ h => h) fun d' hlike => ?_
  have hseat' := hlike.seated hseat
  have hfilesOld : d'.OnlyFiles v (· = old) :=
    fun n hn => hlike.onlyFiles hfiles n (Or.inl hn)
  have hfilesNew : d'.OnlyFiles v (· = new) :=
    fun n hn => hlike.onlyFiles hfiles n (Or.inr hn)
  have hlook : ∀ {way e}, d'.root.get? way = some e → d.root.look way = some e.face := by
    intro way e he
    rw [← hlike.root, Entry.look, he]
    rfl
  have hfind : Ends (ofExcept (explain "rename" (Path.join [dir, old] ++ " " ++ Path.join [dir, new])
      (d'.find false (Path.join [dir, old])))) d'
      (fun e d'' => d'' = d' ∧ d'.root.get? (v ++ [old]) = some e) (Like d) := by
    refine ends_ofExcept (fun e he => ⟨rfl, ?_⟩) hlike
    exact get?_of_find hseat' hold hfilesOld (ok_of_explain he)
  have hway : ∀ {n}, Path.Proper n → d'.OnlyFiles v (· = n) →
      Ends (ofExcept (explain "rename" (Path.join [dir, old] ++ " " ++ Path.join [dir, new])
        (d'.way false (Path.join [dir, n])))) d'
        (fun w d'' => d'' = d' ∧ w = v ++ [n] ∧ d'.way false (Path.join [dir, n]) = .ok w)
        (Like d) := by
    intro n hn hfiles
    refine ends_ofExcept (fun w hw => ⟨rfl, ?_, ok_of_explain hw⟩) hlike
    exact way_of_ok hseat' hn hfiles (ok_of_explain hw)
  refine ends_get_then (hfind.bind ?_)
  rintro source d₁ ⟨rfl, hsource⟩
  refine (hway hold hfilesOld).bind ?_
  rintro w d₂ ⟨rfl, rfl, hfound⟩
  refine (hway hnew hfilesNew).bind ?_
  rintro w' d₃ ⟨rfl, rfl, -⟩
  split_ifs
  · exact ends_throw_then hlike
  have hface := hlook hsource
  cases source with
  | dir es => cases hfiles old (Or.inl rfl) _ hface
  | link target => cases hfiles old (Or.inl rfl) _ hface
  | file content time =>
      have herase := edits_erase d₃ v old
      have hseat₄ := herase.seated hseat'
      have hput := edits_put new hseat₄.look_eq content time
      have hedits := (herase.mono fun n => Or.inl).trans (hput.mono fun n => Or.inr)
      refine ⟨hlike.edits.trans hedits, ?_, fun content' time' hcontent => ?_, fun hne => ?_⟩
      · rw [hface]
        exact look_put_name hseat₄.look_eq _
      · rw [hface] at hcontent
        obtain ⟨rfl, rfl⟩ := Entry.file.inj (Option.some.inj hcontent)
        refine hseat'.read_of_found hold hnew hfound (by rw [hlike.root, hface]; rfl) hedits.cwd
          (fun way hin => hedits.outside hin) (look_put_name hseat₄.look_eq _)
      · rw [hput.other hne]
        exact look_erase_name _

/-- The number that makes a name new does not matter for what follows. -/
theorem freshName_eq (stem : String) (taken : List String) (fuel number : Nat) :
    ∃ k : Nat, freshName stem taken fuel number = stem ++ toString k := by
  induction fuel generalizing number with
  | zero => exact ⟨number, rfl⟩
  | succ fuel ih =>
      unfold freshName
      dsimp only
      split_ifs
      · exact ih (number + 1)
      · exact ⟨number, rfl⟩

/-- A new file in a seated directory. -/
theorem ends_createTemp (stem : String) (hseat : d.Seated dir v)
    (hproper : ∀ k : Nat, Path.Proper (stem ++ toString k))
    (hfiles : ∀ k : Nat, d.OnlyFiles v (· = stem ++ toString k)) :
    Ends (createTemp dir stem) d
      (fun path d' => ∃ k : Nat, path = Path.join [dir, stem ++ toString k] ∧
        Edits v (· = stem ++ toString k) d d')
      (Like d) := by
  obtain ⟨k, hk⟩ := freshName_eq stem (d.names dir) ((d.names dir).length + 1) 1
  unfold createTemp
  refine ends_get_then ?_
  rw [hk]
  refine ends_attempt_then _ _ (fun _ h => h) fun d' hlike => ?_
  have hmake : Ends (do
      setEntry (← wayTo "open" (Path.join [dir, stem ++ toString k])) (.file [] d.now)
      pure (Path.join [dir, stem ++ toString k])) d'
      (fun path d' => ∃ k : Nat, path = Path.join [dir, stem ++ toString k] ∧
        Edits v (· = stem ++ toString k) d d') (Like d) := by
    refine ((ends_wayTo "open" (hlike.seated hseat) (hproper k)
      (hlike.onlyFiles (hfiles k))).mono (fun _ _ h => h) fun _ h => h ▸ hlike).bind ?_
    rintro w _ ⟨rfl, rfl⟩
    exact ⟨k, rfl, hlike.edits.trans (edits_put _ (hlike.seated hseat).look_eq [] d.now)⟩
  dsimp only
  split
  · exact ends_throw_then hlike
  · split_ifs
    · exact hmake
    · exact ends_throw_then hlike

/-- Trying to take away a file in a seated directory. -/
theorem ends_discard (hseat : d.Seated dir v) (hname : Path.Proper name)
    (hfiles : d.OnlyFiles v (· = name)) :
    Ends (discard (Path.join [dir, name])) d (fun _ d' => Edits v (· = name) d d')
      fun _ => False := by
  refine ((ends_remove hseat hname hfiles).mono (fun _ _ h => h.1) fun _ h => h).tryCatch ?_
  exact fun _ d' hlike => ends_pure (Like.edits hlike)

/-- A step on a file that goes when the step fails. -/
theorem ends_onTemp {step : DiskM Unit} {good : Unit → Disk → Prop} (hseat : d.Seated dir v)
    (hname : Path.Proper name) (hfiles : d.OnlyFiles v (· = name))
    (h : Ends step d good (Like d)) :
    Ends (onTemp (Path.join [dir, name]) step) d good (Edits v (· = name) d) := by
  refine h.tryCatch fun e d' hlike => ?_
  refine ((ends_discard (Like.seated hlike hseat) hname (Like.onlyFiles hlike hfiles)).mono
    (fun _ _ h => h) fun _ h => h.elim).bind fun _ d'' hedits => ?_
  exact ends_throw (hlike.edits.trans hedits)

/-- The names of new files that are not finished. -/
def Temporary (name : String) : Prop := ".tmp-".toList <+: name.toList

theorem toList_temp (name : String) (k : Nat) :
    (".tmp-" ++ name ++ "-" ++ toString k).toList =
      ".tmp-".toList ++ (name.toList ++ '-' :: (toString k).toList) := by
  simp [String.toList_append]

theorem temporary_temp (name : String) (k : Nat) :
    Temporary (".tmp-" ++ name ++ "-" ++ toString k) := by
  unfold Temporary
  rw [toList_temp]
  exact List.prefix_append _ _

theorem proper_temp (hname : Path.Proper name) (k : Nat) :
    Path.Proper (".tmp-" ++ name ++ "-" ++ toString k) := by
  have hlist := toList_temp name k
  have hne : ∀ s : String, s.toList.length < 5 → ".tmp-" ++ name ++ "-" ++ toString k ≠ s := by
    rintro s hs rfl
    rw [hlist, List.length_append, show ".tmp-".toList.length = 5 from rfl] at hs
    omega
  refine ⟨hne _ (by decide), hne _ (by decide), hne _ (by decide), ?_⟩
  rw [hlist]
  intro hmem
  simp only [List.mem_append, List.mem_cons] at hmem
  rcases hmem with hmem | hmem | hmem | hmem
  · exact absurd hmem (by decide)
  · exact hname.no_slash hmem
  · exact absurd hmem (by decide)
  · rw [Json.toList_toString] at hmem
    exact absurd (Json.isDigit_of_mem hmem) (by decide)

/-- A new file gets its content and then its name. -/
theorem ends_fill {temp : String} (content : Bytes) (hseat : d.Seated dir v)
    (htemp : Path.Proper temp) (hname : Path.Proper name)
    (hfiles : d.OnlyFiles v fun n => n = temp ∨ n = name) :
    Ends (do
        onTemp (Path.join [dir, temp]) (write (Path.join [dir, temp]) content)
        onTemp (Path.join [dir, temp]) (attempt "sync" (Path.join [dir, temp]))
        onTemp (Path.join [dir, temp]) (attempt "close" (Path.join [dir, temp]))
        rename (Path.join [dir, temp]) (Path.join [dir, name])) d
      (fun _ d' => Edits v (fun n => n = temp ∨ n = name) d d' ∧
        (∃ time, d'.root.look (v ++ [name]) = some (.file content time)) ∧
        d'.read (Path.join [dir, name]) = .ok content ∧
        (temp ≠ name → d'.root.look (v ++ [temp]) = none))
      (Edits v (· = temp) d) := by
  have hone : ∀ {d'}, Edits v (· = temp) d d' → d'.OnlyFiles v (· = temp) :=
    fun h n hn => h.files n hn (hfiles n (Or.inl hn))
  have hwrite := ends_onTemp hseat htemp (hone (Edits.refl d))
    (ends_write content hseat htemp (hone (Edits.refl d)))
  refine hwrite.bind ?_
  rintro ⟨⟩ d₁ ⟨h₁, time, hlook⟩
  have hsync := ends_onTemp (h₁.seated hseat) htemp (hone h₁)
    (ends_attempt "sync" (Path.join [dir, temp]) d₁)
  refine (hsync.mono (fun _ _ h => h) fun _ h => h₁.trans h).bind ?_
  rintro ⟨⟩ d₂ hlike₂
  have h₂ := h₁.trans hlike₂.edits
  have hclose := ends_onTemp (h₂.seated hseat) htemp (hone h₂)
    (ends_attempt "close" (Path.join [dir, temp]) d₂)
  refine (hclose.mono (fun _ _ h => h) fun _ h => h₂.trans h).bind ?_
  rintro ⟨⟩ d₃ hlike₃
  have h₃ := h₂.trans hlike₃.edits
  have hall : Edits v (fun n => n = temp ∨ n = name) d d₃ := h₃.mono fun n => Or.inl
  have hrename := ends_rename (h₃.seated hseat) htemp hname
    fun n hn => hall.files n hn (hfiles n hn)
  refine hrename.mono ?_ fun _ h => h₃.trans h.edits
  rintro - d₄ ⟨h₄, hmoved, hread, hgone⟩
  have hfile : d₃.root.look (v ++ [temp]) = some (.file content time) := by
    rw [hlike₃.root, hlike₂.root, hlook]
  exact ⟨hall.trans h₄, ⟨time, hmoved.trans hfile⟩, hread content time hfile, hgone⟩

/-- A file in a seated directory is replaced as a whole and read back, and nothing else came; or
only temporary files change. -/
theorem ends_replace (content : Bytes) (hseat : d.Seated dir v) (hname : Path.Proper name)
    (hfiles : d.OnlyFiles v fun n => Temporary n ∨ n = name) :
    Ends (do
        let temp ← createTemp dir (".tmp-" ++ name ++ "-")
        onTemp temp (write temp content)
        onTemp temp (attempt "sync" temp)
        onTemp temp (attempt "close" temp)
        rename temp (Path.join [dir, name])) d
      (fun _ d' => Edits v (fun n => Temporary n ∨ n = name) d d' ∧
        (∃ time, d'.root.look (v ++ [name]) = some (.file content time)) ∧
        d'.read (Path.join [dir, name]) = .ok content ∧
        ∀ n, n ≠ name → d'.root.look (v ++ [n]) = d.root.look (v ++ [n]) ∨
          d'.root.look (v ++ [n]) = none)
      (Edits v Temporary d) := by
  have hcreate := ends_createTemp (".tmp-" ++ name ++ "-") hseat (proper_temp hname)
    fun k n hn => hfiles n (Or.inl (hn ▸ temporary_temp name k))
  refine (hcreate.mono (fun _ _ h => h) fun _ h => h.edits).bind ?_
  rintro temp d₁ ⟨k, rfl, h₁⟩
  have hproper := proper_temp hname k
  have htemp := temporary_temp name k
  generalize ".tmp-" ++ name ++ "-" ++ toString k = temp at h₁ hproper htemp ⊢
  have hd₁ : Edits v Temporary d d₁ := h₁.mono fun n hn => hn ▸ htemp
  have hall : Edits v (fun n => Temporary n ∨ n = name) d d₁ := hd₁.mono fun n => Or.inl
  have hnames : ∀ n, n = temp ∨ n = name → Temporary n ∨ n = name :=
    fun n hn => hn.imp_left fun (h : n = temp) => h ▸ htemp
  refine (ends_fill content (h₁.seated hseat) hproper hname
    fun n hn => hall.files n (hnames n hn) (hfiles n (hnames n hn))).mono ?_ ?_
  · rintro - d' ⟨hedits, hfile, hread, hgone⟩
    refine ⟨hall.trans (hedits.mono hnames), hfile, hread, fun n hn => ?_⟩
    by_cases hn' : n = temp
    · exact .inr (hn' ▸ hgone (hn' ▸ hn))
    · exact .inl ((hedits.other (not_or.mpr ⟨hn', hn⟩)).trans (h₁.other hn'))
  · exact fun d' h => hd₁.trans (h.mono fun n hn => hn ▸ htemp)

end Whole

end DiskM

end InstallerLint
