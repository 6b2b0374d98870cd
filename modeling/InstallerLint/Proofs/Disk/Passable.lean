import InstallerLint.Proofs.Disk.Directory

/-!
# When a disk does not refuse

The disk does not break when no failures are to come, and finds a way that is `Passable`.  Then a
directory is made in one that is there, and its files are read (`ends_makeDirs_passable`,
`read_passable`).
-/

namespace InstallerLint

namespace Disk

/-- The way to a path is not given up. -/
def Passable (d : Disk) (path : String) : Prop := d.way true path ≠ .error .tooManyLinks

instance (d : Disk) (path : String) : Decidable (d.Passable path) :=
  inferInstanceAs (Decidable (¬ _))

section Passable

variable {d d' : Disk} {dir name : String} {v : List String}

theorem find_of_way {last : Bool} {path : String} {w : List String} (h : d.way last path = .ok w)
    (hdir : d.root.look w = some (.dir [])) : ∃ es, d.find last path = .ok (.dir es) := by
  obtain ⟨es, hes⟩ := get?_eq_dir_of_look hdir
  refine ⟨es, ?_⟩
  simp only [find, h, bind, Except.bind, hes]
  rfl

theorem Passable.way_name (h : d.Passable (Path.join [dir, name])) (hseat : d.Seated dir v)
    (hname : Path.Proper name) (hlink : ∀ target, d.root.look (v ++ [name]) ≠ some (.link target))
    (last : Bool) : d.way last (Path.join [dir, name]) = .ok (v ++ [name]) := by
  refine (hseat.way_name hname hlink last).resolve_left fun hgive => h ?_
  exact (hseat.giveUp_iff hname hname hlink hlink rfl (fun _ _ => rfl) rfl last true).mpr hgive

/-- A directory that a path leads to is found. -/
theorem find_stage {rooted : Bool} {ps : List String} (hclean : Path.Clean rooted (ps ++ [name]))
    (h : Leads d.root.look [] (d.origin rooted ++ (ps ++ [name])) v)
    (hpass : d.Passable (Path.ofParts rooted (ps ++ [name]))) :
    ∃ es, d.find true (Path.ofParts rooted (ps ++ [name])) = .ok (.dir es) := by
  have hway : ∀ last, ∃ fuel, d.way last (Path.ofParts rooted (ps ++ [name])) =
      follow d.root last fuel linkLimit [] (d.origin rooted ++ (ps ++ [name]) ++ []) := by
    intro last
    rw [way_ofParts last hclean (by simp), List.append_nil]
    exact ⟨_, rfl⟩
  obtain ⟨fuel, hfollow⟩ := hway true
  refine find_of_way ?_ h.dir_end
  rcases follow_of_leads true h [] (.inr rfl) fuel linkLimit with hgive | ⟨fuel', links', hgo⟩
  · exact absurd (hfollow.trans hgive) hpass
  · rw [hfollow, hgo]
    cases fuel' with
    | zero => exact absurd (hfollow.trans hgo) hpass
    | succ fuel' => rfl

end Passable

end Disk

namespace DiskM

open Disk

variable {d : Disk} {dir name : String} {v : List String}

theorem ends_attempt_unbroken (h : d.failures = []) (operation path : String) :
    Ends (attempt operation path) d (fun _ d' => d' = d) fun _ => False := by
  constructor
  unfold attempt
  rw [h]

/-- Directories that are there are found. -/
theorem ends_makeDirs_found (h : Leads d.root.look [] (d.trail dir) v)
    (hpass : ∀ s ∈ stages dir, d.Passable s) :
    Ends (makeDirs dir) d (fun _ d' => d' = d) fun _ => False := by
  refine ends_makeEach (P := (· = d)) (fun s hs d' hd' => ?_) rfl
  subst hd'
  have hway := hpass s hs
  obtain ⟨ps, name, rest, hps, rfl⟩ := mem_stages hs
  obtain ⟨mid, hmid, -⟩ := h.split (p := d'.origin (Path.isAbs dir) ++ (ps ++ [name])) (q := rest)
    (by rw [trail, hps]; simp)
  obtain ⟨es, hfind⟩ := find_stage (clean_stage hps) hmid hway
  refine ends_get_then ?_
  rw [hfind]
  exact ends_pure rfl

/-- A directory in one that is there is found or made. -/
theorem ends_makeDirs_passable (hseat : d.Seated dir v) (hname : Path.Proper name)
    (hinner : ∀ e, d.root.look (v ++ [name]) = some e → e = .dir []) (hfailures : d.failures = [])
    (hpass : ∀ s ∈ stages (Path.join [dir, name]), d.Passable s) :
    Ends (makeDirs (Path.join [dir, name])) d
      (fun _ d' => d'.failures = [] ∧ (d' = d ∨ Made (v ++ [name]) d d')) fun _ => False := by
  rw [makeDirs]
  rw [stages_join hname] at hpass ⊢
  rw [makeEach_append]
  refine (ends_makeDirs_found hseat.leads fun s hs =>
    hpass s (List.mem_append_left _ hs)).bind ?_
  rintro - d' rfl
  have hlink : ∀ target, d'.root.look (v ++ [name]) ≠ some (.link target) := fun target hlink => by
    cases hinner _ hlink
  have hway := (hpass _ (List.mem_append_right _ (List.mem_singleton.mpr rfl))).way_name hseat hname
    hlink
  have hlast : Ends (makeDir (Path.join [dir, name])) d'
      (fun _ d'' => d''.failures = [] ∧ (d'' = d' ∨ Made (v ++ [name]) d' d'')) fun _ => False := by
    generalize Path.join [dir, name] = path at hway ⊢
    refine ends_get_then ?_
    cases hlook : d'.root.look (v ++ [name]) with
    | some e =>
        obtain rfl := hinner e hlook
        obtain ⟨es, hfind⟩ := find_of_way (hway true) hlook
        rw [hfind]
        exact ends_pure ⟨hfailures, .inl rfl⟩
    | none =>
        have hget : d'.root.get? (v ++ [name]) = none := Option.map_eq_none_iff.mp hlook
        have hfind : d'.find true path = .error .notFound := by
          simp only [find, hway, bind, Except.bind, hget]
          rfl
        rw [hfind]
        refine (ends_attempt_unbroken hfailures "mkdir" path).bind ?_
        rintro - d'' rfl
        have hto : Ends (wayTo "mkdir" path) d'' (fun w d' => w = v ++ [name] ∧ d' = d'')
            fun _ => False := by
          refine ends_get_then ?_
          rw [hway]
          exact ends_pure ⟨rfl, rfl⟩
        refine hto.bind ?_
        rintro w d' ⟨rfl, rfl⟩
        refine ends_get_then ?_
        rw [hget]
        exact ⟨hfailures, .inr (made_put hseat.look_eq hlook)⟩
  exact hlast.bind fun _ _ h => ends_pure h

/-- A file in a directory that is there is read if it exists, and else it is not found. -/
theorem read_passable (hseat : d.Seated dir v) (hname : Path.Proper name)
    (hfile : ∀ e, d.root.look (v ++ [name]) = some e → e.isFile = true)
    (hfailures : d.failures = []) (hpass : d.Passable (Path.join [dir, name])) :
    (∃ content, read (Path.join [dir, name]) d = .ok content d) ∨
      ∃ e, read (Path.join [dir, name]) d = .error e d ∧ e.isNotFound = true := by
  have hlink : ∀ target, d.root.look (v ++ [name]) ≠ some (.link target) := fun target hlink => by
    cases hfile _ hlink
  have hway := hpass.way_name hseat hname hlink true
  generalize Path.join [dir, name] = path at hway ⊢
  have hrun : read path d = ofExcept (d.read path) d := by
    show EStateM.bind _ _ d = _
    unfold EStateM.bind attempt
    rw [hfailures]
    rfl
  rw [hrun]
  cases hlook : d.root.look (v ++ [name]) with
  | some e =>
      cases e with
      | file content time =>
          rw [read_of_way hway hlook]
          exact .inl ⟨content, rfl⟩
      | dir es => cases hfile _ hlook
      | link target => cases hfile _ hlook
  | none =>
      have hget : d.root.get? (v ++ [name]) = none := Option.map_eq_none_iff.mp hlook
      have hread : d.read path = .error ⟨"open", path, .notFound⟩ := by
        simp only [Disk.read, find, hway, bind, Except.bind, hget]
        rfl
      rw [hread]
      exact .inr ⟨_, rfl, rfl⟩

end DiskM

end InstallerLint
