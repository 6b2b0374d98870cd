import InstallerLint.Proofs.Disk.Directory

/-!
# What is left when something goes

When something is taken away, be it anywhere, a directory stays where it is or it is missing from
then on (`Seated.of_shrinks`).

**Missing directories.**  No way leads into a directory that is missing, so no file comes there
before the directory is made again.
-/

namespace InstallerLint

namespace Disk

/-- Parts that lead to one place by either of two choices of faces lead there by what both have in
common. -/
theorem Leads.inter {faces₁ faces₂ faces common : List String → Option Entry}
    {here p there other : List String}
    (h₁ : ∀ way e, faces₁ way = some e → faces way = some e)
    (h₂ : ∀ way e, faces₂ way = some e → faces way = some e)
    (hboth : ∀ way e, faces₁ way = some e → faces₂ way = some e → common way = some e)
    (h : Leads faces₁ here p there) (h' : Leads faces₂ here p other) :
    Leads common here p there := by
  have hsame : ∀ {way e e'}, faces₁ way = some e → faces₂ way = some e' → e = e' :=
    fun he he' => Option.some.inj ((h₁ _ _ he).symm.trans (h₂ _ _ he'))
  induction h with
  | done hdir => exact .done (hboth _ _ hdir h'.dir_start)
  | stay hdir hpart _ ih =>
      exact .stay (hboth _ _ hdir h'.dir_start) hpart (ih (h'.of_idle hpart))
  | up hdir _ ih =>
      have hhere := hboth _ _ hdir h'.dir_start
      cases h' with
      | stay _ hpart _ => cases hpart
      | up _ h' => exact .up hhere (ih h')
      | link _ hname _ _ => exact absurd rfl hname.2
      | down _ hname _ _ => exact absurd rfl hname.2
  | link hdir hname hlink _ ih =>
      have hhere := hboth _ _ hdir h'.dir_start
      cases h' with
      | stay _ hpart _ =>
          rw [hname.1] at hpart
          cases hpart
      | up _ _ => exact absurd rfl hname.2
      | link _ _ hlink' h' =>
          cases hsame hlink hlink'
          exact .link hhere hname (hboth _ _ hlink hlink') (ih h')
      | down _ _ hnext _ => cases hsame hlink hnext
  | down hdir hname hnext _ ih =>
      have hhere := hboth _ _ hdir h'.dir_start
      cases h' with
      | stay _ hpart _ =>
          rw [hname.1] at hpart
          cases hpart
      | up _ _ => exact absurd rfl hname.2
      | link _ _ hlink _ => cases hsame hnext hlink
      | down _ _ hnext' h' => exact .down hhere hname (hboth _ _ hnext hnext') (ih h')

/-- Nothing came or changed. -/
structure Shrinks (d d' : Disk) : Prop where
  cwd : d'.cwd = d.cwd
  faces : ∀ way e, d'.root.look way = some e → d.root.look way = some e

section Shrinks

variable {d d' : Disk} {dir name : String} {v : List String}

theorem Like.shrinks (h : Like d d') : Shrinks d d' :=
  ⟨h.cwd, fun way e he => by rwa [h.root] at he⟩

theorem Shrinks.refl (d : Disk) : Shrinks d d := ⟨rfl, fun _ _ he => he⟩

theorem Shrinks.trans {d'' : Disk} (h : Shrinks d d') (h' : Shrinks d' d'') : Shrinks d d'' :=
  ⟨h'.cwd.trans h.cwd, fun way e he => h.faces way e (h'.faces way e he)⟩

theorem shrinks_erase (d : Disk) (way : List String) :
    Shrinks d { d with root := d.root.erase way } where
  cwd := rfl
  faces := by
    intro w e he
    change (d.root.erase way).look w = some e at he
    by_cases hnil : way = []
    · rwa [hnil, show d.root.erase [] = d.root by unfold Entry.erase; rfl] at he
    by_cases hpre : way <+: w
    · obtain ⟨rest, rfl⟩ := hpre
      rw [Entry.look_erase_append rest hnil] at he
      cases he
    · rwa [Entry.look_erase_of_not_prefix hpre] at he

theorem Shrinks.trail_eq (h : Shrinks d d') (dir : String) : d'.trail dir = d.trail dir := by
  rw [trail, trail, origin, origin, h.cwd]

theorem Missing.of_shrinks (h : d.Missing dir) (hshrinks : Shrinks d d') : d'.Missing dir := by
  intro v hv
  rw [hshrinks.trail_eq] at hv
  exact h v (hv.mono hshrinks.faces)

/-- A directory stays where it is, or it is missing. -/
theorem Seated.of_shrinks (h : d.Seated dir v) (hshrinks : Shrinks d d') :
    d'.Missing dir ∨ d'.Seated dir v := by
  by_cases hmissing : d'.Missing dir
  · exact .inl hmissing
  obtain ⟨v', hleads⟩ := not_forall_not.mp hmissing
  rw [hshrinks.trail_eq] at hleads
  obtain rfl := (hleads.mono hshrinks.faces).unique h.leads
  refine .inr ?_
  unfold Seated
  rw [hshrinks.trail_eq]
  exact Leads.inter (fun way e he => (of_hollow he).2) hshrinks.faces
    (fun way e he he' => hollow_eq_some (of_hollow he).1 he') h hleads

/-- No way leads into a missing directory. -/
theorem Missing.way_ne_ok (h : d.Missing dir) (hname : Path.Proper name) (last : Bool)
    (way : List String) : d.way last (Path.join [dir, name]) ≠ .ok way := by
  intro hway
  rw [way_join last d dir hname] at hway
  obtain ⟨mid, hleads, -⟩ := leads_of_follow hway
  exact h mid hleads

end Shrinks

end Disk

namespace DiskM

open Disk

variable {d : Disk} {dir name : String} {v : List String}

/-- Whatever a path leads to, taking it away brings nothing. -/
theorem ends_remove_shrinks (path : String) (d : Disk) :
    Ends (remove path) d (fun _ => Shrinks d) (Like d) := by
  refine ends_attempt_then _ _ (fun _ h => h) fun d' hlike => ?_
  refine ends_get_then ?_
  have hfind : Ends (ofExcept (explain "remove" path (d'.find false path))) d'
      (fun _ d'' => d'' = d') (Like d) := ends_ofExcept (fun _ _ => rfl) hlike
  refine hfind.bind ?_
  rintro e d₁ rfl
  have hway : Ends (wayTo "remove" path) d₁ (fun _ d'' => d'' = d₁) (Like d) :=
    ends_get_then (ends_ofExcept (fun _ _ => rfl) hlike)
  refine hway.bind ?_
  rintro w d₂ rfl
  split_ifs
  · refine ⟨hlike.cwd, fun way e he => ?_⟩
    rw [← hlike.root]
    exact (shrinks_erase d₂ w).faces way e he
  · exact ends_throw hlike

/-- There is nothing to take away in a missing directory. -/
theorem ends_removeAll_missing (h : d.Missing dir) (hname : Path.Proper name) :
    Ends (removeAll (Path.join [dir, name])) d (fun _ => Like d) (Like d) := by
  refine ends_attempt_then _ _ (fun _ h => h) fun d' hlike => ?_
  refine ends_get_then ?_
  split
  · next w hway => exact absurd hway ((h.of_like hlike).way_ne_ok hname false w)
  · exact ends_pure hlike

/-- No new file comes into a missing directory. -/
theorem ends_createTemp_missing (stem : String) (h : d.Missing dir)
    (hproper : ∀ k : Nat, Path.Proper (stem ++ toString k)) :
    Ends (createTemp dir stem) d (fun _ _ => False) (Like d) := by
  obtain ⟨k, hk⟩ := freshName_eq stem (d.names dir) ((d.names dir).length + 1) 1
  unfold createTemp
  refine ends_get_then ?_
  rw [hk]
  refine ends_attempt_then _ _ (fun _ h => h) fun d' hlike => ?_
  have hmake : Ends (do
      setEntry (← wayTo "open" (Path.join [dir, stem ++ toString k])) (.file [] d.now)
      pure (Path.join [dir, stem ++ toString k])) d' (fun _ _ => False) (Like d) := by
    have hway : Ends (wayTo "open" (Path.join [dir, stem ++ toString k])) d' (fun _ _ => False)
        (Like d) := by
      refine ends_get_then (ends_ofExcept (fun w hw => ?_) hlike)
      exact absurd (ok_of_explain hw) ((h.of_like hlike).way_ne_ok (hproper k) false w)
    exact hway.bind fun _ _ hno => hno.elim
  dsimp only
  split
  · exact ends_throw_then hlike
  · split_ifs
    · exact hmake
    · exact ends_throw_then hlike

end DiskM

end InstallerLint
