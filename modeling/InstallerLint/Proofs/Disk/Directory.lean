import InstallerLint.Proofs.Disk.Write

/-!
# Making directories

Making a directory changes nothing if it is there, and else puts an empty directory where nothing
stood (`Made`).  So making all directories on a path leaves those alone that exist
(`ends_makeDirs`), and a directory that did not exist is empty when it was made
(`ends_makeDirs_of_missing`).

**On the way.**  Directories are made one in the other.  As long as the last of them is empty, the next one
can only be made in it, so all that came are on one way (`Raised`), and this is the way of the path if the
path is found at all (`Raised.grown`).

**Whole files.**  A file is written into a directory that is there, and is read back
(`ends_writeWhole`).
-/

namespace InstallerLint

namespace Disk

/-- An empty directory was made where nothing stood. -/
structure Made (way : List String) (d d' : Disk) : Prop where
  cwd : d'.cwd = d.cwd
  before : d.root.look way = none
  after : d'.root.look way = some (.dir [])
  others : ∀ w, w ≠ way → d'.root.look w = d.root.look w

/-- No directory stands where a path leads. -/
def Missing (d : Disk) (dir : String) : Prop := ∀ v, ¬ Leads d.root.look [] (d.trail dir) v

/-- A directory holds nothing. -/
def Hollow (d : Disk) (v : List String) : Prop := ∀ w, Inside v w → d.root.look w = none

section Made

variable {d d' : Disk} {dir : String} {v way : List String}

theorem Made.mono (h : Made way d d') : ∀ w e, d.root.look w = some e → d'.root.look w = some e := by
  intro w e he
  by_cases hw : w = way
  · rw [hw, h.before] at he
    cases he
  · rw [h.others w hw, he]

theorem Made.below (h : Made way d d') {w : List String} (hw : Inside way w) :
    d'.root.look w = none := by
  obtain ⟨⟨rest, rfl⟩, hne⟩ := hw
  rw [h.others _ hne]
  have hrest : rest ≠ [] := by
    rintro rfl
    exact hne (List.append_nil _)
  cases hlook : d.root.look (way ++ rest) with
  | none => rfl
  | some e =>
      have hdir := Entry.look_eq_dir_of_look_append hrest (Option.isSome_of_eq_some hlook)
      rw [h.before] at hdir
      cases hdir

theorem made_put {mid : List String} {name : String} (hdir : d.root.look mid = some (.dir []))
    (hnone : d.root.look (mid ++ [name]) = none) :
    Made (mid ++ [name]) d { d with root := d.root.put (mid ++ [name]) (.dir []) } where
  cwd := rfl
  before := hnone
  after := look_put_name hdir _
  others := by
    intro w hw
    by_cases hpre : mid ++ [name] <+: w
    · obtain ⟨rest, rfl⟩ := hpre
      have hrest : rest ≠ [] := by
        rintro rfl
        exact hw (List.append_nil _)
      have hput : (d.root.put (mid ++ [name]) (.dir [])).look (mid ++ [name] ++ rest) =
          (Entry.dir []).look rest :=
        Entry.look_put_append _ rest (by simp) (by simpa using hdir)
      obtain ⟨part, rest, rfl⟩ := List.exists_cons_of_ne_nil hrest
      show (d.root.put (mid ++ [name]) (.dir [])).look _ = _
      rw [hput]
      cases hlook : d.root.look (mid ++ [name] ++ part :: rest) with
      | none => rfl
      | some e =>
          have hface := Entry.look_eq_dir_of_look_append (List.cons_ne_nil _ _)
            (Option.isSome_of_eq_some hlook)
          rw [hnone] at hface
          cases hface
    · exact Entry.look_put_of_not_prefix _ hpre

theorem Made.of_like {d'' : Disk} (h : Made way d' d'') (hlike : Like d d') : Made way d d'' where
  cwd := h.cwd.trans hlike.cwd
  before := by rw [← hlike.root, h.before]
  after := h.after
  others := fun w hw => by rw [h.others w hw, hlike.root]

theorem Like.origin_eq (h : Like d d') (rooted : Bool) : d'.origin rooted = d.origin rooted := by
  unfold origin
  rw [h.cwd]

theorem Like.trail_eq (h : Like d d') (dir : String) : d'.trail dir = d.trail dir := by
  unfold trail
  rw [h.origin_eq]

theorem Like.way_eq (h : Like d d') (last : Bool) (path : String) :
    d'.way last path = d.way last path := by
  rw [way, way, fromCwd, fromCwd, h.root, h.cwd]

theorem Missing.of_like (h : d.Missing dir) (hlike : Like d d') : d'.Missing dir := by
  intro v hv
  rw [hlike.root, hlike.trail_eq] at hv
  exact h v hv

theorem Hollow.of_like (h : d.Hollow v) (hlike : Like d d') : d'.Hollow v := by
  intro w hw
  rw [hlike.root]
  exact h w hw

/-- A new directory is seated when its trail leads to it. -/
theorem Made.seated (h : Made way d d') (hleads : Leads d'.root.look [] (d'.trail dir) way) :
    d'.Seated dir way := by
  refine hleads.mono fun w e he => ?_
  refine hollow_eq_some (fun hin => ?_) he
  rw [h.below hin] at he
  cases he

theorem Made.seated_of_inside (h : Made way d d') (hseat : d.Seated dir v) (hin : Inside v way) :
    d'.Seated dir v := by
  refine hseat.congr h.cwd fun w hw => h.others w ?_
  rintro rfl
  exact hw hin

theorem Made.trail_eq (h : Made way d d') (dir : String) : d'.trail dir = d.trail dir := by
  unfold trail origin
  rw [h.cwd]

end Made

end Disk

namespace DiskM

open Disk

section MakeDir

variable {d : Disk} {rooted : Bool} {ps : List String} {name : String}

/-- Making a directory: it is there, or it is made in the directory that the path leads to. -/
theorem ends_makeDir (d : Disk) (hclean : Path.Clean rooted (ps ++ [name])) :
    Ends (makeDir (Path.ofParts rooted (ps ++ [name]))) d
      (fun _ d' => (d' = d ∧ ∃ v, Leads d.root.look [] (d.origin rooted ++ ps ++ [name]) v) ∨
        ∃ mid, Leads d.root.look [] (d.origin rooted ++ ps) mid ∧ IsName name ∧
          Made (mid ++ [name]) d d')
      (Like d) := by
  have hway : ∀ (d : Disk) (last : Bool), ∃ fuel, d.way last (Path.ofParts rooted (ps ++ [name])) =
      follow d.root last fuel linkLimit [] (d.origin rooted ++ ps ++ [name]) := by
    intro d last
    rw [way_ofParts last hclean (by simp), List.append_assoc]
    exact ⟨_, rfl⟩
  generalize Path.ofParts rooted (ps ++ [name]) = path at hway ⊢
  unfold makeDir
  refine ends_get_then ?_
  cases hfind : d.find true path with
  | ok e =>
      dsimp only
      split_ifs with hdir
      · refine ends_pure (Or.inl ⟨rfl, ?_⟩)
        obtain ⟨w, hw, he⟩ := exists_way_of_find hfind
        obtain ⟨fuel, hfollow⟩ := hway d true
        rw [hw] at hfollow
        refine ⟨w, leads_of_follow_dir hfollow.symm ?_⟩
        rw [Entry.look, he]
        cases e with
        | dir es => rfl
        | file content time => cases hdir
        | link target => cases hdir
      · exact ends_throw (Like.refl d)
  | error r =>
      cases r with
      | notFound =>
          refine ends_attempt_then _ _ (fun _ h => h) fun d' hlike => ?_
          have hto : Ends (wayTo "mkdir" path) d'
              (fun w d'' => d'' = d' ∧ d'.way false path = .ok w) (Like d) :=
            ends_get_then (ends_ofExcept (fun w hw => ⟨rfl, ok_of_explain hw⟩) hlike)
          refine hto.bind ?_
          rintro w d'' ⟨rfl, hw⟩
          refine ends_get_then ?_
          obtain ⟨fuel, hfollow⟩ := hway d'' false
          rw [hw] at hfollow
          obtain ⟨mid, hleads, hend⟩ := leads_of_follow hfollow.symm
          split_ifs with htaken
          · exact ends_throw_then hlike
          · have hnone : d''.root.look w = none := by
              rw [Entry.look, Option.not_isSome_iff_eq_none.mp htaken]
              rfl
            obtain ⟨rfl, hname⟩ := hend hnone rfl
            have hmade := (made_put hleads.dir_end hnone).of_like hlike
            rw [hlike.root, hlike.origin_eq] at hleads
            exact ⟨Or.inr ⟨mid, hleads, hname, hmade⟩⟩
      | _ => exact ends_throw (Like.refl d)

end MakeDir

section Stages

variable {dir name : String}

theorem stages_join (hname : Path.Proper name) :
    stages (Path.join [dir, name]) = stages dir ++ [Path.join [dir, name]] := by
  unfold stages
  dsimp only
  rw [Path.isAbs_join hname, Path.cleanParts_join hname, List.length_append, List.length_singleton,
    List.range_succ, List.map_append]
  congr 1
  · refine List.map_congr_left fun n hn => ?_
    rw [List.take_append_of_le_length (List.mem_range.mp hn)]
  · rw [List.map_singleton, List.take_of_length_le (by simp), Path.join_proper dir hname]

theorem mem_stages {s : String} (h : s ∈ stages dir) :
    ∃ ps name rest, Path.cleanParts dir = ps ++ name :: rest ∧
      s = Path.ofParts (Path.isAbs dir) (ps ++ [name]) := by
  obtain ⟨n, hn, rfl⟩ := List.mem_map.mp h
  have hlt := List.mem_range.mp hn
  refine ⟨(Path.cleanParts dir).take n, (Path.cleanParts dir).get ⟨n, hlt⟩,
    (Path.cleanParts dir).drop (n + 1), ?_, ?_⟩
  · rw [List.get_eq_getElem, List.getElem_cons_drop, List.take_append_drop]
  · rw [List.get_eq_getElem, List.take_concat_get']

theorem clean_stage {ps rest : List String} (h : Path.cleanParts dir = ps ++ name :: rest) :
    Path.Clean (Path.isAbs dir) (ps ++ [name]) := by
  have hclean := (Path.clean_cleanParts dir).take (ps.length + 1)
  rwa [h, List.take_length_add_append, List.take_succ_cons, List.take_zero] at hclean

theorem ends_makeEach {P bad : Disk → Prop} {l : List String}
    (h : ∀ s ∈ l, ∀ d, P d → Ends (makeDir s) d (fun _ => P) bad) {d : Disk} (hd : P d) :
    Ends (makeEach l) d (fun _ => P) bad := by
  induction l generalizing d with
  | nil => exact ends_pure hd
  | cons s l ih =>
      refine (h s List.mem_cons_self d hd).bind fun _ d' hd' => ?_
      exact ih (fun s' hs' => h s' (List.mem_cons_of_mem _ hs')) hd'

theorem makeEach_append (l l' : List String) :
    makeEach (l ++ l') = (do makeEach l; makeEach l') := by
  induction l with
  | nil => rfl
  | cons s l ih =>
      rw [List.cons_append, makeEach, makeEach, ih, bind_assoc]

end Stages

section MakeDirs

variable {d d' : Disk} {dir name : String} {v : List String}

/-- A name that parts lead through stands for something. -/
theorem isSome_of_leads_name {faces : List String → Option Entry} {here rest there : List String}
    (h : Leads faces here (name :: rest) there) (hname : IsName name) :
    (faces (here ++ [name])).isSome := by
  cases h with
  | stay _ hidle _ =>
      rw [hname.1] at hidle
      cases hidle
  | up _ _ => exact absurd rfl hname.2
  | link _ _ hlink _ => exact Option.isSome_of_eq_some hlink
  | down _ _ hnext _ => exact Option.isSome_of_eq_some hnext

/-- Directories on a path that leads to one are not made again. -/
theorem ends_makeDirs (h : Leads d.root.look [] (d.trail dir) v) :
    Ends (makeDirs dir) d (fun _ d' => Like d d') (Like d) := by
  refine ends_makeEach (fun s hs d' hlike => ?_) (Like.refl d)
  obtain ⟨ps, name, rest, hps, rfl⟩ := mem_stages hs
  refine (ends_makeDir d' (clean_stage hps)).mono ?_ fun _ h => hlike.trans h
  rintro - d'' (⟨rfl, -⟩ | ⟨mid, hmid, hname, hmade⟩)
  · exact hlike
  · -- the name leads on, so something stands there already
    exfalso
    rw [trail, hps] at h
    obtain ⟨mid', hmid', hrest⟩ := h.split (List.append_assoc _ _ _).symm
    rw [hlike.root, hlike.origin_eq] at hmid
    obtain rfl := hmid.unique hmid'
    have hsome := isSome_of_leads_name hrest hname
    rw [← hlike.root, hmade.before] at hsome
    cases hsome

/-- Making a directory in a seated one. -/
theorem ends_makeDirs_join (hseat : d.Seated dir v) (hname : Path.Proper name)
    (hinner : ∀ e, d.root.look (v ++ [name]) = some e → e = .dir []) :
    Ends (makeDirs (Path.join [dir, name])) d
      (fun _ d' => (Like d d' ∧ d.root.look (v ++ [name]) = some (.dir [])) ∨
        Made (v ++ [name]) d d')
      (Like d) := by
  have hclean := (Path.clean_cleanParts dir).concat hname
  rw [makeDirs, stages_join hname, makeEach_append]
  refine (ends_makeDirs hseat.leads).bind fun _ d' hlike => ?_
  have hlast : Ends (makeDir (Path.join [dir, name])) d'
      (fun _ d'' => (Like d d'' ∧ d.root.look (v ++ [name]) = some (.dir [])) ∨
        Made (v ++ [name]) d d'') (Like d) := by
    rw [Path.join_proper dir hname]
    refine (ends_makeDir d' hclean).mono ?_ fun _ h => hlike.trans h
    rintro - d'' (⟨rfl, w, hw⟩ | ⟨mid, hmid, -, hmade⟩)
    · obtain ⟨mid, hmid, hrest⟩ := hw.split rfl
      rw [hlike.root, hlike.origin_eq] at hmid
      obtain rfl := hmid.unique hseat.leads
      have hsome := isSome_of_leads_name hrest (isName_of_proper hname)
      rw [hlike.root] at hsome
      obtain ⟨e, he⟩ := Option.isSome_iff_exists.mp hsome
      exact Or.inl ⟨hlike, hinner e he ▸ he⟩
    · rw [hlike.root, hlike.origin_eq] at hmid
      obtain rfl := hmid.unique hseat.leads
      exact Or.inr (hmade.of_like hlike)
  exact hlast.bind fun _ d'' h => ends_pure h

/-- A name in a seated directory is taken away with everything below it, unless the way to it is not
found. -/
theorem ends_removeAll (hseat : d.Seated dir v) (hname : Path.Proper name)
    (hlink : ∀ target, d.root.look (v ++ [name]) ≠ some (.link target)) :
    Ends (removeAll (Path.join [dir, name])) d
      (fun _ d' => (Like d d' ∧ d.way true (Path.join [dir, name]) = .error .tooManyLinks) ∨
        Edits v (· = name) d d' ∧ d'.root.look (v ++ [name]) = none)
      (Like d) := by
  refine ends_attempt_then _ _ (fun _ h => h) fun d' hlike => ?_
  refine ends_get_then ?_
  rcases (hlike.seated hseat).way_name hname (hlike.root ▸ hlink) false with hway | hway
  · simp only [hway]
    rw [hlike.way_eq] at hway
    refine ends_pure (Or.inl ⟨hlike, ?_⟩)
    exact (hseat.giveUp_iff hname hname hlink hlink rfl (fun _ _ => rfl) rfl false true).mpr hway
  · simp only [hway]
    exact ⟨Or.inr ⟨hlike.edits.trans (edits_erase _ _ _), look_erase_name _⟩⟩

/-- A name is not made a directory if the way to it is not found. -/
theorem ends_makeDirs_giveUp (hseat : d.Seated dir v) (hname : Path.Proper name)
    (hgive : d.way true (Path.join [dir, name]) = .error .tooManyLinks) :
    Ends (makeDirs (Path.join [dir, name])) d (fun _ _ => False) (Like d) := by
  rw [makeDirs, stages_join hname, makeEach_append]
  refine (ends_makeDirs hseat.leads).bind fun _ d' hlike => ?_
  have hlast : Ends (makeDir (Path.join [dir, name])) d' (fun _ _ => False) (Like d) := by
    rw [← hlike.way_eq] at hgive
    have hfind : d'.find true (Path.join [dir, name]) = .error .tooManyLinks := by
      rw [find, hgive]
      rfl
    refine ends_get_then ?_
    rw [hfind]
    exact ends_throw hlike
  exact hlast.bind fun _ _ hno => hno.elim

end MakeDirs

section WriteWhole

variable {d : Disk} {dir name : String} {v : List String}

/-- A file in a directory that is there is written as a whole and read back, or only temporary
files change. -/
theorem ends_writeWhole (content : Bytes) (hseat : d.Seated dir v) (hname : Path.Proper name)
    (hfiles : d.OnlyFiles v fun n => Temporary n ∨ n = name) :
    Ends (writeWhole dir name content) d
      (fun _ d' => Edits v (fun n => Temporary n ∨ n = name) d d' ∧
        (∃ time, d'.root.look (v ++ [name]) = some (.file content time)) ∧
        d'.read (Path.join [dir, name]) = .ok content)
      (Edits v Temporary d) := by
  refine ((ends_makeDirs hseat.leads).mono (fun _ _ h => h) fun _ h => h.edits).bind ?_
  intro _ d₁ hlike
  refine (ends_replace content (hlike.seated hseat) hname (hlike.onlyFiles hfiles)).mono ?_
    fun _ h => hlike.edits.trans h
  exact fun _ _ h => ⟨hlike.edits.trans h.1, h.2.1, h.2.2.1⟩

end WriteWhole

section Missing

variable {d d' : Disk} {dir name : String} {v : List String}

/-- A missing directory is still missing or was made, and is empty then. -/
def MadeEmpty (dir : String) (d : Disk) : Prop :=
  d.Missing dir ∨ ∃ v, d.Seated dir v ∧ d.Hollow v

theorem MadeEmpty.of_like (h : MadeEmpty dir d) (hlike : Like d d') : MadeEmpty dir d' := by
  rcases h with h | ⟨v, hseat, hhollow⟩
  · exact Or.inl (h.of_like hlike)
  · exact Or.inr ⟨v, hlike.seated hseat, hhollow.of_like hlike⟩

/-- A directory that was missing is seated when one of its stages makes it exist. -/
theorem madeEmpty_of_made {ps rest mid : List String}
    (hps : Path.cleanParts dir = ps ++ name :: rest)
    (hmid : Leads d.root.look [] (d.origin (Path.isAbs dir) ++ ps) mid)
    (hname : IsName name) (hmade : Made (mid ++ [name]) d d') : MadeEmpty dir d' := by
  by_cases hstill : d'.Missing dir
  · exact Or.inl hstill
  obtain ⟨v, hv⟩ := not_forall_not.mp hstill
  have hfirst : Leads d'.root.look [] (d.origin (Path.isAbs dir) ++ (ps ++ [name])) (mid ++ [name]) := by
    have hmid' := hmid.mono hmade.mono
    rw [← List.append_assoc]
    exact hmid'.append (.name hmid'.dir_end hname hmade.after)
  have hsplit : d'.trail dir = (d.origin (Path.isAbs dir) ++ (ps ++ [name])) ++ rest := by
    rw [hmade.trail_eq, trail, hps]
    simp
  obtain ⟨mid', hmid', hrest⟩ := hv.split hsplit
  obtain rfl := hmid'.unique hfirst
  cases rest with
  | nil =>
      refine Or.inr ⟨mid ++ [name], hmade.seated ?_, fun w hw => hmade.below hw⟩
      rw [hsplit, List.append_nil]
      exact hfirst
  | cons part rest =>
      -- the new directory is empty, so no name leads on from it
      have hclean := Path.clean_cleanParts dir
      rw [hps] at hclean
      have hproper := hclean.names_of_not_up hname.2 part (by simp)
      have hsome := isSome_of_leads_name hrest (isName_of_proper hproper)
      rw [hmade.below (inside_concat _ part [])] at hsome
      cases hsome

/-- Making a directory that is missing. -/
theorem ends_makeDirs_missing (hmissing : d.Missing dir) :
    Ends (makeDirs dir) d (fun _ => MadeEmpty dir) (MadeEmpty dir) := by
  refine ends_makeEach (fun s hs d' hd' => ?_) (Or.inl hmissing)
  obtain ⟨ps, name, rest, hps, rfl⟩ := mem_stages hs
  refine (ends_makeDir d' (clean_stage hps)).mono ?_ fun _ h => hd'.of_like h
  rintro - d'' (⟨rfl, -⟩ | ⟨mid, hmid, hname, hmade⟩)
  · exact hd'
  · exact madeEmpty_of_made hps hmid hname hmade

/-- Making a directory in one that is missing, together with it. -/
theorem ends_makeDirs_of_missing (hmissing : d.Missing dir) (hname : Path.Proper name) :
    Ends (makeDirs (Path.join [dir, name])) d
      (fun _ d' => ∃ v, d'.Seated dir v ∧ d'.root.look (v ++ [name]) = some (.dir []) ∧
        ∀ w, Inside v w → ∀ e, d'.root.look w = some e → w = v ++ [name] ∧ e = .dir [])
      (MadeEmpty dir) := by
  rw [makeDirs, stages_join hname, makeEach_append]
  refine (ends_makeDirs_missing hmissing).bind fun _ d' hd' => ?_
  have hlast : Ends (makeDir (Path.join [dir, name])) d'
      (fun _ d'' => ∃ v, d''.Seated dir v ∧ d''.root.look (v ++ [name]) = some (.dir []) ∧
        ∀ w, Inside v w → ∀ e, d''.root.look w = some e → w = v ++ [name] ∧ e = .dir [])
      (MadeEmpty dir) := by
    rw [Path.join_proper dir hname]
    refine (ends_makeDir d' ((Path.clean_cleanParts dir).concat hname)).mono ?_
      fun _ h => hd'.of_like h
    rintro - d'' hmade
    rcases hd' with hd' | ⟨v, hseat, hhollow⟩
    · rcases hmade with ⟨-, w, hw⟩ | ⟨mid, hmid, -⟩
      · obtain ⟨mid, hmid, -⟩ := hw.split rfl
        exact absurd hmid (hd' mid)
      · exact absurd hmid (hd' mid)
    · rcases hmade with ⟨-, w, hw⟩ | ⟨mid, hmid, -, hmade⟩
      · obtain ⟨mid, hmid, hrest⟩ := hw.split rfl
        obtain rfl := hmid.unique hseat.leads
        have hsome := isSome_of_leads_name hrest (isName_of_proper hname)
        rw [hhollow _ (inside_concat mid name [])] at hsome
        cases hsome
      · obtain rfl := hmid.unique hseat.leads
        refine ⟨mid, hmade.seated_of_inside hseat (inside_concat mid name []), hmade.after,
          fun w hw e he => ?_⟩
        by_cases hway : w = mid ++ [name]
        · rw [hway, hmade.after] at he
          exact ⟨hway, (Option.some.inj he).symm⟩
        · rw [hmade.others w hway, hhollow w hw] at he
          cases he
  exact hlast.bind fun _ d'' h => ends_pure h

end Missing

end DiskM

namespace Disk

/-- Nothing changed but that empty directories came on the way to a directory; if they lead to it, they
are above it or it is the last of them. -/
structure Grown (dir : String) (d d' : Disk) : Prop where
  cwd : d'.cwd = d.cwd
  faces : ∀ w, d'.root.look w = d.root.look w ∨
    d.root.look w = none ∧ d'.root.look w = some (.dir [])
  onWay : ∀ w, d'.root.look w ≠ d.root.look w → ∃ ps v, ps <+: Path.cleanParts dir ∧
    Leads d'.root.look [] (d'.origin (Path.isAbs dir) ++ ps) v ∧ w <+: v
  above : ∀ v, Leads d'.root.look [] (d'.trail dir) v →
    ∀ w, d'.root.look w ≠ d.root.look w → w <+: v

/-- Directories were made one in the other up to one on the way to a directory, and this is empty. -/
def Raised (dir : String) (d d' : Disk) : Prop :=
  Like d d' ∨ ∃ ps rest v, Path.cleanParts dir = ps ++ rest ∧ (∀ n ∈ rest, Path.Proper n) ∧
    d'.cwd = d.cwd ∧ Leads d'.root.look [] (d.origin (Path.isAbs dir) ++ ps) v ∧ d'.Hollow v ∧
    ∀ w, d'.root.look w = d.root.look w ∨
      w <+: v ∧ d.root.look w = none ∧ d'.root.look w = some (.dir [])

section Raised

variable {d d' d'' : Disk} {dir name : String} {ps rest mid : List String}

theorem Raised.of_like (h : Raised dir d d') (hlike : Like d' d'') : Raised dir d d'' := by
  rcases h with h | ⟨ps, rest, v, hps, hrest, hcwd, hleads, hhollow, hfaces⟩
  · exact .inl (h.trans hlike)
  · refine .inr ⟨ps, rest, v, hps, hrest, hlike.cwd.trans hcwd, ?_, hhollow.of_like hlike, ?_⟩
    · rwa [hlike.root]
    · rwa [hlike.root]

theorem origin_congr (hcwd : d'.cwd = d.cwd) (rooted : Bool) : d'.origin rooted = d.origin rooted := by
  rw [origin, origin, hcwd]

/-- Nothing leads on from the directory that was made last, so it is the one that the next one is made
in. -/
theorem eq_of_hollow {ps₀ rest₀ : List String} {v : List String}
    (hps : Path.cleanParts dir = ps ++ name :: rest)
    (hmid : Leads d.root.look [] (d.origin (Path.isAbs dir) ++ ps) mid) (hname : IsName name)
    (hnone : d.root.look (mid ++ [name]) = none) (hps₀ : Path.cleanParts dir = ps₀ ++ rest₀)
    (hrest₀ : ∀ n ∈ rest₀, Path.Proper n)
    (hleads : Leads d.root.look [] (d.origin (Path.isAbs dir) ++ ps₀) v) (hhollow : d.Hollow v) :
    mid = v := by
  have hdiffer : ∀ {x : List String} {part : String} {rest there : List String},
      Leads d.root.look x (part :: rest) there → IsName part → d.root.look (x ++ [part]) ≠ none := by
    intro x part rest there hgo hpart hnone
    have hsome := DiskM.isSome_of_leads_name hgo hpart
    rw [hnone] at hsome
    cases hsome
  rcases List.append_eq_append_iff.mp (hps.symm.trans hps₀) with ⟨more, rfl, hmore⟩ | ⟨more, rfl, hmore⟩
  · cases more with
    | nil =>
        rw [List.append_nil] at hleads
        exact hmid.unique hleads
    | cons part more =>
        obtain ⟨rfl, -⟩ := List.cons.inj hmore
        obtain ⟨mid', hmid', hgo⟩ := hleads.split (List.append_assoc _ _ _).symm
        obtain rfl := hmid.unique hmid'
        exact absurd hnone (hdiffer hgo hname)
  · cases more with
    | nil =>
        rw [List.append_nil] at hmid
        exact hmid.unique hleads
    | cons part more =>
        obtain ⟨v', hv', hgo⟩ := hmid.split (List.append_assoc _ _ _).symm
        obtain rfl := hleads.unique hv'
        have hpart : Path.Proper part := hrest₀ part (by simp [hmore])
        exact absurd (hhollow _ (inside_concat v part [])) (hdiffer hgo (isName_of_proper hpart))

/-- Only the next directory on the way is made. -/
theorem Raised.made (h : Raised dir d d') (hps : Path.cleanParts dir = ps ++ name :: rest)
    (hmid : Leads d'.root.look [] (d'.origin (Path.isAbs dir) ++ ps) mid) (hname : IsName name)
    (hmade : Made (mid ++ [name]) d' d'') : Raised dir d d'' := by
  have hcwd : d'.cwd = d.cwd := by
    rcases h with h | ⟨_, _, _, _, _, hcwd, -⟩
    · exact h.cwd
    · exact hcwd
  have hfaces : ∀ w, d'.root.look w = d.root.look w ∨
      w <+: mid ∧ d.root.look w = none ∧ d'.root.look w = some (.dir []) := by
    rcases h with h | ⟨ps₀, rest₀, v, hps₀, hrest₀, -, hleads, hhollow, hfaces⟩
    · exact fun w => .inl (by rw [h.root])
    · rw [← origin_congr hcwd] at hleads
      obtain rfl := eq_of_hollow hps hmid hname hmade.before hps₀ hrest₀ hleads hhollow
      exact hfaces
  have hclean := Path.clean_cleanParts dir
  rw [hps] at hclean
  refine .inr ⟨ps ++ [name], rest, mid ++ [name], by simp [hps],
    fun n hn => hclean.names_of_not_up hname.2 n (List.mem_cons_of_mem _ hn), hmade.cwd.trans hcwd, ?_,
    fun w hw => hmade.below hw, fun w => ?_⟩
  · rw [← origin_congr hcwd, ← List.append_assoc]
    have hmid' := hmid.mono hmade.mono
    exact hmid'.append (.name hmid'.dir_end hname hmade.after)
  · by_cases hw : w = mid ++ [name]
    · subst hw
      have hbefore : d.root.look (mid ++ [name]) = none := by
        rcases hfaces (mid ++ [name]) with heq | ⟨-, hnone, -⟩
        · rw [← heq, hmade.before]
        · exact hnone
      exact .inr ⟨List.prefix_refl _, hbefore, hmade.after⟩
    · rw [hmade.others w hw]
      exact (hfaces w).imp_right fun h => ⟨h.1.trans (List.prefix_append _ _), h.2⟩

/-- Directories that were made are on the way. -/
theorem Raised.grown (h : Raised dir d d') : Grown dir d d' := by
  rcases h with h | ⟨ps, rest, v, hps, hrest, hcwd, hleads, hhollow, hfaces⟩
  · have hsame : ∀ w, d'.root.look w = d.root.look w := fun w => by rw [h.root]
    exact ⟨h.cwd, fun w => .inl (hsame w), fun w hw => absurd (hsame w) hw,
      fun _ _ w hw => absurd (hsame w) hw⟩
  · refine ⟨hcwd, fun w => (hfaces w).imp_right And.right, fun w hw => ?_, fun u hu w hw => ?_⟩
    · rw [origin_congr hcwd]
      exact ⟨ps, v, hps ▸ List.prefix_append ps rest, hleads, ((hfaces w).resolve_left hw).1⟩
    · have htrail : d'.trail dir = (d.origin (Path.isAbs dir) ++ ps) ++ rest := by
        rw [trail, origin_congr hcwd, hps, List.append_assoc]
      obtain ⟨v', hv', hgo⟩ := hu.split htrail
      obtain rfl := hleads.unique hv'
      cases rest with
      | nil =>
          obtain rfl := (Leads.done hleads.dir_end).unique hgo
          exact ((hfaces w).resolve_left hw).1
      | cons part rest =>
          have hpart := isName_of_proper (hrest part List.mem_cons_self)
          have hsome := DiskM.isSome_of_leads_name hgo hpart
          rw [hhollow _ (inside_concat v part [])] at hsome
          cases hsome

/-- In the directory itself nothing came. -/
theorem Grown.inside (h : Grown dir d d') {v w : List String}
    (hleads : Leads d'.root.look [] (d'.trail dir) v) (hw : Inside v w) :
    d'.root.look w = d.root.look w := by
  by_contra hne
  exact hw.2 ((h.above v hleads w hne).eq_of_length_le hw.1.length_le)

end Raised

end Disk

namespace DiskM

open Disk

theorem ends_makeDirs_raised (dir : String) (d : Disk) :
    Ends (makeDirs dir) d (fun _ => Raised dir d) (Raised dir d) := by
  refine ends_makeEach (fun s hs d' hd' => ?_) (Or.inl (Like.refl d))
  obtain ⟨ps, name, rest, hps, rfl⟩ := mem_stages hs
  refine (ends_makeDir d' (clean_stage hps)).mono ?_ fun _ h => hd'.of_like h
  rintro - d'' (⟨rfl, -⟩ | ⟨mid, hmid, hname, hmade⟩)
  · exact hd'
  · exact hd'.made hps hmid hname hmade

end DiskM

end InstallerLint
