import InstallerLint.Proofs.Disk.Directory
import InstallerLint.Proofs.Disk.Outcome
import InstallerLint.Proofs.Order
import Mathlib.Data.List.Nodup
import Mathlib.Data.List.Perm.Subperm

/-!
# Whole files or nothing

A file that is written as a whole is first a new one with a temporary name beside the target.  Its name
is taken by nothing (`freshName_not_mem`), so until it is renamed it is the only thing that came into the
directory, and taking it away leaves everything as it was.

**Failures.**  The steps on the new file take it away when they fail, and this fails in turn only if the
disk breaks again at once.  The last step, which gives it the name of the target, does not: when it
fails, the new file stays with all of its content (`writeWhole_outcome`).
-/

namespace InstallerLint

namespace Disk

/-- Everything stands as before. -/
structure Kept (d d' : Disk) : Prop where
  cwd : d'.cwd = d.cwd
  failures : d'.failures <:+ d.failures
  faces : ∀ w, d'.root.look w = d.root.look w

/-- A file with a content stands at a way, and everything else as before. -/
structure Holding (d : Disk) (way : List String) (content : Bytes) (d' : Disk) : Prop where
  cwd : d'.cwd = d.cwd
  failures : d'.failures <:+ d.failures
  file : ∃ time, d'.root.look way = some (.file content time)
  others : ∀ w, w ≠ way → d'.root.look w = d.root.look w

/-- A name in a directory that is reached, under which nothing stands. -/
structure Vacant (d : Disk) (dir : String) (v : List String) (name : String) : Prop where
  reached : d.Reached dir v
  proper : Path.Proper name
  free : d.root.look (v ++ [name]) = none

/-- The disk is to break at two operations in a row. -/
def BreaksTwice (d : Disk) : Prop := ∃ before rest, d.failures = before ++ true :: true :: rest

/-- What a failed step on a new file leaves: nothing new, or the file if the disk breaks at once again. -/
def Cleared (d : Disk) (w : List String) (e : DiskError) (d' : Disk) : Prop :=
  e.operation ≠ "rename" ∧ (Kept d d' ∨ BreaksTwice d ∧ ∃ content, Holding d w content d')

section Leaf

variable {root : Entry} {v : List String} {name : String} {content : Bytes} {time : Int}

theorem get?_eq_file_of_look {way : List String} (h : root.look way = some (.file content time)) :
    root.get? way = some (.file content time) := by
  obtain ⟨e, he, hface⟩ := Option.map_eq_some_iff.mp h
  cases e with
  | file content' time' =>
      cases hface
      exact he
  | dir es => cases hface
  | link target => cases hface

/-- Below something that is no directory there is nothing. -/
theorem look_below_eq_none {way w : List String} (h : root.look way ≠ some (.dir []))
    (hpre : way <+: w) (hne : w ≠ way) : root.look w = none := by
  obtain ⟨rest, rfl⟩ := hpre
  have hrest : rest ≠ [] := by
    rintro rfl
    exact hne (List.append_nil way)
  rw [← Option.not_isSome_iff_eq_none]
  exact fun hsome => h (Entry.look_eq_dir_of_look_append hrest hsome)

/-- A file that is put where no directory stands shows nowhere else. -/
theorem look_put_file (hdir : root.look v = some (.dir []))
    (hnot : root.look (v ++ [name]) ≠ some (.dir [])) {w : List String} (hne : w ≠ v ++ [name]) :
    (root.put (v ++ [name]) (.file content time)).look w = root.look w := by
  by_cases hpre : v ++ [name] <+: w
  · have hthere : (root.put (v ++ [name]) (.file content time)).look (v ++ [name]) =
        some (.file content time) := look_put_name (d := { root := root }) hdir _
    rw [look_below_eq_none hnot hpre hne, look_below_eq_none (by rw [hthere]; nofun) hpre hne]
  · exact Entry.look_put_of_not_prefix _ hpre

/-- What is no directory is taken away alone. -/
theorem look_erase_leaf (hnot : root.look (v ++ [name]) ≠ some (.dir [])) {w : List String}
    (hne : w ≠ v ++ [name]) : (root.erase (v ++ [name])).look w = root.look w := by
  by_cases hpre : v ++ [name] <+: w
  · have hgone : (root.erase (v ++ [name])).look (v ++ [name]) = none := look_erase_name root
    rw [look_below_eq_none hnot hpre hne, look_below_eq_none (by rw [hgone]; nofun) hpre hne]
  · exact Entry.look_erase_of_not_prefix hpre

end Leaf

section Changes

variable {b d d' d'' : Disk} {dir name : String} {v w : List String} {content old : Bytes}

theorem Later.kept (h : Later d d') : Kept d d' := ⟨h.cwd, h.failures, fun _ => by rw [h.root]⟩

theorem Kept.holding (h : Kept d d') (h' : Holding d' w content d'') : Holding d w content d'' where
  cwd := h'.cwd.trans h.cwd
  failures := h'.failures.trans h.failures
  file := h'.file
  others := fun x hx => (h'.others x hx).trans (h.faces x)

theorem Holding.kept (h : Holding d w content d') (h' : Kept d' d'') : Holding d w content d'' where
  cwd := h'.cwd.trans h.cwd
  failures := h'.failures.trans h.failures
  file := h.file.imp fun _ hfile => (h'.faces w).trans hfile
  others := fun x hx => (h'.faces x).trans (h.others x hx)

theorem Holding.trans (h : Holding d w old d') (h' : Holding d' w content d'') :
    Holding d w content d'' where
  cwd := h'.cwd.trans h.cwd
  failures := h'.failures.trans h.failures
  file := h'.file
  others := fun x hx => (h'.others x hx).trans (h.others x hx)

/-- Setting a file under a name where no directory stands. -/
theorem holding_put (hdir : d.root.look v = some (.dir []))
    (hnot : d.root.look (v ++ [name]) ≠ some (.dir [])) (content : Bytes) (time : Int) :
    Holding d (v ++ [name]) content
      { d with root := d.root.put (v ++ [name]) (.file content time) } where
  cwd := rfl
  failures := List.suffix_refl _
  file := ⟨time, look_put_name hdir _⟩
  others := fun _ hw => look_put_file hdir hnot hw

theorem Holding.not_dir (h : Holding b w content d) : d.root.look w ≠ some (.dir []) := by
  obtain ⟨time, hfile⟩ := h.file
  rw [hfile]
  nofun

/-- A new file that is taken away again. -/
theorem Holding.erase (h : Holding b (v ++ [name]) content d) (hfree : b.root.look (v ++ [name]) = none) :
    Kept b { d with root := d.root.erase (v ++ [name]) } where
  cwd := h.cwd
  failures := h.failures
  faces := by
    intro x
    by_cases hx : x = v ++ [name]
    · rw [hx, hfree]
      exact look_erase_name _
    · exact (look_erase_leaf h.not_dir hx).trans (h.others x hx)

/-- A file that is the only thing that came hides nothing. -/
theorem Holding.within (h : Holding b w content d) (hfree : b.root.look w = none) : Within b d where
  cwd := h.cwd
  faces := by
    intro x e he
    by_cases hx : x = w
    · rw [hx, hfree] at he
      cases he
    · rw [h.others x hx, he]

theorem Vacant.way (h : b.Vacant dir v name) (hd : Holding b (v ++ [name]) content d) (last : Bool) :
    d.way last (Path.join [dir, name]) = .ok (v ++ [name]) := by
  obtain ⟨time, hfile⟩ := hd.file
  refine h.reached.way_name (hd.within h.free) h.proper fun _ target hlink => ?_
  rw [hfile] at hlink
  cases hlink

theorem Vacant.get? (h : b.Vacant dir v name) (hd : Holding b (v ++ [name]) content d) :
    ∃ time, d.root.get? (v ++ [name]) = some (.file content time) ∧
      ∀ last, d.find last (Path.join [dir, name]) = .ok (.file content time) := by
  obtain ⟨time, hfile⟩ := hd.file
  have hget := get?_eq_file_of_look hfile
  refine ⟨time, hget, fun last => ?_⟩
  have hway := h.way hd last
  simp only [find, hway, bind, Except.bind, hget]
  rfl

/-- Under a name that a directory does not list, nothing stands in it. -/
theorem look_eq_none_of_not_listed {e : Entry} (hfind : d.find true dir = .ok e) (hdir : e.isDir = true)
    (hget : d.root.get? v = some e) (hname : name ∉ d.names dir) : d.root.look (v ++ [name]) = none := by
  cases e with
  | file content time => cases hdir
  | link target => cases hdir
  | dir es =>
      rw [Entry.look_concat _ hget, Option.map_eq_none_iff, List.lookup_eq_none_iff]
      intro p hp
      rw [names, hfind] at hname
      refine bne_iff_ne.mpr fun heq => hname ?_
      rw [heq]
      exact (Order.sort_perm _).mem_iff.mpr (List.mem_map_of_mem hp)

theorem Grown.kept (h : Grown dir d d') (h' : Kept d' d'') : Grown dir d d'' := by
  have hlook : d''.root.look = d'.root.look := funext h'.faces
  have htrail : d''.trail dir = d'.trail dir := by rw [trail, trail, origin_congr h'.cwd]
  refine ⟨h'.cwd.trans h.cwd, ?_, ?_, ?_⟩
  · rw [hlook]
    exact h.faces
  · rw [hlook, origin_congr h'.cwd]
    exact h.onWay
  · rw [hlook, htrail]
    exact h.above

theorem BreaksTwice.of_suffix (h : d'.BreaksTwice) (hlater : d'.failures <:+ d.failures) :
    d.BreaksTwice := by
  obtain ⟨before, rest, hrest⟩ := h
  obtain ⟨more, hmore⟩ := hlater
  exact ⟨more ++ before, rest, by rw [← hmore, hrest, List.append_assoc]⟩

end Changes

end Disk

namespace DiskM

open Disk

section Fresh

variable {stem : String} {taken : List String}

theorem mem_of_freshName_mem {fuel number : Nat} (h : freshName stem taken fuel number ∈ taken) {k : Nat}
    (hk : k ≤ fuel) : stem ++ toString (number + k) ∈ taken := by
  induction fuel generalizing number k with
  | zero =>
      obtain rfl := Nat.le_zero.mp hk
      exact h
  | succ fuel ih =>
      unfold freshName at h
      dsimp only at h
      split_ifs at h with hcontains
      · cases k with
        | zero => exact List.contains_iff_mem.mp hcontains
        | succ k =>
            rw [Nat.add_comm k, ← Nat.add_assoc]
            exact ih h (Nat.le_of_succ_le_succ hk)
      · exact absurd (List.contains_iff_mem.mpr h) hcontains

/-- More names are tried than are taken. -/
theorem freshName_not_mem {fuel number : Nat} (hfuel : taken.length ≤ fuel) :
    freshName stem taken fuel number ∉ taken := by
  intro h
  -- then every name that is tried is taken, and these are one more than can be
  have hnodup : ((List.range (fuel + 1)).map fun k => stem ++ toString (number + k)).Nodup := by
    refine List.Nodup.map (fun i j hij => ?_) List.nodup_range
    exact Nat.add_left_cancel (Json.toString_nat_inj ((String.append_right_inj stem).mp hij))
  have hsub : ((List.range (fuel + 1)).map fun k => stem ++ toString (number + k)) ⊆ taken := by
    intro s hs
    obtain ⟨k, hk, rfl⟩ := List.mem_map.mp hs
    exact mem_of_freshName_mem h (Nat.lt_succ_iff.mp (List.mem_range.mp hk))
  have hle := (hnodup.subperm hsub).length_le
  rw [List.length_map, List.length_range] at hle
  omega

end Fresh

section Steps

variable {b d : Disk} {dir name temp stem : String} {v : List String} {content old : Bytes}

/-- A new file gets a name that nothing has. -/
theorem runs_createTemp (hclean : Path.clean dir = dir)
    (hproper : ∀ k : Nat, Path.Proper (stem ++ toString k)) (d : Disk) :
    Runs (createTemp dir stem) d
      (fun path d' => ∃ (v : List String) (k : Nat), path = Path.join [dir, stem ++ toString k] ∧
        d.Vacant dir v (stem ++ toString k) ∧ Holding d (v ++ [stem ++ toString k]) [] d')
      (fun e d' => e.operation = "open" ∧ Kept d d') := by
  obtain ⟨k, hk⟩ := freshName_eq stem (d.names dir) ((d.names dir).length + 1) 1
  have hfresh : stem ++ toString k ∉ d.names dir := hk ▸ freshName_not_mem (Nat.le_succ _)
  unfold createTemp
  refine runs_get_then ?_
  rw [hk]
  refine ((runs_attempt _ _ d).mono (fun _ _ h => h) ?_).bind fun _ d' hlater => ?_
  · exact fun _ _ h => ⟨h.1, h.2.1.kept⟩
  dsimp only
  split
  · exact ⟨rfl, hlater.kept⟩
  rename_i e hfind
  split_ifs with hdir
  swap
  · exact ⟨rfl, hlater.kept⟩
  obtain ⟨v, hreached, hget⟩ := reached_of_find hclean hfind hdir
  have hfree := look_eq_none_of_not_listed hfind hdir hget hfresh
  have hway : d'.way false (Path.join [dir, stem ++ toString k]) = .ok (v ++ [stem ++ toString k]) :=
    hreached.way_name ⟨hlater.cwd, fun w e he => by rw [hlater.root, he]⟩ (hproper k) nofun
  refine runs_wayTo_then hway ?_
  have hdir' : d'.root.look v = some (.dir []) := by
    rw [hlater.root]
    exact hreached.leads.dir_end
  refine ⟨v, k, rfl, ⟨hreached, hproper k, hfree⟩, hlater.kept.holding (holding_put hdir' ?_ _ _)⟩
  rw [hlater.root, hfree]
  nofun

/-- Writing to a new file fails only if the disk breaks. -/
theorem runs_write (content : Bytes) (h : b.Vacant dir v temp) (hd : Holding b (v ++ [temp]) old d) :
    Runs (write (Path.join [dir, temp]) content) d
      (fun _ d' => Holding b (v ++ [temp]) content d')
      (fun e d' => e.operation = "write" ∧ Holding b (v ++ [temp]) old d' ∧
        d.failures = true :: d'.failures) := by
  refine ((runs_attempt _ _ d).mono (fun _ _ h => h) ?_).bind fun _ d' hlater => ?_
  · exact fun _ _ h => ⟨h.1, hd.kept h.2.1.kept, h.2.2⟩
  have hd' := hd.kept hlater.kept
  obtain ⟨time, hget, -⟩ := h.get? hd'
  refine runs_get_then ?_
  rw [h.way hd' true]
  dsimp only
  rw [hget]
  have hdir : d'.root.look v = some (.dir []) := (hd'.within h.free).faces _ _ h.reached.leads.dir_end
  exact ⟨hd'.trans (holding_put hdir hd'.not_dir content d'.now)⟩

/-- Taking away a new file fails only if the disk breaks. -/
theorem runs_discard (h : b.Vacant dir v temp) (hd : Holding b (v ++ [temp]) content d) :
    Runs (discard (Path.join [dir, temp])) d
      (fun _ d' => Kept b d' ∨ Holding b (v ++ [temp]) content d' ∧ d.failures = true :: d'.failures)
      fun _ _ => False := by
  have hremove : Runs (remove (Path.join [dir, temp])) d (fun _ d' => Kept b d')
      (fun _ d' => Holding b (v ++ [temp]) content d' ∧ d.failures = true :: d'.failures) := by
    refine ((runs_attempt _ _ d).mono (fun _ _ h => h) ?_).bind fun _ d' hlater => ?_
    · exact fun _ _ h => ⟨hd.kept h.2.1.kept, h.2.2⟩
    have hd' := hd.kept hlater.kept
    obtain ⟨time, -, hfind⟩ := h.get? hd'
    refine runs_get_then ?_
    rw [hfind false]
    refine runs_ok_then (runs_wayTo_then (h.way hd' false) ?_)
    exact ⟨hd'.erase h.free⟩
  exact (hremove.mono (fun _ _ h => .inl h) fun _ _ h => h).tryCatch fun _ _ h => runs_pure (.inr h)

/-- A step on a new file that fails only if the disk breaks takes the file with it, unless the disk breaks
again. -/
theorem runs_onTemp {step : DiskM Unit} {operation : String} {good : Unit → Disk → Prop}
    (h : b.Vacant dir v temp) (hd : Holding b (v ++ [temp]) old d) (hother : operation ≠ "rename")
    (hstep : Runs step d good fun e d' => e.operation = operation ∧ Holding b (v ++ [temp]) old d' ∧
      d.failures = true :: d'.failures) :
    Runs (onTemp (Path.join [dir, temp]) step) d good (Cleared b (v ++ [temp])) := by
  refine hstep.tryCatch ?_
  rintro e d' ⟨hname, hd', hfailures⟩
  refine ((runs_discard h hd').mono (fun _ _ h => h) fun _ _ h => h.elim).bind fun _ d'' hd'' => ?_
  refine runs_throw ⟨hname ▸ hother, hd''.imp_right ?_⟩
  rintro ⟨hstays, hagain⟩
  obtain ⟨before, hbefore⟩ := hd.failures
  exact ⟨⟨before, d''.failures, by rw [← hbefore, hfailures, hagain]⟩, old, hstays⟩

theorem runs_onTemp_attempt (operation : String) (h : b.Vacant dir v temp)
    (hd : Holding b (v ++ [temp]) content d) (hother : operation ≠ "rename") :
    Runs (onTemp (Path.join [dir, temp]) (attempt operation (Path.join [dir, temp]))) d
      (fun _ d' => Holding b (v ++ [temp]) content d') (Cleared b (v ++ [temp])) := by
  refine runs_onTemp h hd hother ((runs_attempt _ _ d).mono (fun _ _ h => hd.kept h.kept) ?_)
  exact fun _ _ h => ⟨h.1, hd.kept h.2.1.kept, h.2.2⟩

/-- A new file gets another name; if this fails, it stays as it is. -/
theorem runs_rename (h : b.Vacant dir v temp) (hname : Path.Proper name) (hne : temp ≠ name)
    (hd : Holding b (v ++ [temp]) content d) :
    Runs (rename (Path.join [dir, temp]) (Path.join [dir, name])) d
      (fun _ d' => Holding b (v ++ [name]) content d')
      (fun e d' => e.operation = "rename" ∧ Holding b (v ++ [temp]) content d') := by
  refine ((runs_attempt _ _ d).mono (fun _ _ h => h) ?_).bind fun _ d' hlater => ?_
  · exact fun _ _ h => ⟨h.1, hd.kept h.2.1.kept⟩
  have hd' := hd.kept hlater.kept
  obtain ⟨time, hget, hfind⟩ := h.get? hd'
  have htarget : d'.way false (Path.join [dir, name]) = .ok (v ++ [name]) :=
    h.reached.way_name (hd'.within h.free) hname nofun
  refine runs_get_then ?_
  rw [hfind false, h.way hd' false, htarget]
  refine runs_ok_then (runs_ok_then (runs_ok_then ?_))
  split_ifs with hdir
  · exact ⟨rfl, hd'⟩
  have herased := hd'.erase h.free
  have hother : v ++ [name] ≠ v ++ [temp] := fun heq => hne (by simpa using heq.symm)
  refine ⟨herased.holding (holding_put ?_ ?_ content time)⟩
  · exact (herased.faces v).trans h.reached.leads.dir_end
  · rw [herased.faces, ← hd'.others _ hother]
    intro hface
    obtain ⟨es, hes⟩ := get?_eq_dir_of_look hface
    rw [hes] at hdir
    exact hdir rfl

end Steps

section WriteWhole

variable {b d : Disk} {dir name temp : String} {v : List String} {content : Bytes}

/-- A new file gets its content and the name of the target. -/
theorem runs_fill (h : b.Vacant dir v temp) (hname : Path.Proper name) (hne : temp ≠ name)
    (hd : Holding b (v ++ [temp]) [] d) :
    Runs (do
        onTemp (Path.join [dir, temp]) (write (Path.join [dir, temp]) content)
        onTemp (Path.join [dir, temp]) (attempt "sync" (Path.join [dir, temp]))
        onTemp (Path.join [dir, temp]) (attempt "close" (Path.join [dir, temp]))
        rename (Path.join [dir, temp]) (Path.join [dir, name])) d
      (fun _ d' => Holding b (v ++ [name]) content d')
      (fun e d' => Cleared b (v ++ [temp]) e d' ∨
        e.operation = "rename" ∧ Holding b (v ++ [temp]) content d') := by
  have hwrite := runs_onTemp h hd (by decide) (runs_write content h hd)
  refine (hwrite.mono (fun _ _ h => h) fun _ _ => .inl).bind fun _ d₁ h₁ => ?_
  have hsync := runs_onTemp_attempt "sync" h h₁ (by decide)
  refine (hsync.mono (fun _ _ h => h) fun _ _ => .inl).bind fun _ d₂ h₂ => ?_
  have hclose := runs_onTemp_attempt "close" h h₂ (by decide)
  refine (hclose.mono (fun _ _ h => h) fun _ _ => .inl).bind fun _ d₃ h₃ => ?_
  exact (runs_rename h hname hne h₃).mono (fun _ _ h => h) fun _ _ => .inr

theorem temp_ne (name : String) (k : Nat) : ".tmp-" ++ name ++ "-" ++ toString k ≠ name := by
  intro h
  have hlen := congrArg (fun s : String => s.toList.length) h
  simp only [toList_temp, List.length_append] at hlen
  rw [show ".tmp-".toList.length = 5 from rfl] at hlen
  omega

/-- What a write of a whole file leaves when it fails: nothing but the way to it, the new file with all of
its content when it did not get its name, or the new file when the disk broke twice in a row. -/
inductive Leaves (dir name : String) (content : Bytes) (d : Disk) (e : DiskError) (d' : Disk) : Prop
  | nothing (earlier : e.operation ≠ "rename") (grown : Grown dir d d')
  | unnamed (last : e.operation = "rename") (b : Disk) (v : List String) (temp : String)
      (grown : Grown dir d b) (vacant : b.Vacant dir v temp) (new : Temporary temp ∧ temp ≠ name)
      (holding : Holding b (v ++ [temp]) content d')
  | uncleared (earlier : e.operation ≠ "rename") (twice : d.BreaksTwice) (b : Disk) (v : List String)
      (temp : String) (left : Bytes) (grown : Grown dir d b) (vacant : b.Vacant dir v temp)
      (new : Temporary temp ∧ temp ≠ name) (holding : Holding b (v ++ [temp]) left d')

/-- A file is written as a whole, or one of three things is left. -/
theorem runs_writeWhole (hclean : Path.clean dir = dir) (hname : Path.Proper name) (content : Bytes)
    (d : Disk) :
    Runs (writeWhole dir name content) d
      (fun _ d' => ∃ b v, Grown dir d b ∧ b.Reached dir v ∧ Holding b (v ++ [name]) content d')
      (Leaves dir name content d) := by
  have hdirs := (ends_makeDirs_raised dir d).runs.and (named_makeDirs dir d)
  refine (hdirs.mono (fun _ _ h => h) ?_).bind ?_
  · rintro e d' ⟨hraised, hop, -⟩
    exact .nothing (hop ▸ (by decide)) hraised.grown
  rintro - b ⟨hraised, hfailures⟩
  have hgrown := hraised.grown
  refine ((runs_createTemp hclean (proper_temp hname) b).mono (fun _ _ h => h) ?_).bind ?_
  · rintro e d' ⟨hop, hkept⟩
    exact .nothing (hop ▸ (by decide)) (hgrown.kept hkept)
  rintro path d₁ ⟨v, k, rfl, hvacant, hd₁⟩
  have hnew : Temporary (".tmp-" ++ name ++ "-" ++ toString k) ∧
      ".tmp-" ++ name ++ "-" ++ toString k ≠ name := ⟨temporary_temp name k, temp_ne name k⟩
  refine (runs_fill hvacant hname hnew.2 hd₁).mono (fun _ _ h => ⟨b, v, hgrown, hvacant.reached, h⟩) ?_
  rintro e d' (⟨hop, hkept | ⟨htwice, left, hleft⟩⟩ | ⟨hop, hleft⟩)
  · exact .nothing hop (hgrown.kept hkept)
  · exact .uncleared hop (htwice.of_suffix hfailures) b v _ left hgrown hvacant hnew hleft
  · exact .unnamed hop b v _ hgrown hvacant hnew hleft

/-- A new file beside the target leaves the target alone. -/
theorem look_target {u : List String} {left : Bytes} {d' : Disk} (hgrown : Grown dir d b)
    (hvacant : b.Vacant dir v temp) (hne : temp ≠ name) (hleft : Holding b (v ++ [temp]) left d')
    (hu : Leads d'.root.look [] (d'.trail dir) u) :
    d'.root.look (u ++ [name]) = d.root.look (u ++ [name]) := by
  have htrail : d'.trail dir = b.trail dir := by rw [trail, trail, origin_congr hleft.cwd]
  rw [htrail] at hu
  have hv := hvacant.reached.leads
  obtain rfl := hu.unique (hv.mono (hleft.within hvacant.free).faces)
  rw [hleft.others _ fun heq => hne (by simpa using heq.symm)]
  exact hgrown.inside hv (inside_concat u name [])

/-- **Whole files or nothing.**  If a file is written, it has its content, and everything else is as
before but for directories that were made on the way to it.  If this fails, what stood under its name
still does, and nothing else came but such directories; only if the new file cannot get the name of the
target does it stay, with all of its content, and if the disk breaks twice in a row. -/
theorem writeWhole_outcome (hclean : Path.clean dir = dir) (hname : Path.Proper name) (content : Bytes)
    (d : Disk) :
    Runs (writeWhole dir name content) d
      (fun _ d' => ∃ b v, Grown dir d b ∧ b.Reached dir v ∧ Holding b (v ++ [name]) content d')
      (fun e d' => Leaves dir name content d e d' ∧
        ∀ u, Leads d'.root.look [] (d'.trail dir) u →
          d'.root.look (u ++ [name]) = d.root.look (u ++ [name])) := by
  refine (runs_writeWhole hclean hname content d).mono (fun _ _ h => h) fun e d' h => ⟨h, fun u hu => ?_⟩
  cases h with
  | nothing earlier grown => exact grown.inside hu (inside_concat u name [])
  | unnamed last b v temp grown vacant new holding =>
      exact look_target grown vacant new.2 holding hu
  | uncleared earlier twice b v temp left grown vacant new holding =>
      exact look_target grown vacant new.2 holding hu

/-- A directory with something in it keeps its name, and a file with the content stays where nothing
was. -/
theorem writeWhole_outcome_taken :
    let d : Disk := { root := .dir [("c", .dir [("n", .dir [("x", .file [] 0)])])] }
    ∃ e d' w time, writeWhole "/c" "n" [65] d = .error e d' ∧ e.operation = "rename" ∧
      d.root.look w = none ∧ d'.root.look w = some (.file [65] time) := by
  intro d
  have hfails : EStateM.Result.casesOn (motive := fun _ => Bool) (writeWhole "/c" "n" [65] d)
      (fun _ _ => false) (fun e _ => decide (e.operation = "rename")) = true := by decide +kernel
  have houtcome := @writeWhole_outcome "/c" "n" (by decide) (by decide) [65] d
  rcases houtcome.ok_or_error with ⟨_, d', hrun, -⟩ | ⟨e, d', hrun, hleaves, -⟩
  · rw [hrun] at hfails
    cases hfails
  · rw [hrun] at hfails
    have hop : e.operation = "rename" := of_decide_eq_true hfails
    cases hleaves with
    | nothing earlier grown => exact absurd hop earlier
    | unnamed last b v temp grown vacant new holding =>
        obtain ⟨time, hfile⟩ := holding.file
        refine ⟨e, d', v ++ [temp], time, hrun, hop, ?_, hfile⟩
        rcases grown.faces (v ++ [temp]) with hsame | ⟨hnone, -⟩
        · rw [← hsame, vacant.free]
        · exact hnone
    | uncleared earlier twice b v temp left grown vacant new holding => exact absurd hop earlier

end WriteWhole

end DiskM

end InstallerLint
