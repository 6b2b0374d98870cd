import InstallerLint.Disk.Write
import InstallerLint.Proofs.Disk.Follow
import InstallerLint.Proofs.Path

/-!
# Where a directory stands

The `trail` of a directory are the parts that lead to it from the root of the disk.  A directory is
`Seated` at a way when its trail leads there without passing through what the directory itself
holds; so it stays there whatever is done inside it.

**Directories that are found.**  A directory is `Reached` when more than one step is left where its path
ends.  Then the names in it are found as well, on every disk on which the same things stand on the way:
one step more leads to a name, and another one to what stands there (`Reached.way_name`).  A path with
one more name has more steps than the path of the directory, so every directory that is found is reached
(`reached_of_find`).
-/

namespace InstallerLint
namespace Disk

/-- Whether a way lies inside the directory at another. -/
def Inside (v way : List String) : Prop := v <+: way ∧ way ≠ v

theorem inside_concat (v : List String) (name : String) (rest : List String) :
    Inside v (v ++ name :: rest) := by
  refine ⟨List.prefix_append _ _, fun h => ?_⟩
  simp at h

theorem Inside.of_concat {v way : List String} {name : String} (h : Inside (v ++ [name]) way) :
    Inside v way := by
  refine ⟨(List.prefix_append _ _).trans h.1, ?_⟩
  rintro rfl
  have hlen := h.1.length_le
  rw [List.length_append, List.length_singleton] at hlen
  omega

open Classical in
/-- Faces with nothing inside the directory at a way. -/
noncomputable def hollow (v : List String) (faces : List String → Option Entry) (way : List String) :
    Option Entry :=
  if Inside v way then none else faces way

/-- The parts in front of those of a path: none but the root, or those of the working directory. -/
def origin (d : Disk) (rooted : Bool) : List String := if rooted then [""] else Path.parts d.cwd

/-- The parts that lead to a directory. -/
def trail (d : Disk) (dir : String) : List String :=
  d.origin (Path.isAbs dir) ++ Path.cleanParts dir

/-- A directory stands at a way, and its trail does not pass through it. -/
def Seated (d : Disk) (dir : String) (v : List String) : Prop :=
  Leads (hollow v d.root.look) [] (d.trail dir) v

section Hollow

variable {v way : List String} {faces faces' : List String → Option Entry} {e : Entry}

theorem of_hollow (h : hollow v faces way = some e) : ¬ Inside v way ∧ faces way = some e := by
  unfold hollow at h
  split_ifs at h with hin
  exact ⟨hin, h⟩

theorem hollow_eq_some (hin : ¬ Inside v way) (h : faces way = some e) :
    hollow v faces way = some e := by
  rwa [hollow, if_neg hin]

theorem hollow_congr (h : ∀ way, ¬ Inside v way → faces way = faces' way) :
    hollow v faces = hollow v faces' := by
  funext way
  unfold hollow
  split_ifs with hin
  · rfl
  · exact h way hin

end Hollow

section Seated

variable {d d' : Disk} {dir name : String} {v : List String}

theorem isName_of_proper (h : Path.Proper name) : IsName name :=
  ⟨by simp [isIdle, h.ne_empty, h.ne_dot], h.ne_up⟩

theorem trail_join (d : Disk) (dir : String) (h : Path.Proper name) :
    d.trail (Path.join [dir, name]) = d.trail dir ++ [name] := by
  rw [trail, trail, Path.isAbs_join h, Path.cleanParts_join h, List.append_assoc]

/-- The parts of a written path, counted from the root. -/
theorem parts_fromCwd_ofParts {rooted : Bool} {ps : List String} (h : Path.Clean rooted ps)
    (hne : ps ≠ []) : Path.parts (d.fromCwd (Path.ofParts rooted ps)) = d.origin rooted ++ ps := by
  rw [fromCwd, origin, Path.isAbs_ofParts h]
  cases rooted with
  | true =>
      rw [if_pos rfl, if_pos rfl, Path.parts_ofParts h hne]
      rfl
  | false =>
      rw [if_neg (by decide), if_neg (by decide), Path.parts_append, Path.parts_ofParts h hne]
      rfl

theorem way_ofParts (last : Bool) {rooted : Bool} {ps : List String} (h : Path.Clean rooted ps)
    (hne : ps ≠ []) : d.way last (Path.ofParts rooted ps) =
      follow d.root last (stepLimit (d.origin rooted ++ ps).length) linkLimit []
        (d.origin rooted ++ ps) := by
  rw [way, if_neg (Path.ofParts_ne_empty h), parts_fromCwd_ofParts h hne]

theorem way_join (last : Bool) (d : Disk) (dir : String) (h : Path.Proper name) :
    d.way last (Path.join [dir, name]) =
      follow d.root last (stepLimit (d.trail dir ++ [name]).length) linkLimit []
        (d.trail dir ++ [name]) := by
  rw [Path.join_proper dir h, way_ofParts last ((Path.clean_cleanParts dir).concat h) (by simp),
    trail, List.append_assoc]

theorem look_ne_link {root : Entry} {way : List String} {content : Bytes} {time : Int}
    (h : root.look way = some (.file content time)) (target : String) :
    root.look way ≠ some (.link target) := by
  rw [h]
  exact nofun

theorem exists_way_of_find {last : Bool} {path : String} {e : Entry}
    (h : d.find last path = .ok e) : ∃ w, d.way last path = .ok w ∧ d.root.get? w = some e := by
  unfold find at h
  cases hway : d.way last path with
  | error r =>
      rw [hway] at h
      cases h
  | ok w =>
      simp only [hway, bind, Except.bind] at h
      cases hget : d.root.get? w with
      | none =>
          rw [hget] at h
          cases h
      | some e' =>
          rw [hget] at h
          cases h
          exact ⟨w, rfl, hget⟩

theorem read_of_way {path : String} {w : List String} (hway : d.way true path = .ok w)
    {content : Bytes} {time : Int} (hlook : d.root.look w = some (.file content time)) :
    d.read path = .ok content := by
  obtain ⟨e, he, hface⟩ := Option.map_eq_some_iff.mp hlook
  have hfind : d.find true path = .ok e := by
    simp only [Disk.find, hway, bind, Except.bind, he]
    rfl
  cases e with
  | file content' time' =>
      obtain ⟨rfl, -⟩ := Entry.file.inj hface
      rw [Disk.read, hfind]
  | dir es => cases hface
  | link target => cases hface

theorem Seated.leads (h : d.Seated dir v) : Leads d.root.look [] (d.trail dir) v :=
  h.mono fun _ _ he => (of_hollow he).2

theorem Seated.look_eq (h : d.Seated dir v) : d.root.look v = some (.dir []) := h.leads.dir_end

/-- A directory stays where it is when only something inside it changes. -/
theorem Seated.congr (h : d.Seated dir v) (hcwd : d'.cwd = d.cwd)
    (hlook : ∀ way, ¬ Inside v way → d'.root.look way = d.root.look way) : d'.Seated dir v := by
  unfold Seated trail origin
  rw [hcwd, hollow_congr hlook]
  exact h

/-- A directory in a seated one is seated. -/
theorem Seated.join (h : d.Seated dir v) (hname : Path.Proper name)
    (hdir : d.root.look (v ++ [name]) = some (.dir [])) :
    d.Seated (Path.join [dir, name]) (v ++ [name]) := by
  have hleads : Leads (hollow (v ++ [name]) d.root.look) [] (d.trail dir) v := by
    refine h.mono fun way e he => ?_
    obtain ⟨hin, he⟩ := of_hollow he
    exact hollow_eq_some (fun hin' => hin hin'.of_concat) he
  have hself : ¬ Inside (v ++ [name]) (v ++ [name]) := fun hin => hin.2 rfl
  unfold Seated
  rw [trail_join d dir hname]
  exact hleads.append (.name hleads.dir_end (isName_of_proper hname) (hollow_eq_some hself hdir))

/-- The way to a name in a seated directory, unless the disk gives up. -/
theorem Seated.way_name (h : d.Seated dir v) (hname : Path.Proper name)
    (hlink : ∀ target, d.root.look (v ++ [name]) ≠ some (.link target)) (last : Bool) :
    d.way last (Path.join [dir, name]) = .error .tooManyLinks ∨
      d.way last (Path.join [dir, name]) = .ok (v ++ [name]) := by
  rw [way_join last d dir hname]
  rcases follow_of_leads last h.leads [name] (Or.inl (by simp)) _ linkLimit
    with hgive | ⟨fuel', links', hgo⟩
  · exact Or.inl hgive
  · rw [hgo, follow_name h.look_eq (isName_of_proper hname) hlink]
    split_ifs
    · exact Or.inl rfl
    · exact Or.inr rfl

/-- What is left of the bounds in a seated directory is the same for all names, and on all disks
that differ only inside it. -/
theorem Seated.way_arrival (h : d.Seated dir v) :
    ∃ left : Option (Nat × Nat), ∀ (d' : Disk) (last : Bool) (name : String), d'.cwd = d.cwd →
      (∀ way, ¬ Inside v way → d'.root.look way = d.root.look way) → Path.Proper name →
      d'.way last (Path.join [dir, name]) =
        match left with
        | none => .error .tooManyLinks
        | some (fuel, links) => follow d'.root last fuel links v [name] := by
  obtain ⟨left, hleft⟩ := follow_through h (stepLimit ((d.trail dir).length + 1)) linkLimit
  refine ⟨left, fun d' last name hcwd hagree hname => ?_⟩
  have htrail : d'.trail dir = d.trail dir := by rw [trail, trail, origin, origin, hcwd]
  rw [way_join last d' dir hname, htrail, List.length_append, List.length_singleton]
  refine hleft d'.root last [name] (fun way e he => ?_) (Or.inl (by simp))
  obtain ⟨hin, hlook⟩ := of_hollow he
  rw [hagree way hin, hlook]

/-- The ways to two names where something stands, or to two where nothing does, are found or not
alike, also on disks that differ only inside the directory. -/
theorem Seated.giveUp_iff (h : d.Seated dir v) {old new : String} (hold : Path.Proper old)
    (hnew : Path.Proper new) (hlink : ∀ target, d.root.look (v ++ [old]) ≠ some (.link target))
    (hlink' : ∀ target, d'.root.look (v ++ [new]) ≠ some (.link target)) (hcwd : d'.cwd = d.cwd)
    (hagree : ∀ way, ¬ Inside v way → d'.root.look way = d.root.look way)
    (hsame : (d'.root.look (v ++ [new])).isSome = (d.root.look (v ++ [old])).isSome)
    (last last' : Bool) :
    d'.way last' (Path.join [dir, new]) = .error .tooManyLinks ↔
      d.way last (Path.join [dir, old]) = .error .tooManyLinks := by
  obtain ⟨left, hleft⟩ := h.way_arrival
  rw [hleft d' last' new hcwd hagree hnew, hleft d last old rfl (fun _ _ => rfl) hold]
  cases left with
  | none => exact Iff.rfl
  | some bounds =>
      dsimp only
      rw [follow_name (h.congr hcwd hagree).look_eq (isName_of_proper hnew) hlink',
        follow_name h.look_eq (isName_of_proper hold) hlink, hsame]
      split_ifs
      · exact Iff.rfl
      · exact iff_of_false nofun nofun

/-- Where one file of a seated directory was found, every file is read, also when the directory
holds something else by then. -/
theorem Seated.read_of_found (h : d.Seated dir v) {old new : String} (hold : Path.Proper old)
    (hnew : Path.Proper new) {w : List String} {content content' : Bytes} {time time' : Int}
    (hway : d.way false (Path.join [dir, old]) = .ok w)
    (hlook : d.root.look (v ++ [old]) = some (.file content time)) (hcwd : d'.cwd = d.cwd)
    (hagree : ∀ way, ¬ Inside v way → d'.root.look way = d.root.look way)
    (hlook' : d'.root.look (v ++ [new]) = some (.file content' time')) :
    d'.read (Path.join [dir, new]) = .ok content' := by
  have hsame : (d'.root.look (v ++ [new])).isSome = (d.root.look (v ++ [old])).isSome := by
    rw [hlook, hlook']
    rfl
  rcases (h.congr hcwd hagree).way_name hnew (look_ne_link hlook') true with hgive | hthere
  · rw [h.giveUp_iff hold hnew (look_ne_link hlook) (look_ne_link hlook') hcwd hagree hsame false
      true, hway] at hgive
    cases hgive
  · exact read_of_way hthere hlook'

/-- No way leads to a name in a directory that does not exist. -/
theorem Seated.way_missing (h : d.Seated dir v) (hname : Path.Proper name)
    (hnone : d.root.look (v ++ [name]) = none) {inner : String} (hinner : Path.Proper inner)
    (last : Bool) :
    ∃ reason, d.way last (Path.join [Path.join [dir, name], inner]) = .error reason := by
  rw [way_join last d (Path.join [dir, name]) hinner, trail_join d dir hname, List.append_assoc]
  rcases follow_of_leads last h.leads ([name] ++ [inner]) (Or.inl (by simp)) _
    linkLimit with hgive | ⟨fuel', links', hgo⟩
  · exact ⟨_, hgive⟩
  · rw [hgo]
    exact follow_missing h.look_eq (isName_of_proper hname) hnone (by simp) fuel' links'

end Seated

/-- Everything that stands on a disk stands on another one, which counts paths from the same
directory. -/
structure Within (d d' : Disk) : Prop where
  cwd : d'.cwd = d.cwd
  faces : ∀ w e, d.root.look w = some e → d'.root.look w = some e

/-- The path of a directory leads to a way with more than one step left. -/
structure Reached (d : Disk) (dir : String) (v : List String) : Prop where
  leads : Leads d.root.look [] (d.trail dir) v
  left : ∀ d' : Disk, Within d d' → ∀ (name : String) (last : Bool), Path.Proper name →
    ∃ fuel links, d'.way last (Path.join [dir, name]) =
      follow d'.root last (fuel + 2) links v [name]

section Reached

variable {d d' : Disk} {dir name : String} {v : List String} {last : Bool}

/-- The parts of a path without detours are its trail; a path without names has one more part. -/
theorem parts_of_clean (hclean : Path.clean dir = dir) :
    ∃ idle, Path.parts (d.fromCwd dir) = d.trail dir ++ idle ∧
      (idle = [] ∨ ∃ part, idle = [part] ∧ isIdle part = true) := by
  have hwritten : dir = Path.ofParts (Path.isAbs dir) (Path.cleanParts dir) := hclean.symm
  cases hps : Path.cleanParts dir with
  | cons p ps =>
      refine ⟨[], ?_, .inl rfl⟩
      have hparts := parts_fromCwd_ofParts (d := d) (Path.clean_cleanParts dir) (by simp [hps])
      rw [← hwritten] at hparts
      rw [hparts, trail, List.append_nil]
  | nil =>
      rw [hps] at hwritten
      cases hrooted : Path.isAbs dir with
      | true =>
          rw [hrooted] at hwritten
          obtain rfl : dir = "/" := hwritten
          refine ⟨[""], ?_, .inr ⟨"", rfl, rfl⟩⟩
          rw [fromCwd, if_pos hrooted, trail, hrooted, hps, origin, if_pos rfl]
          decide
      | false =>
          rw [hrooted] at hwritten
          obtain rfl : dir = "." := hwritten
          refine ⟨["."], ?_, .inr ⟨".", rfl, rfl⟩⟩
          rw [fromCwd, if_neg (by decide), Path.parts_append, trail, hrooted, hps, List.append_nil]
          exact congrArg (Path.parts d.cwd ++ ·) (by decide)

/-- A directory that is found is reached. -/
theorem reached_of_find (hclean : Path.clean dir = dir) {e : Entry} (h : d.find true dir = .ok e)
    (hdir : e.isDir = true) : ∃ v, d.Reached dir v ∧ d.root.get? v = some e := by
  obtain ⟨v, hway, hget⟩ := exists_way_of_find h
  have hface : d.root.look v = some (.dir []) := by
    rw [Entry.look, hget]
    cases e with
    | dir es => rfl
    | file content time => cases hdir
    | link target => cases hdir
  obtain ⟨idle, hparts, hidle⟩ := parts_of_clean (d := d) hclean
  have hfollow : follow d.root true (stepLimit (d.trail dir ++ idle).length) linkLimit []
      (d.trail dir ++ idle) = .ok v := by
    rw [way] at hway
    split_ifs at hway
    rwa [← hparts]
  have hall := leads_of_follow_dir hfollow hface
  obtain ⟨mid, hleads, hrest⟩ := hall.split rfl
  obtain rfl : mid = v := by
    rcases hidle with rfl | ⟨part, rfl, hpart⟩
    · exact (Leads.done hleads.dir_end).unique hrest
    · exact (Leads.done hleads.dir_end).unique (hrest.of_idle hpart)
  obtain ⟨steps, hops, hcost⟩ := follow_cost hleads
  -- the path of the directory itself is found, so its trail is within the bounds
  have hbounds : steps + 2 ≤ stepLimit ((d.trail dir).length + 1) ∧ hops ≤ linkLimit := by
    rw [hcost _ _ _ _ idle (fun _ _ he => he) (.inr rfl)] at hfollow
    split_ifs at hfollow with hle
    refine ⟨?_, hle.2⟩
    rcases hidle with rfl | ⟨part, rfl, hpart⟩
    · rw [List.append_nil] at hle
      simp only [stepLimit] at hle ⊢
      omega
    · rw [List.length_append, List.length_singleton] at hfollow hle
      obtain ⟨es, hes⟩ := get?_eq_dir_of_look hface
      by_contra hlt
      obtain hnone | hone : stepLimit ((d.trail dir).length + 1) - steps = 0 ∨
          stepLimit ((d.trail dir).length + 1) - steps = 1 := by omega
      · rw [hnone, follow] at hfollow
        cases hfollow
      · rw [hone, follow] at hfollow
        simp [hes, hpart, follow] at hfollow
  refine ⟨mid, ⟨hleads, fun d' hwithin name last hname => ?_⟩, hget⟩
  have htrail : d'.trail dir = d.trail dir := by rw [trail, trail, origin, origin, hwithin.cwd]
  refine ⟨stepLimit ((d.trail dir).length + 1) - steps - 2, linkLimit - hops, ?_⟩
  rw [way_join last d' dir hname, htrail, List.length_append, List.length_singleton,
    hcost _ _ _ _ [name] hwithin.faces (.inl (by simp)), if_pos ⟨by omega, hbounds.2⟩]
  congr 1
  omega

/-- **Names in a directory that is reached are found.** -/
theorem Reached.way_name (h : d.Reached dir v) (hwithin : Within d d') (hname : Path.Proper name)
    (hlink : last = true → ∀ target, d'.root.look (v ++ [name]) ≠ some (.link target)) :
    d'.way last (Path.join [dir, name]) = .ok (v ++ [name]) := by
  obtain ⟨fuel, links, hway⟩ := h.left d' hwithin name last hname
  have hdir := hwithin.faces _ _ h.leads.dir_end
  rw [hway]
  by_cases hany : ∀ target, d'.root.look (v ++ [name]) ≠ some (.link target)
  · rw [follow_name hdir (isName_of_proper hname) hany, if_neg (by omega)]
  · -- a link at the end is the thing itself when it is not followed
    obtain ⟨target, htarget⟩ := not_forall_not.mp hany
    have hlast : last = false := Bool.eq_false_iff.mpr fun hlast => hlink hlast target htarget
    obtain ⟨es, hes⟩ := get?_eq_dir_of_look hdir
    have hentry := lookup_eq_link_of_look hes htarget
    rw [follow]
    simp [hes, (isName_of_proper hname).1, (isName_of_proper hname).2, hentry, hlast]

end Reached

end Disk
end InstallerLint
