import InstallerLint.Disk.Basic
import InstallerLint.Proofs.Disk.Tree
import Mathlib.Tactic.SplitIfs

/-!
# Where a path leads

`Leads` says without any bound on the number of steps that the parts of a path lead from one
directory to another.  It looks at the faces of a tree only, so it holds in every tree that agrees
at the ways it passes.

**Following.**  `Disk.follow` takes the same steps, unless it gives up: the parts that lead to a
directory may be left out in front of what comes behind them (`follow_through`).
-/

namespace InstallerLint
namespace Disk

/-- A part that is a name in a directory. -/
def IsName (part : String) : Prop := isIdle part = false ∧ part ≠ ".."

instance (part : String) : Decidable (IsName part) := inferInstanceAs (Decidable (_ ∧ _))

/-- The parts of a path lead from one directory to another. -/
inductive Leads (faces : List String → Option Entry) :
    (here todo there : List String) → Prop where
  | done {here : List String} (hdir : faces here = some (.dir [])) : Leads faces here [] here
  | stay {here rest there : List String} {part : String} (hdir : faces here = some (.dir []))
      (hpart : isIdle part = true) (h : Leads faces here rest there) :
      Leads faces here (part :: rest) there
  /-- A part that leaves the directory. -/
  | up {here rest there : List String} (hdir : faces here = some (.dir []))
      (h : Leads faces here.dropLast rest there) : Leads faces here (".." :: rest) there
  | link {here rest there : List String} {part target : String}
      (hdir : faces here = some (.dir [])) (hpart : IsName part)
      (hlink : faces (here ++ [part]) = some (.link target))
      (h : Leads faces (if Path.isAbs target then [] else here) (Path.parts target ++ rest) there) :
      Leads faces here (part :: rest) there
  | down {here rest there : List String} {part : String} (hdir : faces here = some (.dir []))
      (hpart : IsName part) (hnext : faces (here ++ [part]) = some (.dir []))
      (h : Leads faces (here ++ [part]) rest there) : Leads faces here (part :: rest) there

namespace Leads

variable {faces : List String → Option Entry} {here p q mid there other : List String}

theorem dir_end (h : Leads faces here p there) : faces there = some (.dir []) := by
  induction h with
  | done hdir => exact hdir
  | stay _ _ _ ih => exact ih
  | up _ _ ih => exact ih
  | link _ _ _ _ ih => exact ih
  | down _ _ _ _ ih => exact ih

theorem dir_start (h : Leads faces here p there) : faces here = some (.dir []) := by
  cases h with
  | done hdir => exact hdir
  | stay hdir _ _ => exact hdir
  | up hdir _ => exact hdir
  | link hdir _ _ _ => exact hdir
  | down hdir _ _ _ => exact hdir

theorem mono {faces' : List String → Option Entry}
    (hfaces : ∀ way e, faces way = some e → faces' way = some e) (h : Leads faces here p there) :
    Leads faces' here p there := by
  induction h with
  | done hdir => exact .done (hfaces _ _ hdir)
  | stay hdir hpart _ ih => exact .stay (hfaces _ _ hdir) hpart ih
  | up hdir _ ih => exact .up (hfaces _ _ hdir) ih
  | link hdir hpart hlink _ ih => exact .link (hfaces _ _ hdir) hpart (hfaces _ _ hlink) ih
  | down hdir hpart hnext _ ih => exact .down (hfaces _ _ hdir) hpart (hfaces _ _ hnext) ih

theorem append (h : Leads faces here p mid) (hq : Leads faces mid q there) :
    Leads faces here (p ++ q) there := by
  induction h with
  | done hdir => exact hq
  | stay hdir hpart _ ih => exact .stay hdir hpart (ih hq)
  | up hdir _ ih => exact .up hdir (ih hq)
  | link hdir hpart hlink _ ih =>
      refine .link hdir hpart hlink ?_
      have hrest := ih hq
      rwa [List.append_assoc] at hrest
  | down hdir hpart hnext _ ih => exact .down hdir hpart hnext (ih hq)

theorem split {todo : List String} (h : Leads faces here todo there) :
    ∀ {p q : List String}, todo = p ++ q →
      ∃ mid, Leads faces here p mid ∧ Leads faces mid q there := by
  induction h with
  | done hdir =>
      intro p q heq
      obtain ⟨rfl, rfl⟩ := List.append_eq_nil_iff.mp heq.symm
      exact ⟨_, .done hdir, .done hdir⟩
  | @stay here rest there part hdir hpart h ih =>
      intro p q heq
      cases p with
      | nil => exact ⟨here, .done hdir, List.nil_append q ▸ heq ▸ .stay hdir hpart h⟩
      | cons x p =>
          obtain ⟨rfl, hrest⟩ := List.cons.inj heq
          obtain ⟨mid, hp, hq⟩ := ih hrest
          exact ⟨mid, .stay hdir hpart hp, hq⟩
  | @up here rest there hdir h ih =>
      intro p q heq
      cases p with
      | nil => exact ⟨here, .done hdir, List.nil_append q ▸ heq ▸ .up hdir h⟩
      | cons x p =>
          obtain ⟨rfl, hrest⟩ := List.cons.inj heq
          obtain ⟨mid, hp, hq⟩ := ih hrest
          exact ⟨mid, .up hdir hp, hq⟩
  | @link here rest there part target hdir hpart hlink h ih =>
      intro p q heq
      cases p with
      | nil => exact ⟨here, .done hdir, List.nil_append q ▸ heq ▸ .link hdir hpart hlink h⟩
      | cons x p =>
          rw [List.cons_append] at heq
          obtain ⟨rfl, hrest⟩ := List.cons.inj heq
          obtain ⟨mid, hp, hq⟩ := ih (p := Path.parts target ++ p) (q := q)
            (by rw [hrest, List.append_assoc])
          exact ⟨mid, .link hdir hpart hlink hp, hq⟩
  | @down here rest there part hdir hpart hnext h ih =>
      intro p q heq
      cases p with
      | nil => exact ⟨here, .done hdir, List.nil_append q ▸ heq ▸ .down hdir hpart hnext h⟩
      | cons x p =>
          obtain ⟨rfl, hrest⟩ := List.cons.inj heq
          obtain ⟨mid, hp, hq⟩ := ih hrest
          exact ⟨mid, .down hdir hpart hnext hp, hq⟩

/-- A path leads to one place. -/
theorem unique (h : Leads faces here p there) (h' : Leads faces here p other) :
    there = other := by
  induction h with
  | done _ =>
      cases h'
      rfl
  | stay hdir hpart _ ih =>
      cases h' with
      | stay _ _ h' => exact ih h'
      | up _ _ => cases hpart
      | link _ hname _ _ => rw [hname.1] at hpart; cases hpart
      | down _ hname _ _ => rw [hname.1] at hpart; cases hpart
  | up hdir _ ih =>
      cases h' with
      | stay _ hpart _ => cases hpart
      | up _ h' => exact ih h'
      | link _ hname _ _ => exact absurd rfl hname.2
      | down _ hname _ _ => exact absurd rfl hname.2
  | link hdir hname hlink _ ih =>
      cases h' with
      | stay _ hpart _ => rw [hname.1] at hpart; cases hpart
      | up _ _ => exact absurd rfl hname.2
      | link _ _ hlink' h' =>
          rw [hlink] at hlink'
          cases hlink'
          exact ih h'
      | down _ _ hnext _ => rw [hlink] at hnext; cases hnext
  | down hdir hname hnext _ ih =>
      cases h' with
      | stay _ hpart _ => rw [hname.1] at hpart; cases hpart
      | up _ _ => exact absurd rfl hname.2
      | link _ _ hlink _ => rw [hnext] at hlink; cases hlink
      | down _ _ _ h' => exact ih h'

/-- A part that stays may be left out. -/
theorem of_idle {part : String} (h : Leads faces here (part :: p) there)
    (hpart : isIdle part = true) : Leads faces here p there := by
  cases h with
  | stay _ _ h => exact h
  | up _ _ => cases hpart
  | link _ hname _ _ =>
      rw [hname.1] at hpart
      cases hpart
  | down _ hname _ _ =>
      rw [hname.1] at hpart
      cases hpart

/-- A name in a directory leads to the directory of that name. -/
theorem name {part : String} (hdir : faces here = some (.dir [])) (hpart : IsName part)
    (hnext : faces (here ++ [part]) = some (.dir [])) : Leads faces here [part] (here ++ [part]) :=
  .down hdir hpart hnext (.done hnext)

end Leads

section Follow

variable {root : Entry} {last : Bool}

theorem get?_eq_dir_of_look {way : List String} (h : root.look way = some (.dir [])) :
    ∃ es, root.get? way = some (.dir es) := by
  unfold Entry.look at h
  obtain ⟨e, he, hface⟩ := Option.map_eq_some_iff.mp h
  cases e with
  | dir es => exact ⟨es, he⟩
  | file content modified => cases hface
  | link target => cases hface

theorem lookup_eq_link_of_look {here : List String} {es : List (String × Entry)} {part target : String}
    (hdir : root.get? here = some (.dir es))
    (h : root.look (here ++ [part]) = some (.link target)) : es.lookup part = some (.link target) := by
  rw [Entry.look_concat part hdir] at h
  obtain ⟨e, he, hface⟩ := Option.map_eq_some_iff.mp h
  cases e with
  | dir es => cases hface
  | file content modified => cases hface
  | link target =>
      cases hface
      exact he

theorem lookup_eq_dir_of_look {here : List String} {es : List (String × Entry)} {part : String}
    (hdir : root.get? here = some (.dir es))
    (h : root.look (here ++ [part]) = some (.dir [])) : ∃ es', es.lookup part = some (.dir es') := by
  rw [Entry.look_concat part hdir] at h
  obtain ⟨e, he, hface⟩ := Option.map_eq_some_iff.mp h
  cases e with
  | dir es' => exact ⟨es', he⟩
  | file content modified => cases hface
  | link target => cases hface

/-- Parts that lead to a directory may be left out.  They take a number of steps and of links, which
depends on nothing beside the faces that are passed; with less than that the disk gives up. -/
theorem follow_cost {faces : List String → Option Entry} {here todo there : List String}
    (h : Leads faces here todo there) :
    ∃ steps hops, ∀ (fuel links : Nat) (root : Entry) (last : Bool) (rest : List String),
      (∀ way e, faces way = some e → root.look way = some e) → rest ≠ [] ∨ last = true →
      follow root last fuel links here (todo ++ rest) =
        if steps ≤ fuel ∧ hops ≤ links then follow root last (fuel - steps) (links - hops) there rest
        else .error .tooManyLinks := by
  induction h with
  | done _ => exact ⟨0, 0, fun fuel links root last rest _ _ => by simp⟩
  | @stay here rest' there part hdir hpart _ ih =>
      obtain ⟨steps, hops, hcost⟩ := ih
      refine ⟨steps + 1, hops, fun fuel links root last rest hfaces hrest => ?_⟩
      obtain ⟨es, hes⟩ := get?_eq_dir_of_look (hfaces _ _ hdir)
      cases fuel with
      | zero => rfl
      | succ fuel =>
          rw [List.cons_append, follow]
          simp only [hes, hpart, if_true, hcost fuel links root last rest hfaces hrest,
            Nat.add_le_add_iff_right, Nat.add_sub_add_right]
  | @up here rest' there hdir _ ih =>
      obtain ⟨steps, hops, hcost⟩ := ih
      refine ⟨steps + 1, hops, fun fuel links root last rest hfaces hrest => ?_⟩
      obtain ⟨es, hes⟩ := get?_eq_dir_of_look (hfaces _ _ hdir)
      cases fuel with
      | zero => rfl
      | succ fuel =>
          rw [List.cons_append, follow]
          simp only [hes, show isIdle ".." = false from rfl, if_true, Bool.false_eq_true, if_false,
            hcost fuel links root last rest hfaces hrest, Nat.add_le_add_iff_right,
            Nat.add_sub_add_right]
  | @link here rest' there part target hdir hpart hlink _ ih =>
      obtain ⟨steps, hops, hcost⟩ := ih
      refine ⟨steps + 1, hops + 1, fun fuel links root last rest hfaces hrest => ?_⟩
      obtain ⟨es, hes⟩ := get?_eq_dir_of_look (hfaces _ _ hdir)
      have hend : ((rest' ++ rest).isEmpty && !last) = false := by
        rcases hrest with hrest | rfl
        · simp [hrest]
        · simp
      have hentry := lookup_eq_link_of_look hes (hfaces _ _ hlink)
      cases fuel with
      | zero => rfl
      | succ fuel =>
          rw [List.cons_append, follow]
          simp only [hes, hpart.1, hpart.2, hentry, hend, Bool.false_eq_true, if_false]
          cases links with
          | zero => simp
          | succ links =>
              have hgo := hcost fuel links root last rest hfaces hrest
              rw [List.append_assoc] at hgo
              simp only [hgo, Nat.add_le_add_iff_right, Nat.add_sub_add_right]
  | @down here rest' there part hdir hpart hnext _ ih =>
      obtain ⟨steps, hops, hcost⟩ := ih
      refine ⟨steps + 1, hops, fun fuel links root last rest hfaces hrest => ?_⟩
      obtain ⟨es, hes⟩ := get?_eq_dir_of_look (hfaces _ _ hdir)
      obtain ⟨es', hes'⟩ := lookup_eq_dir_of_look hes (hfaces _ _ hnext)
      cases fuel with
      | zero => rfl
      | succ fuel =>
          rw [List.cons_append, follow]
          simp only [hes, hpart.1, hpart.2, hes', Bool.false_eq_true, if_false,
            hcost fuel links root last rest hfaces hrest, Nat.add_le_add_iff_right,
            Nat.add_sub_add_right]

/-- What is left of bounds does not depend on anything beside the faces that are passed. -/
theorem follow_through {faces : List String → Option Entry} {here todo there : List String}
    (h : Leads faces here todo there) (fuel links : Nat) :
    ∃ left : Option (Nat × Nat), ∀ (root : Entry) (last : Bool) (rest : List String),
      (∀ way e, faces way = some e → root.look way = some e) → rest ≠ [] ∨ last = true →
      follow root last fuel links here (todo ++ rest) =
        match left with
        | none => .error .tooManyLinks
        | some (fuel', links') => follow root last fuel' links' there rest := by
  obtain ⟨steps, hops, hcost⟩ := follow_cost h
  by_cases hbounds : steps ≤ fuel ∧ hops ≤ links
  · refine ⟨some (fuel - steps, links - hops), fun root last rest hfaces hrest => ?_⟩
    rw [hcost fuel links root last rest hfaces hrest, if_pos hbounds]
  · refine ⟨none, fun root last rest hfaces hrest => ?_⟩
    rw [hcost fuel links root last rest hfaces hrest, if_neg hbounds]

theorem follow_of_leads (last : Bool) {here todo there : List String}
    (h : Leads root.look here todo there) (rest : List String) (hrest : rest ≠ [] ∨ last = true)
    (fuel links : Nat) :
    follow root last fuel links here (todo ++ rest) = .error .tooManyLinks ∨
      ∃ fuel' links', follow root last fuel links here (todo ++ rest) =
        follow root last fuel' links' there rest := by
  obtain ⟨left, hleft⟩ := follow_through h fuel links
  rw [hleft root last rest (fun _ _ he => he) hrest]
  cases left with
  | none => exact Or.inl rfl
  | some bounds => exact Or.inr ⟨bounds.1, bounds.2, rfl⟩

/-- The way to a name that is no link ends behind the directory it stands in, if one more step is
allowed, and another one where something stands. -/
theorem follow_name {here : List String} {part : String}
    (hdir : root.look here = some (.dir [])) (hpart : IsName part)
    (hlink : ∀ target, root.look (here ++ [part]) ≠ some (.link target)) (fuel links : Nat) :
    follow root last fuel links here [part] =
      if fuel = 0 ∨ fuel = 1 ∧ (root.look (here ++ [part])).isSome then .error .tooManyLinks
      else .ok (here ++ [part]) := by
  obtain ⟨es, hes⟩ := get?_eq_dir_of_look hdir
  have hface := Entry.look_concat part hes
  cases fuel with
  | zero => rfl
  | succ fuel =>
      rw [hface] at hlink ⊢
      rw [follow]
      simp only [hes, hpart.1, hpart.2, Bool.false_eq_true, if_false]
      cases hl : es.lookup part with
      | none => simp
      | some e =>
          cases e with
          | link target =>
              rw [hl] at hlink
              exact absurd rfl (hlink target)
          | file content modified => cases fuel <;> simp [follow]
          | dir es' => cases fuel <;> simp [follow]

/-- Behind a directory that does not exist nothing is found. -/
theorem follow_missing {here : List String} {part : String} {rest : List String}
    (hdir : root.look here = some (.dir [])) (hpart : IsName part)
    (hnone : root.look (here ++ [part]) = none) (hrest : rest ≠ []) (fuel links : Nat) :
    ∃ reason, follow root last fuel links here (part :: rest) = .error reason := by
  cases fuel with
  | zero => exact ⟨_, rfl⟩
  | succ fuel =>
      obtain ⟨es, hes⟩ := get?_eq_dir_of_look hdir
      have hl : es.lookup part = none := by
        rw [Entry.look_concat part hes] at hnone
        exact Option.map_eq_none_iff.mp hnone
      refine ⟨.notFound, ?_⟩
      rw [follow]
      simp [hes, hpart.1, hpart.2, hl, hrest]

/-- How a step of a way that is found goes on. -/
inductive StepTo (root : Entry) (last : Bool) (fuel : Nat) (here : List String) (part : String)
    (rest way : List String) : Prop where
  | stay (links : Nat) (hpart : isIdle part = true)
      (h : follow root last fuel links here rest = .ok way)
  | up (links : Nat) (hpart : part = "..")
      (h : follow root last fuel links here.dropLast rest = .ok way)
  | stop (hpart : IsName part) (hrest : rest = []) (hway : way = here ++ [part])
  | link (links : Nat) {target : String} (hpart : IsName part) (hrest : rest ≠ [] ∨ last = true)
      (hlink : root.look (here ++ [part]) = some (.link target))
      (h : follow root last fuel links (if Path.isAbs target then [] else here)
        (Path.parts target ++ rest) = .ok way)
  | down (links : Nat) (hpart : IsName part) (hnext : (root.look (here ++ [part])).isSome)
      (h : follow root last fuel links (here ++ [part]) rest = .ok way)

theorem stepTo_of_follow {fuel links : Nat} {here rest way : List String} {part : String}
    (h : follow root last (fuel + 1) links here (part :: rest) = .ok way) :
    root.look here = some (.dir []) ∧ StepTo root last fuel here part rest way := by
  rw [follow] at h
  split at h
  · cases h
  · cases h
  · cases h
  · rename_i es hes
    have hdir : root.look here = some (.dir []) := by
      rw [Entry.look, hes]
      rfl
    have hface := Entry.look_concat part hes
    refine ⟨hdir, ?_⟩
    by_cases hidle : isIdle part = true
    · rw [if_pos hidle] at h
      exact .stay links hidle h
    by_cases hup : part = ".."
    · rw [if_neg hidle, if_pos hup] at h
      exact .up links hup h
    have hname : IsName part := ⟨by simpa using hidle, hup⟩
    rw [if_neg hidle, if_neg hup] at h
    cases hl : es.lookup part with
    | none =>
        simp only [hl] at h
        split_ifs at h with hrest
        cases h
        exact .stop hname (List.isEmpty_iff.mp hrest) rfl
    | some e =>
        rw [hl] at hface
        have hsome : (root.look (here ++ [part])).isSome := by
          rw [hface]
          rfl
        cases e with
        | file content modified =>
            simp only [hl] at h
            exact .down links hname hsome h
        | dir es' =>
            simp only [hl] at h
            exact .down links hname hsome h
        | link target =>
            simp only [hl] at h
            by_cases hend : (rest.isEmpty && !last) = true
            · rw [if_pos hend] at h
              cases h
              simp only [Bool.and_eq_true, List.isEmpty_iff] at hend
              exact .stop hname hend.1 rfl
            · rw [if_neg hend] at h
              have hmore : rest ≠ [] ∨ last = true := by
                by_cases hrest : rest = []
                · exact Or.inr (by simpa [hrest] using hend)
                · exact Or.inl hrest
              cases links with
              | zero => cases h
              | succ links => exact .link links hname hmore hface h

theorem eq_of_follow_nil {fuel links : Nat} {here way : List String}
    (h : follow root last fuel links here [] = .ok way) : way = here := by
  cases fuel with
  | zero => cases h
  | succ fuel =>
      rw [follow] at h
      cases h
      rfl

theorem isSome_look_dropLast {here : List String} (h : (root.look here).isSome) :
    (root.look here.dropLast).isSome := by
  by_cases hnil : here = []
  · rw [hnil] at h ⊢
    exact h
  · rw [← List.dropLast_append_getLast hnil] at h
    exact Entry.isSome_look_of_isSome_look_append h

/-- A way that ends at a directory is one that its parts lead to. -/
theorem leads_of_follow_dir {fuel links : Nat} {here todo way : List String}
    (h : follow root last fuel links here todo = .ok way)
    (hdir : root.look way = some (.dir [])) : Leads root.look here todo way := by
  induction fuel generalizing links here todo with
  | zero => cases h
  | succ fuel ih =>
      cases todo with
      | nil =>
          obtain rfl := eq_of_follow_nil h
          exact .done hdir
      | cons part rest =>
          obtain ⟨hhere, hstep⟩ := stepTo_of_follow h
          cases hstep with
          | stay links hpart hgo => exact .stay hhere hpart (ih hgo)
          | up links hpart hgo =>
              subst hpart
              exact .up hhere (ih hgo)
          | stop hpart hrest hend =>
              subst hrest
              subst hend
              exact .name hhere hpart hdir
          | link links hpart _ hlink hgo => exact .link hhere hpart hlink (ih hgo)
          | down links hpart _ hgo => exact .down hhere hpart (ih hgo).dir_start (ih hgo)

/-- All parts of a way that is found but the last lead to a directory.  If nothing stands at its
end, and a link there would not have been followed, the last part is a name in this directory. -/
theorem leads_of_follow {fuel links : Nat} {here init way : List String} {name : String}
    (h : follow root last fuel links here (init ++ [name]) = .ok way) :
    ∃ mid, Leads root.look here init mid ∧
      (root.look way = none → last = false → way = mid ++ [name] ∧ IsName name) := by
  induction fuel generalizing links here init with
  | zero => cases h
  | succ fuel ih =>
      cases init with
      | nil =>
          obtain ⟨hdir, hstep⟩ := stepTo_of_follow h
          refine ⟨here, .done hdir, fun hnone hlast => ?_⟩
          cases hstep with
          | stay links hpart hgo =>
              obtain rfl := eq_of_follow_nil hgo
              rw [hdir] at hnone
              cases hnone
          | up links hpart hgo =>
              obtain rfl := eq_of_follow_nil hgo
              have hsome := isSome_look_dropLast (Option.isSome_of_eq_some hdir)
              rw [hnone] at hsome
              cases hsome
          | stop hpart _ hend => exact ⟨hend, hpart⟩
          | link links hpart hrest hlink hgo =>
              rcases hrest with hrest | hrest
              · exact absurd rfl hrest
              · rw [hlast] at hrest
                cases hrest
          | down links hpart hnext hgo =>
              obtain rfl := eq_of_follow_nil hgo
              rw [hnone] at hnext
              cases hnext
      | cons part init =>
          rw [List.cons_append] at h
          obtain ⟨hdir, hstep⟩ := stepTo_of_follow h
          cases hstep with
          | stay links hpart hgo =>
              obtain ⟨mid, hleads, hend⟩ := ih hgo
              exact ⟨mid, .stay hdir hpart hleads, hend⟩
          | up links hpart hgo =>
              subst hpart
              obtain ⟨mid, hleads, hend⟩ := ih hgo
              exact ⟨mid, .up hdir hleads, hend⟩
          | stop _ hrest _ => simp at hrest
          | link links hpart _ hlink hgo =>
              rw [← List.append_assoc] at hgo
              obtain ⟨mid, hleads, hend⟩ := ih hgo
              exact ⟨mid, .link hdir hpart hlink hleads, hend⟩
          | down links hpart _ hgo =>
              obtain ⟨mid, hleads, hend⟩ := ih hgo
              exact ⟨mid, .down hdir hpart hleads.dir_start hleads, hend⟩

end Follow

end Disk
end InstallerLint
