import InstallerLint.Disk.Entry
import Mathlib.Data.List.Infix

/-!
# What changes in a tree

The `face` of an entry is the entry without what a directory holds; a tree is known by the faces
at all its ways (`look`).  Setting or taking away the entry at a way changes the faces at this way
and below it, and no others.
-/

namespace InstallerLint
namespace Entry

/-- An entry without what a directory holds. -/
def face : Entry → Entry
  | dir _ => dir []
  | e => e

/-- What stands at a way, without what a directory holds. -/
def look (root : Entry) (way : List String) : Option Entry := (root.get? way).map face

section Names

theorem lookup_setName_self (name : String) (new : Entry) (es : List (String × Entry)) :
    (setName name new es).lookup name = some new := by
  induction es with
  | nil => simp [setName]
  | cons x es ih =>
      obtain ⟨n, e⟩ := x
      unfold setName
      split_ifs with h
      · rw [h, List.lookup_cons_self]
      · rw [List.lookup_cons, beq_false_of_ne (Ne.symm h)]
        exact ih

theorem lookup_setName_of_ne {name other : String} (h : other ≠ name) (new : Entry)
    (es : List (String × Entry)) : (setName name new es).lookup other = es.lookup other := by
  induction es with
  | nil => simp [setName, h]
  | cons x es ih =>
      obtain ⟨n, e⟩ := x
      unfold setName
      split_ifs with hn
      · subst hn
        rw [List.lookup_cons, List.lookup_cons, beq_false_of_ne h]
      · rw [List.lookup_cons, List.lookup_cons, ih]

theorem lookup_filter_of_ne {name other : String} (h : other ≠ name)
    (es : List (String × Entry)) :
    (es.filter (·.1 ≠ name)).lookup other = es.lookup other := by
  induction es with
  | nil => rfl
  | cons x es ih =>
      rw [List.filter_cons]
      split_ifs with hn
      · rw [List.lookup_cons, List.lookup_cons, ih]
      · have hx : other ≠ x.1 := by
          rintro rfl
          exact hn (by simpa using h)
        rw [List.lookup_cons, beq_false_of_ne hx]
        exact ih

theorem lookup_filter_self (name : String) (es : List (String × Entry)) :
    (es.filter (·.1 ≠ name)).lookup name = none := by
  rw [List.lookup_eq_none_iff]
  intro x hx
  have hne : x.1 ≠ name := by simpa using (List.mem_filter.mp hx).2
  simpa using Ne.symm hne

end Names

section Look

variable {root : Entry}

theorem get?_append (p q : List String) : ∀ root : Entry,
    root.get? (p ++ q) = (root.get? p).bind (get? q) := by
  induction p with
  | nil => exact fun _ => rfl
  | cons part p ih =>
      intro root
      rw [List.cons_append, get?, get?]
      cases root.child? part with
      | none => rfl
      | some e => exact ih e

theorem look_dir_cons (es : List (String × Entry)) (part : String) (rest : List String) :
    (dir es).look (part :: rest) = (es.lookup part).bind fun e => e.look rest := by
  unfold look
  rw [get?, child?, entries]
  cases es.lookup part <;> rfl

theorem look_cons_of_not_dir (h : root.isDir = false) (part : String) (rest : List String) :
    root.look (part :: rest) = none := by
  cases root with
  | dir es => cases h
  | file content modified => rfl
  | link target => rfl

/-- What stands below something stands in a directory. -/
theorem look_eq_dir_of_look_append {p q : List String} (hq : q ≠ [])
    (h : (root.look (p ++ q)).isSome) : root.look p = some (dir []) := by
  unfold look at h ⊢
  rw [get?_append] at h
  cases hp : root.get? p with
  | none => simp [hp] at h
  | some e =>
      cases e with
      | dir es => rfl
      | file content modified =>
          obtain ⟨part, rest, rfl⟩ := List.exists_cons_of_ne_nil hq
          simp [hp, get?, child?, entries] at h
      | link target =>
          obtain ⟨part, rest, rfl⟩ := List.exists_cons_of_ne_nil hq
          simp [hp, get?, child?, entries] at h

/-- Above something there is something. -/
theorem isSome_look_of_isSome_look_append {p q : List String} (h : (root.look (p ++ q)).isSome) :
    (root.look p).isSome := by
  by_cases hq : q = []
  · simpa [hq] using h
  · rw [look_eq_dir_of_look_append hq h]
    rfl

/-- A directory at a way lists the faces below it. -/
theorem look_concat {here : List String} {es : List (String × Entry)} (part : String)
    (h : root.get? here = some (dir es)) :
    root.look (here ++ [part]) = (es.lookup part).map face := by
  unfold look
  rw [get?_append, h]
  show ((dir es).get? [part]).map face = _
  rw [get?, child?, entries]
  cases es.lookup part <;> rfl

end Look

section Put

theorem put_dir_single (es : List (String × Entry)) (part : String) (new : Entry) :
    (dir es).put [part] new = dir (setName part new es) := by
  rw [put]

theorem put_dir_cons (es : List (String × Entry)) (part next : String) (rest : List String)
    (new : Entry) {e : Entry} (h : es.lookup part = some e) :
    (dir es).put (part :: next :: rest) new = dir (setName part (e.put (next :: rest) new) es) := by
  rw [put]
  simp [h]

/-- Setting an entry shows at ways through it as the entry says. -/
theorem look_put_append (new : Entry) (q : List String) : ∀ {way : List String} {root : Entry},
    way ≠ [] → root.look way.dropLast = some (dir []) →
      (root.put way new).look (way ++ q) = new.look q
  | [], _, h, _ => absurd rfl h
  | [part], root, _, hdir => by
      cases root with
      | dir es =>
          rw [put_dir_single]
          show (dir (setName part new es)).look (part :: q) = _
          rw [look_dir_cons, lookup_setName_self]
          rfl
      | file content modified => cases hdir
      | link target => cases hdir
  | part :: next :: rest, root, _, hdir => by
      rw [List.dropLast_cons_of_ne_nil (List.cons_ne_nil _ _)] at hdir
      cases root with
      | dir es =>
          rw [look_dir_cons] at hdir
          cases hl : es.lookup part with
          | none => simp [hl] at hdir
          | some e =>
              rw [hl] at hdir
              rw [put_dir_cons es part next rest new hl, List.cons_append, look_dir_cons,
                lookup_setName_self]
              exact look_put_append new q (List.cons_ne_nil _ _) hdir
      | file content modified => cases hdir
      | link target => cases hdir

/-- Setting an entry shows nowhere else. -/
theorem look_put_of_not_prefix (new : Entry) : ∀ {way p : List String} {root : Entry},
    ¬ way <+: p → (root.put way new).look p = root.look p
  | [], p, _, h => absurd List.nil_prefix h
  | part :: rest, [], root, _ => by
      cases root with
      | dir es =>
          cases rest with
          | nil => rw [put_dir_single]; rfl
          | cons next rest =>
              cases hl : es.lookup part with
              | none => simp [put, hl]
              | some e => rw [put_dir_cons es part next rest new hl]; rfl
      | file content modified => rw [put]; simp
      | link target => rw [put]; simp
  | part :: rest, other :: p, root, h => by
      cases root with
      | dir es =>
          by_cases hother : other = part
          · subst hother
            have hrest : ¬ rest <+: p := fun hp => h (List.cons_prefix_cons.mpr ⟨rfl, hp⟩)
            cases rest with
            | nil => exact absurd List.nil_prefix hrest
            | cons next rest =>
                cases hl : es.lookup other with
                | none => simp [put, hl]
                | some e =>
                    rw [put_dir_cons es other next rest new hl, look_dir_cons, look_dir_cons,
                      lookup_setName_self, hl]
                    exact look_put_of_not_prefix new hrest
          · cases rest with
            | nil =>
                rw [put_dir_single, look_dir_cons, look_dir_cons, lookup_setName_of_ne hother]
            | cons next rest =>
                cases hl : es.lookup part with
                | none => simp [put, hl]
                | some e =>
                    rw [put_dir_cons es part next rest new hl, look_dir_cons, look_dir_cons,
                      lookup_setName_of_ne hother]
      | file content modified => rw [put]; simp
      | link target => rw [put]; simp

end Put

section Erase

theorem erase_dir_single (es : List (String × Entry)) (part : String) :
    (dir es).erase [part] = dir (es.filter (·.1 ≠ part)) := by
  rw [erase]

theorem erase_dir_cons (es : List (String × Entry)) (part next : String) (rest : List String)
    {e : Entry} (h : es.lookup part = some e) :
    (dir es).erase (part :: next :: rest) = dir (setName part (e.erase (next :: rest)) es) := by
  rw [erase]
  · simp [h]
  · simp

theorem erase_dir_cons_of_none (es : List (String × Entry)) (part next : String)
    (rest : List String) (h : es.lookup part = none) :
    (dir es).erase (part :: next :: rest) = dir es := by
  rw [erase]
  · simp [h]
  · simp

theorem erase_of_not_dir {root : Entry} (h : root.isDir = false) (way : List String) :
    root.erase way = root := by
  cases root with
  | dir es => cases h
  | file content modified => cases way <;> simp [erase]
  | link target => cases way <;> simp [erase]

/-- Nothing stands at or below a way that was taken away. -/
theorem look_erase_append (q : List String) : ∀ {way : List String} {root : Entry},
    way ≠ [] → (root.erase way).look (way ++ q) = none
  | [], _, h => absurd rfl h
  | part :: rest, root, _ => by
      cases root with
      | dir es =>
          cases rest with
          | nil =>
              rw [erase_dir_single]
              show (dir (es.filter (·.1 ≠ part))).look (part :: q) = none
              rw [look_dir_cons, lookup_filter_self]
              rfl
          | cons next rest =>
              cases hl : es.lookup part with
              | none =>
                  rw [erase_dir_cons_of_none es part next rest hl, List.cons_append,
                    look_dir_cons, hl]
                  rfl
              | some e =>
                  rw [erase_dir_cons es part next rest hl, List.cons_append, look_dir_cons,
                    lookup_setName_self]
                  exact look_erase_append q (List.cons_ne_nil _ _)
      | file content modified =>
          rw [erase_of_not_dir rfl, List.cons_append, look_cons_of_not_dir rfl]
      | link target => rw [erase_of_not_dir rfl, List.cons_append, look_cons_of_not_dir rfl]

/-- Taking away an entry shows nowhere else. -/
theorem look_erase_of_not_prefix : ∀ {way p : List String} {root : Entry},
    ¬ way <+: p → (root.erase way).look p = root.look p
  | [], p, _, h => absurd List.nil_prefix h
  | part :: rest, p, root, h => by
      cases root with
      | dir es =>
          cases p with
          | nil =>
              cases rest with
              | nil => rw [erase_dir_single]; rfl
              | cons next rest =>
                  cases hl : es.lookup part with
                  | none => rw [erase_dir_cons_of_none es part next rest hl]
                  | some e => rw [erase_dir_cons es part next rest hl]; rfl
          | cons other p =>
          by_cases hother : other = part
          · subst hother
            have hrest : ¬ rest <+: p := fun hp => h (List.cons_prefix_cons.mpr ⟨rfl, hp⟩)
            cases rest with
            | nil => exact absurd List.nil_prefix hrest
            | cons next rest =>
                cases hl : es.lookup other with
                | none => rw [erase_dir_cons_of_none es other next rest hl]
                | some e =>
                    rw [erase_dir_cons es other next rest hl, look_dir_cons, look_dir_cons,
                      lookup_setName_self, hl]
                    exact look_erase_of_not_prefix hrest
          · cases rest with
            | nil => rw [erase_dir_single, look_dir_cons, look_dir_cons, lookup_filter_of_ne hother]
            | cons next rest =>
                cases hl : es.lookup part with
                | none => rw [erase_dir_cons_of_none es part next rest hl]
                | some e =>
                    rw [erase_dir_cons es part next rest hl, look_dir_cons, look_dir_cons,
                      lookup_setName_of_ne hother]
      | file content modified => rw [erase_of_not_dir rfl]
      | link target => rw [erase_of_not_dir rfl]

end Erase

end Entry
end InstallerLint
