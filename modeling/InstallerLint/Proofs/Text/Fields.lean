import InstallerLint.Proofs.Yaml.Decode
import Mathlib.Data.List.Basic

/-!
# Lines of fields

A line is a letter and some fields, each behind a separator.  Lines are joined, and the sign between
two of them may stand in a field as well.  Nevertheless the lines are found again when no field has a
separator and the letter says how many fields there are (`joined_injective`).

**Why.**  Every field but the last of a line ends at a separator.  Behind the last one stand the sign
and the letter of the next line, and a separator behind that letter.  So whatever is between two
separators there ends with two more characters than the field.
-/

namespace InstallerLint
namespace Fields

/-- Where the first separator stands is the same in equal texts. -/
theorem append_cons_inj {α : Type} [BEq α] [LawfulBEq α] {sep : α} {a b s t : List α}
    (ha : sep ∉ a) (hb : sep ∉ b) : a ++ sep :: s = b ++ sep :: t ↔ a = b ∧ s = t := by
  refine ⟨fun h => ?_, fun ⟨hab, hst⟩ => by rw [hab, hst]⟩
  have hsplit := congrArg (List.splitOn sep) h
  rw [List.splitOn_append_cons_self_of_not_mem ha, List.splitOn_append_cons_self_of_not_mem hb]
    at hsplit
  obtain ⟨rfl, -⟩ := List.cons.inj hsplit
  exact ⟨rfl, List.tail_eq_of_cons_eq (List.append_cancel_left h)⟩

/-- A letter and the fields behind it. -/
@[ext]
structure Line where
  tag : Char
  fields : List (List Char)
  deriving DecidableEq

/-- How a line is written. -/
def Line.text (sep : Char) (l : Line) : List Char := l.tag :: l.fields.flatMap (sep :: ·)

/-- A line that is found again: it has no separator in it, and the letter tells the number of its
fields, of which there is at least one. -/
structure Line.IsFramed (sep : Char) (count : Char → Nat) (l : Line) : Prop where
  tag : l.tag ≠ sep
  length : l.fields.length = count l.tag
  pos : 0 < count l.tag
  fields : ∀ w ∈ l.fields, sep ∉ w

/-- Lines that follow on others, each behind a sign. -/
def following (sep sign : Char) (ls : List Line) : List Char :=
  ls.flatMap fun l => sign :: l.text sep

section Framed

variable {sep sign : Char} {count : Char → Nat} {l l' : Line} {ls ls' : List Line}

theorem following_cons :
    following sep sign (l :: ls) = sign :: l.tag :: (l.fields.flatMap (sep :: ·) ++
      following sep sign ls) := by
  simp [following, Line.text]

/-- Behind the letter of a framed line stands a separator. -/
theorem Line.IsFramed.exists_text (h : l.IsFramed sep count) :
    ∃ s, l.text sep = l.tag :: sep :: s := by
  cases hfields : l.fields with
  | nil =>
      have := h.length
      rw [hfields] at this
      exact absurd h.pos (by rw [← this]; decide)
  | cons w ws => exact ⟨w ++ ws.flatMap (sep :: ·), by simp [Line.text, hfields]⟩

theorem exists_following_cons (sign : Char) (hl : l.IsFramed sep count) (ls : List Line) :
    ∃ s, following sep sign (l :: ls) = [sign, l.tag] ++ sep :: s := by
  obtain ⟨s, hs⟩ := hl.exists_text
  exact ⟨s ++ following sep sign ls, by simp [following, hs]⟩

/-- The last field of a line ends where the same lines follow. -/
theorem last_inj (hsign : sign ≠ sep) (hls : ∀ l ∈ ls, l.IsFramed sep count)
    (hls' : ∀ l ∈ ls', l.IsFramed sep count) {w w' : List Char} (hw : sep ∉ w) (hw' : sep ∉ w')
    (h : w ++ following sep sign ls = w' ++ following sep sign ls') :
    w = w' ∧ following sep sign ls = following sep sign ls' := by
  have hfree : ∀ {v : List Char} {l : Line}, sep ∉ v → l.IsFramed sep count →
      sep ∉ v ++ [sign, l.tag] := by
    intro v l hv hl hmem
    rcases List.mem_append.mp hmem with hmem | hmem
    · exact hv hmem
    · rcases List.mem_pair.mp hmem with rfl | rfl
      · exact hsign rfl
      · exact hl.tag rfl
  cases ls with
  | nil =>
      cases ls' with
      | nil => exact ⟨by simpa [following] using h, rfl⟩
      | cons l' ls' =>
          obtain ⟨s', hs'⟩ := exists_following_cons sign (hls' l' List.mem_cons_self) ls'
          have hnil : following sep sign [] = [] := rfl
          rw [hnil, List.append_nil, hs'] at h
          rw [h] at hw
          exact absurd (by simp) hw
  | cons l ls =>
      obtain ⟨s, hs⟩ := exists_following_cons sign (hls l List.mem_cons_self) ls
      cases ls' with
      | nil =>
          have hnil : following sep sign [] = [] := rfl
          rw [hnil, List.append_nil, hs] at h
          rw [← h] at hw'
          exact absurd (by simp) hw'
      | cons l' ls' =>
          obtain ⟨s', hs'⟩ := exists_following_cons sign (hls' l' List.mem_cons_self) ls'
          rw [hs, hs', ← List.append_assoc, ← List.append_assoc,
            append_cons_inj (hfree hw (hls l List.mem_cons_self))
              (hfree hw' (hls' l' List.mem_cons_self))] at h
          obtain ⟨hfront, rfl⟩ := h
          obtain ⟨rfl, htag⟩ := List.append_inj' hfront rfl
          exact ⟨rfl, by rw [hs, hs', htag]⟩

/-- The fields of a line end where the same lines follow. -/
theorem fields_inj (hsign : sign ≠ sep) (hls : ∀ l ∈ ls, l.IsFramed sep count)
    (hls' : ∀ l ∈ ls', l.IsFramed sep count) {ws ws' : List (List Char)}
    (hlength : ws.length = ws'.length) (hws : ∀ w ∈ ws, sep ∉ w) (hws' : ∀ w ∈ ws', sep ∉ w)
    (h : ws.flatMap (sep :: ·) ++ following sep sign ls =
      ws'.flatMap (sep :: ·) ++ following sep sign ls') :
    ws = ws' ∧ following sep sign ls = following sep sign ls' := by
  induction ws generalizing ws' with
  | nil =>
      obtain rfl := List.length_eq_zero_iff.mp hlength.symm
      exact ⟨rfl, h⟩
  | cons w ws ih =>
      obtain ⟨w', ws', rfl⟩ := List.exists_cons_of_length_eq_add_one hlength.symm
      rw [List.forall_mem_cons] at hws hws'
      rw [List.length_cons, List.length_cons, Nat.add_right_cancel_iff] at hlength
      rw [List.flatMap_cons, List.flatMap_cons, List.cons_append, List.cons_append, List.cons_append,
        List.cons_append, List.cons.injEq, List.append_assoc, List.append_assoc] at h
      cases ws with
      | nil =>
          obtain rfl := List.length_eq_zero_iff.mp hlength.symm
          obtain ⟨rfl, hrest⟩ := last_inj hsign hls hls' hws.1 hws'.1 h.2
          exact ⟨rfl, hrest⟩
      | cons v vs =>
          obtain ⟨v', vs', rfl⟩ := List.exists_cons_of_length_eq_add_one hlength.symm
          have hcut := h.2
          simp only [List.flatMap_cons, List.cons_append] at hcut
          obtain ⟨rfl, hrest⟩ := (append_cons_inj hws.1 hws'.1).mp hcut
          obtain ⟨hfields, hfollowing⟩ := ih hlength hws.2 hws'.2 (by simp [hrest])
          exact ⟨by rw [hfields], hfollowing⟩

theorem following_injective (hsign : sign ≠ sep) (hls : ∀ l ∈ ls, l.IsFramed sep count)
    (hls' : ∀ l ∈ ls', l.IsFramed sep count)
    (h : following sep sign ls = following sep sign ls') : ls = ls' := by
  induction ls generalizing ls' with
  | nil =>
      cases ls' with
      | nil => rfl
      | cons l' ls' => cases h
  | cons l ls ih =>
      cases ls' with
      | nil => cases h
      | cons l' ls' =>
          rw [List.forall_mem_cons] at hls hls'
          rw [following_cons, following_cons, List.cons.injEq, List.cons.injEq] at h
          obtain ⟨-, htag, hrest⟩ := h
          have hlength : l.fields.length = l'.fields.length := by
            rw [hls.1.length, hls'.1.length, htag]
          obtain ⟨hfields, hfollowing⟩ :=
            fields_inj hsign hls.2 hls'.2 hlength hls.1.fields hls'.1.fields hrest
          rw [ih hls.2 hls'.2 hfollowing, Line.ext htag hfields]

/-- A sign in front of joined lines makes each of them follow. -/
theorem cons_intercalate (hls : ls ≠ []) :
    sign :: [sign].intercalate (ls.map (Line.text sep)) = following sep sign ls := by
  induction ls with
  | nil => exact absurd rfl hls
  | cons l ls ih =>
      cases ls with
      | nil => simp [following]
      | cons l' ls =>
          rw [List.map_cons, List.map_cons, List.intercalate_cons_cons, ← List.map_cons,
            List.append_assoc, List.singleton_append, ih (List.cons_ne_nil _ _)]
          simp [following]

/-- **Joined lines are found again.** -/
theorem joined_injective (hsign : sign ≠ sep) (hls : ∀ l ∈ ls, l.IsFramed sep count)
    (hls' : ∀ l ∈ ls', l.IsFramed sep count)
    (h : [sign].intercalate (ls.map (Line.text sep)) =
      [sign].intercalate (ls'.map (Line.text sep))) : ls = ls' := by
  have hcons : ∀ {l : Line} {ls : List Line}, [sign].intercalate ((l :: ls).map (Line.text sep)) ≠ [] := by
    intro l ls hnil
    have hfront : sign :: [sign].intercalate ((l :: ls).map (Line.text sep)) = _ :=
      cons_intercalate (List.cons_ne_nil l ls)
    rw [hnil, following_cons] at hfront
    cases hfront
  cases ls with
  | nil =>
      cases ls' with
      | nil => rfl
      | cons l' ls' => exact absurd h.symm hcons
  | cons l ls =>
      cases ls' with
      | nil => exact absurd h hcons
      | cons l' ls' =>
          refine following_injective hsign hls hls' ?_
          rw [← cons_intercalate (List.cons_ne_nil l ls), ← cons_intercalate (List.cons_ne_nil l' ls'),
            h]

end Framed

section Numbers

theorem toString_injective {n m : Int} (h : toString n = toString m) : n = m := by
  have hread := congrArg Json.integer? h
  rw [Json.integer?_toString, Json.integer?_toString] at hread
  exact Option.some.inj hread

/-- A character that is neither a digit nor a minus sign is in no number. -/
theorem notMem_toString {c : Char} (hminus : c ≠ '-') (hdigit : c.isDigit = false) (n : Int) :
    c ∉ (toString n).toList := by
  intro hmem
  rcases Yaml.Scalar.mem_toString hmem with rfl | h
  · exact hminus rfl
  · rw [h] at hdigit
    cases hdigit

end Numbers

end Fields
end InstallerLint
