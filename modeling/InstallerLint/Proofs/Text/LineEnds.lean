import InstallerLint.Proofs.Text.Utf8
import InstallerLint.Text.Lines
import Mathlib.Data.List.Basic

/-!
# Line ends

A text is cut behind its line feeds.  Every line but the last one is *full*: it ends with its only line
feed.  The last line has none and may be empty (`exists_split`).

**Standing lines.**  Lines that are written one behind the other can be told apart again when all but
the last one are full (`Standing.physical`).  A line without a line feed is continued by what stands
behind it (`exists_physical_append`).
-/

namespace InstallerLint
namespace Lines

/-- A line with its line feed. -/
def Full (l : Bytes) : Prop := ∃ front : Bytes, 0x0A ∉ front ∧ l = front ++ [0x0A]

/-- The lines of a text as they stand in a file: nothing follows the last line feed. -/
def physical (s : Bytes) : List Bytes := (Bytes.splitAfterLF s).filter (· ≠ [])

/-- Lines that stand in a file as they are: only the last one may lack its line feed. -/
inductive Standing : List Bytes → Prop where
  | full {ls : List Bytes} (h : ∀ l ∈ ls, Full l) : Standing ls
  /-- The last one has none. -/
  | last {ls : List Bytes} {x : Bytes} (h : ∀ l ∈ ls, Full l) (hx : 0x0A ∉ x) (hne : x ≠ []) :
      Standing (ls ++ [x])

section LineEnds

variable {l m x s : Bytes} {ls ls' : List Bytes}

theorem splitAfterLF_ne_nil (s : Bytes) : Bytes.splitAfterLF s ≠ [] := by
  cases s with
  | nil => exact List.cons_ne_nil _ _
  | cons b s =>
      rw [Bytes.splitAfterLF]
      split
      · exact List.cons_ne_nil _ _
      · split_ifs <;> exact List.cons_ne_nil _ _

/-- Splitting at a first byte. -/
theorem splitAfterLF_cons (b : UInt8) (s : Bytes) :
    Bytes.splitAfterLF (b :: s) =
      if b = 0x0A then [b] :: Bytes.splitAfterLF s else (Bytes.splitAfterLF s).modifyHead (b :: ·) := by
  rw [Bytes.splitAfterLF]
  cases hs : Bytes.splitAfterLF s with
  | nil => exact absurd hs (splitAfterLF_ne_nil s)
  | cons piece pieces => rfl

/-- Bytes without a line feed belong to the first line. -/
theorem splitAfterLF_append (hm : 0x0A ∉ m) (s : Bytes) :
    Bytes.splitAfterLF (m ++ s) = (Bytes.splitAfterLF s).modifyHead (m ++ ·) := by
  induction m with
  | nil =>
      rw [List.nil_append]
      cases Bytes.splitAfterLF s <;> rfl
  | cons b m ih =>
      have hb : b ≠ 0x0A := fun h => hm (h ▸ List.mem_cons_self)
      rw [List.cons_append, splitAfterLF_cons, if_neg hb,
        ih fun h => hm (List.mem_cons_of_mem _ h)]
      cases Bytes.splitAfterLF s <;> rfl

theorem splitAfterLF_of_not_mem (hx : 0x0A ∉ x) : Bytes.splitAfterLF x = [x] := by
  have h := splitAfterLF_append hx []
  rw [List.append_nil] at h
  rw [h]
  exact congrArg (fun y => [y]) (List.append_nil x)

theorem splitAfterLF_full (hl : Full l) (s : Bytes) :
    Bytes.splitAfterLF (l ++ s) = l :: Bytes.splitAfterLF s := by
  obtain ⟨front, hfront, rfl⟩ := hl
  rw [List.append_assoc, splitAfterLF_append hfront]
  show List.modifyHead _ (Bytes.splitAfterLF (0x0A :: s)) = _
  rw [splitAfterLF_cons, if_pos rfl]
  rfl

theorem splitAfterLF_flatten_append (h : ∀ l ∈ ls, Full l) (s : Bytes) :
    Bytes.splitAfterLF (ls.flatten ++ s) = ls ++ Bytes.splitAfterLF s := by
  induction ls with
  | nil => rfl
  | cons l ls ih =>
      rw [List.flatten_cons, List.append_assoc, splitAfterLF_full (h l List.mem_cons_self),
        ih fun l' hl' => h l' (List.mem_cons_of_mem l hl'), List.cons_append]

/-- Lines joined are the text. -/
theorem flatten_splitAfterLF (s : Bytes) : (Bytes.splitAfterLF s).flatten = s := by
  induction s with
  | nil => rfl
  | cons b s ih =>
      rw [splitAfterLF_cons]
      split_ifs
      · rw [List.flatten_cons, ih]
        rfl
      · cases hs : Bytes.splitAfterLF s with
        | nil => exact absurd hs (splitAfterLF_ne_nil s)
        | cons piece pieces =>
            rw [hs] at ih
            rw [List.modifyHead_cons, List.flatten_cons, List.cons_append, ← List.flatten_cons, ih]

theorem split_injective {a b : Bytes} (h : Lines.split a = Lines.split b) : a = b := by
  have hflatten : ∀ s : Bytes, (Lines.split s).flatten = s := by
    intro s
    cases s with
    | nil => rfl
    | cons b s => exact flatten_splitAfterLF (b :: s)
  rw [← hflatten a, h, hflatten b]

/-- Every line of a text but the last one has its line feed. -/
theorem exists_split (hs : s ≠ []) :
    ∃ ls x, Lines.split s = ls ++ [x] ∧ (∀ l ∈ ls, Full l) ∧ 0x0A ∉ x := by
  have hall : ∀ s : Bytes, ∃ ls x, Bytes.splitAfterLF s = ls ++ [x] ∧ (∀ l ∈ ls, Full l) ∧
      0x0A ∉ x := by
    intro s
    induction s with
    | nil => exact ⟨[], [], rfl, by simp, by simp⟩
    | cons b s ih =>
        obtain ⟨ls, x, heq, hfull, hx⟩ := ih
        rw [splitAfterLF_cons, heq]
        split_ifs with hb
        · refine ⟨[b] :: ls, x, rfl, ?_, hx⟩
          intro l hl
          rcases List.mem_cons.mp hl with rfl | hl
          · exact ⟨[], List.not_mem_nil, by rw [hb]; rfl⟩
          · exact hfull l hl
        · cases ls with
          | nil =>
              refine ⟨[], b :: x, rfl, by simp, ?_⟩
              simp [hx, Ne.symm hb]
          | cons l ls =>
              refine ⟨(b :: l) :: ls, x, rfl, ?_, hx⟩
              intro l' hl'
              rcases List.mem_cons.mp hl' with rfl | hl'
              · obtain ⟨front, hfront, rfl⟩ := hfull l List.mem_cons_self
                exact ⟨b :: front, by simp [hfront, Ne.symm hb], rfl⟩
              · exact hfull l' (List.mem_cons_of_mem _ hl')
  cases s with
  | nil => exact absurd rfl hs
  | cons b s => exact hall (b :: s)

theorem Full.ne_nil (h : Full l) : l ≠ [] := by
  obtain ⟨front, -, rfl⟩ := h
  exact List.append_ne_nil_of_right_ne_nil _ (List.cons_ne_nil _ _)

theorem Full.mem (h : Full l) : 0x0A ∈ l := by
  obtain ⟨front, -, rfl⟩ := h
  exact List.mem_append_right _ List.mem_cons_self

theorem Full.cons (h : Full l) {b : UInt8} (hb : b ≠ 0x0A) : Full (b :: l) := by
  obtain ⟨front, hfront, rfl⟩ := h
  exact ⟨b :: front, by simp [hfront, Ne.symm hb], rfl⟩

/-- Full lines stand by themselves. -/
theorem physical_full (hl : Full l) (s : Bytes) : physical (l ++ s) = l :: physical s := by
  rw [physical, splitAfterLF_full hl, List.filter_cons_of_pos (by simpa using hl.ne_nil)]
  rfl

theorem physical_flatten_append (h : ∀ l ∈ ls, Full l) (s : Bytes) :
    physical (ls.flatten ++ s) = ls ++ physical s := by
  induction ls with
  | nil => rfl
  | cons l ls ih =>
      rw [List.flatten_cons, List.append_assoc, physical_full (h l List.mem_cons_self),
        ih fun l' hl' => h l' (List.mem_cons_of_mem _ hl')]
      rfl

/-- A line without a line feed is continued by what stands behind it. -/
theorem exists_physical_append (hx : 0x0A ∉ x) (hs : s ≠ []) :
    ∃ l ls, l ≠ [] ∧ physical (x ++ s) = (x ++ l) :: ls := by
  obtain ⟨b, s, rfl⟩ := List.exists_cons_of_ne_nil hs
  have hhead : ∃ l ls, Bytes.splitAfterLF (b :: s) = (b :: l) :: ls := by
    rw [splitAfterLF_cons]
    split_ifs
    · exact ⟨[], _, rfl⟩
    · obtain ⟨l, ls, hls⟩ := List.exists_cons_of_ne_nil (splitAfterLF_ne_nil s)
      rw [hls]
      exact ⟨l, ls, rfl⟩
  obtain ⟨l, ls, hls⟩ := hhead
  refine ⟨b :: l, ls.filter (· ≠ []), List.cons_ne_nil _ _, ?_⟩
  rw [physical, splitAfterLF_append hx, hls, List.modifyHead_cons,
    List.filter_cons_of_pos (by simp)]

/-- Lines that stand as they are are the lines of their text. -/
theorem Standing.physical (h : Standing ls) : Lines.physical ls.flatten = ls := by
  cases h with
  | full h => simpa [Lines.physical, Bytes.splitAfterLF] using physical_flatten_append h []
  | last h hx hne =>
      rw [List.flatten_append, physical_flatten_append h, List.flatten_singleton, Lines.physical,
        splitAfterLF_of_not_mem hx, List.filter_cons_of_pos (by simpa using hne), List.filter_nil]

theorem Standing.append (h : Standing ls) {front : List Bytes} (hfront : ∀ l ∈ front, Full l) :
    Standing (front ++ ls) := by
  have hboth : ∀ {ls}, (∀ l ∈ ls, Full l) → ∀ l ∈ front ++ ls, Full l := by
    intro ls h l hl
    exact (List.mem_append.mp hl).elim (hfront l) (h l)
  cases h with
  | full h => exact .full (hboth h)
  | last h hx hne =>
      rw [← List.append_assoc]
      exact .last (hboth h) hx hne

/-- Lines may be left out. -/
theorem Standing.sublist (h : Standing ls) (hsub : ls'.Sublist ls) : Standing ls' := by
  cases h with
  | full h => exact .full fun l hl => h l (hsub.subset hl)
  | last h hx hne =>
      obtain ⟨front, back, rfl, hfront, hback⟩ := List.sublist_append_iff.mp hsub
      have hfull : ∀ l ∈ front, Full l := fun l hl => h l (hfront.subset hl)
      rcases List.sublist_singleton.mp hback with rfl | rfl
      · rw [List.append_nil]
        exact .full hfull
      · exact .last hfull hx hne

/-- Lines in front of others have their line feeds. -/
theorem Standing.full_of_append (h : Standing (ls ++ ls')) (hne : ls' ≠ []) :
    ∀ l ∈ ls, Full l := by
  generalize hall : ls ++ ls' = all at h
  cases h with
  | full h => exact fun l hl => h l (hall ▸ List.mem_append_left _ hl)
  | @last front x h _ _ =>
      obtain ⟨back, y, rfl⟩ := List.eq_nil_or_concat ls' |>.resolve_left hne
      rw [List.concat_eq_append, ← List.append_assoc] at hall
      obtain ⟨hfront, -⟩ := List.append_singleton_inj.mp hall
      exact fun l hl => h l (hfront ▸ List.mem_append_left _ hl)

/-- The bytes of a text without line breaks have none. -/
theorem not_mem_ofString {s : String} (h : '\n' ∉ s.toList) : 0x0A ∉ Bytes.ofString s := by
  intro hmem
  obtain ⟨c, hc, hb⟩ := List.mem_flatMap.mp hmem
  by_cases hascii : c.toNat < 0x80
  · rw [Bytes.utf8EncodeChar_ascii hascii] at hb
    have hvalue := congrArg UInt8.toNat (List.mem_singleton.mp hb)
    rw [Bytes.toNat_ofNat_of_lt (by omega)] at hvalue
    have hbreak : c = '\n' := Char.toNat_inj.mp hvalue.symm
    exact h (hbreak ▸ hc)
  · exact absurd (Bytes.le_of_mem_utf8EncodeChar (by omega) hb) (by decide)

theorem full_ofString {s : String} (h : '\n' ∉ s.toList) : Full (Bytes.ofString (s ++ "\n")) :=
  ⟨_, not_mem_ofString h, Bytes.ofString_append s "\n"⟩

end LineEnds

end Lines
end InstallerLint
