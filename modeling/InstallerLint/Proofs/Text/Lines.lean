import InstallerLint.Text.Lines
import Mathlib.Data.List.Basic
import Mathlib.Data.List.Infix
import Mathlib.Data.List.TakeWhile
import Mathlib.Tactic.SplitIfs

/-!
# Positions tell offsets apart

A position counts characters, and several offsets inside of one character may count alike.  An
ASCII byte however is a character of its own: what is read before it never goes on into it
(`headChar?_append_ascii`).  So no later offset has the position of an ASCII byte (`position_ne`).
-/

namespace InstallerLint
namespace Bytes

section Ascii

variable {a b : UInt8} {c : Char} {n : Nat} {s : Bytes}

theorem le_of_isTail (h : isTail b = true) : 0x80 ≤ b := by
  simp only [isTail, Bool.and_eq_true, decide_eq_true_eq] at h
  exact h.1

theorem le_of_ite_le {t : Prop} [Decidable t] {x y z : UInt8} (hz : 0x80 ≤ y ∧ 0x80 ≤ z)
    (h : (if t then y else z) ≤ x) : 0x80 ≤ x := by
  split_ifs at h
  · exact UInt8.le_trans hz.1 h
  · exact UInt8.le_trans hz.2 h

/-- A character of several bytes takes bytes that are no ASCII, whatever stands behind them. -/
theorem headChar?_eq_some (h : headChar? (a :: s) = some (c, n)) :
    ∃ tail rest, s = tail ++ rest ∧ n = tail.length + 1 ∧ (∀ x ∈ tail, 0x80 ≤ x) ∧
      ∀ rest', headChar? (a :: (tail ++ rest')) = some (c, n) := by
  by_cases h1 : a < 0x80
  · rw [headChar?_ascii h1] at h
    cases h
    exact ⟨[], s, rfl, rfl, by simp, headChar?_ascii h1⟩
  by_cases h2 : (0xC2 ≤ a && a ≤ 0xDF) = true
  · rcases s with _ | ⟨x, s⟩
    · simp [headChar?, h1] at h
    · simp only [headChar?, if_neg h1, if_pos h2] at h
      split_ifs at h with hx
      cases h
      refine ⟨[x], s, rfl, rfl, by simpa using le_of_isTail hx, fun rest' => ?_⟩
      simp only [headChar?, List.singleton_append, if_neg h1, if_pos h2, if_pos hx]
  by_cases h3 : (0xE0 ≤ a && a ≤ 0xEF) = true
  · rcases s with _ | ⟨x, _ | ⟨y, s⟩⟩
    · simp [headChar?, h1] at h
    · simp [headChar?, h1, h2] at h
    · simp only [headChar?, if_neg h1, if_neg h2, if_pos h3] at h
      obtain ⟨hxy, heq⟩ := Option.ite_none_right_eq_some.mp h
      cases heq
      obtain ⟨hx, hy⟩ := Bool.and_eq_true_iff.mp hxy
      have hx' : 0x80 ≤ x := le_of_ite_le (by decide) (of_decide_eq_true (Bool.and_eq_true_iff.mp hx).1)
      refine ⟨[x, y], s, rfl, rfl, by simpa using ⟨hx', le_of_isTail hy⟩, fun rest' => ?_⟩
      simp only [headChar?, List.cons_append, List.nil_append, if_neg h1, if_neg h2, if_pos h3,
        if_pos hxy]
  by_cases h4 : (0xF0 ≤ a && a ≤ 0xF4) = true
  · rcases s with _ | ⟨x, _ | ⟨y, _ | ⟨z, s⟩⟩⟩
    · simp [headChar?, h1] at h
    · simp [headChar?, h1, h2] at h
    · simp [headChar?, h1, h2, h3] at h
    · simp only [headChar?, if_neg h1, if_neg h2, if_neg h3, if_pos h4] at h
      obtain ⟨hxyz, heq⟩ := Option.ite_none_right_eq_some.mp h
      cases heq
      obtain ⟨hxy, hz⟩ := Bool.and_eq_true_iff.mp hxyz
      obtain ⟨hx, hy⟩ := Bool.and_eq_true_iff.mp hxy
      have hx' : 0x80 ≤ x := le_of_ite_le (by decide) (of_decide_eq_true (Bool.and_eq_true_iff.mp hx).1)
      refine ⟨[x, y, z], s, rfl, rfl,
        by simpa using ⟨hx', le_of_isTail hy, le_of_isTail hz⟩, fun rest' => ?_⟩
      simp only [headChar?, List.cons_append, List.nil_append, if_neg h1, if_neg h2, if_neg h3,
        if_pos h4, if_pos hxyz]
  · simp only [headChar?, if_neg h1, if_neg h2, if_neg h3, if_neg h4] at h
    cases h

/-- What is read before an ASCII byte does not go on into it. -/
theorem headChar?_append_ascii (hb : b < 0x80) (p q : Bytes) :
    headChar? (a :: (p ++ b :: q)) = headChar? (a :: p) := by
  cases hlong : headChar? (a :: (p ++ b :: q)) with
  | none =>
      cases hshort : headChar? (a :: p) with
      | none => rfl
      | some r =>
          obtain ⟨tail, rest, rfl, -, -, hread⟩ := headChar?_eq_some hshort
          have := hread (rest ++ b :: q)
          rw [← List.append_assoc, hlong] at this
          cases this
  | some r =>
      obtain ⟨tail, rest, hsplit, -, htail, hread⟩ := headChar?_eq_some hlong
      rcases List.append_eq_append_iff.mp hsplit with ⟨m, rfl, hm⟩ | ⟨m, rfl, hm⟩
      · cases m with
        | nil =>
            have := hread []
            rw [List.append_nil, List.append_nil] at this
            exact this.symm
        | cons x m =>
            obtain ⟨rfl, -⟩ := List.cons.inj hm
            have hle := htail b (List.mem_append_right _ List.mem_cons_self)
            exact absurd (UInt8.lt_of_lt_of_le hb hle) (UInt8.lt_irrefl _)
      · exact (hread m).symm

/-- The characters up to an ASCII byte are fewer than those up to a place behind it. -/
theorem length_charsAfter_lt (hb : b < 0x80) (q : Bytes) :
    ∀ (p : Bytes) (k : Nat), k ≤ p.length →
      (charsAfter k p).length < (charsAfter k (p ++ b :: q)).length := by
  intro p
  induction p with
  | nil =>
      intro k hk
      obtain rfl : k = 0 := Nat.le_zero.mp hk
      simp [charsAfter, headChar?_ascii hb]
  | cons a p ih =>
      intro k hk
      rw [List.cons_append]
      cases k with
      | succ k => exact ih k (Nat.le_of_succ_le_succ hk)
      | zero =>
          rw [charsAfter, charsAfter, headChar?_append_ascii hb]
          cases hread : headChar? (a :: p) with
          | none => exact Nat.succ_lt_succ (ih 0 (Nat.zero_le _))
          | some r =>
              obtain ⟨tail, rest, rfl, hwidth, -⟩ := headChar?_eq_some hread
              refine Nat.succ_lt_succ (ih _ ?_)
              rw [hwidth, List.length_append]
              omega

/-- An ASCII byte is a character of the text. -/
theorem mem_charsAfter_of_ascii (hb : b < 0x80) {k : Nat}
    (hskip : ∀ x ∈ s.take k, 0x80 ≤ x) (h : b ∈ s) : some (Char.ofNat b.toNat) ∈ charsAfter k s := by
  induction s generalizing k with
  | nil => cases h
  | cons a s ih =>
      cases k with
      | succ k =>
          have ha : 0x80 ≤ a := hskip a List.mem_cons_self
          rcases List.mem_cons.mp h with rfl | h
          · exact absurd (UInt8.lt_of_lt_of_le hb ha) (UInt8.lt_irrefl _)
          · exact ih (fun x hx => hskip x (List.mem_cons_of_mem a hx)) h
      | zero =>
          rw [charsAfter]
          rcases List.mem_cons.mp h with rfl | h
          · rw [headChar?_ascii hb]
            exact List.mem_cons_self
          · cases hread : headChar? (a :: s) with
            | none => exact List.mem_cons_of_mem _ (ih (by simp) h)
            | some r =>
                obtain ⟨tail, rest, rfl, hwidth, htail, -⟩ := headChar?_eq_some hread
                refine List.mem_cons_of_mem _ (ih ?_ h)
                rw [hwidth, Nat.add_sub_cancel, List.take_left]
                exact htail

theorem mem_toText_of_ascii (hb : b < 0x80) (h : b ∈ s) :
    Char.ofNat b.toNat ∈ s.toText.toList := by
  rw [toText, String.toList_ofList]
  exact List.mem_map.mpr ⟨_, mem_charsAfter_of_ascii hb (by simp) h, rfl⟩

end Ascii

end Bytes

namespace LineIndex

variable {source : Bytes} {offset offset' : Nat}

/-- Every line start comes with the text from there on. -/
theorem exists_front_of_mem {base : Nat} {start : Nat × Bytes} (h : start ∈ startsAfter base source) :
    ∃ front, source = front ++ start.2 ∧ start.1 = base + front.length := by
  induction source generalizing base with
  | nil => cases h
  | cons b rest ih =>
      rw [startsAfter] at h
      split_ifs at h
      · rcases List.mem_cons.mp h with rfl | h
        · exact ⟨[b], rfl, rfl⟩
        · obtain ⟨front, hfront, hlength⟩ := ih h
          exact ⟨b :: front, by rw [hfront, List.cons_append], by simp; omega⟩
      · obtain ⟨front, hfront, hlength⟩ := ih h
        exact ⟨b :: front, by rw [hfront, List.cons_append], by simp; omega⟩

/-- The starts of the lines up to an offset, without the first one. -/
def startsUpTo (source : Bytes) (offset : Nat) : List (Nat × Bytes) :=
  (startsAfter 0 source).takeWhile (·.1 ≤ offset)

/-- Where the line of an offset starts. -/
def lineStart (source : Bytes) (offset : Nat) : Nat × Bytes :=
  ((0, source) :: startsUpTo source offset).getLast (List.cons_ne_nil _ _)

theorem lineStart_spec (source : Bytes) (offset : Nat) :
    ∃ front, source = front ++ (lineStart source offset).2 ∧
      (lineStart source offset).1 = front.length ∧ front.length ≤ offset := by
  have hmem : lineStart source offset ∈ (0, source) :: startsUpTo source offset :=
    List.getLast_mem _
  rcases List.mem_cons.mp hmem with heq | hmem
  · rw [heq]
    exact ⟨[], rfl, rfl, Nat.zero_le _⟩
  · have hle : (lineStart source offset).1 ≤ offset := by
      simpa using List.mem_takeWhile_imp hmem
    obtain ⟨front, hfront, hlength⟩ :=
      exists_front_of_mem ((List.takeWhile_prefix _).subset hmem)
    rw [Nat.zero_add] at hlength
    exact ⟨front, hfront, hlength, hlength ▸ hle⟩

theorem position_eq (hle : offset ≤ source.length) :
    (ofSource source).position offset =
      ⟨(startsUpTo source offset).length + 1,
        1 + (Bytes.charsAfter 0 ((lineStart source offset).2.take
          (offset - (lineStart source offset).1))).length⟩ := by
  have hfold : ∀ (l : List (Nat × Bytes)) (n : Nat) (start : Nat × Bytes),
      l.foldl (fun place s => (place.1 + 1, s)) (n, start) =
        (l.length + n, (start :: l).getLast (List.cons_ne_nil _ _)) := by
    intro l
    induction l with
    | nil => exact fun n start => by simp
    | cons s l ih =>
        intro n start
        rw [List.foldl_cons, ih, List.length_cons, List.getLast_cons_cons]
        congr 1
        omega
  have hline : lineOf offset (ofSource source).starts =
      ((startsUpTo source offset).length + 1, lineStart source offset) := hfold _ 1 _
  have hplace : min (offset : Int).toNat (ofSource source).size = offset := Nat.min_eq_left hle
  simp only [position, hplace, hline, Bytes.countWithin_eq]

/-- A later offset stands on no earlier line. -/
theorem line_le (hle : offset ≤ offset') (hin : offset' ≤ source.length) :
    ((ofSource source).position offset).line ≤ ((ofSource source).position offset').line := by
  have hlonger : ∀ l : List (Nat × Bytes),
      (l.takeWhile (·.1 ≤ offset)).length ≤ (l.takeWhile (·.1 ≤ offset')).length := by
    intro l
    induction l with
    | nil => exact le_refl _
    | cons start l ih =>
        by_cases hstart : start.1 ≤ offset
        · simpa [hstart, hstart.trans hle] using ih
        · simp [hstart]
  rw [position_eq (hle.trans hin), position_eq hin]
  exact Nat.succ_le_succ (hlonger _)

/-- **No later offset has the position of an ASCII byte.** -/
theorem position_ne {b : UInt8} (hb : b < 0x80) (hat : source[offset]? = some b)
    (hlt : offset < offset') (hle : offset' ≤ source.length) :
    (ofSource source).position offset ≠ (ofSource source).position offset' := by
  intro heq
  rw [position_eq (hlt.le.trans hle), position_eq hle, Position.mk.injEq] at heq
  obtain ⟨hline, hcol⟩ := heq
  -- on one line both columns are counted from the same start
  have hstarts : startsUpTo source offset = startsUpTo source offset' :=
    (List.prefix_of_prefix_length_le (List.takeWhile_prefix _) (List.takeWhile_prefix _)
      (Nat.succ.inj hline).le).eq_of_length (Nat.succ.inj hline)
  have hstart : lineStart source offset' = lineStart source offset := by
    unfold lineStart
    simp only [hstarts]
  obtain ⟨front, hfront, hlength, hbefore⟩ := lineStart_spec source offset
  rw [hstart] at hcol
  generalize lineStart source offset = start at hcol hfront hlength
  obtain ⟨base, text⟩ := start
  obtain rfl : base = front.length := hlength
  dsimp only at hcol hfront
  subst hfront
  rw [List.getElem?_append_right hbefore] at hat
  obtain ⟨hin, hget⟩ := List.getElem?_eq_some_iff.mp hat
  have hsplit : text.take (offset' - front.length) =
      text.take (offset - front.length) ++
        b :: (text.drop (offset - front.length + 1)).take (offset' - offset - 1) := by
    have hlength' : offset' - front.length =
        offset - front.length + (offset' - offset - 1 + 1) := by omega
    rw [hlength', List.take_add, List.drop_eq_getElem_cons hin, hget, List.take_succ_cons]
  have hless := Bytes.length_charsAfter_lt hb
    ((text.drop (offset - front.length + 1)).take (offset' - offset - 1))
    (text.take (offset - front.length)) 0 (Nat.zero_le _)
  rw [← hsplit] at hless
  omega

end LineIndex
end InstallerLint
