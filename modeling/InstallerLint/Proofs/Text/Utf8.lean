import InstallerLint.Text.Bytes
import Mathlib.Tactic.SplitIfs

/-!
# Text and its bytes

A string that is written as bytes is read back (`toText_ofString`).  The bytes of a character are
those that `headChar?` takes for it, whatever stands behind.
-/

namespace InstallerLint
namespace Bytes

theorem toNat_ofNat_of_lt {n : Nat} (h : n < 256) : (UInt8.ofNat n).toNat = n := by
  rw [UInt8.toNat_ofNat', Nat.mod_eq_of_lt h]

section Lead

variable {a b c d : UInt8} {rest : Bytes}

/-- A lead byte for two bytes. -/
theorem headChar?_two (ha : 0xC2 ≤ a.toNat ∧ a.toNat ≤ 0xDF)
    (hb : 0x80 ≤ b.toNat ∧ b.toNat ≤ 0xBF) :
    headChar? (a :: b :: rest) =
      some (Char.ofNat ((a.toNat % 0x20) * 0x40 + tailBits b), 2) := by
  have h1 : ¬ a < 0x80 := by
    rw [UInt8.lt_iff_toNat_lt]
    exact fun h => absurd (show a.toNat < 0x80 from h) (by omega)
  have h2 : (0xC2 ≤ a && a ≤ 0xDF) = true := by
    simp only [Bool.and_eq_true, decide_eq_true_eq, UInt8.le_iff_toNat_le]
    exact ha
  have h3 : isTail b = true := by
    simp only [isTail, Bool.and_eq_true, decide_eq_true_eq, UInt8.le_iff_toNat_le]
    exact hb
  simp only [headChar?]
  rw [if_neg h1, if_pos h2, if_pos h3]

/-- A lead byte for three bytes. -/
theorem headChar?_three (ha : 0xE0 ≤ a.toNat ∧ a.toNat ≤ 0xEF)
    (hb : (if a.toNat = 0xE0 then 0xA0 else 0x80) ≤ b.toNat ∧
      b.toNat ≤ if a.toNat = 0xED then 0x9F else 0xBF)
    (hc : 0x80 ≤ c.toNat ∧ c.toNat ≤ 0xBF) :
    headChar? (a :: b :: c :: rest) =
      some (Char.ofNat ((a.toNat % 0x10) * 0x1000 + tailBits b * 0x40 + tailBits c), 3) := by
  have h1 : ¬ a < 0x80 := by
    rw [UInt8.lt_iff_toNat_lt]
    exact fun h => absurd (show a.toNat < 0x80 from h) (by omega)
  have h2 : ¬ (0xC2 ≤ a && a ≤ 0xDF) = true := by
    simp only [Bool.and_eq_true, decide_eq_true_eq, UInt8.le_iff_toNat_le, not_and, Nat.not_le]
    exact fun _ => show 0xDF < a.toNat by omega
  have h3 : (0xE0 ≤ a && a ≤ 0xEF) = true := by
    simp only [Bool.and_eq_true, decide_eq_true_eq, UInt8.le_iff_toNat_le]
    exact ha
  have hlow : (a = 0xE0) = (a.toNat = 0xE0) := by
    rw [← UInt8.toNat_inj]
    rfl
  have hhigh : (a = 0xED) = (a.toNat = 0xED) := by
    rw [← UInt8.toNat_inj]
    rfl
  have h4 : ((if a = 0xE0 then 0xA0 else 0x80) ≤ b && b ≤ (if a = 0xED then 0x9F else 0xBF)
      && isTail c) = true := by
    simp only [isTail, Bool.and_eq_true, decide_eq_true_eq, UInt8.le_iff_toNat_le, hlow, hhigh]
    refine ⟨⟨?_, ?_⟩, hc⟩
    · split_ifs with h
      · simpa [h] using hb.1
      · simpa [h] using hb.1
    · split_ifs with h
      · simpa [h] using hb.2
      · simpa [h] using hb.2
  simp only [headChar?]
  rw [if_neg h1, if_neg h2, if_pos h3, if_pos h4]

/-- A lead byte for four bytes. -/
theorem headChar?_four (ha : 0xF0 ≤ a.toNat ∧ a.toNat ≤ 0xF4)
    (hb : (if a.toNat = 0xF0 then 0x90 else 0x80) ≤ b.toNat ∧
      b.toNat ≤ if a.toNat = 0xF4 then 0x8F else 0xBF)
    (hc : 0x80 ≤ c.toNat ∧ c.toNat ≤ 0xBF) (hd : 0x80 ≤ d.toNat ∧ d.toNat ≤ 0xBF) :
    headChar? (a :: b :: c :: d :: rest) =
      some (Char.ofNat ((a.toNat % 0x08) * 0x40000 + tailBits b * 0x1000
        + tailBits c * 0x40 + tailBits d), 4) := by
  have h1 : ¬ a < 0x80 := by
    rw [UInt8.lt_iff_toNat_lt]
    exact fun h => absurd (show a.toNat < 0x80 from h) (by omega)
  have h2 : ¬ (0xC2 ≤ a && a ≤ 0xDF) = true := by
    simp only [Bool.and_eq_true, decide_eq_true_eq, UInt8.le_iff_toNat_le, not_and, Nat.not_le]
    exact fun _ => show 0xDF < a.toNat by omega
  have h3 : ¬ (0xE0 ≤ a && a ≤ 0xEF) = true := by
    simp only [Bool.and_eq_true, decide_eq_true_eq, UInt8.le_iff_toNat_le, not_and, Nat.not_le]
    exact fun _ => show 0xEF < a.toNat by omega
  have h4 : (0xF0 ≤ a && a ≤ 0xF4) = true := by
    simp only [Bool.and_eq_true, decide_eq_true_eq, UInt8.le_iff_toNat_le]
    exact ha
  have hlow : (a = 0xF0) = (a.toNat = 0xF0) := by
    rw [← UInt8.toNat_inj]
    rfl
  have hhigh : (a = 0xF4) = (a.toNat = 0xF4) := by
    rw [← UInt8.toNat_inj]
    rfl
  have h5 : ((if a = 0xF0 then 0x90 else 0x80) ≤ b && b ≤ (if a = 0xF4 then 0x8F else 0xBF)
      && isTail c && isTail d) = true := by
    simp only [isTail, Bool.and_eq_true, decide_eq_true_eq, UInt8.le_iff_toNat_le, hlow, hhigh]
    refine ⟨⟨⟨?_, ?_⟩, hc⟩, hd⟩
    · split_ifs with h
      · simpa [h] using hb.1
      · simpa [h] using hb.1
    · split_ifs with h
      · simpa [h] using hb.2
      · simpa [h] using hb.2
  simp only [headChar?]
  rw [if_neg h1, if_neg h2, if_neg h3, if_pos h4, if_pos h5]

end Lead

/-- The bytes of a character are read as that character. -/
theorem headChar?_utf8EncodeChar (c : Char) (rest : Bytes) :
    headChar? (String.utf8EncodeChar c ++ rest) =
      some (c, (String.utf8EncodeChar c).length) := by
  have hvalid : c.toNat < 0xD800 ∨ 0xDFFF < c.toNat ∧ c.toNat < 0x110000 := c.valid
  have hof : Char.ofNat c.toNat = c := Char.ofNat_toNat c
  unfold String.utf8EncodeChar
  rw [show c.val.toNat = c.toNat from rfl]
  generalize c.toNat = n at hvalid hof
  dsimp only
  split_ifs with h1 h2 h3
  · have hb : UInt8.ofNat n < 0x80 := by
      rw [UInt8.lt_iff_toNat_lt, toNat_ofNat_of_lt (by omega)]
      exact Nat.lt_succ_of_le h1
    rw [List.singleton_append, headChar?_ascii hb, toNat_ofNat_of_lt (by omega), hof]
    rfl
  · have ha : (UInt8.ofNat (n / 64 % 32 + 192)).toNat = n / 64 % 32 + 192 :=
      toNat_ofNat_of_lt (by omega)
    have hb : (UInt8.ofNat (n % 64 + 128)).toNat = n % 64 + 128 := toNat_ofNat_of_lt (by omega)
    rw [List.cons_append, List.singleton_append, headChar?_two (by omega) (by omega), tailBits,
      ha, hb, show (n / 64 % 32 + 192) % 32 * 64 + (n % 64 + 128) % 64 = n by omega, hof]
    rfl
  · have ha : (UInt8.ofNat (n / 4096 % 16 + 224)).toNat = n / 4096 % 16 + 224 :=
      toNat_ofNat_of_lt (by omega)
    have hb : (UInt8.ofNat (n / 64 % 64 + 128)).toNat = n / 64 % 64 + 128 :=
      toNat_ofNat_of_lt (by omega)
    have hc : (UInt8.ofNat (n % 64 + 128)).toNat = n % 64 + 128 := toNat_ofNat_of_lt (by omega)
    rw [List.cons_append, List.cons_append, List.singleton_append,
      headChar?_three (by omega) (by rw [ha, hb]; split_ifs <;> omega) (by omega), tailBits,
      tailBits, ha, hb, hc, show (n / 4096 % 16 + 224) % 16 * 4096 + (n / 64 % 64 + 128) % 64 * 64
        + (n % 64 + 128) % 64 = n by omega, hof]
    rfl
  · have ha : (UInt8.ofNat (n / 262144 % 8 + 240)).toNat = n / 262144 % 8 + 240 :=
      toNat_ofNat_of_lt (by omega)
    have hb : (UInt8.ofNat (n / 4096 % 64 + 128)).toNat = n / 4096 % 64 + 128 :=
      toNat_ofNat_of_lt (by omega)
    have hc : (UInt8.ofNat (n / 64 % 64 + 128)).toNat = n / 64 % 64 + 128 :=
      toNat_ofNat_of_lt (by omega)
    have hd : (UInt8.ofNat (n % 64 + 128)).toNat = n % 64 + 128 := toNat_ofNat_of_lt (by omega)
    rw [List.cons_append, List.cons_append, List.cons_append, List.singleton_append,
      headChar?_four (by omega) (by rw [ha, hb]; split_ifs <;> omega) (by omega) (by omega),
      tailBits, tailBits, tailBits, ha, hb, hc, hd,
      show (n / 262144 % 8 + 240) % 8 * 262144 + (n / 4096 % 64 + 128) % 64 * 4096
        + (n / 64 % 64 + 128) % 64 * 64 + (n % 64 + 128) % 64 = n by omega, hof]
    rfl

/-- An ASCII character is one byte. -/
theorem utf8EncodeChar_ascii {c : Char} (h : c.toNat < 0x80) :
    String.utf8EncodeChar c = [UInt8.ofNat c.toNat] := by
  unfold String.utf8EncodeChar
  rw [show c.val.toNat = c.toNat from rfl]
  dsimp only
  rw [if_pos (by omega)]

/-- The bytes of other characters are no ASCII. -/
theorem le_of_mem_utf8EncodeChar {c : Char} (h : 0x80 ≤ c.toNat) {b : UInt8}
    (hb : b ∈ String.utf8EncodeChar c) : 0x80 ≤ b := by
  have hle : ∀ n, 0x80 ≤ n → n < 256 → (0x80 : UInt8) ≤ UInt8.ofNat n := by
    intro n hn hlt
    rw [UInt8.le_iff_toNat_le, toNat_ofNat_of_lt hlt]
    exact hn
  unfold String.utf8EncodeChar at hb
  rw [show c.val.toNat = c.toNat from rfl] at hb
  dsimp only at hb
  split_ifs at hb with h1 h2 h3
  · omega
  all_goals
    simp only [List.mem_cons, List.not_mem_nil, or_false] at hb
  · rcases hb with rfl | rfl <;> exact hle _ (by omega) (by omega)
  · rcases hb with rfl | rfl | rfl <;> exact hle _ (by omega) (by omega)
  · rcases hb with rfl | rfl | rfl | rfl <;> exact hle _ (by omega) (by omega)

theorem charsAfter_length (skipped rest : Bytes) :
    charsAfter skipped.length (skipped ++ rest) = charsAfter 0 rest := by
  induction skipped with
  | nil => rfl
  | cons b skipped ih => exact ih

theorem chars_utf8EncodeChar (c : Char) (rest : Bytes) :
    chars (String.utf8EncodeChar c ++ rest) = some c :: chars rest := by
  have hread := headChar?_utf8EncodeChar c rest
  unfold chars
  cases henc : String.utf8EncodeChar c with
  | nil => exact absurd henc String.utf8EncodeChar_ne_nil
  | cons b tail =>
      rw [henc] at hread
      rw [List.cons_append] at hread ⊢
      rw [charsAfter, hread]
      exact congrArg _ (charsAfter_length tail rest)

theorem chars_ofList (cs : List Char) : chars (cs.flatMap String.utf8EncodeChar) = cs.map some := by
  induction cs with
  | nil => rfl
  | cons c cs ih => rw [List.flatMap_cons, chars_utf8EncodeChar, ih, List.map_cons]

theorem chars_ofString (s : String) : chars (ofString s) = s.toList.map some := chars_ofList s.toList

theorem ofString_append (s t : String) : ofString (s ++ t) = ofString s ++ ofString t := by
  unfold ofString
  rw [String.toList_append, List.flatMap_append]

/-- Reading the bytes of a string gives the string. -/
theorem toText_ofString (s : String) : (ofString s).toText = s := by
  unfold toText ofString
  rw [chars_ofList, List.map_map]
  simp [Function.comp_def]

end Bytes
end InstallerLint
