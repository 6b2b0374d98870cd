import InstallerLint.Json.Reader
import InstallerLint.Json.Writer
import Mathlib.Tactic.SplitIfs

/-!
# Quoted texts

A text is written between quotes with escapes and read back (`readText_quoted`).  One character
becomes one unit, so the number of characters bounds the steps of the reader.
-/

namespace InstallerLint
namespace Json

section Hexadecimal

theorem isHex_hexChar (n : Nat) : isHex (Quoted.hexChar n) = true := by
  have h : ∀ m : Fin 16, isHex (Quoted.hexChar m.val) = true := by decide
  have hmod : Quoted.hexChar n = Quoted.hexChar (n % 16) := by simp [Quoted.hexChar]
  rw [hmod]
  exact h ⟨n % 16, Nat.mod_lt _ (by decide)⟩

/-- A hexadecimal digit is read back as the number it was written for. -/
theorem hexDigit_hexChar (n : Nat) : Ranges.hexDigit (Quoted.hexChar n) = n % 16 := by
  have h : ∀ m : Fin 16, Ranges.hexDigit (Quoted.hexChar m.val) = m.val := by decide
  have hmod : Quoted.hexChar n = Quoted.hexChar (n % 16) := by simp [Quoted.hexChar]
  rw [hmod]
  exact h ⟨n % 16, Nat.mod_lt _ (by decide)⟩

/-- Four digits are read back, whatever follows. -/
theorem readHex_hexWidth {n : Nat} (hn : n < 0x10000) (rest : List Char) :
    readHex 4 0 (Quoted.hexWidth 4 n ++ rest) = .ok (n, rest) := by
  have hdigits : Quoted.hexWidth 4 n = [Quoted.hexChar (n / 16 / 16 / 16),
      Quoted.hexChar (n / 16 / 16), Quoted.hexChar (n / 16), Quoted.hexChar n] := rfl
  rw [hdigits]
  simp only [List.cons_append, List.nil_append, readHex, isHex_hexChar, hexDigit_hexChar, if_true]
  congr 2
  omega

end Hexadecimal

section Units

variable (markup : Bool)

theorem escape_ne_nil (c : Char) : escape markup c ≠ [] := by
  unfold escape
  split
  all_goals try exact List.cons_ne_nil _ _
  split_ifs <;> exact List.cons_ne_nil _ _

/-- A character that is written as an escape with its code is below the surrogates or behind
them. -/
theorem ofCode_toNat {c : Char} (h : c.toNat < 0x10000) : Unit16.ofCode c.toNat = .char c := by
  have hvalid : c.toNat < 0xD800 ∨ 0xDFFF < c.toNat ∧ c.toNat < 0x110000 := c.valid
  unfold Unit16.ofCode
  rw [if_neg (by simp; omega), if_neg (by simp; omega), Char.ofNat_toNat]

/-- Going on with a unit in front. -/
def consUnit (u : Unit16) (r : Except SyntaxError (List Unit16 × List Char)) :
    Except SyntaxError (List Unit16 × List Char) :=
  r.map fun x => (u :: x.1, x.2)

/-- An escape by number is read back as its character. -/
theorem readUnits_code {c : Char} (h : c.toNat < 0x10000) (fuel : Nat) (rest : List Char) :
    readUnits (fuel + 1) ('\\' :: 'u' :: (Quoted.hexWidth 4 c.toNat ++ rest)) =
      consUnit (.char c) (readUnits fuel rest) := by
  rw [readUnits]
  simp only [if_neg (show ¬ '\\' = '"' by decide), if_true, bind, Except.bind,
    readHex_hexWidth h, ofCode_toNat h, consUnit]
  cases readUnits fuel rest <;> rfl

/-- A two-character escape is read back as its character. -/
theorem readUnits_simple {e c : Char} (he : e ≠ 'u') (h : simpleEscape? e = some c) (fuel : Nat)
    (rest : List Char) :
    readUnits (fuel + 1) ('\\' :: e :: rest) = consUnit (.char c) (readUnits fuel rest) := by
  rw [readUnits.eq_def]
  simp only [if_neg (show ¬ '\\' = '"' by decide), if_true, h, bind, Except.bind, consUnit]
  cases readUnits fuel rest <;> rfl

/-- A character that needs no escape is read as it stands. -/
theorem readUnits_plain {c : Char} (hquote : c ≠ '"') (hslash : c ≠ '\\') (hlow : ¬ c.toNat < 0x20)
    (fuel : Nat) (rest : List Char) :
    readUnits (fuel + 1) (c :: rest) = consUnit (.char c) (readUnits fuel rest) := by
  rw [readUnits.eq_def]
  simp only [if_neg hquote, if_neg hslash, if_neg hlow, bind, Except.bind, consUnit]
  cases readUnits fuel rest <;> rfl

/-- A written character is read as one unit. -/
theorem readUnits_escape (c : Char) (fuel : Nat) (rest : List Char) :
    readUnits (fuel + 1) (escape markup c ++ rest) = consUnit (.char c) (readUnits fuel rest) := by
  unfold escape
  split
  · exact readUnits_simple (by decide) rfl fuel rest
  · exact readUnits_simple (by decide) rfl fuel rest
  · exact readUnits_simple (by decide) rfl fuel rest
  · exact readUnits_simple (by decide) rfl fuel rest
  · exact readUnits_simple (by decide) rfl fuel rest
  · next hquote hslash hlf hcr htab =>
      split_ifs with h8 h12 hcode
      · have hc : c = Char.ofNat 8 := by rw [← h8, Char.ofNat_toNat]
        rw [hc]
        exact readUnits_simple (by decide) rfl fuel rest
      · have hc : c = Char.ofNat 12 := by rw [← h12, Char.ofNat_toNat]
        rw [hc]
        exact readUnits_simple (by decide) rfl fuel rest
      · have hsmall : c.toNat < 0x10000 := by
          simp only [Bool.or_eq_true, decide_eq_true_eq, Bool.and_eq_true] at hcode
          rcases hcode with ((hlow | rfl) | rfl) | ⟨-, (rfl | rfl) | rfl⟩
          · omega
          all_goals decide
        exact readUnits_code hsmall fuel rest
      · have hlow : ¬ c.toNat < 0x20 := by
          intro hlt
          simp [hlt] at hcode
        exact readUnits_plain hquote hslash hlow fuel rest

/-- A written string is read back up to its closing quote, whatever follows. -/
theorem readUnits_escapes (cs : List Char) {fuel : Nat} (hfuel : cs.length < fuel)
    (rest : List Char) :
    readUnits fuel (cs.flatMap (escape markup) ++ '"' :: rest) = .ok (cs.map .char, rest) := by
  induction cs generalizing fuel with
  | nil =>
      obtain ⟨fuel, rfl⟩ : ∃ m, fuel = m + 1 := ⟨fuel - 1, by omega⟩
      rfl
  | cons c cs ih =>
      obtain ⟨fuel, rfl⟩ : ∃ m, fuel = m + 1 := ⟨fuel - 1, by omega⟩
      rw [List.length_cons] at hfuel
      rw [List.flatMap_cons, List.append_assoc, readUnits_escape, ih (by omega)]
      rfl

theorem length_le_flatMap_escape (cs : List Char) :
    cs.length ≤ (cs.flatMap (escape markup)).length := by
  induction cs with
  | nil => exact Nat.le_refl 0
  | cons c cs ih =>
      have hpos := List.length_pos_iff.mpr (escape_ne_nil markup c)
      rw [List.flatMap_cons, List.length_append, List.length_cons]
      omega

/-- Characters that are no halves of a pair are joined as they are. -/
theorem joinUnits_char (cs : List Char) : joinUnits (cs.map .char) = cs := by
  induction cs with
  | nil => rfl
  | cons c cs ih => rw [List.map_cons, joinUnits, ih]

end Units

/-- A quoted text is read back. -/
theorem readText_quoted (markup : Bool) (s : String) (rest : List Char) :
    readText (s.toList.flatMap (escape markup) ++ '"' :: rest) = .ok (s, rest) := by
  have hlength := length_le_flatMap_escape markup s.toList
  unfold readText
  rw [readUnits_escapes markup s.toList (by rw [List.length_append]; omega)]
  simp only [bind, Except.bind, joinUnits_char, String.ofList_toList]
  rfl

/-- The characters of a quoted text: the escapes between two quotes. -/
theorem toList_quoted (markup : Bool) (s : String) :
    (quoted markup s).toList = '"' :: (s.toList.flatMap (escape markup) ++ ['"']) := by
  rw [quoted, String.toList_ofList]

end Json
end InstallerLint
