import InstallerLint.Json.Reader
import Mathlib.Data.List.TakeDrop

/-!
# Numbers as text

Integers are written with decimal digits, without leading zeros.  They are read back as they were
written (`readNumber_toString`), and the text has the value of the integer (`integer?_toString`).
-/

namespace InstallerLint
namespace Json

section Digits

theorem toList_toString (n : Nat) : (toString n).toList = Nat.toDigits 10 n := Nat.toList_repr

theorem isDigit_of_mem {n : Nat} {c : Char} (h : c ∈ Nat.toDigits 10 n) : c.isDigit = true :=
  Nat.isDigit_of_mem_toDigits (by decide) (by decide) h

/-- Only zero starts with a zero. -/
theorem head_toDigits {n : Nat} (hn : 0 < n) : ∃ c cs, Nat.toDigits 10 n = c :: cs ∧ c ≠ '0' := by
  induction n using Nat.strongRecOn with
  | ind n ih =>
      by_cases hlt : n < 10
      · rw [Nat.toDigits_of_lt_base hlt]
        refine ⟨_, _, rfl, ?_⟩
        have : ∀ m : Fin 10, 0 < m.val → m.val.digitChar ≠ '0' := by decide
        exact this ⟨n, hlt⟩ hn
      · obtain ⟨c, cs, hcs, hc⟩ := ih (n / 10) (by omega) (by omega)
        have happend := Nat.toDigits_append_toDigits (b := 10) (n := n / 10) (d := n % 10)
          (by decide) (by omega) (by omega)
        rw [show 10 * (n / 10) + n % 10 = n by omega] at happend
        rw [← happend, hcs]
        exact ⟨c, _, rfl, hc⟩

/-- Decimal digits are read back as the number. -/
theorem digits?_toDigits (n : Nat) : digits? (Nat.toDigits 10 n) = some n := by
  have hne : Nat.toDigits 10 n ≠ [] := Nat.toDigits_ne_nil
  have hall : (Nat.toDigits 10 n).all Char.isDigit = true :=
    List.all_eq_true.mpr fun c hc => isDigit_of_mem hc
  have hvalue : (Nat.toDigits 10 n).foldl (fun n c => n * 10 + (c.toNat - '0'.toNat)) 0 = n := by
    have h := Nat.ofDigitChars_ten_toDigits (n := n)
    rw [Nat.ofDigitChars_eq_foldl] at h
    simpa [Nat.mul_comm] using h
  unfold digits?
  rw [if_pos (by simp [hne, hall]), hvalue]

theorem toString_nat_inj {m n : Nat} (h : toString m = toString n) : m = n := by
  have hdigits := congrArg (fun s : String => digits? s.toList) h
  simpa [toList_toString, digits?_toDigits] using hdigits

theorem toList_toString_negSucc (n : Nat) :
    (toString (Int.negSucc n)).toList = '-' :: Nat.toDigits 10 (n + 1) := by
  show ("-" ++ toString (n + 1)).toList = _
  rw [String.toList_append, toList_toString]
  rfl

/-- The written form of an integer has its value. -/
theorem integer?_toString (n : Int) : integer? (toString n) = some n := by
  unfold integer?
  cases n with
  | ofNat n =>
      have hlist : (toString (Int.ofNat n)).toList = Nat.toDigits 10 n := toList_toString n
      rw [hlist]
      split
      · next cs hcs =>
          have hminus : ('-' : Char) ∈ Nat.toDigits 10 n := by rw [hcs]; exact List.mem_cons_self
          exact absurd (isDigit_of_mem hminus) (by decide)
      · rw [digits?_toDigits]
        rfl
  | negSucc n =>
      rw [toList_toString_negSucc]
      simp only [digits?_toDigits]
      rfl

end Digits

section Reading

/-- What can stand behind a number: nothing that a number could go on with. -/
def Ends (rest : List Char) : Prop :=
  ∀ c cs, rest = c :: cs → c.isDigit = false ∧ c ≠ '.' ∧ c ≠ 'e' ∧ c ≠ 'E'

theorem ends_nil : Ends [] := by
  intro c cs h
  cases h

theorem ends_cons {c : Char} {cs : List Char} (h : c.isDigit = false ∧ c ≠ '.' ∧ c ≠ 'e' ∧ c ≠ 'E') :
    Ends (c :: cs) := by
  intro c' cs' heq
  cases heq
  exact h

/-- Digits are read up to what is none. -/
theorem span_digits {ds rest : List Char} (hds : ∀ c ∈ ds, c.isDigit = true) (hrest : Ends rest) :
    (ds ++ rest).span Char.isDigit = (ds, rest) := by
  rw [List.span_eq_takeWhile_dropWhile]
  have htake : rest.takeWhile Char.isDigit = [] := by
    cases rest with
    | nil => rfl
    | cons c cs => simp [(hrest c cs rfl).1]
  have hdrop : rest.dropWhile Char.isDigit = rest := by
    cases rest with
    | nil => rfl
    | cons c cs => simp [(hrest c cs rfl).1]
  rw [List.takeWhile_append_of_pos hds, List.dropWhile_append_of_pos hds, htake, hdrop,
    List.append_nil]

/-- The digits of a number are read whole, whatever ends them. -/
theorem readWhole_toDigits (n : Nat) {rest : List Char} (hrest : Ends rest) :
    readWhole (Nat.toDigits 10 n ++ rest) = .ok (Nat.toDigits 10 n, rest) := by
  unfold readWhole
  rcases Nat.eq_zero_or_pos n with rfl | hn
  · simp [Nat.toDigits_zero]
  · obtain ⟨c, cs, hcs, hc⟩ := head_toDigits hn
    have hspan : (Nat.toDigits 10 n ++ rest).span Char.isDigit = (Nat.toDigits 10 n, rest) :=
      span_digits (fun c hc => isDigit_of_mem hc) hrest
    rw [hcs] at hspan ⊢
    rw [List.cons_append] at hspan ⊢
    split
    · next heq => exact absurd (List.cons.inj heq).1 hc
    · unfold readDigits
      rw [hspan]

/-- A number that has ended has no fraction. -/
theorem readFraction_of_ends {rest : List Char} (hrest : Ends rest) :
    readFraction rest = .ok ([], rest) := by
  unfold readFraction
  split
  · next cs => exact absurd rfl (hrest _ _ rfl).2.1
  · rfl

/-- A number that has ended has no exponent. -/
theorem readExponent_of_ends {rest : List Char} (hrest : Ends rest) :
    readExponent rest = .ok ([], rest) := by
  cases rest with
  | nil => rfl
  | cons c cs =>
      obtain ⟨-, -, he, hE⟩ := hrest c cs rfl
      simp [readExponent, he, hE]

/-- An integer is read as it was written. -/
theorem readNumber_toString (n : Int) {rest : List Char} (hrest : Ends rest) :
    readNumber ((toString n).toList ++ rest) = .ok (.num (toString n), rest) := by
  cases n with
  | ofNat n =>
      have htext : (toString (Int.ofNat n)).toList = Nat.toDigits 10 n := toList_toString n
      have hback : String.ofList (Nat.toDigits 10 n) = toString (Int.ofNat n) := by
        rw [← htext, String.ofList_toList]
      have hhead : ∀ cs, Nat.toDigits 10 n ++ rest ≠ '-' :: cs := by
        intro cs hcs
        cases hds : Nat.toDigits 10 n with
        | nil => exact Nat.toDigits_ne_nil hds
        | cons d ds =>
            rw [hds, List.cons_append] at hcs
            have hdigit : d.isDigit = true := isDigit_of_mem (by rw [hds]; exact List.mem_cons_self)
            rw [(List.cons.inj hcs).1] at hdigit
            exact absurd hdigit (by decide)
      rw [htext]
      unfold readNumber
      split
      next sign cs heq =>
        split at heq
        · next hcs => exact absurd hcs (hhead _)
        · cases heq
          simp only [readWhole_toDigits n hrest, readFraction_of_ends hrest,
            readExponent_of_ends hrest, bind, Except.bind, pure, Except.pure, List.nil_append,
            List.append_nil, hback]
  | negSucc n =>
      have htext := toList_toString_negSucc n
      have hback : String.ofList ('-' :: Nat.toDigits 10 (n + 1)) = toString (Int.negSucc n) := by
        rw [← htext, String.ofList_toList]
      rw [htext]
      unfold readNumber
      simp only [List.cons_append, readWhole_toDigits (n + 1) hrest, readFraction_of_ends hrest,
        readExponent_of_ends hrest, bind, Except.bind, pure, Except.pure, List.nil_append,
        List.append_nil, hback]

/-- The written form of an integer starts with a minus sign or a digit. -/
theorem head_toString (n : Int) :
    ∃ c cs, (toString n).toList = c :: cs ∧ (c = '-' ∨ c.isDigit = true) := by
  cases n with
  | ofNat n =>
      rw [show (toString (Int.ofNat n)).toList = Nat.toDigits 10 n from toList_toString n]
      cases hds : Nat.toDigits 10 n with
      | nil => exact absurd hds Nat.toDigits_ne_nil
      | cons d ds =>
          exact ⟨d, ds, rfl, Or.inr (isDigit_of_mem (by rw [hds]; exact List.mem_cons_self))⟩
  | negSucc n => exact ⟨'-', _, toList_toString_negSucc n, Or.inl rfl⟩

end Reading

end Json
end InstallerLint
