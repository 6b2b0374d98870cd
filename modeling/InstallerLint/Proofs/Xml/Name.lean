import InstallerLint.Proofs.Text.Utf8
import InstallerLint.Xml.Token
import Mathlib.Data.List.TakeDrop

/-!
# Names in a text

A name is taken up to the first byte that cannot belong to one.  `Spells` says that bytes are a
name in two parts; then they are read as this name before every byte that ends names
(`readQName_eq_ok`).

**Plain names.**  A name without a colon is its own local part (`spells_plain`).
-/

namespace InstallerLint
namespace Xml

section Span

variable {p : UInt8 → Bool} {s l r : Bytes}

theorem span_eq_iff :
    s.span p = (l, r) ↔
      s = l ++ r ∧ (∀ b ∈ l, p b = true) ∧ ∀ b t, r = b :: t → p b = false := by
  rw [List.span_eq_takeWhile_dropWhile, Prod.mk.injEq]
  constructor
  · rintro ⟨rfl, rfl⟩
    refine ⟨List.takeWhile_append_dropWhile.symm, List.all_eq_true.mp List.all_takeWhile, ?_⟩
    intro b t h
    have hne : s.dropWhile p ≠ [] := by simp [h]
    have hhead := List.head_dropWhile_not p hne
    simpa [h] using hhead
  · rintro ⟨rfl, hl, hr⟩
    have htake : r.takeWhile p = [] := by
      cases r with
      | nil => rfl
      | cons b t => simp [hr b t rfl]
    have hdrop : r.dropWhile p = r := by
      cases r with
      | nil => rfl
      | cons b t => simp [hr b t rfl]
    rw [List.takeWhile_append_of_pos hl, List.dropWhile_append_of_pos hl, htake, hdrop,
      List.append_nil]
    exact ⟨rfl, rfl⟩

theorem span_append_cons {b : UInt8} {t : Bytes} (hl : ∀ b ∈ l, p b = true) (hb : p b = false) :
    (l ++ b :: t).span p = (l, b :: t) := by
  refine span_eq_iff.mpr ⟨rfl, hl, ?_⟩
  intro c u h
  cases h
  exact hb

end Span

/-- A name is taken up to the first byte that cannot belong to one; there is such a byte. -/
theorem takeName_eq_ok {s n rest : Bytes} :
    takeName s = .ok (n, rest) ↔
      s = n ++ rest ∧ (∀ b ∈ n, isNameByte b = true) ∧
        ∃ b t, rest = b :: t ∧ isNameByte b = false := by
  unfold takeName
  cases hspan : s.span isNameByte with
  | mk l r =>
      have hiff := span_eq_iff.mp hspan
      cases r with
      | nil =>
          constructor
          · intro h
            cases h
          · rintro ⟨rfl, hn, b, t, rfl, hb⟩
            rw [span_append_cons hn hb] at hspan
            cases hspan
      | cons b t =>
          constructor
          · intro h
            cases h
            exact ⟨hiff.1, hiff.2.1, b, t, rfl, hiff.2.2 b t rfl⟩
          · rintro ⟨rfl, hn, c, u, rfl, hc⟩
            rw [span_append_cons hn hc] at hspan
            cases hspan
            rfl

section Tables

/-- The table of a text, from its characters. -/
theorem ofText_eq {s : String} {l : List Char} (h : s = String.ofList l) :
    Ranges.ofText s =
      ((l.splitOnP fun c => c == ' ' || c == '\n').filter (· ≠ [])).map Ranges.entry := by
  rw [h, Ranges.ofText, Ranges.tokens, String.toList_ofList]

-- The tables are long texts: they are taken apart as lists of characters and computed once.
set_option maxRecDepth 20000 in
theorem nameStart_ascii : nameStart.filter (fun r => r.1 < 0x80) =
    [(0x3A, 0x3A), (0x41, 0x5A), (0x5F, 0x5F), (0x61, 0x7A)] := by
  rw [nameStart, ofText_eq rfl]
  decide +kernel

set_option maxRecDepth 20000 in
theorem nameMore_ascii : nameMore.filter (fun r => r.1 < 0x80) = [(0x2D, 0x2E), (0x30, 0x39)] := by
  rw [nameMore, ofText_eq rfl]
  decide +kernel

theorem contains_filter {r : Ranges} {n : Nat} (h : n < 0x80) :
    r.contains n = Ranges.contains (r.filter fun x => x.1 < 0x80) n := by
  rw [Bool.eq_iff_iff]
  simp only [Ranges.contains, List.any_eq_true, List.mem_filter, Bool.and_eq_true,
    decide_eq_true_eq]
  constructor
  · rintro ⟨x, hx, hlo, hhi⟩
    exact ⟨x, ⟨hx, by omega⟩, hlo, hhi⟩
  · rintro ⟨x, ⟨hx, -⟩, hlo, hhi⟩
    exact ⟨x, hx, hlo, hhi⟩

/-- An ASCII character of a name is a byte of a name. -/
theorem isNameByte_of_isNameChar {c : Char} (h : isNameChar c = true) (hascii : c.toNat < 0x80) :
    isNameByte (UInt8.ofNat c.toNat) = true := by
  have hall : ∀ n : Fin 128, (Ranges.contains [(0x3A, 0x3A), (0x41, 0x5A), (0x5F, 0x5F),
      (0x61, 0x7A)] n.val || Ranges.contains [(0x2D, 0x2E), (0x30, 0x39)] n.val) = true →
      isNameByte (UInt8.ofNat n.val) = true := by decide
  rw [isNameChar, Ranges.has, Ranges.has, contains_filter (r := nameStart) hascii, nameStart_ascii,
    contains_filter (r := nameMore) hascii, nameMore_ascii] at h
  exact hall ⟨c.toNat, hascii⟩ h

/-- ASCII letters may start names. -/
theorem isNameStart_of_letter {c : Char} (h : c.isAlpha = true) : isNameStart c = true := by
  have hc : (0x41 ≤ c.toNat ∧ c.toNat ≤ 0x5A) ∨ (0x61 ≤ c.toNat ∧ c.toNat ≤ 0x7A) := by
    rcases Bool.or_eq_true_iff.mp h with hupper | hlower
    · have hrange : (0x41 : UInt32) ≤ c.val ∧ c.val ≤ 0x5A := of_decide_eq_true hupper
      exact .inl (by simpa [UInt32.le_iff_toNat_le] using hrange)
    · obtain ⟨hlow, hhigh⟩ := Bool.and_eq_true_iff.mp hlower
      have hrange : (0x61 : UInt32) ≤ c.val ∧ c.val ≤ 0x7A :=
        ⟨of_decide_eq_true hlow, of_decide_eq_true hhigh⟩
      exact .inr (by simpa [UInt32.le_iff_toNat_le] using hrange)
  rw [isNameStart, Ranges.has, contains_filter (by omega), nameStart_ascii]
  simp only [Ranges.contains, List.any_cons, List.any_nil, Bool.or_false, Bool.or_eq_true,
    Bool.and_eq_true, decide_eq_true_eq]
  omega

end Tables

theorem isNameByte_of_le {b : UInt8} (h : 0x80 ≤ b) : isNameByte b = true := by
  simp [isNameByte, h]

/-- The bytes of a character that names may hold. -/
theorem isNameByte_of_mem {c : Char} (h : isNameChar c = true) {b : UInt8}
    (hb : b ∈ String.utf8EncodeChar c) : isNameByte b = true := by
  by_cases hascii : c.toNat < 0x80
  · rw [Bytes.utf8EncodeChar_ascii hascii, List.mem_singleton] at hb
    rw [hb]
    exact isNameByte_of_isNameChar h hascii
  · exact isNameByte_of_le (Bytes.le_of_mem_utf8EncodeChar (by omega) hb)

theorem isNameChar_of_isNameStart {c : Char} (h : isNameStart c = true) : isNameChar c = true := by
  rw [isNameStart] at h
  rw [isNameChar, h, Bool.true_or]

theorem any_some_and_all (p q : Char → Bool) (c : Char) (cs : List Char) :
    ((some c).any p && (cs.map some).all (·.any q)) = (p c && cs.all q) := by
  simp [Function.comp_def]

-- The step through the general statement keeps the tables of names closed.
theorem isName_ofString {s : String} {c : Char} {cs : List Char} (h : s.toList = c :: cs) :
    isName (Bytes.ofString s) = (isNameStart c && cs.all isNameChar) := by
  rw [isName, Bytes.chars_ofString, h, List.map_cons, isNameChars, any_some_and_all]

theorem isNameByte_of_isName {s : String} (h : isName (Bytes.ofString s) = true) :
    ∀ b ∈ Bytes.ofString s, isNameByte b = true := by
  intro b hb
  obtain ⟨c, hc, hbc⟩ := List.mem_flatMap.mp hb
  refine isNameByte_of_mem ?_ hbc
  cases hs : s.toList with
  | nil => simp [hs] at hc
  | cons a cs =>
      rw [isName_ofString hs, Bool.and_eq_true] at h
      rw [hs] at hc
      rcases List.mem_cons.mp hc with rfl | hc
      · exact isNameChar_of_isNameStart h.1
      · exact List.all_eq_true.mp h.2 c hc

/-- The bytes are a name, and these are its parts. -/
structure Spells (n : Bytes) (q : QName) : Prop where
  isName : isName n = true
  bytes : ∀ b ∈ n, isNameByte b = true
  parts : QName.ofText? (Bytes.toText n) = some q

theorem Spells.ne_nil {n : Bytes} {q : QName} (h : Spells n q) : n ≠ [] := by
  rintro rfl
  exact absurd h.isName (by decide)

/-- Whether names end before a rest: it starts with a byte that cannot belong to one. -/
def EndsName (rest : Bytes) : Prop := ∃ b t, rest = b :: t ∧ isNameByte b = false

theorem endsName_cons {b : UInt8} {t : Bytes} (h : isNameByte b = false) : EndsName (b :: t) :=
  ⟨b, t, rfl, h⟩

theorem readName_eq_some {s rest : Bytes} {v : String} :
    readName s = .ok (some v, rest) ↔
      ∃ n, s = n ++ rest ∧ isName n = true ∧ (∀ b ∈ n, isNameByte b = true) ∧ EndsName rest ∧
        v = Bytes.toText n := by
  constructor
  · intro h
    unfold readName at h
    cases htake : takeName s with
    | error stop =>
        rw [htake] at h
        cases h
    | ok x =>
        obtain ⟨n, r⟩ := x
        rw [htake] at h
        obtain ⟨hs, hbytes, hends⟩ := takeName_eq_ok.mp htake
        simp only [bind, Except.bind, pure, Except.pure] at h
        split_ifs at h with hnil hname
        · cases h
        · cases h
          exact ⟨n, hs, hname, hbytes, hends, rfl⟩
  · rintro ⟨n, rfl, hname, hbytes, hends, rfl⟩
    have hne : n ≠ [] := by
      rintro rfl
      exact absurd hname (by decide)
    unfold readName
    rw [takeName_eq_ok.mpr ⟨rfl, hbytes, hends⟩]
    simp only [bind, Except.bind, pure, Except.pure, if_neg hne, hname, if_true]

/-- What is read as a name in two parts. -/
theorem readQName_eq_ok {missing : Fault} {s rest : Bytes} {q : QName} :
    readQName missing s = .ok (q, rest) ↔ ∃ n, s = n ++ rest ∧ Spells n q ∧ EndsName rest := by
  constructor
  · intro h
    unfold readQName at h
    cases hread : readName s with
    | error stop =>
        rw [hread] at h
        cases h
    | ok x =>
        obtain ⟨v, r⟩ := x
        rw [hread] at h
        simp only [bind, Except.bind, pure, Except.pure] at h
        cases v with
        | none => cases h
        | some v =>
            obtain ⟨n, hs, hname, hbytes, hends, rfl⟩ := readName_eq_some.mp hread
            cases hparts : QName.ofText? (Bytes.toText n) with
            | none =>
                rw [Option.bind_some, hparts] at h
                cases h
            | some q' =>
                rw [Option.bind_some, hparts] at h
                cases h
                exact ⟨n, hs, ⟨hname, hbytes, hparts⟩, hends⟩
  · rintro ⟨n, rfl, hn, hends⟩
    have hread := readName_eq_some.mpr ⟨n, rfl, hn.isName, hn.bytes, hends, rfl⟩
    unfold readQName
    rw [hread]
    simp only [bind, Except.bind, pure, Except.pure, Option.bind_some, hn.parts]

section Plain

/-- A name without a colon. -/
structure IsPlainName (s : String) : Prop where
  isName : isName (Bytes.ofString s) = true
  no_colon : ':' ∉ s.toList

/-- A name without a colon is its own local part. -/
theorem IsPlainName.spells {s : String} (h : IsPlainName s) : Spells (Bytes.ofString s) ⟨"", s⟩ where
  isName := h.isName
  bytes := isNameByte_of_isName h.isName
  parts := by
    rw [Bytes.toText_ofString, QName.ofText?, List.splitOn_eq_singleton h.no_colon]

/-- ASCII letters form a name. -/
theorem isPlainName_of_letters {s : String} {a : Char} {cs : List Char} (hs : s.toList = a :: cs)
    (h : s.toList.all Char.isAlpha = true) : IsPlainName s := by
  rw [List.all_eq_true] at h
  constructor
  · rw [isName_ofString hs, Bool.and_eq_true, List.all_eq_true]
    rw [hs] at h
    constructor
    · apply isNameStart_of_letter
      exact h a List.mem_cons_self
    · intro c hc
      apply isNameChar_of_isNameStart
      apply isNameStart_of_letter
      exact h c (List.mem_cons_of_mem a hc)
  · intro hmem
    exact absurd (h ':' hmem) (by decide)

end Plain

end Xml
end InstallerLint
