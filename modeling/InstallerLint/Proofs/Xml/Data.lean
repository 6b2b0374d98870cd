import InstallerLint.Document.Edit
import InstallerLint.Proofs.Xml.Name

/-!
# Reading and writing character data

What a reader takes from the front of a text does not depend on what stands behind it, as far as
that cannot go on.  So each piece of character data can be cut out and put somewhere else.

**Cutting.**  `readEntity_cut` and `readData_cut` say for references and for the three places of
character data which bytes were taken, and that the same bytes are taken before any other rest
that may follow (`Mode.Ends`).

**Writing.**  `Writes` says that bytes are a written form of a text.  A value between quotes and a
text between tags are written so (`writes_value`, `writes_content`), as long as markup may hold
their characters and there is no carriage return.
-/

namespace InstallerLint
namespace Xml

section Entities

/-- Bytes of a reference behind its ampersand. -/
def isEntityByte (b : UInt8) : Bool := b == 0x23 || b == 0x3B || isNameByte b

theorem isNameByte_of_isCodeDigit {hexadecimal : Bool} {b : UInt8}
    (h : isCodeDigit hexadecimal b = true) : isNameByte b = true := by
  simp only [isCodeDigit, isNameByte, Bool.or_eq_true, Bool.and_eq_true, decide_eq_true_eq] at *
  rcases h with h | ⟨-, h | h⟩
  · simp [h]
  · have : b ≤ 0x7A := UInt8.le_trans h.2 (by decide)
    simp [h.1, this]
  · have : b ≤ 0x5A := UInt8.le_trans h.2 (by decide)
    simp [h.1, this]

/-- A character by number is read off the front, whatever follows. -/
theorem readCode_cut {lead : String} {hexadecimal : Bool} {s bytes rest : Bytes}
    (h : readCode lead hexadecimal s = .ok (bytes, rest)) :
    ∃ w, s = w ++ rest ∧ (∀ b ∈ w, isEntityByte b = true) ∧ w.head? ≠ some 0x78 ∧ w ≠ [] ∧
      ∀ rest', readCode lead hexadecimal (w ++ rest') = .ok (bytes, rest') := by
  unfold readCode at h
  cases hspan : s.span (isCodeDigit hexadecimal) with
  | mk digits r =>
      rw [hspan] at h
      obtain ⟨hs, hdigits, hstop⟩ := span_eq_iff.mp hspan
      cases r with
      | nil => cases h
      | cons b t =>
          dsimp only at h
          split_ifs at h with hb hcode
          cases h
          obtain rfl : b = 0x3B := by simpa using hb
          refine ⟨digits ++ [0x3B], by simp [hs], ?_, ?_, by simp, ?_⟩
          · intro b hmem
            rcases List.mem_append.mp hmem with hmem | hmem
            · simp [isEntityByte, isNameByte_of_isCodeDigit (hdigits b hmem)]
            · obtain rfl := List.mem_singleton.mp hmem
              decide
          · cases digits with
            | nil => simp
            | cons d ds =>
                have hd := hdigits d List.mem_cons_self
                intro heq
                simp only [List.cons_append, List.head?_cons, Option.some.injEq] at heq
                subst heq
                revert hd
                cases hexadecimal <;> decide
          · intro rest'
            unfold readCode
            rw [List.append_assoc, List.singleton_append,
              span_append_cons hdigits (hstop _ _ rfl)]
            dsimp only
            rw [if_neg (by simp), if_pos hcode]

/-- A named entity is read off the front, whatever follows. -/
theorem readNamed_cut {s bytes rest : Bytes} (h : readNamed s = .ok (bytes, rest)) :
    ∃ w, s = w ++ rest ∧ (∀ b ∈ w, isEntityByte b = true) ∧ w.head? ≠ some 0x23 ∧ w ≠ [] ∧
      ∀ rest', readNamed (w ++ rest') = .ok (bytes, rest') := by
  unfold readNamed at h
  cases htake : takeName s with
  | error stop =>
      rw [htake] at h
      cases h
  | ok x =>
      obtain ⟨name, r⟩ := x
      rw [htake] at h
      obtain ⟨hs, hname, b, t, rfl, hb⟩ := takeName_eq_ok.mp htake
      simp only [bind, Except.bind, pure, Except.pure, throw, throwThe, MonadExceptOf.throw] at h
      by_cases hsemi : b = 0x3B
      · subst hsemi
        cases hlook : (if isName name then predefined.lookup (Bytes.toText name) else none) with
        | none =>
            rw [hlook] at h
            cases h
        | some c =>
            rw [hlook] at h
            cases h
            refine ⟨name ++ [0x3B], by simp [hs], ?_, ?_, by simp, ?_⟩
            · intro b hmem
              rcases List.mem_append.mp hmem with hmem | hmem
              · simp [isEntityByte, hname b hmem]
              · obtain rfl := List.mem_singleton.mp hmem
                decide
            · cases name with
              | nil => simp
              | cons d ds =>
                  have hd := hname d List.mem_cons_self
                  intro heq
                  simp only [List.cons_append, List.head?_cons, Option.some.injEq] at heq
                  subst heq
                  exact absurd hd (by decide)
            · intro rest'
              have htake' : takeName (name ++ [0x3B] ++ rest') = .ok (name, 0x3B :: rest') :=
                takeName_eq_ok.mpr ⟨by simp, hname, 0x3B, rest', rfl, by decide⟩
              unfold readNamed
              rw [htake']
              simp only [bind, Except.bind, pure, Except.pure, hlook]
      · split at h
        · next heq => cases heq; exact absurd rfl hsemi
        · cases h

theorem readEntity_eq_readNamed {c : UInt8} (hc : c ≠ 0x23) (u : Bytes) :
    readEntity (c :: u) = readNamed (c :: u) := by
  rw [readEntity.eq_def]
  split
  · next heq => cases heq
  · next heq => cases heq; exact absurd rfl hc
  · next heq => cases heq; exact absurd rfl hc
  · next heq => cases heq; exact absurd rfl hc
  · rfl

/-- A reference is taken up to its semicolon. -/
theorem readEntity_cut {s bytes rest : Bytes} (h : readEntity s = .ok (bytes, rest)) :
    ∃ w, s = w ++ rest ∧ (∀ b ∈ w, isEntityByte b = true) ∧ w ≠ [] ∧
      ∀ rest', readEntity (w ++ rest') = .ok (bytes, rest') := by
  unfold readEntity at h
  split at h
  · cases h
  · cases h
  · next t =>
      obtain ⟨w, rfl, hw, -, -, hread⟩ := readCode_cut h
      refine ⟨0x23 :: 0x78 :: w, by simp, ?_, by simp, ?_⟩
      · intro b hb
        rcases List.mem_cons.mp hb with rfl | hb
        · decide
        · rcases List.mem_cons.mp hb with rfl | hb
          · decide
          · exact hw b hb
      · intro rest'
        simpa [readEntity] using hread rest'
  · next t hx hnil =>
      obtain ⟨w, rfl, hw, hhead, hne, hread⟩ := readCode_cut h
      refine ⟨0x23 :: w, by simp, ?_, by simp, ?_⟩
      · intro b hb
        rcases List.mem_cons.mp hb with rfl | hb
        · decide
        · exact hw b hb
      · intro rest'
        obtain ⟨c, u, rfl⟩ := List.exists_cons_of_ne_nil hne
        have hc : c ≠ 0x78 := by simpa using hhead
        rw [← hread rest', List.cons_append, List.cons_append]
        generalize u ++ rest' = v
        rw [readEntity.eq_def]
        split
        · next heq => cases heq
        · next heq => cases heq
        · next heq => cases heq; exact absurd rfl hc
        · next heq => cases heq; rfl
        · next hno => exact absurd rfl (hno _)
  · next hnil hone hx hcode =>
      obtain ⟨w, rfl, hw, hhead, hne, hread⟩ := readNamed_cut h
      refine ⟨w, rfl, hw, hne, ?_⟩
      intro rest'
      obtain ⟨c, u, rfl⟩ := List.exists_cons_of_ne_nil hne
      have hc : c ≠ 0x23 := by simpa using hhead
      rw [← hread rest', List.cons_append, readEntity_eq_readNamed hc]

end Entities

namespace Mode

/-- What ends character data. -/
def mark : Mode → Bytes
  | content => []
  | value q => [q]
  | cdata => [0x5D, 0x5D, 0x3E]

/-- Whether character data with its mark can stand before a rest: content goes up to a tag or to
the end of the text. -/
def Ends (mode : Mode) (rest : Bytes) : Prop := mode = .content → ∀ b ∈ rest.head?, b = 0x3C

/-- Whether the quotes of a value are quotes. -/
def Proper (mode : Mode) : Prop := ∀ q, mode = .value q → q = 0x22 ∨ q = 0x27

theorem proper_content : content.Proper := by
  intro q h
  cases h

theorem proper_cdata : cdata.Proper := by
  intro q h
  cases h

theorem ends_of_ne {mode : Mode} (h : mode ≠ .content) (rest : Bytes) : mode.Ends rest :=
  fun hc => absurd hc h

end Mode

section Data

variable {mode : Mode} {b : UInt8} {s raw rest rest' : Bytes}

/-- A byte with what follows that does not end character data and is no fault. -/
structure Inner (mode : Mode) (b : UInt8) (s : Bytes) : Prop where
  no_mark : [b] ++ s.take 2 = [0x5D, 0x5D, 0x3E] → mode ≠ .cdata ∧ mode ≠ .content
  /-- A less-than sign stands in sections only. -/
  no_less : b = 0x3C → mode = .cdata
  /-- It is not the closing quote. -/
  no_quote : mode ≠ .value b

theorem Inner.of_guards
    (h1 : ¬(decide (mode = .cdata) && decide ([b] ++ s.take 2 = [0x5D, 0x5D, 0x3E])) = true)
    (h2 : ¬(decide (mode = .content) && decide ([b] ++ s.take 2 = [0x5D, 0x5D, 0x3E])) = true)
    (h3 : ¬(decide (b = 0x3C) && decide (mode ≠ .cdata)) = true)
    (h4 : ¬mode = .value b) : Inner mode b s where
  no_mark := by
    intro hmark
    constructor
    · intro hmode
      exact h1 (by simp [hmode, hmark])
    · intro hmode
      exact h2 (by simp [hmode, hmark])
  no_less := by
    intro hb
    by_contra hmode
    exact h3 (by simp [hb, hmode])
  no_quote := h4

theorem Inner.guards (h : Inner mode b s) :
    ¬(decide (mode = .cdata) && decide ([b] ++ s.take 2 = [0x5D, 0x5D, 0x3E])) = true ∧
    ¬(decide (mode = .content) && decide ([b] ++ s.take 2 = [0x5D, 0x5D, 0x3E])) = true ∧
    ¬(decide (b = 0x3C) && decide (mode = .content)) = true ∧
    ¬(decide (b = 0x3C) && decide (mode ≠ .cdata)) = true := by
  simp only [Bool.and_eq_true, decide_eq_true_eq]
  refine ⟨fun hm => (h.no_mark hm.2).1 hm.1, fun hm => (h.no_mark hm.2).2 hm.1, ?_, ?_⟩
  · rintro ⟨hb, hm⟩
    rw [h.no_less hb] at hm
    cases hm
  · exact fun hm => hm.2 (h.no_less hm.1)

/-- One step at an entity. -/
theorem readData_entity {bytes t : Bytes} (h : Inner mode 0x26 s) (hmode : mode ≠ .cdata)
    (hentity : readEntity s = .ok (bytes, t)) (hlen : t.length ≤ s.length) :
    readData mode (0x26 :: s) = (readData mode t).map fun x => (bytes ++ x.1, x.2) := by
  obtain ⟨h1, h2, h3, h4⟩ := h.guards
  rw [readData.eq_def]
  dsimp only
  rw [if_neg h1, if_neg h2, if_neg h3, if_neg h4, if_neg h.no_quote, if_pos (by simp [hmode]),
    hentity]
  dsimp only
  rw [if_pos hlen]
  cases readData mode t <;> rfl

/-- One step at a carriage return with its line feed. -/
theorem readData_return_feed (h : Inner mode 0x0D (0x0A :: s)) :
    readData mode (0x0D :: 0x0A :: s) = (readData mode s).map fun x => (0x0A :: x.1, x.2) := by
  obtain ⟨h1, h2, h3, h4⟩ := h.guards
  rw [readData.eq_def]
  dsimp only
  rw [if_neg h1, if_neg h2, if_neg h3, if_neg h4, if_neg h.no_quote, if_neg (by simp), if_pos rfl]
  rfl

/-- One step at a carriage return alone. -/
theorem readData_return (h : Inner mode 0x0D s) (hfeed : ∀ t, s ≠ 0x0A :: t) :
    readData mode (0x0D :: s) = (readData mode s).map fun x => (0x0A :: x.1, x.2) := by
  obtain ⟨h1, h2, h3, h4⟩ := h.guards
  rw [readData.eq_def]
  dsimp only
  rw [if_neg h1, if_neg h2, if_neg h3, if_neg h4, if_neg h.no_quote, if_neg (by simp), if_pos rfl]
  split
  · next t => exact absurd rfl (hfeed t)
  · rfl

/-- One step at any other byte. -/
theorem readData_plain (h : Inner mode b s) (hamp : b = 0x26 → mode = .cdata) (hret : b ≠ 0x0D) :
    readData mode (b :: s) = (readData mode s).map fun x => (b :: x.1, x.2) := by
  obtain ⟨h1, h2, h3, h4⟩ := h.guards
  have h5 : ¬(decide (b = 0x26) && decide (mode ≠ .cdata)) = true := by
    rw [Bool.and_eq_true, decide_eq_true_eq, decide_eq_true_eq]
    exact fun hm => hm.2 (hamp hm.1)
  rw [readData.eq_def]
  dsimp only
  rw [if_neg h1, if_neg h2, if_neg h3, if_neg h4, if_neg h.no_quote, if_neg h5, if_neg hret]

/-- Two bytes are seen ahead, and before the mark they are the same before every rest. -/
theorem take_two_eq (hends : mode.Ends rest)
    (h : [b] ++ (raw ++ mode.mark ++ rest).take 2 = [0x5D, 0x5D, 0x3E])
    (hmode : mode = .cdata ∨ mode = .content) :
    [b] ++ (raw ++ mode.mark ++ rest').take 2 = [0x5D, 0x5D, 0x3E] := by
  rw [← h]
  congr 1
  have htail : (raw ++ mode.mark ++ rest).take 2 = [0x5D, 0x3E] := (List.cons.inj h).2
  match raw with
  | x :: y :: raw => rfl
  | [x] =>
      rcases hmode with rfl | rfl
      · rfl
      · cases rest with
        | nil => simp [Mode.mark] at htail
        | cons c t =>
            obtain rfl := hends rfl c rfl
            simp [Mode.mark] at htail
  | [] =>
      rcases hmode with rfl | rfl
      · simp [Mode.mark] at htail
      · cases rest with
        | nil => simp [Mode.mark] at htail
        | cons c t =>
            obtain rfl := hends rfl c rfl
            simp [Mode.mark] at htail

/-- What stands behind the mark does not matter for a byte before it. -/
theorem Inner.change (h : Inner mode b (raw ++ mode.mark ++ rest)) (hends' : mode.Ends rest') :
    Inner mode b (raw ++ mode.mark ++ rest') where
  no_mark := by
    intro hmark
    by_contra hmode
    have hm : mode = .cdata ∨ mode = .content := by
      by_cases hc : mode = .cdata
      · exact Or.inl hc
      · exact Or.inr (by simpa [hc] using hmode)
    exact hmode (h.no_mark (take_two_eq hends' hmark hm))
  no_less := h.no_less
  no_quote := h.no_quote

/-- At the mark character data ends. -/
theorem readData_mark (hproper : mode.Proper) (hends : mode.Ends rest) :
    readData mode (mode.mark ++ rest) = .ok ([], rest) := by
  cases mode with
  | content =>
      cases rest with
      | nil => simp [Mode.mark, readData]
      | cons c t =>
          obtain rfl := hends rfl c rfl
          rw [Mode.mark, List.nil_append, readData.eq_def]
          simp
  | value q =>
      rw [Mode.mark, List.singleton_append, readData.eq_def]
      rcases hproper q rfl with rfl | rfl <;> simp
  | cdata =>
      rw [Mode.mark, List.cons_append, readData.eq_def]
      simp

theorem not_mem_entity {w : Bytes} {q : UInt8} (hproper : mode.Proper)
    (hw : ∀ b ∈ w, isEntityByte b = true) (hq : mode = .value q) : q ∉ 0x26 :: w := by
  intro hmem
  have hquote := hproper q hq
  rcases List.mem_cons.mp hmem with rfl | hmem
  · revert hquote
    decide
  · have := hw q hmem
    rcases hquote with rfl | rfl <;> exact absurd this (by decide)

/-- The result of a step that put something in front. -/
theorem eq_ok_of_map {r : Except Stop (Bytes × Bytes)} {w data : Bytes}
    (h : (r.map fun x => (w ++ x.1, x.2)) = .ok (data, rest)) :
    ∃ data', r = .ok (data', rest) ∧ data = w ++ data' := by
  cases r with
  | error stop => cases h
  | ok x =>
      cases h
      exact ⟨x.1, rfl, rfl⟩

/-- The text `s` is character data with its mark and `rest`; the same character data is read before
every rest that may follow. -/
def Cut (mode : Mode) (s data rest : Bytes) : Prop :=
  ∃ raw, s = raw ++ mode.mark ++ rest ∧ (∀ q, mode = .value q → q ∉ raw) ∧ mode.Ends rest ∧
    ∀ rest', mode.Ends rest' → readData mode (raw ++ mode.mark ++ rest') = .ok (data, rest')

theorem Cut.of_mark (hproper : mode.Proper) (hends : mode.Ends rest) :
    Cut mode (mode.mark ++ rest) [] rest :=
  ⟨[], rfl, by simp, hends, fun _ hends' => readData_mark hproper hends'⟩

/-- Character data goes on with a piece `w` that is read as `v`. -/
theorem Cut.step {w v data : Bytes} (h : Cut mode s data rest)
    (hw : ∀ q, mode = .value q → q ∉ w)
    (hstep : ∀ raw rest', mode.Ends rest' → s = raw ++ mode.mark ++ rest →
      readData mode (w ++ (raw ++ mode.mark ++ rest')) =
        (readData mode (raw ++ mode.mark ++ rest')).map fun x => (v ++ x.1, x.2)) :
    Cut mode (w ++ s) (v ++ data) rest := by
  obtain ⟨raw, rfl, hquiet, hends, hread⟩ := h
  refine ⟨w ++ raw, by simp, ?_, hends, ?_⟩
  · intro q hq hmem
    rcases List.mem_append.mp hmem with hmem | hmem
    · exact hw q hq hmem
    · exact hquiet q hq hmem
  · intro rest' hends'
    rw [List.append_assoc, List.append_assoc, ← List.append_assoc raw, hstep raw rest' hends' rfl,
      hread rest' hends']
    rfl

/-- A line feed is not the first byte behind a rest that may follow. -/
theorem no_feed_of_no_feed (hproper : mode.Proper) (hends' : mode.Ends rest')
    (h : ∀ t, raw ++ mode.mark ++ rest = 0x0A :: t → False) (t : Bytes) :
    raw ++ mode.mark ++ rest' ≠ 0x0A :: t := by
  intro heq
  cases raw with
  | cons c raw =>
      have hc : c = 0x0A := (List.cons.inj heq).1
      exact h (raw ++ mode.mark ++ rest) (by simp [hc])
  | nil =>
      cases mode with
      | content =>
          rw [show [] ++ Mode.content.mark ++ rest' = rest' from rfl] at heq
          have := hends' rfl 0x0A (by simp [heq])
          exact absurd this (by decide)
      | value q =>
          have hq : q = 0x0A := (List.cons.inj heq).1
          have hquote := hproper q rfl
          rw [hq] at hquote
          exact absurd hquote (by decide)
      | cdata =>
          exact absurd (List.cons.inj heq).1 (by decide)

/-- The end of a section stands at its mark. -/
theorem Cut.of_section (h : [b] ++ s.take 2 = [0x5D, 0x5D, 0x3E]) :
    Cut .cdata (b :: s) [] (s.drop 2) := by
  have hs : b :: s = Mode.cdata.mark ++ s.drop 2 := by
    have hb : b = 0x5D := (List.cons.inj h).1
    have htake : s.take 2 = [0x5D, 0x3E] := (List.cons.inj h).2
    nth_rewrite 1 [hb, ← List.take_append_drop 2 s, htake]
    rfl
  rw [hs]
  exact Cut.of_mark Mode.proper_cdata (Mode.ends_of_ne (by simp) _)

/-- An entity in front. -/
theorem Cut.entity {bytes t data : Bytes} (h : Cut mode t data rest) (hproper : mode.Proper)
    (hinner : Inner mode 0x26 s) (hmode : mode ≠ .cdata) (hentity : readEntity s = .ok (bytes, t)) :
    Cut mode (0x26 :: s) (bytes ++ data) rest := by
  obtain ⟨w, rfl, hw, -, hcut⟩ := readEntity_cut hentity
  refine h.step (w := 0x26 :: w) (fun q => not_mem_entity hproper hw) ?_
  rintro raw rest' hends' rfl
  rw [← List.append_assoc, ← List.append_assoc] at hinner
  have hinner' := hinner.change hends'
  rw [List.append_assoc, List.append_assoc, ← List.append_assoc raw] at hinner'
  exact readData_entity hinner' hmode (hcut _) (by simp)

/-- A return and a line feed in front. -/
theorem Cut.return_feed {data : Bytes} (h : Cut mode s data rest) (hproper : mode.Proper)
    (hinner : Inner mode 0x0D (0x0A :: s)) :
    Cut mode (0x0D :: 0x0A :: s) (0x0A :: data) rest := by
  refine h.step (w := [0x0D, 0x0A]) (v := [0x0A]) ?_ ?_
  · intro q hq hmem
    have hquote := hproper q hq
    simp only [List.mem_cons, List.not_mem_nil, or_false] at hmem
    rcases hmem with rfl | rfl <;> exact absurd hquote (by decide)
  · rintro raw rest' hends' rfl
    rw [show (0x0A :: (raw ++ mode.mark ++ rest)) = 0x0A :: raw ++ mode.mark ++ rest from rfl]
      at hinner
    exact readData_return_feed (hinner.change hends')

/-- A return alone in front. -/
theorem Cut.return {data : Bytes} (h : Cut mode s data rest) (hproper : mode.Proper)
    (hinner : Inner mode 0x0D s) (hfeed : ∀ t, s = 0x0A :: t → False) :
    Cut mode (0x0D :: s) (0x0A :: data) rest := by
  refine h.step (w := [0x0D]) (v := [0x0A]) ?_ ?_
  · intro q hq hmem
    have hquote := hproper q hq
    obtain rfl := List.mem_singleton.mp hmem
    exact absurd hquote (by decide)
  · rintro raw rest' hends' rfl
    exact readData_return (hinner.change hends') (no_feed_of_no_feed hproper hends' hfeed)

/-- Any other byte in front. -/
theorem Cut.plain {data : Bytes} (h : Cut mode s data rest) (hinner : Inner mode b s)
    (hamp : b = 0x26 → mode = .cdata) (hret : b ≠ 0x0D) : Cut mode (b :: s) (b :: data) rest := by
  refine h.step (w := [b]) (v := [b]) ?_ ?_
  · intro q hq hmem
    obtain rfl := List.mem_singleton.mp hmem
    exact hinner.no_quote hq
  · rintro raw rest' hends' rfl
    exact readData_plain (hinner.change hends') hamp hret

/-- **Cutting out character data.**  The bytes that were taken end with the mark of their place,
and before every rest that may follow the same bytes are taken. -/
theorem readData_cut (hproper : mode.Proper) {data : Bytes} (h : readData mode s = .ok (data, rest))
    (hmore : (∃ q, mode = .value q) → rest ≠ []) : Cut mode s data rest := by
  fun_induction readData mode s generalizing data rest with
  | case1 => cases h
  | case2 hmode =>
      cases h
      cases mode with
      | content => exact Cut.of_mark hproper (by simp [Mode.Ends])
      | value q => exact absurd rfl (hmore ⟨q, rfl⟩)
      | cdata => exact absurd rfl hmode
  | case3 b s hmark =>
      cases h
      rw [Bool.and_eq_true, decide_eq_true_eq, decide_eq_true_eq] at hmark
      obtain ⟨rfl, hmark⟩ := hmark
      exact .of_section hmark
  | case4 => cases h
  | case5 b s h1 h2 hless =>
      cases h
      rw [Bool.and_eq_true, decide_eq_true_eq, decide_eq_true_eq] at hless
      obtain ⟨rfl, rfl⟩ := hless
      exact Cut.of_mark hproper (by simp [Mode.Ends])
  | case6 => cases h
  | case7 b s h1 h2 h3 h4 hquote =>
      cases h
      subst hquote
      exact Cut.of_mark hproper (Mode.ends_of_ne (by simp) _)
  | case8 => cases h
  | case9 => cases h
  | case10 b s h1 h2 h3 h4 h5 hamp bytes t hentity hlen data' rest'' hdata ih =>
      cases h
      rw [Bool.and_eq_true, decide_eq_true_eq, decide_eq_true_eq] at hamp
      obtain ⟨rfl, hmode⟩ := hamp
      exact (ih hdata hmore).entity hproper (.of_guards h1 h2 h4 h5) hmode hentity
  | case11 b s h1 h2 h3 h4 h5 hamp bytes t hentity hlen =>
      obtain ⟨w, rfl, -⟩ := readEntity_cut hentity
      exact absurd (by simp) hlen
  | case12 s h3 h4 h5 h6 h1 h2 ih =>
      obtain ⟨data', hdata, rfl⟩ := eq_ok_of_map (w := [0x0A]) h
      exact (ih hdata hmore).return_feed hproper (.of_guards h1 h2 h4 h5)
  | case13 s hfeed h3 h4 h5 h6 h1 h2 ih =>
      obtain ⟨data', hdata, rfl⟩ := eq_ok_of_map (w := [0x0A]) h
      exact (ih hdata hmore).return hproper (.of_guards h1 h2 h4 h5) hfeed
  | case14 b s h1 h2 h3 h4 h5 h6 h7 ih =>
      obtain ⟨data', hdata, rfl⟩ := eq_ok_of_map (w := [b]) h
      refine (ih hdata hmore).plain (.of_guards h1 h2 h4 h5) (fun hb => ?_) h7
      by_contra hmode
      exact h6 (by simp [hb, hmode])

/-- A text is read when its data is and all characters are allowed. -/
theorem readText_eq_ok {v : String} :
    readText mode s = .ok (v, rest) ↔
      ∃ data, readData mode s = .ok (data, rest) ∧ charFault? (Bytes.chars data) = none ∧
        v = Bytes.toText data := by
  unfold readText
  cases readData mode s with
  | error stop =>
      constructor
      · intro h
        cases h
      · rintro ⟨data, h, -⟩
        cases h
  | ok x =>
      obtain ⟨data, r⟩ := x
      simp only [bind, Except.bind, Except.ok.injEq, Prod.mk.injEq]
      cases hfault : charFault? (Bytes.chars data) with
      | none =>
          constructor
          · intro h
            cases h
            exact ⟨data, ⟨rfl, rfl⟩, hfault, rfl⟩
          · rintro ⟨data', ⟨rfl, rfl⟩, -, rfl⟩
            rfl
      | some fault =>
          constructor
          · intro h
            cases h
          · rintro ⟨data', ⟨rfl, rfl⟩, hnone, -⟩
            rw [hfault] at hnone
            cases hnone

/-- `raw` is a written form of the text `v` in its place. -/
def Writes (mode : Mode) (raw : Bytes) (v : String) : Prop :=
  (∀ q, mode = .value q → q ∉ raw) ∧
    ∀ rest, mode.Ends rest → readText mode (raw ++ mode.mark ++ rest) = .ok (v, rest)

/-- A text that was read was written in front of what is left. -/
theorem readText_cut (hproper : mode.Proper) {v : String} (h : readText mode s = .ok (v, rest))
    (hmore : (∃ q, mode = .value q) → rest ≠ []) :
    ∃ raw, s = raw ++ mode.mark ++ rest ∧ mode.Ends rest ∧ Writes mode raw v := by
  obtain ⟨data, hdata, hfault, rfl⟩ := readText_eq_ok.mp h
  obtain ⟨raw, hs, hquiet, hends, hread⟩ := readData_cut hproper hdata hmore
  refine ⟨raw, hs, hends, hquiet, fun rest' hends' => ?_⟩
  exact readText_eq_ok.mpr ⟨data, hread rest' hends', hfault, rfl⟩

end Data

section Writing

variable {mode : Mode} {w s rest : Bytes} {escape : Char → List Char}

/-- Characters that are read back from their written form: markup may hold them, and they are no
carriage returns. -/
def isWritable (c : Char) : Bool := isAllowed c && c ≠ '\r'

theorem readEntity_named {name : String} {b : UInt8} (hname : IsPlainName name)
    (hlook : predefined.lookup name = some b) :
    readEntity (Bytes.ofString name ++ 0x3B :: s) = .ok ([b], s) := by
  have hbytes := hname.spells.bytes
  have hnamed : readNamed (Bytes.ofString name ++ 0x3B :: s) = .ok ([b], s) := by
    unfold readNamed
    rw [takeName_eq_ok.mpr ⟨rfl, hbytes, 0x3B, s, rfl, by decide⟩]
    simp only [bind, Except.bind, hname.isName, if_true, Bytes.toText_ofString, hlook]
    rfl
  obtain ⟨c, u, hcons⟩ := List.exists_cons_of_ne_nil hname.spells.ne_nil
  have hc : c ≠ 0x23 := by
    rintro rfl
    exact absurd (hbytes 0x23 (by simp [hcons])) (by decide)
  rw [hcons, List.cons_append] at hnamed ⊢
  rw [readEntity_eq_readNamed hc, hnamed]

/-- Bytes that stand for themselves. -/
structure IsPlain (mode : Mode) (b : UInt8) : Prop where
  no_less : b ≠ 0x3C
  no_amp : b ≠ 0x26
  no_return : b ≠ 0x0D
  no_quote : mode ≠ .value b
  no_greater : mode = .content → b ≠ 0x3E

/-- A rest that completes no section end, whatever plain bytes stand before it. -/
def Quiet (mode : Mode) (s : Bytes) : Prop :=
  mode = .content → (∀ t, s ≠ 0x3E :: t) ∧ ∀ t, s ≠ 0x5D :: 0x3E :: t

theorem Quiet.append (hw : mode = .content → 0x3E ∉ w) (h : Quiet mode s) : Quiet mode (w ++ s) := by
  intro hmode
  obtain ⟨h1, h2⟩ := h hmode
  specialize hw hmode
  cases w with
  | nil => exact ⟨h1, h2⟩
  | cons b w =>
      have hb : b ≠ 0x3E := fun h => hw (by simp [h])
      refine ⟨fun t heq => hb (List.cons.inj heq).1, fun t heq => ?_⟩
      have htail := (List.cons.inj heq).2
      cases w with
      | nil => exact h1 t htail
      | cons c w => exact hw (by simp [(List.cons.inj htail).1])

theorem quiet_mark (hends : mode.Ends rest) : Quiet mode (mode.mark ++ rest) := by
  rintro rfl
  have hhead : ∀ b t, rest = b :: t → b = 0x3C := fun b t heq => hends rfl b (by simp [heq])
  constructor
  · intro t heq
    exact absurd (hhead _ _ heq) (by decide)
  · intro t heq
    exact absurd (hhead _ _ heq) (by decide)

/-- Plain bytes are taken as they are. -/
theorem readData_run (hmode : mode ≠ .cdata) (hw : ∀ b ∈ w, IsPlain mode b) (hs : Quiet mode s) :
    readData mode (w ++ s) = (readData mode s).map fun x => (w ++ x.1, x.2) := by
  induction w with
  | nil =>
      rw [List.nil_append]
      cases readData mode s <;> rfl
  | cons b w ih =>
      have hrest : ∀ c ∈ w, IsPlain mode c := fun c hc => hw c (List.mem_cons_of_mem b hc)
      have hb := hw b List.mem_cons_self
      have hquiet : Quiet mode (w ++ s) :=
        hs.append fun hm hmem => (hrest _ hmem).no_greater hm rfl
      have hinner : Inner mode b (w ++ s) := by
        refine ⟨fun hmark => ⟨hmode, fun hm => ?_⟩, fun h => absurd h hb.no_less, hb.no_quote⟩
        have htake : (w ++ s).take 2 = [0x5D, 0x3E] := (List.cons.inj hmark).2
        refine (hquiet hm).2 ((w ++ s).drop 2) ?_
        nth_rewrite 1 [← List.take_append_drop 2 (w ++ s), htake]
        rfl
      rw [List.cons_append, readData_plain hinner (fun h => absurd h hb.no_amp) hb.no_return,
        ih hrest]
      cases readData mode s <;> rfl

/-- A way to write characters: each one as it is, or as a named reference. -/
def Escapes (mode : Mode) (escape : Char → List Char) : Prop :=
  ∀ c, isWritable c = true →
    (escape c = [c] ∧ ∀ b ∈ String.utf8EncodeChar c, IsPlain mode b) ∨
    ∃ name b, escape c = '&' :: (name.toList ++ [';']) ∧ IsPlainName name ∧
      predefined.lookup name = some b ∧ String.utf8EncodeChar c = [b]

theorem flatMap_reference (name : String) :
    ('&' :: (name.toList ++ [';'])).flatMap String.utf8EncodeChar =
      0x26 :: (Bytes.ofString name ++ [0x3B]) := by
  rw [List.flatMap_cons, List.flatMap_append]
  rfl

/-- An escaped character is read back as its bytes. -/
theorem Escapes.readData_char (h : Escapes mode escape) (hmode : mode ≠ .cdata)
    (hproper : mode.Proper) {c : Char} (hc : isWritable c = true) (hs : Quiet mode s) :
    readData mode ((escape c).flatMap String.utf8EncodeChar ++ s) =
      (readData mode s).map fun x => (String.utf8EncodeChar c ++ x.1, x.2) := by
  rcases h c hc with ⟨hself, hplain⟩ | ⟨name, b, hname, hplain, hlook, hbyte⟩
  · rw [hself, List.flatMap_singleton]
    exact readData_run hmode hplain hs
  · have hinner : Inner mode 0x26 (Bytes.ofString name ++ 0x3B :: s) := by
      refine ⟨fun hmark => ?_, fun h => absurd h (by decide), fun hm => ?_⟩
      · exact absurd (List.cons.inj hmark).1 (by decide)
      · exact absurd (hproper _ hm) (by decide)
    rw [hname, flatMap_reference, hbyte, List.cons_append, List.append_assoc,
      List.singleton_append,
      readData_entity hinner hmode (readEntity_named hplain hlook) (by simp; omega)]

/-- The bytes of a written character. -/
theorem Escapes.mem_char (h : Escapes mode escape) {c : Char} (hc : isWritable c = true)
    {b : UInt8} (hb : b ∈ (escape c).flatMap String.utf8EncodeChar) :
    IsPlain mode b ∨ b = 0x26 ∨ b = 0x3B ∨ isNameByte b = true := by
  rcases h c hc with ⟨hself, hplain⟩ | ⟨name, b', hname, hplain, -, -⟩
  · rw [hself, List.flatMap_singleton] at hb
    exact .inl (hplain b hb)
  · rw [hname, flatMap_reference, List.mem_cons, List.mem_append, List.mem_singleton] at hb
    rcases hb with hb | hb | hb
    · exact .inr (.inl hb)
    · exact .inr (.inr (.inr (hplain.spells.bytes b hb)))
    · exact .inr (.inr (.inl hb))

/-- The bytes of a written text. -/
theorem Escapes.mem (h : Escapes mode escape) {cs : List Char}
    (hcs : ∀ c ∈ cs, isWritable c = true) {b : UInt8}
    (hb : b ∈ (cs.flatMap escape).flatMap String.utf8EncodeChar) :
    IsPlain mode b ∨ b = 0x26 ∨ b = 0x3B ∨ isNameByte b = true := by
  obtain ⟨x, hx, hbx⟩ := List.mem_flatMap.mp hb
  obtain ⟨c, hc, hxc⟩ := List.mem_flatMap.mp hx
  exact h.mem_char (hcs c hc) (List.mem_flatMap.mpr ⟨x, hxc, hbx⟩)

/-- An escaped text is read back, by induction on its characters. -/
theorem Escapes.readData (h : Escapes mode escape) (hmode : mode ≠ .cdata)
    (hproper : mode.Proper) (hends : mode.Ends rest) (cs : List Char)
    (hcs : ∀ c ∈ cs, isWritable c = true) :
    Xml.readData mode ((cs.flatMap escape).flatMap String.utf8EncodeChar ++ mode.mark ++ rest) =
      .ok (cs.flatMap String.utf8EncodeChar, rest) := by
  induction cs with
  | nil => exact readData_mark hproper hends
  | cons c cs ih =>
      have hrest : ∀ c ∈ cs, isWritable c = true := fun x hx => hcs x (List.mem_cons_of_mem c hx)
      have hquiet : Quiet mode
          ((cs.flatMap escape).flatMap String.utf8EncodeChar ++ (mode.mark ++ rest)) := by
        refine (quiet_mark hends).append fun hm hmem => ?_
        rcases h.mem hrest hmem with hp | hp | hp | hp
        · exact hp.no_greater hm rfl
        all_goals exact absurd hp (by decide)
      rw [← List.append_assoc] at hquiet
      rw [List.flatMap_cons, List.flatMap_append, List.append_assoc, List.append_assoc,
        ← List.append_assoc _ mode.mark,
        h.readData_char hmode hproper (hcs c List.mem_cons_self) hquiet, ih hrest]
      rfl

theorem charFault?_of_writable {cs : List Char} (h : ∀ c ∈ cs, isWritable c = true) :
    charFault? (cs.map some) = none := by
  rw [charFault?, List.findSome?_eq_none_iff]
  intro x hx
  obtain ⟨c, hc, rfl⟩ := List.mem_map.mp hx
  have hallowed : isAllowed c = true := by
    have := h c hc
    rw [isWritable, Bool.and_eq_true] at this
    exact this.1
  simp [hallowed]

/-- What is written is read back. -/
theorem Escapes.writes (h : Escapes mode escape) (hmode : mode ≠ .cdata) (hproper : mode.Proper)
    {v : String} (hv : ∀ c ∈ v.toList, isWritable c = true) :
    Writes mode (Bytes.ofString (String.ofList (v.toList.flatMap escape))) v := by
  rw [Bytes.ofString, String.toList_ofList]
  constructor
  · intro q hq hmem
    have hquote := hproper q hq
    rcases h.mem hv hmem with hp | hp | hp | hp
    · exact hp.no_quote hq
    all_goals
      rcases hquote with rfl | rfl <;> exact absurd hp (by decide)
  · intro rest hends
    refine readText_eq_ok.mpr ⟨Bytes.ofString v, h.readData hmode hproper hends _ hv, ?_, ?_⟩
    · rw [Bytes.chars_ofString]
      exact charFault?_of_writable hv
    · rw [Bytes.toText_ofString]

end Writing

end Xml

namespace Markup

open Xml

theorem not_mem_utf8EncodeChar {c d : Char} (hd : d.toNat < 0x80) (h : c ≠ d) :
    UInt8.ofNat d.toNat ∉ String.utf8EncodeChar c := by
  intro hmem
  by_cases hascii : c.toNat < 0x80
  · rw [Bytes.utf8EncodeChar_ascii hascii, List.mem_singleton] at hmem
    have hnat := congrArg UInt8.toNat hmem
    rw [Bytes.toNat_ofNat_of_lt (by omega), Bytes.toNat_ofNat_of_lt (by omega)] at hnat
    exact h (Char.toNat_inj.mp hnat.symm)
  · have hle := Bytes.le_of_mem_utf8EncodeChar (by omega) hmem
    rw [UInt8.le_iff_toNat_le, Bytes.toNat_ofNat_of_lt (by omega)] at hle
    exact absurd (show 0x80 ≤ d.toNat from hle) (by omega)

theorem ne_of_mem {c d : Char} (hd : d.toNat < 0x80) (h : c ≠ d) {b : UInt8}
    (hb : b ∈ String.utf8EncodeChar c) : b ≠ UInt8.ofNat d.toNat := by
  rintro rfl
  exact not_mem_utf8EncodeChar hd h hb

theorem ne_return_of_isWritable {c : Char} (h : isWritable c = true) : c ≠ '\r' := by
  rw [isWritable, Bool.and_eq_true, decide_eq_true_eq] at h
  exact h.2

/-- The escapes of attribute values are read back in values. -/
theorem escapes_value : Escapes (.value 0x22) escapeValueChar := by
  intro c hc
  by_cases hamp : c = '&'
  · subst hamp
    exact .inr ⟨"amp", 0x26, rfl, isPlainName_of_letters rfl (by decide), rfl, by decide⟩
  by_cases hless : c = '<'
  · subst hless
    exact .inr ⟨"lt", 0x3C, rfl, isPlainName_of_letters rfl (by decide), rfl, by decide⟩
  by_cases hquote : c = '"'
  · subst hquote
    exact .inr ⟨"quot", 0x22, rfl, isPlainName_of_letters rfl (by decide), rfl, by decide⟩
  refine .inl ⟨?_, fun b hb => ⟨?_, ?_, ?_, ?_, fun h => by cases h⟩⟩
  · unfold escapeValueChar
    split
    · exact absurd rfl hamp
    · exact absurd rfl hless
    · exact absurd rfl hquote
    · rfl
  · exact ne_of_mem (d := '<') (by decide) hless hb
  · exact ne_of_mem (d := '&') (by decide) hamp hb
  · exact ne_of_mem (d := '\r') (by decide) (ne_return_of_isWritable hc) hb
  · intro h
    exact ne_of_mem (d := '"') (by decide) hquote hb (Mode.value.inj h).symm

/-- The escapes of texts are read back in contents. -/
theorem escapes_content : Escapes .content escapeTextChar := by
  intro c hc
  by_cases hamp : c = '&'
  · subst hamp
    exact .inr ⟨"amp", 0x26, rfl, isPlainName_of_letters rfl (by decide), rfl, by decide⟩
  by_cases hless : c = '<'
  · subst hless
    exact .inr ⟨"lt", 0x3C, rfl, isPlainName_of_letters rfl (by decide), rfl, by decide⟩
  by_cases hgreater : c = '>'
  · subst hgreater
    exact .inr ⟨"gt", 0x3E, rfl, isPlainName_of_letters rfl (by decide), rfl, by decide⟩
  refine .inl ⟨?_, fun b hb => ⟨?_, ?_, ?_, (fun h => by cases h), fun _ => ?_⟩⟩
  · unfold escapeTextChar
    split
    · exact absurd rfl hamp
    · exact absurd rfl hless
    · exact absurd rfl hgreater
    · rfl
  · exact ne_of_mem (d := '<') (by decide) hless hb
  · exact ne_of_mem (d := '&') (by decide) hamp hb
  · exact ne_of_mem (d := '\r') (by decide) (ne_return_of_isWritable hc) hb
  · exact ne_of_mem (d := '>') (by decide) hgreater hb

/-- A value between double quotes is read back. -/
theorem writes_value {v : String} (hv : ∀ c ∈ v.toList, isWritable c = true) :
    ∃ raw, Bytes.ofString (quotedValue v) = 0x22 :: raw ++ [0x22] ∧ Writes (.value 0x22) raw v := by
  have hmark : Bytes.ofString "\"" = [0x22] := by decide
  refine ⟨_, ?_, escapes_value.writes (by simp) ?_ hv⟩
  · rw [quotedValue, Bytes.ofString_append, Bytes.ofString_append, hmark, List.singleton_append]
  · intro q hq
    exact .inl (Mode.value.inj hq).symm

/-- A text between tags is read back. -/
theorem writes_content {v : String} (hv : ∀ c ∈ v.toList, isWritable c = true) :
    Writes .content (Bytes.ofString (escapedText v)) v :=
  escapes_content.writes (by simp) Mode.proper_content hv

end Markup

end InstallerLint
