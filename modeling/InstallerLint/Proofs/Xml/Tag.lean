import InstallerLint.Proofs.Xml.Data

/-!
# Tags as they are written

A start tag is a name, attributes and what closes it, with blanks in between.  `WrittenTag` keeps
all these bytes apart; the reader succeeds on its bytes (`readStartTag_core`) and only on such bytes
(`readStartTag_cut`).

**Blanks.**  An attribute needs no blank before it when a quote ends the one before; only the first
one does, or else it would belong to the name of the tag.
-/

namespace InstallerLint
namespace Xml

section Space

variable {blank s : Bytes} {b : UInt8}

theorem skipSpace_append (hblank : ∀ b ∈ blank, isSpaceByte b = true) (hb : isSpaceByte b = false) :
    skipSpace (blank ++ b :: s) = b :: s := by
  unfold skipSpace
  rw [List.dropWhile_append_of_pos hblank, List.dropWhile_cons_of_neg (by simp [hb])]

/-- The blanks in front and what is behind them. -/
theorem exists_skipSpace (s : Bytes) :
    ∃ blank, s = blank ++ skipSpace s ∧ (∀ b ∈ blank, isSpaceByte b = true) :=
  ⟨s.takeWhile isSpaceByte, List.takeWhile_append_dropWhile.symm,
    List.all_eq_true.mp List.all_takeWhile⟩

theorem isSpaceByte_of_isNameByte (h : isNameByte b = true) : isSpaceByte b = false := by
  by_contra hspace
  simp only [isSpaceByte, Bool.not_eq_false, Bool.or_eq_true, beq_iff_eq] at hspace
  rcases hspace with ((rfl | rfl) | rfl) | rfl <;> exact absurd h (by decide)

theorem isNameByte_of_isSpaceByte (h : isSpaceByte b = true) : isNameByte b = false := by
  by_contra hname
  rw [isSpaceByte_of_isNameByte (by simpa using hname)] at h
  cases h

/-- Names end before blanks and what is no name. -/
theorem endsName_append (hblank : ∀ b ∈ blank, isSpaceByte b = true) (hb : isNameByte b = false) :
    EndsName (blank ++ b :: s) := by
  cases blank with
  | nil => exact endsName_cons hb
  | cons c blank => exact endsName_cons (isNameByte_of_isSpaceByte (hblank c List.mem_cons_self))

end Space

/-- An attribute with all its bytes: the blanks before it, its name, the blanks around the equals
sign, and its value between quotes. -/
structure WrittenAttr where
  blank : Bytes
  name : Bytes
  gap : Bytes
  gap' : Bytes
  quote : UInt8
  raw : Bytes
  attr : TagAttr
  blank_space : ∀ b ∈ blank, isSpaceByte b = true
  spells : Spells name attr.name
  gap_space : ∀ b ∈ gap, isSpaceByte b = true
  gap'_space : ∀ b ∈ gap', isSpaceByte b = true
  proper : quote = 0x22 ∨ quote = 0x27
  writes : Writes (.value quote) raw attr.value

namespace WrittenAttr

/-- Everything behind the name. -/
def assigned (a : WrittenAttr) : Bytes :=
  a.gap ++ 0x3D :: (a.gap' ++ a.quote :: (a.raw ++ [a.quote]))

/-- Everything behind the blanks. -/
def core (a : WrittenAttr) : Bytes := a.name ++ a.assigned

/-- The attribute in full. -/
def bytes (a : WrittenAttr) : Bytes := a.blank ++ a.core

theorem length_pos (a : WrittenAttr) : 0 < a.bytes.length := by
  have := List.length_pos_iff.mpr a.spells.ne_nil
  simp only [bytes, core, List.length_append]
  omega

theorem isSpaceByte_quote (a : WrittenAttr) : isSpaceByte a.quote = false := by
  rcases a.proper with h | h <;> rw [h] <;> rfl

theorem endsName_assigned (a : WrittenAttr) (rest : Bytes) : EndsName (a.assigned ++ rest) := by
  rw [assigned, List.append_assoc, List.cons_append]
  exact endsName_append a.gap_space (by decide)

theorem readValue_quoted (a : WrittenAttr) (rest : Bytes) :
    readValue (a.gap' ++ a.quote :: (a.raw ++ [a.quote]) ++ rest) = .ok (a.attr.value, rest) := by
  have hread := a.writes.2 rest (Mode.ends_of_ne (by simp) rest)
  unfold readValue
  rw [List.append_assoc, List.cons_append, skipSpace_append a.gap'_space a.isSpaceByte_quote]
  dsimp only
  rw [if_pos (by simpa using a.proper)]
  exact hread

/-- A written attribute is read. -/
theorem readAttr_core (a : WrittenAttr) (rest : Bytes) :
    readAttr (a.core ++ rest) = .ok (a.attr, rest) := by
  have hname : readQName .attrNameExpected (a.core ++ rest) =
      .ok (a.attr.name, a.assigned ++ rest) :=
    readQName_eq_ok.mpr ⟨a.name, by rw [core, List.append_assoc], a.spells,
      a.endsName_assigned rest⟩
  have hskip : skipSpace (a.assigned ++ rest) =
      0x3D :: (a.gap' ++ a.quote :: (a.raw ++ [a.quote]) ++ rest) := by
    rw [assigned, List.append_assoc, List.cons_append, skipSpace_append a.gap_space (by decide)]
  unfold readAttr
  rw [hname]
  simp only [bind, Except.bind, hskip, a.readValue_quoted rest]
  rfl

theorem exists_core_cons (a : WrittenAttr) : ∃ c u, a.core = c :: u ∧ isNameByte c = true := by
  obtain ⟨c, u, hname⟩ := List.exists_cons_of_ne_nil a.spells.ne_nil
  exact ⟨c, u ++ a.assigned, by simp [core, hname], a.spells.bytes c (by simp [hname])⟩

end WrittenAttr

theorem readValue_cut {s rest : Bytes} {v : String} (h : readValue s = .ok (v, rest))
    (hrest : rest ≠ []) :
    ∃ gap quote raw, s = gap ++ quote :: (raw ++ [quote]) ++ rest ∧
      (∀ b ∈ gap, isSpaceByte b = true) ∧ (quote = 0x22 ∨ quote = 0x27) ∧
      Writes (.value quote) raw v := by
  obtain ⟨gap, hs, hgap⟩ := exists_skipSpace s
  unfold readValue at h
  cases hskip : skipSpace s with
  | nil =>
      rw [hskip] at h
      cases h
  | cons q t =>
      rw [hskip] at h hs
      dsimp only at h
      split_ifs at h with hq
      rw [Bool.or_eq_true, decide_eq_true_eq, decide_eq_true_eq] at hq
      have hproper : Mode.Proper (.value q) := by
        intro q' hq'
        rw [← Mode.value.inj hq']
        exact hq
      obtain ⟨raw, rfl, -, hwrites⟩ := readText_cut hproper h fun _ => hrest
      exact ⟨gap, q, raw, by simp [hs, Mode.mark], hgap, hq, hwrites⟩

/-- An attribute that was read was written, as long as the text went on behind it. -/
theorem readAttr_cut {s rest blank : Bytes} {x : TagAttr} (h : readAttr s = .ok (x, rest))
    (hrest : rest ≠ []) (hblank : ∀ b ∈ blank, isSpaceByte b = true) :
    ∃ a : WrittenAttr, a.blank = blank ∧ s = a.core ++ rest ∧ a.attr = x := by
  unfold readAttr at h
  cases hname : readQName .attrNameExpected s with
  | error stop =>
      rw [hname] at h
      cases h
  | ok y =>
      obtain ⟨q, t⟩ := y
      rw [hname] at h
      obtain ⟨n, rfl, hspells, -⟩ := readQName_eq_ok.mp hname
      obtain ⟨gap, ht, hgap⟩ := exists_skipSpace t
      simp only [bind, Except.bind] at h
      split at h
      · cases h
      · next u hskip =>
          cases hvalue : readValue u with
          | error stop =>
              rw [hvalue] at h
              cases h
          | ok z =>
              obtain ⟨v, r⟩ := z
              rw [hvalue] at h
              cases h
              obtain ⟨gap', quote, raw, rfl, hgap', hquote, hwrites⟩ := readValue_cut hvalue hrest
              refine ⟨⟨blank, n, gap, gap', quote, raw, ⟨q, v⟩, hblank, hspells, hgap, hgap',
                hquote, hwrites⟩, rfl, ?_, rfl⟩
              rw [hskip] at ht
              simp [WrittenAttr.core, WrittenAttr.assigned, ht]
      · cases h

/-- What closes a start tag. -/
def closing (selfClosing : Bool) : Bytes := if selfClosing then [0x2F, 0x3E] else [0x3E]

section Attrs

variable {blank rest : Bytes} {selfClosing : Bool}

theorem readAttrs_closing (hblank : ∀ b ∈ blank, isSpaceByte b = true) (fuel : Nat) :
    readAttrs (fuel + 1) (blank ++ closing selfClosing ++ rest) = .ok ([], selfClosing, rest) := by
  rw [readAttrs]
  cases selfClosing with
  | false =>
      rw [show blank ++ closing false ++ rest = blank ++ 0x3E :: rest by simp [closing],
        skipSpace_append hblank (by decide)]
      rfl
  | true =>
      rw [show blank ++ closing true ++ rest = blank ++ 0x2F :: 0x3E :: rest by simp [closing],
        skipSpace_append hblank (by decide)]
      rfl

/-- What is no end of a tag starts an attribute. -/
theorem readAttrs_of_skipSpace {s u : Bytes} {c : UInt8} (hskip : skipSpace s = c :: u)
    (hc : isNameByte c = true) (fuel : Nat) :
    readAttrs (fuel + 1) s = (do
      let (a, rest) ← readAttr (c :: u)
      let (attrs, selfClosing, rest) ← readAttrs fuel rest
      return (a :: attrs, selfClosing, rest)) := by
  rw [readAttrs, hskip]
  split
  · next heq => cases heq
  · next heq => cases heq; exact absurd hc (by decide)
  · next heq => cases heq; exact absurd hc (by decide)
  · next heq => cases heq; exact absurd hc (by decide)
  · next heq => cases heq; exact absurd hc (by decide)
  · rfl

/-- Written attributes are read. -/
theorem readAttrs_bytes (hblank : ∀ b ∈ blank, isSpaceByte b = true) :
    ∀ (attrs : List WrittenAttr) (fuel : Nat), attrs.length < fuel →
      readAttrs fuel (attrs.flatMap WrittenAttr.bytes ++ blank ++ closing selfClosing ++ rest) =
        .ok (attrs.map WrittenAttr.attr, selfClosing, rest) := by
  intro attrs
  induction attrs with
  | nil =>
      intro fuel hfuel
      obtain ⟨fuel, rfl⟩ : ∃ m, fuel = m + 1 := ⟨fuel - 1, by omega⟩
      exact readAttrs_closing hblank fuel
  | cons a attrs ih =>
      intro fuel hfuel
      rw [List.length_cons] at hfuel
      obtain ⟨fuel, rfl⟩ : ∃ m, fuel = m + 1 := ⟨fuel - 1, by omega⟩
      set more := attrs.flatMap WrittenAttr.bytes ++ blank ++ closing selfClosing ++ rest with hmore
      have hs : (a :: attrs).flatMap WrittenAttr.bytes ++ blank ++ closing selfClosing ++ rest =
          a.blank ++ (a.core ++ more) := by
        simp [hmore, WrittenAttr.bytes]
      obtain ⟨c, u, hcore, hc⟩ := a.exists_core_cons
      have hskip : skipSpace (a.blank ++ (a.core ++ more)) = c :: (u ++ more) := by
        rw [hcore, List.cons_append, skipSpace_append a.blank_space (isSpaceByte_of_isNameByte hc)]
      have hread := a.readAttr_core more
      rw [hcore, List.cons_append] at hread
      rw [hs, readAttrs_of_skipSpace hskip hc fuel, hread]
      simp only [bind, Except.bind, ih fuel (by omega)]
      rfl

/-- Attributes that were read were written. -/
theorem readAttrs_cut {fuel : Nat} {s : Bytes} {as : List TagAttr}
    (h : readAttrs fuel s = .ok (as, selfClosing, rest)) :
    ∃ (attrs : List WrittenAttr) (blank : Bytes), (∀ b ∈ blank, isSpaceByte b = true) ∧
      s = attrs.flatMap WrittenAttr.bytes ++ blank ++ closing selfClosing ++ rest ∧
      as = attrs.map WrittenAttr.attr := by
  induction fuel generalizing s as with
  | zero => cases h
  | succ fuel ih =>
      obtain ⟨blank, hs, hblank⟩ := exists_skipSpace s
      rw [readAttrs] at h
      split at h
      · cases h
      · next t hskip =>
          cases h
          exact ⟨[], blank, hblank, by rw [hs, hskip]; simp [closing], rfl⟩
      · cases h
      · next t hskip =>
          cases h
          exact ⟨[], blank, hblank, by rw [hs, hskip]; simp [closing], rfl⟩
      · cases h
      · next here _ _ _ _ hskip =>
          cases hattr : readAttr (skipSpace s) with
          | error stop =>
              rw [hattr] at h
              cases h
          | ok y =>
              obtain ⟨x, t⟩ := y
              rw [hattr] at h
              simp only [bind, Except.bind] at h
              cases hmore : readAttrs fuel t with
              | error stop =>
                  rw [hmore] at h
                  cases h
              | ok z =>
                  obtain ⟨as', sc, r⟩ := z
                  rw [hmore] at h
                  cases h
                  obtain ⟨attrs, blank', hblank', rfl, rfl⟩ := ih hmore
                  have hne : attrs.flatMap WrittenAttr.bytes ++ blank' ++ closing sc ++ r ≠ [] := by
                    cases sc <;> simp [closing]
                  obtain ⟨a, rfl, hcore, rfl⟩ := readAttr_cut hattr hne hblank
                  refine ⟨a :: attrs, blank', hblank', ?_, rfl⟩
                  rw [hs, hcore]
                  simp [WrittenAttr.bytes]

end Attrs

/-- A start tag with all its bytes. -/
structure WrittenTag where
  name : Bytes
  attrs : List WrittenAttr
  /-- The blanks behind the last attribute. -/
  blank : Bytes
  selfClosing : Bool
  /-- What the name is read as. -/
  qname : QName
  spells : Spells name qname
  separated : ∀ a ∈ attrs.head?, a.blank ≠ []
  blank_space : ∀ b ∈ blank, isSpaceByte b = true

namespace WrittenTag

/-- Everything behind the name, up to what closes the tag. -/
def inside (t : WrittenTag) : Bytes := t.attrs.flatMap WrittenAttr.bytes ++ t.blank

/-- Everything behind the opening bracket. -/
def core (t : WrittenTag) : Bytes := t.name ++ (t.inside ++ closing t.selfClosing)

/-- The tag in full. -/
def bytes (t : WrittenTag) : Bytes := 0x3C :: t.core

/-- The attributes it is read with. -/
def tagAttrs (t : WrittenTag) : List TagAttr := t.attrs.map WrittenAttr.attr

/-- The token it is read as. -/
def token (t : WrittenTag) : Token := .startTag t.qname t.tagAttrs t.selfClosing

/-- The name of a tag is followed by a blank or by what closes the tag. -/
theorem exists_inside_cons (t : WrittenTag) :
    ∃ b u, t.inside ++ closing t.selfClosing = b :: u ∧
      (isSpaceByte b = true ∨ b = 0x2F ∨ b = 0x3E) := by
  have hclose : ∃ b u, closing t.selfClosing = b :: u ∧ (b = 0x2F ∨ b = 0x3E) := by
    cases t.selfClosing
    · exact ⟨0x3E, [], rfl, .inr rfl⟩
    · exact ⟨0x2F, [0x3E], rfl, .inl rfl⟩
  unfold inside
  cases hattrs : t.attrs with
  | nil =>
      cases hblank : t.blank with
      | nil =>
          obtain ⟨b, u, hbu, hb⟩ := hclose
          exact ⟨b, u, hbu, .inr hb⟩
      | cons b blank => exact ⟨b, _, rfl, .inl (t.blank_space b (by simp [hblank]))⟩
  | cons a attrs =>
      obtain ⟨b, blank, hblank⟩ := List.exists_cons_of_ne_nil (t.separated a (by simp [hattrs]))
      have hb : isSpaceByte b = true := a.blank_space b (by simp [hblank])
      simp only [List.flatMap_cons, WrittenAttr.bytes, hblank, List.cons_append]
      exact ⟨b, _, rfl, .inl hb⟩

theorem endsName_inside (t : WrittenTag) (rest : Bytes) :
    EndsName (t.inside ++ closing t.selfClosing ++ rest) := by
  obtain ⟨b, u, hbu, hb⟩ := t.exists_inside_cons
  rw [hbu, List.cons_append]
  refine endsName_cons ?_
  rcases hb with hb | rfl | rfl
  · exact isNameByte_of_isSpaceByte hb
  · decide
  · decide

theorem length_attrs_lt (t : WrittenTag) (rest : Bytes) :
    t.attrs.length < (t.core ++ rest).length := by
  have hattrs : t.attrs.length ≤ (t.attrs.flatMap WrittenAttr.bytes).length := by
    induction t.attrs with
    | nil => simp
    | cons a attrs ih =>
        have := a.length_pos
        rw [List.flatMap_cons, List.length_append, List.length_cons]
        omega
  have hname := List.length_pos_iff.mpr t.spells.ne_nil
  simp only [core, inside, List.length_append]
  omega

/-- A written tag is read. -/
theorem readStartTag_core (t : WrittenTag) (rest : Bytes) {bound : Nat}
    (hbound : t.attrs.length < bound) :
    readStartTag bound (t.core ++ rest) = .ok (t.token, rest) := by
  have hname : readQName .startNameExpected (t.core ++ rest) =
      .ok (t.qname, t.inside ++ closing t.selfClosing ++ rest) :=
    readQName_eq_ok.mpr ⟨t.name, by simp [core], t.spells, t.endsName_inside rest⟩
  unfold readStartTag
  rw [hname]
  simp only [bind, Except.bind, inside, readAttrs_bytes t.blank_space t.attrs bound hbound]
  rfl

theorem exists_core_cons (t : WrittenTag) : ∃ c u, t.core = c :: u ∧ isNameByte c = true := by
  obtain ⟨c, u, hname⟩ := List.exists_cons_of_ne_nil t.spells.ne_nil
  exact ⟨c, u ++ (t.inside ++ closing t.selfClosing), by simp [core, hname],
    t.spells.bytes c (by simp [hname])⟩

end WrittenTag

/-- A start tag that was read was written. -/
theorem readStartTag_cut {bound : Nat} {s rest : Bytes} {token : Token}
    (h : readStartTag bound s = .ok (token, rest)) :
    ∃ t : WrittenTag, s = t.core ++ rest ∧ token = t.token := by
  unfold readStartTag at h
  cases hname : readQName .startNameExpected s with
  | error stop =>
      rw [hname] at h
      cases h
  | ok y =>
      obtain ⟨q, u⟩ := y
      rw [hname] at h
      obtain ⟨n, rfl, hspells, b, t, hbt, hb⟩ := readQName_eq_ok.mp hname
      simp only [bind, Except.bind] at h
      cases hattrs : readAttrs bound u with
      | error stop =>
          rw [hattrs] at h
          cases h
      | ok z =>
          obtain ⟨as, sc, r⟩ := z
          rw [hattrs] at h
          cases h
          obtain ⟨attrs, blank, hblank, hu, rfl⟩ := readAttrs_cut hattrs
          have hseparated : ∀ a ∈ attrs.head?, a.blank ≠ [] := by
            intro a ha hnil
            cases attrs with
            | nil => cases ha
            | cons a' attrs =>
                obtain rfl : a' = a := by simpa using ha
                obtain ⟨c, v, hcore, hc⟩ := a'.exists_core_cons
                rw [hbt, List.flatMap_cons, WrittenAttr.bytes, hnil, hcore] at hu
                rw [(List.cons.inj hu).1, hc] at hb
                cases hb
          refine ⟨⟨n, attrs, blank, sc, q, hspells, hseparated, hblank⟩, ?_, rfl⟩
          simp [WrittenTag.core, WrittenTag.inside, hu]

/-- An end tag with all its bytes. -/
structure WrittenEnd where
  name : Bytes
  blank : Bytes
  /-- What the name is read as. -/
  qname : QName
  spells : Spells name qname
  blank_space : ∀ b ∈ blank, isSpaceByte b = true

namespace WrittenEnd

/-- Everything behind the opening mark. -/
def core (t : WrittenEnd) : Bytes := t.name ++ (t.blank ++ [0x3E])

/-- The tag in full. -/
def bytes (t : WrittenEnd) : Bytes := 0x3C :: 0x2F :: t.core

end WrittenEnd

/-- The end tag of a start tag, with the name as it is written there. -/
def WrittenTag.endTag (t : WrittenTag) : WrittenEnd := ⟨t.name, [], t.qname, t.spells, by simp⟩

/-- A tag without attributes. -/
def WrittenTag.bare {name : String} (h : IsPlainName name) (selfClosing : Bool) : WrittenTag :=
  ⟨Bytes.ofString name, [], [], selfClosing, ⟨"", name⟩, h.spells, by simp, by simp⟩

/-- End tags are read where they are written, and only there. -/
theorem readEndTag_eq_ok {s rest : Bytes} {token : Token} :
    readEndTag s = .ok (token, rest) ↔
      ∃ t : WrittenEnd, s = t.core ++ rest ∧ token = .endTag t.qname := by
  constructor
  · intro h
    unfold readEndTag at h
    cases hname : readQName .endNameExpected s with
    | error stop =>
        rw [hname] at h
        cases h
    | ok y =>
        obtain ⟨q, u⟩ := y
        rw [hname] at h
        obtain ⟨n, rfl, hspells, -⟩ := readQName_eq_ok.mp hname
        obtain ⟨blank, hu, hblank⟩ := exists_skipSpace u
        simp only [bind, Except.bind] at h
        split at h
        · cases h
        · next v hskip =>
            cases h
            rw [hskip] at hu
            exact ⟨⟨n, blank, q, hspells, hblank⟩, by simp [WrittenEnd.core, hu], rfl⟩
        · cases h
  · rintro ⟨t, rfl, rfl⟩
    have hname : readQName .endNameExpected (t.core ++ rest) = .ok (t.qname, t.blank ++ 0x3E :: rest) :=
      readQName_eq_ok.mpr ⟨t.name, by simp [WrittenEnd.core], t.spells,
        endsName_append t.blank_space (by decide)⟩
    unfold readEndTag
    rw [hname]
    simp only [bind, Except.bind, skipSpace_append t.blank_space (show isSpaceByte 0x3E = false by rfl)]
    rfl

end Xml
end InstallerLint
