import InstallerLint.Document.Edit
import InstallerLint.Proofs.Xml.Pieces

/-!
# Finding an attribute in the text of its tag

Edits look for an attribute in the text of a start tag, and not among the attributes that were read:
for blanks, the name, an equals sign and quotes.  This finds the first attribute that is written so,
unless something like it stands inside of a value before it (`Hides`).

**Passing over.**  `Skips` says that the search finds nothing that starts in a word.  A whole
attribute of another name is passed over piece by piece (`WrittenAttr.skips_bytes`), and an attribute
of this name is found (`WrittenAttr.findAttribute_bytes`).
-/

namespace InstallerLint

open Xml

namespace Tag

variable {name s w w' : Bytes} {b : UInt8} {q : QName}

theorem isBlankByte_of_isSpaceByte (h : isSpaceByte b = true) : isBlankByte b = true := by
  simp only [isSpaceByte, Bool.or_eq_true, beq_iff_eq] at h
  rcases h with ((rfl | rfl) | rfl) | rfl <;> rfl

theorem isBlankByte_of_isNameByte (h : isNameByte b = true) : isBlankByte b = false := by
  by_contra hblank
  simp only [isBlankByte, Bool.not_eq_false, Bool.or_eq_true, beq_iff_eq] at hblank
  rcases hblank with (((rfl | rfl) | rfl) | rfl) | rfl <;> exact absurd h (by decide)

/-- The name and an equals sign are in front. -/
def Starts (name s : Bytes) : Prop :=
  ∃ gap u, s = name ++ (gap ++ 0x3D :: u) ∧ ∀ b ∈ gap, isBlankByte b = true

/-- Something like an attribute of this name stands inside. -/
def Hides (name raw : Bytes) : Prop :=
  ∃ u b v, raw = u ++ b :: v ∧ isBlankByte b = true ∧ Starts name v

theorem Hides.mem {raw : Bytes} (h : Hides name raw) : 0x3D ∈ raw := by
  obtain ⟨u, b, v, rfl, -, gap, u', rfl, -⟩ := h
  simp

/-- What starts with a byte that is in no name starts with no name. -/
theorem not_starts_cons (hname : Spells name q) (hb : isNameByte b = false) :
    ¬Starts name (b :: s) := by
  rintro ⟨gap, u, heq, -⟩
  obtain ⟨c, n, hcons⟩ := List.exists_cons_of_ne_nil hname.ne_nil
  rw [hcons] at heq
  have hc := hname.bytes c (by simp [hcons])
  rw [← (List.cons.inj heq).1, hb] at hc
  cases hc

/-- Another name does not start with this one and an equals sign. -/
theorem not_starts_name {n : Bytes} {p : QName} (hname : Spells name q) (hn : Spells n p)
    (hs : EndsName s) (hne : n ≠ name) : ¬Starts name (n ++ s) := by
  rintro ⟨gap, u, heq, hgap⟩
  obtain ⟨c, r, rfl, hc⟩ := hs
  have hends : EndsName (gap ++ 0x3D :: u) := by
    cases gap with
    | nil => exact endsName_cons (by decide)
    | cons d gap =>
        refine endsName_cons ?_
        by_contra hd
        have := isBlankByte_of_isNameByte (by simpa using hd)
        rw [hgap d List.mem_cons_self] at this
        cases this
  obtain ⟨c', r', hends, hc'⟩ := hends
  have hspan := span_append_cons (t := r) hn.bytes hc
  rw [heq, hends, span_append_cons hname.bytes hc'] at hspan
  exact hne (Prod.mk.inj hspan).1.symm

theorem assignment?_eq_none (h : ¬Starts name s) : assignment? name s = none := by
  rw [Option.eq_none_iff_forall_ne_some]
  intro found hfound
  unfold assignment? at hfound
  simp only [bind, Option.bind_eq_some_iff] at hfound
  obtain ⟨rest, hrest, after, hafter, -⟩ := hfound
  rw [stripFront?_eq_some] at hrest hafter
  refine h ⟨rest.takeWhile isBlankByte, after, ?_, List.all_eq_true.mp List.all_takeWhile⟩
  rw [hrest, ← List.singleton_append, ← hafter, List.takeWhile_append_dropWhile]

/-- Blanks at the front that no name with an equals sign follows. -/
theorem attributeHere?_eq_none
    (h : ∀ u b v, s = u ++ b :: v → (∀ c ∈ u ++ [b], isBlankByte c = true) → ¬Starts name v) :
    attributeHere? name s = none := by
  unfold attributeHere?
  rw [List.findSome?_eq_none_iff]
  intro k hk
  obtain ⟨i, hi, rfl⟩ := List.mem_map.mp hk
  rw [List.mem_range] at hi
  set n := (s.takeWhile isBlankByte).length with hn
  rw [Option.map_eq_none_iff]
  refine assignment?_eq_none ?_
  have htake : (s.takeWhile isBlankByte).take (n - i) ≠ [] := by
    rw [← List.length_pos_iff, List.length_take]
    omega
  have hfront : s.take (n - i) = (s.takeWhile isBlankByte).take (n - i) := by
    conv_lhs => rw [← List.takeWhile_append_dropWhile (p := isBlankByte) (l := s)]
    rw [List.take_append_of_le_length (by omega)]
  refine h ((s.takeWhile isBlankByte).take (n - i)).dropLast
    (((s.takeWhile isBlankByte).take (n - i)).getLast htake) _ ?_ ?_
  · rw [List.append_cons, List.dropLast_append_getLast, ← hfront, List.take_append_drop]
  · rw [List.dropLast_append_getLast]
    intro c hc
    exact List.all_eq_true.mp List.all_takeWhile c (List.mem_of_mem_take hc)

/-- An attribute behind its blanks. -/
theorem attributeHere?_blanks {blank : Bytes} {at_ n : Nat} (hne : blank ≠ [])
    (hblank : ∀ b ∈ blank, isBlankByte b = true) (hs : ∀ b ∈ s.head?, isBlankByte b = false)
    (h : assignment? name s = some (at_, n)) :
    attributeHere? name (blank ++ s) = some (blank.length + at_, blank.length + at_ + n) := by
  have htake : s.takeWhile isBlankByte = [] := by
    cases s with
    | nil => rfl
    | cons c s => exact List.takeWhile_cons_of_neg (by simp [hs c rfl])
  unfold attributeHere?
  rw [List.takeWhile_append_of_pos hblank, htake, List.append_nil]
  obtain ⟨m, hm⟩ : ∃ m, blank.length = m + 1 :=
    ⟨blank.length - 1, by have := List.length_pos_iff.mpr hne; omega⟩
  dsimp only
  rw [hm, List.range_succ_eq_map, List.map_cons, List.findSome?_cons, Nat.sub_zero, ← hm,
    List.drop_left, h]
  rfl

/-- The search finds nothing that starts in the word `w`. -/
def Skips (name w s : Bytes) : Prop :=
  ∀ offset, findAttribute name offset (w ++ s) = findAttribute name (offset + w.length) s

/-- A search that skips two stretches skips both. -/
theorem Skips.append (h : Skips name w (w' ++ s)) (h' : Skips name w' s) :
    Skips name (w ++ w') s := by
  intro offset
  rw [List.append_assoc, h, h', List.length_append, Nat.add_assoc]

theorem skips_of_here (h : ∀ u v, w = u ++ v → v ≠ [] → attributeHere? name (v ++ s) = none) :
    Skips name w s := by
  induction w with
  | nil => intro offset; rfl
  | cons b w ih =>
      intro offset
      have hhere := h [] (b :: w) rfl (by simp)
      rw [List.cons_append] at hhere ⊢
      rw [findAttribute, hhere]
      dsimp only
      rw [ih (fun u v hw hv => h (b :: u) v (by rw [hw, List.cons_append]) hv), List.length_cons]
      congr 1
      omega

/-- A word without blanks is passed over, whatever follows. -/
theorem skips_of_not_blank (h : ∀ b ∈ w, isBlankByte b = false) : Skips name w s := by
  refine skips_of_here fun u v hw hv => attributeHere?_eq_none fun u' b v' heq hblank => ?_
  obtain ⟨c, v, rfl⟩ := List.exists_cons_of_ne_nil hv
  have hc : isBlankByte c = true := by
    cases u' with
    | nil => exact (List.cons.inj heq).1 ▸ hblank b (by simp)
    | cons d u' => exact (List.cons.inj heq).1 ▸ hblank d (by simp)
  rw [h c (by simp [hw])] at hc
  cases hc

/-- A word is passed over when nothing in it is a blank with the name behind it. -/
theorem skips_of_not_starts (hs : ∀ b ∈ s.head?, isBlankByte b = false)
    (h : ∀ u b v, w = u ++ b :: v → isBlankByte b = true → ¬Starts name (v ++ s)) :
    Skips name w s := by
  refine skips_of_here fun u v hw hv => attributeHere?_eq_none fun u' b v' heq hblank => ?_
  have hnot : ∀ l r, s = l ++ r → l ≠ [] → ¬∀ c ∈ l, isBlankByte c = true := by
    intro l r hl hne hall
    obtain ⟨c, l, rfl⟩ := List.exists_cons_of_ne_nil hne
    have := hs c (by simp [hl])
    rw [hall c List.mem_cons_self] at this
    cases this
  -- The blanks are inside of the word, since what follows it starts with none.
  obtain ⟨l, hu', hs'⟩ | ⟨l, hv', hrest⟩ := List.append_eq_append_iff.mp heq
  · refine absurd (fun c hc => hblank c ?_) (hnot (l ++ [b]) v' (by simp [hs']) (by simp))
    rw [hu', List.append_assoc]
    exact List.mem_append_right v hc
  · cases l with
    | nil => exact absurd (by simpa using hblank b (by simp)) (hnot [b] v' hrest.symm (by simp))
    | cons c l =>
        obtain ⟨rfl, rfl⟩ := List.cons.inj hrest
        exact h (u ++ u') b l (by rw [hw, hv', List.append_assoc]) (hblank b (by simp))

/-- Blanks are passed over when the name does not follow. -/
theorem skips_blanks {blank : Bytes} (hname : Spells name q)
    (hblank : ∀ b ∈ blank, isBlankByte b = true) (hs : ∀ b ∈ s.head?, isBlankByte b = false)
    (h : ¬Starts name s) : Skips name blank s := by
  refine skips_of_not_starts hs fun u b v hw _ => ?_
  cases v with
  | nil => exact h
  | cons c v =>
      refine not_starts_cons hname ?_
      by_contra hc
      have := isBlankByte_of_isNameByte (by simpa using hc)
      rw [hblank c (by simp [hw])] at this
      cases this

/-- A value is passed over when nothing like the attribute is inside. -/
theorem skips_raw {raw : Bytes} {quote : UInt8} (hname : Spells name q)
    (hquote : quote = 0x22 ∨ quote = 0x27) (h : ¬Hides name raw) :
    Skips name raw (quote :: s) := by
  have hblank : isBlankByte quote = false := by rcases hquote with rfl | rfl <;> rfl
  refine skips_of_not_starts (by simpa using hblank) fun u b v hw hb => ?_
  rintro ⟨gap, u', heq, hgap⟩
  refine h ⟨u, b, v, hw, hb, ?_⟩
  have hnot : quote ∉ name ++ (gap ++ [0x3D]) := by
    intro hmem
    rcases List.mem_append.mp hmem with hmem | hmem
    · have := hname.bytes _ hmem
      rcases hquote with rfl | rfl <;> exact absurd this (by decide)
    · rcases List.mem_append.mp hmem with hmem | hmem
      · rw [hgap _ hmem] at hblank
        cases hblank
      · rw [List.mem_singleton] at hmem
        rw [hmem] at hquote
        exact absurd hquote (by decide)
  rw [show name ++ (gap ++ 0x3D :: u') = name ++ (gap ++ [0x3D]) ++ u' by simp] at heq
  obtain ⟨r, hr, hrest⟩ | ⟨r, hr, -⟩ := List.append_eq_append_iff.mp heq
  · cases r with
    | nil => exact ⟨gap, [], by simpa using hr.symm, hgap⟩
    | cons c r =>
        rw [hr, (List.cons.inj hrest).1] at hnot
        exact absurd (by simp) hnot
  · exact ⟨gap, r, by simpa using hr, hgap⟩

theorem cutAt_of_not_mem {quote : UInt8} (h : quote ∉ w) :
    cutAt [quote] (w ++ quote :: s) = some (w, s) := by
  induction w with
  | nil => simp [cutAt, Bytes.stripFront?]
  | cons b w ih =>
      rw [List.mem_cons, not_or] at h
      rw [List.cons_append, cutAt, Bytes.stripFront?, if_neg h.1]
      dsimp only
      rw [ih h.2]
      rfl

/-- The search ends with nothing behind a word that it passes over. -/
theorem Skips.findAttribute_eq_none (h : Skips name w []) (offset : Nat) :
    findAttribute name offset w = none := by
  have := h offset
  rwa [List.append_nil, findAttribute] at this

end Tag

namespace Xml

open Tag

variable {name : Bytes} {q : QName}

namespace WrittenAttr

/-- Everything before the value. -/
def lead (a : WrittenAttr) : Bytes := a.blank ++ (a.name ++ (a.gap ++ 0x3D :: a.gap'))

/-- The value in its quotes. -/
def quoted (a : WrittenAttr) : Bytes := a.quote :: (a.raw ++ [a.quote])

theorem bytes_eq (a : WrittenAttr) : a.bytes = a.lead ++ a.quoted := by
  simp [bytes, core, assigned, lead, quoted]

theorem head_core (a : WrittenAttr) (rest : Bytes) :
    ∀ b ∈ (a.core ++ rest).head?, isBlankByte b = false := by
  intro b hb
  obtain ⟨c, u, hcore, hc⟩ := a.exists_core_cons
  rw [hcore] at hb
  obtain rfl : c = b := by simpa using hb
  exact isBlankByte_of_isNameByte hc

/-- An attribute of another name is passed over. -/
theorem skips_bytes (a : WrittenAttr) (hname : Spells name q) (hne : a.name ≠ name)
    (hraw : ¬Hides name a.raw) (rest : Bytes) : Skips name a.bytes rest := by
  have hquote : isBlankByte a.quote = false := by rcases a.proper with h | h <;> rw [h] <;> rfl
  have hquote' : isNameByte a.quote = false := by rcases a.proper with h | h <;> rw [h] <;> rfl
  have hsplit : a.bytes =
      a.blank ++ (a.name ++ (a.gap ++ ([0x3D] ++ (a.gap' ++ ([a.quote] ++ (a.raw ++ [a.quote])))))) := by
    simp [bytes, core, assigned]
  have hblank : Skips name a.blank (a.core ++ rest) :=
    skips_blanks hname (fun b hb => isBlankByte_of_isSpaceByte (a.blank_space b hb))
      (a.head_core rest)
      (by
        rw [core, List.append_assoc]
        exact not_starts_name hname a.spells (a.endsName_assigned rest) hne)
  have hgap : ∀ s, Skips name a.gap (0x3D :: s) := fun s =>
    skips_blanks hname (fun b hb => isBlankByte_of_isSpaceByte (a.gap_space b hb))
      (by simp [isBlankByte]) (not_starts_cons hname (by decide))
  have hgap' : ∀ s, Skips name a.gap' (a.quote :: s) := fun s =>
    skips_blanks hname (fun b hb => isBlankByte_of_isSpaceByte (a.gap'_space b hb))
      (by simpa using hquote) (not_starts_cons hname hquote')
  have hword : ∀ s, Skips name a.name s := fun s =>
    skips_of_not_blank fun b hb => isBlankByte_of_isNameByte (a.spells.bytes b hb)
  have hequals : ∀ s, Skips name [0x3D] s := fun s => skips_of_not_blank (by simp [isBlankByte])
  have hmark : ∀ s, Skips name [a.quote] s := fun s => skips_of_not_blank (by simpa using hquote)
  rw [hsplit]
  refine .append ?_ (.append (hword _) (.append (hgap _) (.append (hequals _) (.append (hgap' _)
    (.append (hmark _) (.append (skips_raw hname a.proper hraw) (hmark rest)))))))
  simpa [core, assigned] using hblank

/-- The attribute is found behind its blanks. -/
theorem assignment?_core (a : WrittenAttr) (hname : a.name = name) (rest : Bytes) :
    assignment? name (a.core ++ rest) =
      some (name.length + a.gap.length + 1 + a.gap'.length, a.quoted.length) := by
  have hgap : ∀ s, (a.gap ++ 0x3D :: s).dropWhile isBlankByte = 0x3D :: s := fun s => by
    rw [List.dropWhile_append_of_pos fun b hb => isBlankByte_of_isSpaceByte (a.gap_space b hb),
      List.dropWhile_cons_of_neg (by decide)]
  have hgap' : (a.gap' ++ (a.quoted ++ rest)).dropWhile isBlankByte = a.quoted ++ rest := by
    rw [List.dropWhile_append_of_pos fun b hb => isBlankByte_of_isSpaceByte (a.gap'_space b hb),
      quoted, List.cons_append, List.dropWhile_cons_of_neg]
    rcases a.proper with h | h <;> rw [h] <;> decide
  have hvalue : valueLength? (a.quoted ++ rest) = some a.quoted.length := by
    rw [quoted, List.cons_append, List.append_assoc, valueLength?,
      if_pos (by simpa using a.proper), List.singleton_append,
      cutAt_of_not_mem (a.writes.1 a.quote rfl)]
    simp
  have hcore : a.core ++ rest = name ++ (a.gap ++ 0x3D :: (a.gap' ++ (a.quoted ++ rest))) := by
    simp [core, assigned, quoted, hname]
  unfold assignment?
  rw [hcore, stripFront?_eq_some.mpr rfl]
  simp only [bind, Option.bind, hgap]
  rw [stripFront?_eq_some.mpr (List.singleton_append (l := a.gap' ++ (a.quoted ++ rest))).symm]
  simp only [hgap', hvalue]
  simp
  omega

/-- An attribute is found where its own bytes start. -/
theorem findAttribute_bytes (a : WrittenAttr) (hname : a.name = name) (hblank : a.blank ≠ [])
    (offset : Nat) (rest : Bytes) :
    findAttribute name offset (a.bytes ++ rest) =
      some (offset, offset + a.lead.length, offset + a.bytes.length) := by
  have hhere := attributeHere?_blanks hblank
    (fun b hb => isBlankByte_of_isSpaceByte (a.blank_space b hb)) (a.head_core rest)
    (a.assignment?_core hname rest)
  obtain ⟨b, blank, hcons⟩ := List.exists_cons_of_ne_nil hblank
  have hbytes : a.bytes ++ rest = b :: (blank ++ (a.core ++ rest)) := by
    simp [bytes, hcons]
  rw [hcons, List.cons_append, ← hcons] at hhere
  rw [hbytes, findAttribute, hhere]
  simp [lead, quoted, bytes, core, assigned, hname]
  omega

/-- Other attributes are skipped unless one hides the name in its value. -/
theorem skips_all (hname : Spells name q) {as : List WrittenAttr}
    (h : ∀ a ∈ as, a.name ≠ name ∧ ¬Hides name a.raw) (rest : Bytes) :
    Skips name (as.flatMap bytes) rest := by
  induction as with
  | nil => intro offset; rfl
  | cons a as ih =>
      obtain ⟨hne, hraw⟩ := h a List.mem_cons_self
      rw [List.flatMap_cons]
      exact (a.skips_bytes hname hne hraw _).append (ih fun b hb => h b (List.mem_cons_of_mem a hb))

end WrittenAttr

namespace WrittenTag

variable {t : WrittenTag} {l r : List WrittenAttr} {a : WrittenAttr}

/-- The text of a tag up to an attribute. -/
def upTo (t : WrittenTag) (l : List WrittenAttr) : Bytes :=
  0x3C :: (t.name ++ l.flatMap WrittenAttr.bytes)

/-- The text of a tag from behind an attribute on. -/
def onward (t : WrittenTag) (r : List WrittenAttr) : Bytes :=
  r.flatMap WrittenAttr.bytes ++ (t.blank ++ closing t.selfClosing)

theorem bytes_split (t : WrittenTag) (h : t.attrs = l ++ r) : t.bytes = t.upTo l ++ t.onward r := by
  simp [bytes, core, inside, h, upTo, onward]

/-- Before an attribute the tag ends in its name or in a quote. -/
theorem exists_upTo_last (t : WrittenTag) (l : List WrittenAttr) :
    ∃ w b, t.upTo l = w ++ [b] ∧ isBlankByte b = false := by
  rcases List.eq_nil_or_concat l with rfl | ⟨l, a, rfl⟩
  · obtain ⟨n, b, hname⟩ := List.eq_nil_or_concat t.name |>.resolve_left t.spells.ne_nil
    refine ⟨0x3C :: n, b, by simp [upTo, hname], ?_⟩
    exact isBlankByte_of_isNameByte (t.spells.bytes b (by simp [hname]))
  · refine ⟨t.upTo l ++ (a.lead ++ a.quote :: a.raw), a.quote, ?_, ?_⟩
    · simp [upTo, WrittenAttr.bytes_eq, WrittenAttr.quoted]
    · rcases a.proper with h | h <;> rw [h] <;> rfl

/-- The start of a tag is skipped up to the attribute. -/
theorem skips_upTo (t : WrittenTag) (hname : Spells name q)
    (h : ∀ a ∈ l, a.name ≠ name ∧ ¬Hides name a.raw) (rest : Bytes) :
    Skips name (t.upTo l) rest := by
  have hfront : ∀ b ∈ 0x3C :: t.name, isBlankByte b = false := by
    intro b hb
    rcases List.mem_cons.mp hb with rfl | hb
    · rfl
    · exact isBlankByte_of_isNameByte (t.spells.bytes b hb)
  rw [upTo, ← List.cons_append]
  exact (skips_of_not_blank hfront).append (WrittenAttr.skips_all hname h rest)

/-- An attribute is found when no other one before it has its name or hides it. -/
theorem findAttribute_eq_some (hname : Spells name q) (hattrs : t.attrs = l ++ a :: r)
    (hl : ∀ b ∈ l, b.name ≠ name ∧ ¬Hides name b.raw) (ha : a.name = name) (hblank : a.blank ≠ [])
    (offset : Nat) :
    findAttribute name offset t.bytes =
      some (offset + (t.upTo l).length, offset + (t.upTo l).length + a.lead.length,
        offset + (t.upTo l).length + a.bytes.length) := by
  have hfrom : t.onward (a :: r) = a.bytes ++ t.onward r := by simp [onward]
  rw [t.bytes_split hattrs, t.skips_upTo hname hl, hfrom, a.findAttribute_bytes ha hblank]

/-- No attribute is found when none has the name or hides it. -/
theorem findAttribute_eq_none (hname : Spells name q)
    (h : ∀ a ∈ t.attrs, a.name ≠ name ∧ ¬Hides name a.raw) (offset : Nat) :
    findAttribute name offset t.bytes = none := by
  have hclosing : ∀ b ∈ closing t.selfClosing, isBlankByte b = false := by
    cases t.selfClosing <;> simp [closing, isBlankByte]
  have hnot : ¬Starts name (closing t.selfClosing) := by
    cases t.selfClosing <;> exact not_starts_cons hname (by decide)
  have hblank : Skips name t.blank (closing t.selfClosing ++ []) := by
    rw [List.append_nil]
    exact skips_blanks hname (fun b hb => isBlankByte_of_isSpaceByte (t.blank_space b hb))
      (fun b hb => hclosing b (List.mem_of_mem_head? hb)) hnot
  refine Skips.findAttribute_eq_none ?_ offset
  rw [t.bytes_split (List.append_nil t.attrs).symm]
  refine (t.skips_upTo hname h _).append ?_
  rw [onward, List.flatMap_nil, List.nil_append]
  exact hblank.append (skips_of_not_blank hclosing)

end WrittenTag

end Xml

/-! ### Where an attribute is found -/

namespace Tag

section Bounds

variable {name s : Bytes} {k n value stop first offset : Nat}

theorem valueLength?_le (h : valueLength? s = some n) : n ≤ s.length := by
  cases s with
  | nil => cases h
  | cons q rest =>
      rw [valueLength?] at h
      split_ifs at h
      obtain ⟨⟨front, tail⟩, hcut, rfl⟩ := Option.map_eq_some_iff.mp h
      have hlen := congrArg List.length (cutAt_cut hcut).1
      simp only [List.length_append, List.length_cons, List.length_nil] at hlen ⊢
      omega

theorem assignment?_le (h : assignment? name s = some (k, n)) : k + n ≤ s.length := by
  simp only [assignment?, Option.bind_eq_bind, Option.bind_eq_some_iff, Option.pure_def,
    Option.some.injEq, Prod.mk.injEq] at h
  obtain ⟨rest, hname, after, hequals, m, hvalue, rfl, rfl⟩ := h
  have hrest := congrArg List.length (stripFront?_eq_some.mp hname)
  have hafter := congrArg List.length (stripFront?_eq_some.mp hequals)
  have hblank := (List.dropWhile_suffix (l := rest) isBlankByte).length_le
  have hblank' := (List.dropWhile_suffix (l := after) isBlankByte).length_le
  have hm := valueLength?_le hvalue
  simp only [List.length_append, List.length_cons, List.length_nil] at hrest hafter
  omega

theorem attributeHere?_le (h : attributeHere? name s = some (value, stop)) :
    value ≤ stop ∧ stop ≤ s.length := by
  obtain ⟨k, hk, hfound⟩ := List.exists_of_findSome?_eq_some h
  obtain ⟨⟨at_, n⟩, hassign, heq⟩ := Option.map_eq_some_iff.mp hfound
  obtain ⟨rfl, rfl⟩ := Prod.mk.inj heq
  have hle := assignment?_le hassign
  rw [List.length_drop] at hle
  obtain ⟨j, hj, rfl⟩ := List.mem_map.mp hk
  have hblanks := (List.takeWhile_prefix (l := s) isBlankByte).length_le
  omega

/-- What is found lies in the text that is searched. -/
theorem findAttribute_le (h : findAttribute name offset s = some (first, value, stop)) :
    offset ≤ first ∧ first ≤ value ∧ value ≤ stop ∧ stop ≤ offset + s.length := by
  induction s generalizing offset with
  | nil => cases h
  | cons b s ih =>
      unfold findAttribute at h
      split at h
      · next here =>
          have hle := attributeHere?_le here
          cases h
          omega
      · have hle := ih h
        rw [List.length_cons]
        omega

end Bounds

end Tag

end InstallerLint
