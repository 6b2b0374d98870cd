import InstallerLint.Proofs.Xml.Tag
import Mathlib.Data.List.Chain

/-!
# A text in pieces

A text without faults is a row of pieces, each one token.  What a piece is read as does not depend
on what follows, except that character data goes on up to the next tag: no two pieces of bare text
stand side by side.

**Both ways.**  The tokens of a row of pieces are its tokens in place (`tokens_written`), and every
text whose tokens end without a fault is such a row (`exists_pieces`).  So a text is changed by
exchanging pieces.
-/

namespace InstallerLint
namespace Xml

section Marks

/-- A front is taken off just when the text starts with it. -/
theorem stripFront?_eq_some {p s rest : Bytes} :
    Bytes.stripFront? p s = some rest ↔ s = p ++ rest := by
  induction p generalizing s with
  | nil => simp [Bytes.stripFront?, eq_comm]
  | cons a p ih =>
      cases s with
      | nil => simp [Bytes.stripFront?]
      | cons b s =>
          rw [Bytes.stripFront?]
          split_ifs with hab
          · rw [ih, hab, List.cons_append, List.cons.injEq]
            simp
          · constructor
            · intro h
              cases h
            · intro h
              exact absurd (List.cons.inj h).1.symm hab

theorem stripFront?_eq_none {p s : Bytes} : Bytes.stripFront? p s = none ↔ ¬p <+: s := by
  rw [Option.eq_none_iff_forall_ne_some]
  constructor
  · rintro h ⟨rest, hrest⟩
    exact h rest (stripFront?_eq_some.mpr hrest.symm)
  · intro h rest hrest
    exact h ⟨rest, (stripFront?_eq_some.mp hrest).symm⟩

theorem stripFront?_eq_none_change {p w r r' : Bytes} (hlen : p.length ≤ w.length)
    (h : Bytes.stripFront? p (w ++ r) = none) : Bytes.stripFront? p (w ++ r') = none := by
  rw [stripFront?_eq_none] at h ⊢
  intro hfront
  have hw := List.prefix_of_prefix_length_le hfront (List.prefix_append w r') hlen
  exact h (hw.trans (List.prefix_append w r))

/-- What stands before a mark does not depend on what follows it. -/
theorem cutAt_cut {mark s front rest : Bytes} (h : cutAt mark s = some (front, rest)) :
    s = front ++ mark ++ rest ∧ ∀ rest', cutAt mark (front ++ mark ++ rest') = some (front, rest') := by
  induction s generalizing front rest with
  | nil =>
      rw [cutAt] at h
      split_ifs at h with hmark
      cases h
      subst hmark
      refine ⟨rfl, fun rest' => ?_⟩
      cases rest' <;> rfl
  | cons b s ih =>
      rw [cutAt] at h
      cases hstrip : Bytes.stripFront? mark (b :: s) with
      | some t =>
          rw [hstrip] at h
          cases h
          refine ⟨stripFront?_eq_some.mp hstrip, fun rest' => ?_⟩
          rw [List.nil_append]
          cases hs : mark ++ rest' with
          | nil =>
              obtain ⟨rfl, rfl⟩ := List.append_eq_nil_iff.mp hs
              rfl
          | cons c u =>
              rw [cutAt, stripFront?_eq_some.mpr hs.symm]
      | none =>
          rw [hstrip] at h
          dsimp only at h
          obtain ⟨⟨front', r⟩, hcut, heq⟩ := Option.map_eq_some_iff.mp h
          obtain ⟨rfl, rfl⟩ := Prod.mk.inj heq
          obtain ⟨rfl, hall⟩ := ih hcut
          refine ⟨by simp, fun rest' => ?_⟩
          have hnone : Bytes.stripFront? mark ((b :: front' ++ mark) ++ rest') = none := by
            refine stripFront?_eq_none_change (r := r) (by simp; omega) ?_
            simpa using hstrip
          rw [show b :: front' ++ mark ++ rest' = b :: (front' ++ mark ++ rest') by simp] at hnone ⊢
          rw [cutAt, hnone]
          dsimp only
          rw [hall rest']
          rfl

end Marks

/-- The reader takes exactly `w` from the front and returns a token that matters no more. -/
def TakesOther (read : Bytes → Except Stop (Token × Bytes)) (w : Bytes) : Prop :=
  ∀ rest, read (w ++ rest) = .ok (.other, rest)

section Others

variable {s rest : Bytes} {token : Token}

/-- An instruction is read when it has a target and its content ends, and a declaration has no
fault. -/
theorem readInstruction_eq_ok : readInstruction s = .ok (token, rest) ↔
    token = .other ∧ ∃ target r content, readName s = .ok (some target, r) ∧
      cutAt [0x3F, 0x3E] (skipSpace r) = some (content, rest) ∧
      (if target = "xml" then declarationFault? content else none) = none := by
  constructor
  · intro h
    unfold readInstruction at h
    cases hname : readName s with
    | error stop =>
        rw [hname] at h
        cases h
    | ok x =>
        obtain ⟨_ | target, r⟩ := x <;> rw [hname] at h <;> simp only [bind, Except.bind] at h
        · cases h
        · split at h
          · cases h
          · next content rest' hcut =>
              split at h
              · cases h
              · next hfault =>
                  cases h
                  exact ⟨rfl, target, r, content, rfl, hcut, hfault⟩
  · rintro ⟨rfl, target, r, content, hname, hcut, hfault⟩
    unfold readInstruction
    rw [hname]
    simp only [bind, Except.bind, hcut, hfault]
    rfl

/-- What follows skipped blanks is no blank. -/
theorem isSpaceByte_of_skipSpace {r t : Bytes} {b : UInt8} (h : skipSpace r = b :: t) :
    isSpaceByte b = false := by
  have hhead := List.head?_dropWhile_not isSpaceByte r
  rw [show r.dropWhile isSpaceByte = b :: t from h] at hhead
  simpa using hhead

/-- An instruction that was read is a piece, and it is read off whatever follows it. -/
theorem readInstruction_cut (h : readInstruction s = .ok (token, rest)) :
    token = .other ∧ ∃ w, s = w ++ rest ∧ TakesOther readInstruction w := by
  obtain ⟨rfl, target, r, content, hname, hcut, hfault⟩ := readInstruction_eq_ok.mp h
  obtain ⟨n, rfl, hn, hbytes, hends, rfl⟩ := readName_eq_some.mp hname
  obtain ⟨blank, hr, hblank⟩ := exists_skipSpace r
  obtain ⟨hskip, hall⟩ := cutAt_cut hcut
  refine ⟨rfl, n ++ blank ++ (content ++ [0x3F, 0x3E]), by rw [hr, hskip]; simp, fun rest' => ?_⟩
  obtain ⟨b, t, hb⟩ : ∃ b t, content ++ [0x3F, 0x3E] = b :: t :=
    List.exists_cons_of_ne_nil (by simp)
  have hspace : isSpaceByte b = false :=
    isSpaceByte_of_skipSpace (hskip.trans (by rw [hb, List.cons_append]))
  have hends' : EndsName (blank ++ (content ++ [0x3F, 0x3E]) ++ rest') := by
    obtain ⟨c, u, hc, hcname⟩ := hends
    rw [hr, hskip, hb] at hc
    rw [hb]
    cases blank with
    | nil =>
        have hbc : b = c := (List.cons.inj hc).1
        exact endsName_cons (hbc ▸ hcname)
    | cons d blank => exact endsName_cons (isNameByte_of_isSpaceByte (hblank d List.mem_cons_self))
  have hskip' : skipSpace (blank ++ (content ++ [0x3F, 0x3E]) ++ rest') =
      content ++ [0x3F, 0x3E] ++ rest' := by
    rw [hb, List.append_assoc, List.cons_append, skipSpace_append hblank hspace]
  rw [List.append_assoc n, List.append_assoc n]
  exact readInstruction_eq_ok.mpr ⟨rfl, _, _, content,
    readName_eq_some.mpr ⟨n, rfl, hn, hbytes, hends', rfl⟩, by rw [hskip', hall rest'], hfault⟩

/-- The same for a comment. -/
theorem readComment_cut (h : readComment s = .ok (token, rest)) :
    token = .other ∧ ∃ w, s = w ++ rest ∧ w ≠ [] ∧ TakesOther readComment w := by
  fun_induction readComment s with
  | case1 => cases h
  | case2 => cases h
  | case3 t =>
      cases h
      exact ⟨rfl, [0x2D, 0x2D, 0x3E], rfl, by simp, fun rest' => rfl⟩
  | case4 => cases h
  | case5 b t h1 h2 h3 ih =>
      obtain ⟨rfl, w, rfl, hne, hw⟩ := ih h
      refine ⟨rfl, b :: w, rfl, by simp, fun rest' => ?_⟩
      obtain ⟨c, u, rfl⟩ := List.exists_cons_of_ne_nil hne
      -- Two dashes here were two dashes before.
      have hdashes : b = 0x2D → c ≠ 0x2D := by
        rintro rfl rfl
        cases hu : u ++ rest with
        | nil => exact h1 rfl (by rw [List.cons_append, hu])
        | cons d v => exact h3 d v rfl (by rw [List.cons_append, hu])
      rw [← hw rest', List.cons_append, List.cons_append]
      generalize u ++ rest' = v
      rw [readComment.eq_def]
      split
      · next heq => cases heq
      · next heq => cases heq; exact absurd rfl (hdashes rfl)
      · next heq => cases heq; exact absurd rfl (hdashes rfl)
      · next heq => cases heq; exact absurd rfl (hdashes rfl)
      · next heq => cases heq; rfl

theorem readSectionName_eq_ok {word : Bytes} :
    readSectionName word s = .ok rest ↔ s = word ++ rest := by
  induction word generalizing s with
  | nil => simp [readSectionName]
  | cons a word ih =>
      cases s with
      | nil => simp [readSectionName]
      | cons b s =>
          rw [readSectionName]
          split_ifs with hab
          · rw [ih, hab, List.cons_append, List.cons.injEq]
            simp
          · constructor
            · intro h
              cases h
            · intro h
              exact absurd (List.cons.inj h).1.symm hab

/-- A lookahead for the opening of a comment does not see past a greater-than sign. -/
theorem stripFront?_opening_change {w r r' : Bytes} (hw : 0x3E ∈ w)
    (h : Bytes.stripFront? (Bytes.ofString "!--") (w ++ r) = none) :
    Bytes.stripFront? (Bytes.ofString "!--") (w ++ r') = none := by
  have hword : Bytes.ofString "!--" = [0x21, 0x2D, 0x2D] := by decide
  rw [hword] at h ⊢
  by_cases hlen : 3 ≤ w.length
  · exact stripFront?_eq_none_change hlen h
  · rw [stripFront?_eq_none]
    intro hfront
    have hshort : w <+: [0x21, 0x2D, 0x2D] :=
      List.prefix_of_prefix_length_le (List.prefix_append w r') hfront (by simp; omega)
    exact absurd (hshort.subset hw) (by decide)

/-- Inside of a declaration, the reader takes exactly `w`. -/
structure Declares (quote : Option UInt8) (depth : Nat) (w : Bytes) : Prop where
  /-- Its last byte is a closing bracket. -/
  closes : 0x3E ∈ w
  reads : ∀ rest fuel, w.length ≤ fuel →
    readDeclaration quote depth fuel (w ++ rest) = .ok (.other, rest)

theorem Declares.cons {quote quote' : Option UInt8} {depth depth' : Nat} {b : UInt8} {w : Bytes}
    (h : Declares quote' depth' w)
    (hstep : ∀ fuel rest, readDeclaration quote depth (fuel + 1) (b :: (w ++ rest)) =
      readDeclaration quote' depth' fuel (w ++ rest)) : Declares quote depth (b :: w) where
  closes := List.mem_cons_of_mem b h.closes
  reads := by
    intro rest fuel hfuel
    rw [List.length_cons] at hfuel
    obtain ⟨m, rfl⟩ : ∃ m, fuel = m + 1 := ⟨fuel - 1, by omega⟩
    rw [List.cons_append, hstep]
    exact h.reads rest m (by omega)

/-- Declarations are taken up to the bracket that closes them. -/
theorem readDeclaration_cut {quote : Option UInt8} {depth fuel : Nat}
    (h : readDeclaration quote depth fuel s = .ok (token, rest)) :
    token = .other ∧ ∃ w, s = w ++ rest ∧ Declares quote depth w := by
  fun_induction readDeclaration quote depth fuel s with
  | case1 => cases h
  | case2 => cases h
  | case3 quote depth fuel b s hend =>
      cases h
      have hb : b = 0x3E := by
        simp at hend
        exact hend.1.2
      refine ⟨rfl, [b], rfl, by simp [hb], fun rest' fuel' hfuel => ?_⟩
      obtain ⟨m, rfl⟩ : ∃ m, fuel' = m + 1 := ⟨fuel' - 1, by simp at hfuel; omega⟩
      rw [List.singleton_append, readDeclaration, if_pos hend]
  | case4 depth fuel b s h1 ih =>
      obtain ⟨rfl, w, rfl, hw⟩ := ih h
      refine ⟨rfl, b :: w, rfl, hw.cons fun m rest' => ?_⟩
      rw [readDeclaration, if_neg h1, if_pos rfl]
  | case5 quote depth fuel b s h1 h2 h3 ih =>
      obtain ⟨rfl, w, rfl, hw⟩ := ih h
      refine ⟨rfl, b :: w, rfl, hw.cons fun m rest' => ?_⟩
      rw [readDeclaration, if_neg h1, if_neg h2, if_pos h3]
  | case6 quote depth fuel b s h1 h2 h3 h4 ih =>
      obtain ⟨rfl, w, rfl, hw⟩ := ih h
      refine ⟨rfl, b :: w, rfl, hw.cons fun m rest' => ?_⟩
      rw [readDeclaration, if_neg h1, if_neg h2, if_neg h3, if_pos h4]
  | case7 quote depth fuel s h3 h1 h2 h4 ih =>
      obtain ⟨rfl, w, rfl, hw⟩ := ih h
      refine ⟨rfl, 0x3E :: w, rfl, hw.cons fun m rest' => ?_⟩
      rw [readDeclaration, if_neg h1, if_neg h2, if_neg h3, if_neg h4, if_pos rfl]
  | case8 quote depth fuel s h3 hopen h1 h2 h4 h5 ih =>
      obtain ⟨rfl, w, rfl, hw⟩ := ih h
      refine ⟨rfl, 0x3C :: w, rfl, hw.cons fun m rest' => ?_⟩
      rw [readDeclaration, if_neg h1, if_neg h2, if_neg h3, if_neg h4, if_neg h5, if_pos rfl,
        stripFront?_opening_change hw.closes hopen]
  | case9 => cases h
  | case10 quote depth fuel s h3 inner hopen content t hcut h1 h2 h4 h5 ih =>
      -- A comment is skipped at once and costs one unit of fuel.
      obtain ⟨rfl, w, rfl, hw⟩ := ih h
      obtain ⟨rfl, hall⟩ := cutAt_cut hcut
      obtain rfl := stripFront?_eq_some.mp hopen
      refine ⟨rfl, 0x3C :: (Bytes.ofString "!--" ++ (content ++ Bytes.ofString "-->" ++ w)),
        by simp, by simp [hw.closes], fun rest' fuel' hfuel => ?_⟩
      obtain ⟨m, rfl⟩ : ∃ m, fuel' = m + 1 := ⟨fuel' - 1, by simp at hfuel; omega⟩
      rw [List.cons_append, readDeclaration, if_neg h1, if_neg h2, if_neg h3, if_neg h4, if_neg h5,
        if_pos rfl, List.append_assoc, stripFront?_eq_some.mpr rfl, List.append_assoc]
      dsimp only
      rw [hall (w ++ rest')]
      exact hw.reads rest' m (by simp at hfuel; omega)
  | case11 quote depth fuel b s h1 h2 h3 h4 h5 h6 ih =>
      obtain ⟨rfl, w, rfl, hw⟩ := ih h
      refine ⟨rfl, b :: w, rfl, hw.cons fun m rest' => ?_⟩
      rw [readDeclaration, if_neg h1, if_neg h2, if_neg h3, if_neg h4, if_neg h5, if_neg h6]

end Others

/-- A piece of a text, and what it is. -/
inductive Piece where
  | start (t : WrittenTag)
  | stop (t : WrittenEnd)
  | bare (raw : Bytes) (s : String) (ne_nil : raw ≠ []) (writes : Writes .content raw s)
  | data (raw : Bytes) (s : String) (writes : Writes .cdata raw s)
  /-- A comment, processing instruction or declaration. -/
  | other (w : Bytes) (takes : ∀ rest bound, (0x3C :: w).length ≤ bound →
      readToken bound (0x3C :: w ++ rest) = .ok (.other, rest))

namespace Piece

/-- How a piece is written. -/
def bytes : Piece → Bytes
  | start t => t.bytes
  | stop t => t.bytes
  | bare raw _ _ _ => raw
  | data raw _ _ => Bytes.ofString "<![CDATA[" ++ (raw ++ Mode.cdata.mark)
  | other w _ => 0x3C :: w

/-- What a piece is read as. -/
def token : Piece → Token
  | start t => t.token
  | stop t => .endTag t.qname
  | bare _ s _ _ => .text s
  | data _ s _ => .text s
  | other _ _ => .other

/-- Whether a piece goes up to the next tag. -/
def isBare : Piece → Bool
  | bare .. => true
  | _ => false

/-- Whether a rest may follow a piece. -/
def Before (p : Piece) (rest : Bytes) : Prop := p.isBare = true → Mode.Ends .content rest

theorem bytes_ne_nil (p : Piece) : p.bytes ≠ [] := by
  cases p with
  | start t => simp [bytes, WrittenTag.bytes]
  | stop t => simp [bytes, WrittenEnd.bytes]
  | bare raw s ne_nil writes => exact ne_nil
  | data raw s writes => simp [bytes, Mode.mark]
  | other w takes => simp [bytes]

/-- All but bare text starts with an angle bracket. -/
theorem head?_bytes {p : Piece} (h : p.isBare = false) : p.bytes.head? = some 0x3C := by
  cases p with
  | start t => rfl
  | stop t => rfl
  | bare raw s ne_nil writes => cases h
  | data raw s writes => rfl
  | other w takes => rfl

end Piece

section Tokens

variable {bound : Nat} {s rest : Bytes} {token : Token}

theorem readToken_start {c : UInt8} {u : Bytes} (hc : isNameByte c = true) :
    readToken bound (0x3C :: c :: u) = readStartTag bound (c :: u) := by
  rw [readToken.eq_def]
  split
  · next heq => cases heq
  · next heq => cases heq; exact absurd hc (by decide)
  · next heq => cases heq; exact absurd hc (by decide)
  · next heq => cases heq; exact absurd hc (by decide)
  · next heq => cases heq; rfl
  · next hno => exact absurd rfl (hno _)

theorem readToken_bare {c : UInt8} {u : Bytes} (hc : c ≠ 0x3C) :
    readToken bound (c :: u) = (do
      let (text, rest) ← readText .content (c :: u)
      return (.text text, rest)) := by
  rw [readToken.eq_def]
  split
  · next heq => cases heq; exact absurd rfl hc
  · next heq => cases heq; exact absurd rfl hc
  · next heq => cases heq; exact absurd rfl hc
  · next heq => cases heq; exact absurd rfl hc
  · next heq => cases heq; exact absurd rfl hc
  · rfl

/-- A section with data is read as its text, whatever follows. -/
theorem readSection_data {raw : Bytes} {v : String} (h : Writes .cdata raw v) :
    readToken bound (Bytes.ofString "<![CDATA[" ++ (raw ++ Mode.cdata.mark) ++ rest) =
      .ok (.text v, rest) := by
  have hword : Bytes.ofString "<![CDATA[" = 0x3C :: 0x21 :: 0x5B :: Bytes.ofString "CDATA[" := by
    decide
  have hname : readSectionName (Bytes.ofString "CDATA[")
      (Bytes.ofString "CDATA[" ++ (raw ++ Mode.cdata.mark ++ rest)) =
        .ok (raw ++ Mode.cdata.mark ++ rest) := readSectionName_eq_ok.mpr rfl
  have hread := h.2 rest (Mode.ends_of_ne (by simp) rest)
  rw [hword, List.append_assoc, List.cons_append, List.cons_append, List.cons_append, readToken,
    readMarked, readSection, hname]
  simp only [bind, Except.bind, hread]
  rfl

/-- Bare text does not start with an angle bracket. -/
theorem Writes.head_ne {raw : Bytes} {v : String} {c : UInt8} {u : Bytes}
    (h : Writes .content raw v) (hraw : raw = c :: u) : c ≠ 0x3C := by
  rintro rfl
  obtain ⟨data, hdata, -, -⟩ := readText_eq_ok.mp (h.2 [] (by simp [Mode.Ends]))
  rw [hraw, readData.eq_def] at hdata
  simp [Mode.mark] at hdata

/-- A piece is read before every rest that may follow it. -/
theorem Piece.readToken_bytes (p : Piece) (hrest : p.Before rest)
    (hbound : (p.bytes ++ rest).length ≤ bound) :
    readToken bound (p.bytes ++ rest) = .ok (p.token, rest) := by
  cases p with
  | start t =>
      obtain ⟨c, u, hcore, hc⟩ := t.exists_core_cons
      have hlt := t.length_attrs_lt rest
      rw [bytes, WrittenTag.bytes, List.cons_append, List.length_cons] at hbound
      rw [bytes, WrittenTag.bytes, hcore, List.cons_append, List.cons_append, readToken_start hc,
        ← List.cons_append, ← hcore]
      exact t.readStartTag_core rest (by omega)
  | stop t => exact readEndTag_eq_ok.mpr ⟨t, rfl, rfl⟩
  | bare raw s ne_nil writes =>
      obtain ⟨c, u, rfl⟩ := List.exists_cons_of_ne_nil ne_nil
      have hread := writes.2 rest (hrest rfl)
      rw [Mode.mark, List.append_nil, List.cons_append] at hread
      rw [bytes, List.cons_append, readToken_bare (writes.head_ne rfl), hread]
      rfl
  | data raw s writes => exact readSection_data writes
  | other w takes =>
      rw [bytes, List.length_append] at hbound
      exact takes rest bound (by omega)

/-- A section that was read is a piece with its text. -/
theorem readSection_cut (h : readSection s = .ok (token, rest)) :
    ∃ raw v, s = Bytes.ofString "CDATA[" ++ (raw ++ Mode.cdata.mark) ++ rest ∧ token = .text v ∧
      Writes .cdata raw v := by
  unfold readSection at h
  cases hname : readSectionName (Bytes.ofString "CDATA[") s with
  | error stop =>
      rw [hname] at h
      cases h
  | ok t =>
      rw [hname] at h
      obtain rfl := readSectionName_eq_ok.mp hname
      simp only [bind, Except.bind] at h
      cases htext : readText .cdata t with
      | error stop =>
          rw [htext] at h
          cases h
      | ok x =>
          obtain ⟨v, r⟩ := x
          rw [htext] at h
          cases h
          have hno : ¬∃ q, Mode.cdata = .value q := by
            rintro ⟨q, hq⟩
            cases hq
          obtain ⟨raw, rfl, -, hwrites⟩ :=
            readText_cut Mode.proper_cdata htext fun h => absurd h hno
          exact ⟨raw, v, by simp, rfl, hwrites⟩

theorem readMarked_declaration {c : UInt8} {u : Bytes} (hdash : c ≠ 0x2D) (hbracket : c ≠ 0x5B) :
    readMarked bound (c :: u) = readDeclaration none 0 bound u := by
  rw [readMarked.eq_def]
  split
  · next heq => cases heq
  · next heq => cases heq; exact absurd rfl hdash
  · next heq => cases heq; exact absurd rfl hdash
  · next heq => cases heq; exact absurd rfl hdash
  · next heq => cases heq; exact absurd rfl hbracket
  · next heq => cases heq; rfl

/-- What was read behind an exclamation mark is a piece that is no bare text. -/
theorem readMarked_cut (h : readMarked bound s = .ok (token, rest)) :
    ∃ p : Piece, 0x3C :: 0x21 :: s = p.bytes ++ rest ∧ p.token = token ∧ p.isBare = false := by
  unfold readMarked at h
  split at h
  · cases h
  · cases h
  · next t =>
      obtain ⟨rfl, w, rfl, -, hw⟩ := readComment_cut h
      exact ⟨.other (0x21 :: 0x2D :: 0x2D :: w) fun r b _ => hw r, rfl, rfl, rfl⟩
  · cases h
  · next t =>
      obtain ⟨raw, v, rfl, rfl, hwrites⟩ := readSection_cut h
      exact ⟨.data raw v hwrites, rfl, rfl, rfl⟩
  · next c t h1 h2 h3 h4 =>
      obtain ⟨rfl, w, rfl, hw⟩ := readDeclaration_cut h
      have hdash : c ≠ 0x2D := by
        rintro rfl
        cases hs : w ++ rest with
        | nil => exact h1 rfl hs
        | cons d v => exact h3 d v rfl hs
      have hbracket : c ≠ 0x5B := h4
      refine ⟨.other (0x21 :: c :: w) ?_, rfl, rfl, rfl⟩
      intro rest' bound' hbound
      rw [List.cons_append, List.cons_append, List.cons_append, readToken,
        readMarked_declaration hdash hbracket]
      exact hw.reads rest' bound' (by simp at hbound; omega)

/-- What is read as a token is a piece. -/
theorem readToken_cut (hs : s ≠ []) (h : readToken bound s = .ok (token, rest)) :
    ∃ p : Piece, s = p.bytes ++ rest ∧ p.token = token ∧ p.Before rest := by
  unfold readToken at h
  split at h
  · cases h
  · next t =>
      obtain ⟨e, rfl, rfl⟩ := readEndTag_eq_ok.mp h
      exact ⟨.stop e, rfl, rfl, fun hbare => by cases hbare⟩
  · next t =>
      obtain ⟨rfl, w, rfl, hw⟩ := readInstruction_cut h
      exact ⟨.other (0x3F :: w) fun r b _ => hw r, rfl, rfl, fun hbare => by cases hbare⟩
  · next t =>
      obtain ⟨p, hp, htoken, hbare⟩ := readMarked_cut h
      exact ⟨p, hp, htoken, fun hbare' => by rw [hbare] at hbare'; cases hbare'⟩
  · next t _ _ _ _ =>
      obtain ⟨e, rfl, rfl⟩ := readStartTag_cut h
      exact ⟨.start e, rfl, rfl, fun hbare => by cases hbare⟩
  · next h1 h2 h3 h4 h5 =>
      cases htext : readText .content s with
      | error stop =>
          rw [htext] at h
          cases h
      | ok x =>
          obtain ⟨v, r⟩ := x
          rw [htext] at h
          cases h
          obtain ⟨raw, hraw, hends, hwrites⟩ := readText_cut Mode.proper_content htext
            fun ⟨q, hq⟩ => by cases hq
          rw [Mode.mark, List.append_nil] at hraw
          have hne : raw ≠ [] := by
            rintro rfl
            obtain ⟨c, u, rfl⟩ := List.exists_cons_of_ne_nil hs
            rw [List.nil_append] at hraw
            have hc := hends rfl c (by rw [← hraw]; rfl)
            subst hc
            exact h5 _ rfl
          exact ⟨.bare raw v hne hwrites, hraw, rfl, fun _ => hends⟩

end Tokens

/-- No two pieces of bare text stand side by side. -/
def Apart (ps : List Piece) : Prop :=
  ps.IsChain fun p q => p.isBare = true → q.isBare = false

/-- The tokens of pieces from an offset on. -/
def place (offset : Nat) : List Piece → List Lexeme
  | [] => []
  | p :: ps =>
      ⟨p.token, offset, offset + p.bytes.length⟩ :: place (offset + p.bytes.length) ps

/-- How a row of pieces is written. -/
def written (ps : List Piece) : Bytes := ps.flatMap Piece.bytes

@[simp]
theorem written_nil : written [] = [] := rfl

@[simp]
theorem written_cons (p : Piece) (ps : List Piece) : written (p :: ps) = p.bytes ++ written ps := rfl

@[simp]
theorem written_append (ps qs : List Piece) : written (ps ++ qs) = written ps ++ written qs :=
  List.flatMap_append

/-- Pieces are placed one behind the other. -/
theorem place_append (offset : Nat) (ps qs : List Piece) :
    place offset (ps ++ qs) = place offset ps ++ place (offset + (written ps).length) qs := by
  induction ps generalizing offset with
  | nil => rfl
  | cons p ps ih => simp [place, ih, Nat.add_assoc]

theorem Apart.before {p : Piece} {ps : List Piece} (h : Apart (p :: ps)) : p.Before (written ps) := by
  intro hbare _ b hb
  cases ps with
  | nil => cases hb
  | cons q ps =>
      have hq := (List.isChain_cons_cons.mp h).1 hbare
      obtain ⟨c, u, hcu⟩ := List.exists_cons_of_ne_nil q.bytes_ne_nil
      have hhead := Piece.head?_bytes hq
      rw [hcu] at hhead
      rw [written_cons, hcu] at hb
      cases hhead
      simpa using hb.symm

theorem Apart.cons {p : Piece} {ps : List Piece} (h : Apart ps) (hp : p.Before (written ps)) :
    Apart (p :: ps) := by
  cases ps with
  | nil => exact .singleton p
  | cons q ps =>
      refine List.isChain_cons_cons.mpr ⟨fun hbare => ?_, h⟩
      obtain ⟨c, u, hcu⟩ := List.exists_cons_of_ne_nil q.bytes_ne_nil
      have hc : c = 0x3C := hp hbare rfl c (by rw [written_cons, hcu]; rfl)
      cases q with
      | bare raw s ne_nil writes => exact absurd hc (writes.head_ne hcu)
      | _ => rfl

/-- One step of the lexer. -/
theorem lexemes_of_ne_nil {length fuel left : Nat} {s : Bytes} (hs : s ≠ []) :
    lexemes length (fuel + 1) left s =
      match readToken left s with
      | .error stop => ([], some (stop, length - left))
      | .ok (token, rest) =>
        (⟨token, length - left, length - rest.length⟩ :: (lexemes length fuel rest.length rest).1,
          (lexemes length fuel rest.length rest).2) := by
  obtain ⟨c, rest, rfl⟩ := List.exists_cons_of_ne_nil hs
  cases hread : readToken left (c :: rest) <;> simp [lexemes, hread]

/-- The lexemes of written pieces are the pieces at their places, by recursion on the pieces. -/
theorem lexemes_written (length : Nat) :
    ∀ (ps : List Piece) (fuel : Nat), Apart ps → (written ps).length ≤ fuel →
      (written ps).length ≤ length →
      lexemes length fuel (written ps).length (written ps) =
        (place (length - (written ps).length) ps, none) := by
  intro ps
  induction ps with
  | nil =>
      intro fuel _ _ _
      cases fuel <;> rfl
  | cons p ps ih =>
      intro fuel hapart hfuel hlength
      have hpos := List.length_pos_iff.mpr p.bytes_ne_nil
      have hlen : (written (p :: ps)).length = p.bytes.length + (written ps).length := by
        rw [written_cons, List.length_append]
      obtain ⟨m, rfl⟩ : ∃ m, fuel = m + 1 := ⟨fuel - 1, by omega⟩
      have hne : written (p :: ps) ≠ [] := List.length_pos_iff.mp (by omega)
      have hread : readToken (written (p :: ps)).length (written (p :: ps)) =
          .ok (p.token, written ps) := p.readToken_bytes hapart.before (Nat.le_refl _)
      have hstart : length - (written (p :: ps)).length + p.bytes.length =
          length - (written ps).length := by omega
      rw [lexemes_of_ne_nil hne, hread]
      dsimp only
      rw [ih m hapart.tail (by omega) (by omega), place, hstart]

/-- The tokens of a row of pieces. -/
theorem tokens_written {ps : List Piece} (h : Apart ps) :
    tokens (written ps) = (place 0 ps, none) := by
  unfold tokens
  rw [lexemes_written _ ps _ h (Nat.le_refl _) (Nat.le_refl _), Nat.sub_self]

/-- A text whose lexemes are all found is written in pieces that stand apart. -/
theorem lexemes_cut (length : Nat) :
    ∀ (fuel : Nat) (s : Bytes), s.length ≤ fuel → (lexemes length fuel s.length s).2 = none →
      ∃ ps, Apart ps ∧ s = written ps := by
  intro fuel
  induction fuel with
  | zero =>
      intro s hfuel _
      obtain rfl := List.length_eq_zero_iff.mp (Nat.le_zero.mp hfuel)
      exact ⟨[], .nil, rfl⟩
  | succ fuel ih =>
      intro s hfuel h
      by_cases hs : s = []
      · exact ⟨[], .nil, hs⟩
      · rw [lexemes_of_ne_nil hs] at h
        cases hread : readToken s.length s with
        | error stop =>
            rw [hread] at h
            cases h
        | ok x =>
            obtain ⟨token, rest⟩ := x
            rw [hread] at h
            obtain ⟨p, hp, -, hbefore⟩ := readToken_cut hs hread
            have hlen : rest.length ≤ fuel := by
              have hpos := List.length_pos_iff.mpr p.bytes_ne_nil
              rw [hp, List.length_append] at hfuel
              omega
            obtain ⟨ps, hapart, rfl⟩ := ih rest hlen h
            exact ⟨p :: ps, hapart.cons hbefore, hp⟩

/-- A text whose tokens end without a fault is a row of pieces. -/
theorem exists_pieces {source : Bytes} (h : (tokens source).2 = none) :
    ∃ ps, Apart ps ∧ source = written ps :=
  lexemes_cut source.length source.length source (Nat.le_refl _) h

end Xml
end InstallerLint
