import InstallerLint.Proofs.Document.Change
import InstallerLint.Proofs.Xml.Seam

/-!
# Removing elements

An element is removed with all its bytes, so what stands before it and what stands behind it become
neighbours.  Where both are bare text they become one piece of text.  It is a fault when brackets of
the one and a greater-than sign of the other make a section end, and it has a line end less when the
two halves of one meet.  Everything else stays as it is.

**The way there.**  The element stands in a hole (`exists_hole`).  Without it, what is behind the
element is joined to what is before it (`exists_joined`).  The rows of the joined content are the old
ones without a block (`without_of_joined`), but for the text of the parent.
-/

namespace InstallerLint

namespace Xml

namespace Around

/-- The character data before the hole, on its level. -/
def charsBefore : Around → String
  | top => ""
  | afterLeaf p _ outer => outer.charsBefore ++ p.chars
  | afterClosed _ _ outer => outer.charsBefore
  | afterElement _ _ _ _ _ outer => outer.charsBefore
  | inside _ _ _ _ _ _ => ""

/-- Inside of an element, what fills a hole matters to the text of this element only. -/
theorem rowsBefore_eq (o : Around) {p : Nat} (hp : o.parent = some p) :
    ∃ (L : List Row) (r : Row) (R : List Row), L.length = p ∧ ∀ chars, o.rowsBefore chars =
      L ++ { r with text := Blank.trim (o.charsBefore ++ chars) } :: R := by
  induction o with
  | top => cases hp
  | afterLeaf q hq outer ih =>
      obtain ⟨L, r, R, hlen, hrows⟩ := ih hp
      exact ⟨L, r, R, hlen, fun chars => by rw [rowsBefore, hrows, charsBefore, String.append_assoc]⟩
  | afterClosed t ht outer ih =>
      obtain ⟨L, r, R, hlen, hrows⟩ := ih hp
      exact ⟨L, r, R ++ [_], hlen, fun chars => by
        rw [rowsBefore, hrows, List.append_assoc, List.cons_append, charsBefore]⟩
  | afterElement t ht inner e he outer ih =>
      obtain ⟨L, r, R, hlen, hrows⟩ := ih hp
      exact ⟨L, r, R ++ _ :: _, hlen, fun chars => by
        rw [rowsBefore, hrows, List.append_assoc, List.cons_append, charsBefore]⟩
  | inside t ht e he next outer ih =>
      cases hp
      refine ⟨outer.rowsBefore next.chars,
        ⟨t.qname.part, outer.scope.kept t.tagAttrs, "", outer.parent⟩, [],
        outer.length_rowsBefore _, fun chars => ?_⟩
      rw [rowsBefore, charsBefore, String.empty_append]

/-- Inside of an element, what fills a hole does not matter to the outermost level. -/
theorem plug_inside (o : Around) {p : Nat} (hp : o.parent = some p) :
    ∀ c c' : Content, (o.plug c').chars = (o.plug c).chars ∧ (o.plug c').tops = (o.plug c).tops := by
  induction o with
  | top => cases hp
  | afterLeaf q hq outer ih => exact fun c c' => ih hp _ _
  | afterClosed t ht outer ih => exact fun c c' => ih hp _ _
  | afterElement t ht inner e he outer ih => exact fun c c' => ih hp _ _
  | inside t ht e he next outer ih => exact fun c c' => ⟨outer.chars_plug rfl, outer.tops_plug rfl⟩

/-- A hole is behind bare text, or no bare text stands right before it. -/
theorem last_before (o : Around) :
    (∃ raw v ne_nil writes hleaf outer, o = .afterLeaf (.bare raw v ne_nil writes) hleaf outer) ∨
      ∀ p ∈ o.before.getLast?, p.isBare = false := by
  cases o with
  | afterLeaf p hp outer =>
      cases p with
      | bare raw v ne_nil writes => exact .inl ⟨raw, v, ne_nil, writes, hp, outer, rfl⟩
      | start | stop | data | other => exact .inr (by simp [before, Piece.isBare])
  | afterElement t ht inner e he outer =>
      refine .inr fun p hp => ?_
      rw [before, ← List.cons_append, ← List.append_assoc, List.getLast?_concat] at hp
      cases hp
      rfl
  | top | afterClosed | inside => exact .inr (by simp [before, Piece.isBare])

theorem head_after (o : Around) : ∀ p ∈ o.after.head?, p.isBare = false := by
  induction o with
  | top => simp [after]
  | afterLeaf p hp outer ih => exact ih
  | afterClosed t ht outer ih => exact ih
  | afterElement t ht inner e he outer ih => exact ih
  | inside t ht e he next outer ih => simp [after, Piece.isBare]

/-- What fills a hole starts with bare text, or no bare text stands right behind its front. -/
theorem head_next (o : Around) (next : Content) :
    (∃ raw v ne_nil writes hleaf next', next = .leaf (.bare raw v ne_nil writes) hleaf next') ∨
      ∀ p ∈ (next.pieces ++ o.after).head?, p.isBare = false := by
  cases next with
  | done => exact .inr o.head_after
  | leaf p hp next =>
      cases p with
      | bare raw v ne_nil writes => exact .inl ⟨raw, v, ne_nil, writes, hp, next, rfl⟩
      | start | stop | data | other => exact .inr (by simp [Content.pieces, Piece.isBare])
  | closed | element => exact .inr (by simp [Content.pieces, Piece.isBare])

end Around

/-- Inside of an element, what fills a hole can be exchanged for anything. -/
theorem Content.IsDocument.refill {o : Around} {x : Content} {e : Element} {p : Nat}
    (h : (o.plug x).IsDocument e) (hp : o.parent = some p) (x' : Content)
    (hapart : Apart (o.plug x').pieces) : ∃ e', (o.plug x').IsDocument e' := by
  obtain ⟨hchars, htops⟩ := o.plug_inside hp x x'
  exact Content.IsDocument.change (o := .top) h hchars htops hapart

/-- Whether pieces may stand side by side is a matter of which ones are bare text. -/
theorem Apart.swap_last {ps : List Piece} {q q' : Piece} (h : Apart (ps ++ [q]))
    (hsame : q'.isBare = q.isBare) : Apart (ps ++ [q']) := by
  obtain ⟨hps, -, hlast⟩ := List.isChain_append.mp h
  refine List.isChain_append.mpr ⟨hps, .singleton _, fun p hp r hr hbare => ?_⟩
  cases hr
  rw [hsame]
  exact hlast p hp q rfl hbare

theorem Apart.swap_head {ps : List Piece} {q q' : Piece} (h : Apart (q :: ps))
    (hsame : q'.isBare = q.isBare) : Apart (q' :: ps) := by
  obtain ⟨hhead, hps⟩ := List.isChain_cons.mp h
  exact List.isChain_cons.mpr ⟨fun r hr hbare => hhead r hr (hsame ▸ hbare), hps⟩

/-- A content is what is around a hole, with `next` right behind what stands before the hole, and
`chars` is the character data that `next` has there. -/
structure Joined (o : Around) (next c : Content) (chars : String) : Prop where
  document : ∃ root, c.IsDocument root
  bytes : c.bytes = written o.before ++ (next.bytes ++ written o.after)
  rows : c.rows [] none 0 = o.rowsBefore chars ++ o.rowsFrom next o.count
  chars : next.chars = if MakesLineEnd (written o.before) (next.bytes ++ written o.after)
    then "\n" ++ chars else chars

section Without

variable {o : Around} {x next : Content} {root : Element} {p : Nat}

/-- Without bare text on both sides, nothing is joined. -/
theorem joined_apart (hc : (o.plug x).IsDocument root) (hp : o.parent = some p)
    (hbefore : Apart o.before) (hafter : Apart (next.pieces ++ o.after))
    (hseam : (∀ p ∈ o.before.getLast?, p.isBare = false) ∨
      ∀ p ∈ (next.pieces ++ o.after).head?, p.isBare = false) :
    Joined o next (o.plug next) next.chars where
  document := by
    refine hc.refill hp next ?_
    rw [o.pieces_plug]
    refine List.isChain_append.mpr ⟨hbefore, hafter, fun q hq r hr hbare => ?_⟩
    rcases hseam with hlast | hhead
    · rw [hlast q hq] at hbare
      cases hbare
    · exact hhead r hr
  bytes := o.bytes_plug next
  rows := o.rows_plug next
  chars := by
    rw [if_neg]
    rintro ⟨⟨l, hl⟩, ⟨r, hr⟩⟩
    rcases hseam with hlast | hhead
    · exact absurd (getLast?_written hlast 0x0D (by simp [← hl])) (by decide)
    · have hfirst := head?_written hhead 0x0A
      rw [written_append, show written next.pieces = next.bytes from rfl, ← hr] at hfirst
      exact absurd (hfirst rfl) (by decide)

/-- Bare text on both sides is joined. -/
theorem joined_bare {raw raw' : Bytes} {v v' : String} {ne_nil ne_nil'}
    {writes : Writes .content raw v} {writes' : Writes .content raw' v'} {hleaf hleaf'}
    {outer : Around} (hp : outer.parent = some p)
    (hc : ((Around.afterLeaf (.bare raw v ne_nil writes) hleaf outer).plug x).IsDocument root)
    (hbefore : Apart (outer.before ++ [.bare raw v ne_nil writes]))
    (hafter : Apart (.bare raw' v' ne_nil' writes' :: (next.pieces ++ outer.after)))
    (hend : ¬MakesSectionEnd (written outer.before ++ raw)
      (raw' ++ (next.bytes ++ written outer.after))) :
    ∃ c chars, Joined (.afterLeaf (.bare raw v ne_nil writes) hleaf outer)
      (.leaf (.bare raw' v' ne_nil' writes') hleaf' next) c chars := by
  have hend' : ¬MakesSectionEnd raw raw' := fun h => hend (h.extend _ _)
  obtain ⟨u, hwrites, hv'⟩ := writes.append writes' hend'
  have hne : raw ++ raw' ≠ [] := by simp [ne_nil]
  have hboth : (Piece.bare (raw ++ raw') (v ++ u) hne hwrites).isLeaf = true := rfl
  refine ⟨outer.plug (.leaf _ hboth next), u ++ next.chars, ?_, ?_, ?_, ?_⟩
  · refine Content.IsDocument.refill (o := outer) hc hp _ ?_
    have hfront : Apart (outer.before ++ [.bare (raw ++ raw') (v ++ u) hne hwrites]) :=
      hbefore.swap_last rfl
    have hback : Apart (.bare (raw ++ raw') (v ++ u) hne hwrites :: (next.pieces ++ outer.after)) :=
      hafter.swap_head rfl
    rw [outer.pieces_plug]
    exact List.isChain_split.mpr ⟨hfront, hback⟩
  · rw [outer.bytes_plug, Content.bytes_leaf, Content.bytes_leaf]
    simp [Around.before, Around.after, Piece.bytes]
  · rw [outer.rows_plug]
    simp only [Around.rowsBefore, Around.rowsFrom, Content.chars, Piece.chars, Content.rows,
      String.append_assoc]
    rfl
  · have hline : MakesLineEnd (written outer.before ++ raw)
        (raw' ++ (next.bytes ++ written outer.after)) ↔ MakesLineEnd raw raw' := by
      rw [makesLineEnd_iff, makesLineEnd_iff, List.getLast?_append_of_ne_nil _ ne_nil,
        List.head?_append_of_ne_nil _ ne_nil']
    rw [Content.bytes_leaf, Around.before, written_append, Around.after, Content.chars,
      written_cons, written_nil, List.append_nil, List.append_assoc]
    simp only [Piece.bytes, hline, Piece.chars, hv']
    split_ifs <;> simp [String.append_assoc]

/-- **A document without what fills a hole.** -/
theorem exists_joined (hc : (o.plug x).IsDocument root) (hp : o.parent = some p)
    (hbefore : Apart o.before) (hafter : Apart (next.pieces ++ o.after))
    (hend : ¬MakesSectionEnd (written o.before) (next.bytes ++ written o.after)) :
    ∃ c chars, Joined o next c chars := by
  rcases o.last_before with ⟨raw, v, ne_nil, writes, hleaf, outer, rfl⟩ | hlast
  · rcases outer.head_next next with ⟨raw', v', ne_nil', writes', hleaf', next', rfl⟩ | hhead
    · refine joined_bare hp hc hbefore hafter ?_
      simpa [Around.before, Around.after, Piece.bytes] using hend
    · exact ⟨_, _, joined_apart hc hp hbefore hafter (.inr hhead)⟩
  · exact ⟨_, _, joined_apart hc hp hbefore hafter (.inl hlast)⟩

end Without

end Xml

namespace Document

open Xml Element

variable {d d' : Document} {source : Bytes} {path : String} {id : Nat}

/-- **Where a removal lands.**  The bytes of an element and the block of its rows stand between what
is before its hole and what is behind it. -/
theorem exists_hole (h : Document.parse source path = .ok d) (hid : id < d.size) :
    ∃ (o : Around) (x next : Content) (root : Element) (m : Bytes) (B : List Row),
      (o.plug x).IsDocument root ∧ Apart o.before ∧ Apart (next.pieces ++ o.after) ∧
      o.count = id ∧ o.parent = d.parent? id ∧
      source = written o.before ++ (m ++ (next.bytes ++ written o.after)) ∧
      d.remove id = .ok ⟨(written o.before).length, (written o.before).length + m.length, []⟩ ∧
      id :: d.descendants id = List.range' id B.length ∧
      d.rows = o.rowsBefore next.chars ++ (B ++ o.rowsFrom next (id + B.length)) := by
  obtain ⟨o, x, root, hsource, hc, rfl, rfl, hx⟩ := exists_around h hid
  rcases hx with ⟨t, ht, next, rfl⟩ | ⟨t, ht, inner, e, he, next, rfl⟩
  · obtain ⟨hbefore, hafter⟩ := Around.apart_closed.mp hc.apart
    have hholds : (ofElement source path root).Holds o.parent o.count _ := holds_plug hc rfl
    have hsplit : source = written o.before ++ (t.bytes ++ (next.bytes ++ written o.after)) := by
      rw [hsource, o.bytes_plug, Content.bytes_closed, List.append_assoc]
    have hne : source ≠ [] := by
      rw [hsplit]
      simp [WrittenTag.bytes]
    refine ⟨o, _, next, root, t.bytes, [o.rowAt t ""], hc, hbefore, hafter, rfl, hholds.parent?.symm,
      hsplit, ?_, ?_, ?_⟩
    · rw [remove, hholds.spanOf hne]
      rfl
    · rw [hholds.descendants]
      rfl
    · rw [rows_ofElement hc, o.rows_plug]
      simp only [Content.rows, Content.chars, Content.size, Around.rowAt, Around.rowsFrom,
        List.cons_append, List.nil_append, List.length_singleton]
      rw [show o.count + 1 + next.size = o.count + (next.size + 1) by omega]
  · obtain ⟨hbefore, -, hafter⟩ := Around.apart_element.mp hc.apart
    have hholds : (ofElement source path root).Holds o.parent o.count _ := holds_plug hc rfl
    have hsplit : source = written o.before ++
        ((t.bytes ++ (inner.bytes ++ e.bytes)) ++ (next.bytes ++ written o.after)) := by
      rw [hsource, o.bytes_element, Around.between]
      simp
    have hne : source ≠ [] := by
      rw [hsplit]
      simp [WrittenTag.bytes]
    refine ⟨o, _, next, root, _, o.rowAt t inner.chars ::
      inner.rows (o.scope.declare t.tagAttrs) (some o.count) (o.count + 1), hc, hbefore, hafter,
      rfl, hholds.parent?.symm, hsplit, ?_, ?_, ?_⟩
    · rw [remove, hholds.spanOf hne]
      simp [bind, Except.bind, pure, Except.pure, span, Nat.add_assoc]
    · rw [hholds.descendants, sizeAll_elements, List.length_cons, Content.length_rows]
      rfl
    · rw [rows_ofElement hc, rows_element, List.cons_append, List.length_cons, Content.length_rows,
        show o.count + (inner.size + 1) = o.count + 1 + inner.size by omega]

/-- The rows of a joined content are those of a document without a block. -/
theorem without_of_joined (hd : d.Forest) (hd' : d'.Forest) {o : Around} {next c : Content}
    {chars : String} {B : List Row} {p : Nat} (hjoined : Joined o next c chars)
    (hcount : o.count = id) (hparent : o.parent = some p) (hpos : 0 < B.length)
    (hblock : id :: d.descendants id = List.range' id B.length)
    (hrows : d.rows = o.rowsBefore next.chars ++ (B ++ o.rowsFrom next (id + B.length)))
    (hrows' : d'.rows = c.rows [] none 0) :
    d.text p = Blank.trim (o.charsBefore ++ next.chars) ∧
      Without d d' (id :: d.descendants id) (shiftDown id B.length) p
        (Blank.trim (o.charsBefore ++ chars)) := by
  obtain ⟨L, r, R, rfl, hsplit⟩ := o.rowsBefore_eq hparent
  have hlow : ∀ j < o.count, shiftDown id B.length j = j := fun j hj => if_pos (by omega)
  have hhigh : ∀ j, shiftDown id B.length (id + B.length + j) = o.count + j := fun j => by
    rw [shiftDown, if_neg (by omega)]
    omega
  have hlen : (L ++ { r with text := Blank.trim (o.charsBefore ++ next.chars) } :: R).length = id := by
    rw [← hsplit, o.length_rowsBefore, hcount]
  rw [hjoined.rows, ← o.rowsBefore_renumber chars hlow, rowsFrom_renumber hlow hhigh, hsplit,
    ← List.map_append] at hrows'
  rw [hsplit] at hrows
  constructor
  · rw [text_eq, hrows, List.append_assoc, List.getElem?_append_right (Nat.le_refl _), Nat.sub_self]
    rfl
  · refine without_of_rows hd hd' hrows hrows' (by rw [hlen, hblock]) (by omega) (by omega) ?_
    intro c hc p hp hmem
    rw [List.mem_cons, not_or, mem_descendants_of_parent hd hp] at hc
    exact hc.2 (List.mem_cons.mp hmem)

/-- A text without an element is read when no section end is made. -/
theorem parse_joined {o : Around} {x next : Content} {root : Element} {p : Nat}
    (hc : (o.plug x).IsDocument root) (hparent : o.parent = some p) (hbefore : Apart o.before)
    (hafter : Apart (next.pieces ++ o.after))
    (hend : ¬MakesSectionEnd (written o.before) (next.bytes ++ written o.after)) (path : String) :
    ∃ c chars d', Joined o next c chars ∧ d'.rows = c.rows [] none 0 ∧
      Document.parse (written o.before ++ (next.bytes ++ written o.after)) path = .ok d' := by
  obtain ⟨c, chars, hjoined⟩ := exists_joined hc hparent hbefore hafter hend
  obtain ⟨root', hdoc⟩ := hjoined.document
  exact ⟨c, chars, _, hjoined, rows_ofElement hdoc,
    parse_eq_ok.mpr ⟨c, root', hjoined.bytes.symm, hdoc, rfl⟩⟩

/-- A text in which a section end was made is not read. -/
theorem parse_ne_ok {ps : List Piece} {back : Bytes} (hps : Apart ps)
    (hend : MakesSectionEnd (written ps) back) (path : String) (d' : Document) :
    Document.parse (written ps ++ back) path ≠ .ok d' := by
  intro hparse
  obtain ⟨c, e, hbytes, hdoc, -⟩ := parse_eq_ok.mp hparse
  exact hps.fault hend hdoc.apart hbytes.symm

/-- **Removing an element.**  The new text is read exactly when no section end is made where the
element was.  Then it is read as the document without the element and all that is below it.  The
text of the parent stays as well, unless a carriage return and a line feed meet: they are one line
end. -/
theorem removed_of_parse (h : Document.parse source path = .ok d) (hpos : 0 < id)
    (hid : id < d.size) :
    ∃ edit, d.remove id = .ok edit ∧
      ((∃ d', Document.parse (edit.apply source) path = .ok d') ↔
        ¬MakesSectionEnd (source.take edit.start) (source.drop edit.stop)) ∧
      ∀ d', Document.parse (edit.apply source) path = .ok d' →
        ∃ p text, d.parent? id = some p ∧
          Without d d' (id :: d.descendants id) (shiftDown id ((d.descendants id).length + 1)) p
            text ∧
          (¬MakesLineEnd (source.take edit.start) (source.drop edit.stop) → text = d.text p) ∧
          (MakesLineEnd (source.take edit.start) (source.drop edit.stop) →
            ∃ a b, d.text p = Blank.trim (a ++ "\n" ++ b) ∧ text = Blank.trim (a ++ b)) := by
  have hforest := forest_of_parse h
  obtain ⟨o, x, next, root, m, B, hc, hbefore, hafter, hcount, hparent, hsource, hremove, hblock,
    hrows⟩ := exists_hole h hid
  obtain ⟨p, hp⟩ : ∃ p, d.parent? id = some p :=
    Option.ne_none_iff_exists'.mp fun hnone => absurd ((hforest.root id hid).mp hnone) (by omega)
  rw [hp] at hparent
  set front := written o.before with hfront
  set back := next.bytes ++ written o.after with hback
  have hedit : Edit.apply ⟨front.length, front.length + m.length, []⟩ source = front ++ back := by
    rw [hsource, Edit.apply_append, List.nil_append]
  have htake : source.take front.length = front := by rw [hsource, List.take_left]
  have hdrop : source.drop (front.length + m.length) = back := by
    rw [hsource, ← List.drop_drop, List.drop_left, List.drop_left]
  refine ⟨_, hremove, ?_, ?_⟩
  · dsimp only
    rw [hedit, htake, hdrop]
    constructor
    · rintro ⟨d', hd'⟩ hend
      exact parse_ne_ok hbefore hend path d' hd'
    · intro hend
      obtain ⟨-, -, d', -, -, hd'⟩ := parse_joined hc hparent hbefore hafter hend path
      exact ⟨d', hd'⟩
  · dsimp only
    rw [hedit, htake, hdrop]
    intro d' hd'
    have hend : ¬MakesSectionEnd front back := fun hend => parse_ne_ok hbefore hend path d' hd'
    obtain ⟨c, chars, d'', hjoined, hrows', hd''⟩ :=
      parse_joined hc hparent hbefore hafter hend path
    obtain rfl : d'' = d' := Except.ok.inj (hd''.symm.trans hd')
    have hlen : B.length = (d.descendants id).length + 1 := by
      simpa using (congrArg List.length hblock).symm
    obtain ⟨htext, hwithout⟩ := without_of_joined hforest (forest_of_parse hd') hjoined hcount hparent
      (by omega) hblock hrows hrows'
    rw [hlen] at hwithout
    refine ⟨p, _, hp, hwithout, fun hline => ?_, fun hline => ?_⟩
    · rw [htext, hjoined.chars, if_neg hline]
    · refine ⟨o.charsBefore, chars, ?_, rfl⟩
      rw [htext, hjoined.chars, if_pos hline, String.append_assoc]

theorem removed_of_parse_child :
    ∃ d d', Document.parse (Bytes.ofString "<a><b/></a>") "x.wxs" = .ok d ∧ 0 < 1 ∧ 1 < d.size ∧
      d.remove (1 : Nat) = .ok ⟨3, 7, []⟩ ∧
      Document.parse (Bytes.ofString "<a></a>") "x.wxs" = .ok d' ∧
      ∃ p, d.parent? (1 : Nat) = some p ∧
        Without d d' (1 :: d.descendants (1 : Nat)) (shiftDown 1 ((d.descendants (1 : Nat)).length + 1))
          p (d.text p) := by
  have ha : IsPlainName "a" := isPlainName_of_letters rfl (by decide)
  have hb : IsPlainName "b" := isPlainName_of_letters rfl (by decide)
  let outer := WrittenTag.bare ha false
  let c : Content := .element outer rfl (.closed (.bare hb true) rfl .done) outer.endTag rfl .done
  have hc : c.IsDocument _ := ⟨by simp [c, Apart, Content.pieces, Piece.isBare], rfl, rfl⟩
  obtain ⟨d, hparse, hsize, hremove⟩ : ∃ d,
      Document.parse (Bytes.ofString "<a><b/></a>") "x.wxs" = .ok d ∧ d.size = 2 ∧
      d.remove (1 : Nat) = .ok ⟨3, 7, []⟩ :=
    ⟨_, parse_eq_ok.mpr ⟨c, _, rfl, hc, rfl⟩, size_ofElement hc, rfl⟩
  obtain ⟨edit, hedit, haccept, hwithout⟩ := removed_of_parse hparse Nat.zero_lt_one (by omega)
  obtain rfl : _ = edit := Except.ok.inj (hremove.symm.trans hedit)
  obtain ⟨d', hd'⟩ := haccept.mpr (by decide)
  obtain ⟨p, text, hp, hrest, htext, -⟩ := hwithout d' hd'
  exact ⟨d, d', hparse, Nat.zero_lt_one, by omega, hremove, hd', p, hp, htext (by decide) ▸ hrest⟩

end Document

end InstallerLint
