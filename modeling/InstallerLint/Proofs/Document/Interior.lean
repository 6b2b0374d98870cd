import InstallerLint.Proofs.Document.Around

/-!
# Edits inside of an element

Two edits change what stands between the tags of an element: one puts an element there, the other
puts a text in place of everything.  An element that closes itself gets an end tag first; this
changes nothing but the text (`rows_opened`).

**Where an edit lands.**  For every number of a document, `exists_interior` finds the tags of the
element and what is between them, and says which text both edits give.
-/

namespace InstallerLint

theorem Edit.apply_append (front old text rest : Bytes) :
    Edit.apply ⟨front.length, front.length + old.length, text⟩ (front ++ (old ++ rest)) =
      front ++ (text ++ rest) := by
  simp [Edit.apply]

namespace Xml

/-- A piece that is no bare text parts what is around it. -/
theorem apart_append_cons {l r : List Piece} {p : Piece} (hp : p.isBare = false) :
    Apart (l ++ p :: r) ↔ Apart l ∧ Apart r := by
  unfold Apart
  rw [List.isChain_append, List.isChain_cons]
  simp [hp]

namespace WrittenTag

/-- The same tag without what makes it close itself. -/
def opened (t : WrittenTag) : WrittenTag := { t with selfClosing := false }

theorem bytes_opened (t : WrittenTag) : t.opened.bytes = 0x3C :: (t.name ++ t.inside) ++ [0x3E] :=
  t.opened.bytes_eq

/-- The name of a tag is found again in its text. -/
theorem writtenName_core (t : WrittenTag) : Tag.writtenName t.core = t.name := by
  obtain ⟨b, u, hbu, hb⟩ := t.exists_inside_cons
  have hstop : (!(b == 0x20 || b == 0x09 || b == 0x0D || b == 0x0A || b == 0x2F || b == 0x3E)) =
      false := by
    rcases hb with hb | rfl | rfl
    · simp only [isSpaceByte, Bool.or_eq_true, beq_iff_eq] at hb
      rcases hb with ((rfl | rfl) | rfl) | rfl <;> rfl
    · rfl
    · rfl
  have hname : ∀ c ∈ t.name,
      (!(c == 0x20 || c == 0x09 || c == 0x0D || c == 0x0A || c == 0x2F || c == 0x3E)) = true := by
    intro c hc
    have hbyte := t.spells.bytes c hc
    simp only [Bool.not_eq_true', Bool.or_eq_false_iff, beq_eq_false_iff_ne]
    refine ⟨⟨⟨⟨⟨?_, ?_⟩, ?_⟩, ?_⟩, ?_⟩, ?_⟩ <;> (rintro rfl; exact absurd hbyte (by decide))
  rw [Tag.writtenName, core, hbu, List.takeWhile_append_of_pos hname,
    List.takeWhile_cons_of_neg (by simp [hstop]), List.append_nil]

end WrittenTag

/-- A text with other bytes between two tags. -/
def Around.between (o : Around) (t : WrittenTag) (e : WrittenEnd) (next : Content) (m : Bytes) :
    Bytes :=
  written o.before ++ (t.bytes ++ (m ++ (e.bytes ++ (next.bytes ++ written o.after))))

theorem Around.bytes_element (o : Around) (t : WrittenTag) (ht : t.selfClosing = false)
    (inner : Content) (e : WrittenEnd) (he : e.qname = t.qname) (next : Content) :
    (o.plug (.element t ht inner e he next)).bytes = o.between t e next inner.bytes := by
  rw [o.bytes_plug, Content.bytes_element]
  simp [between]

theorem Around.apart_element {o : Around} {t : WrittenTag} {ht : t.selfClosing = false}
    {inner : Content} {e : WrittenEnd} {he : e.qname = t.qname} {next : Content} :
    Apart (o.plug (.element t ht inner e he next)).pieces ↔
      Apart o.before ∧ Apart inner.pieces ∧ Apart (next.pieces ++ o.after) := by
  rw [o.pieces_plug, Content.pieces, List.cons_append, List.append_assoc, List.cons_append,
    apart_append_cons rfl, apart_append_cons rfl]

theorem Around.apart_closed {o : Around} {t : WrittenTag} {ht : t.selfClosing = true}
    {next : Content} :
    Apart (o.plug (.closed t ht next)).pieces ↔ Apart o.before ∧ Apart (next.pieces ++ o.after) := by
  rw [o.pieces_plug, Content.pieces, List.cons_append, apart_append_cons rfl]

/-- An end tag of its own changes no row. -/
theorem rows_opened (o : Around) (t : WrittenTag) (ht : t.selfClosing = true) (next : Content) :
    (o.plug (.element t.opened rfl .done t.endTag rfl next)).rows [] none 0 =
      (o.plug (.closed t ht next)).rows [] none 0 := by
  rw [o.rows_plug, o.rows_plug]
  simp [Content.rows, Content.chars, Content.size, WrittenTag.opened, WrittenTag.tagAttrs]

end Xml

namespace Document

open Xml Element

variable {d : Document} {source : Bytes} {path : String}

/-- An element that closes itself is given a content. -/
theorem apply_opened (path : String) {o : Around} {t : WrittenTag} {ht : t.selfClosing = true}
    {next : Content} {root : Element} (hc : (o.plug (.closed t ht next)).IsDocument root)
    (hsource : source = (o.plug (.closed t ht next)).bytes) :
    ∃ s, (ofElement source path root).spanOf o.count = .ok s ∧ s.selfClosing = true ∧
      ∀ content, ((ofElement source path root).opened s content).apply source =
        o.between t.opened t.endTag next content := by
  have hsplit : source = written o.before ++ (t.bytes ++ (next.bytes ++ written o.after)) := by
    rw [hsource, o.bytes_plug, Content.bytes_closed, List.append_assoc]
  have hne : source ≠ [] := by
    rw [hsplit]
    simp [WrittenTag.bytes]
  have hholds : (ofElement source path root).Holds o.parent o.count _ := holds_plug hc rfl
  refine ⟨_, hholds.spanOf hne, rfl, fun content => ?_⟩
  set front := written o.before ++ 0x3C :: (t.name ++ t.inside) with hfront
  have hbytes : t.bytes = 0x3C :: (t.name ++ t.inside) ++ [0x2F, 0x3E] := by
    rw [t.bytes_eq, ht]
    rfl
  have hend : (written o.before).length + t.bytes.length = front.length + 2 := by
    rw [hbytes, hfront]
    simp
    omega
  have hname : Tag.writtenName
      (source.slice ((written o.before).length + 1) (front.length + 2)) = t.name := by
    have hslice := Bytes.slice_append (written o.before ++ [0x3C]) t.core
      (next.bytes ++ written o.after)
    have hcore : (written o.before ++ [0x3C]).length + t.core.length = front.length + 2 := by
      rw [← hend, WrittenTag.bytes]
      simp
      omega
    rw [hcore, List.length_append, List.length_singleton] at hslice
    rw [← t.writtenName_core, ← hslice, hsplit, WrittenTag.bytes]
    simp
  have happly := Edit.apply_append front [0x2F, 0x3E]
    (Bytes.ofString ">" ++ content ++ Bytes.ofString "</" ++ t.name ++ Bytes.ofString ">")
    (next.bytes ++ written o.after)
  have hwords : Bytes.ofString ">" = [0x3E] ∧ Bytes.ofString "</" = [0x3C, 0x2F] := by decide
  simp only [Document.opened, closeOffset, Document.writtenName, ofElement, span, if_true, hend,
    hname, Nat.add_sub_cancel]
  have hsplit' : source = front ++ ([0x2F, 0x3E] ++ (next.bytes ++ written o.after)) := by
    rw [hsplit, hbytes, hfront]
    simp
  rw [hsplit']
  refine happly.trans ?_
  rw [hwords.1, hwords.2, Around.between, t.bytes_opened, hfront]
  simp [WrittenEnd.bytes, WrittenEnd.core, WrittenTag.endTag]

theorem insertChild_of_selfClosing {id : Int} {s : Span} (hspan : d.spanOf id = .ok s)
    (hself : s.selfClosing = true) (markup : String) (first : Bool) :
    d.insertChild id markup first = .ok (d.opened s (Bytes.ofString markup)) := by
  unfold insertChild
  rw [hspan]
  simp only [bind, Except.bind, hself, if_true]
  rfl

theorem replaceText_of_selfClosing {id : Int} {s : Span} (hspan : d.spanOf id = .ok s)
    (hself : s.selfClosing = true) (text : String) :
    d.replaceText id text = .ok (d.opened s (Bytes.ofString (Markup.escapedText text))) := by
  unfold replaceText
  rw [hspan]
  simp only [bind, Except.bind, hself, if_true]
  rfl

section Between

variable {o : Around} {t : WrittenTag} {ht : t.selfClosing = false} {inner : Content}
  {e : WrittenEnd} {he : e.qname = t.qname} {next : Content} {root : Element}
  (hc : (o.plug (.element t ht inner e he next)).IsDocument root)
  (hsource : source = (o.plug (.element t ht inner e he next)).bytes)

include hc hsource

/-- The span of an element with an end tag: what stands between its tags is its content. -/
theorem spanOf_plug (path : String) :
    let tagEnd := (written o.before).length + t.bytes.length
    let innerEnd := tagEnd + inner.bytes.length
    (ofElement source path root).spanOf o.count =
      .ok ⟨(written o.before).length, tagEnd, innerEnd, innerEnd + e.bytes.length, false⟩ := by
  have hne : source ≠ [] := by
    rw [hsource, o.bytes_element]
    simp [Around.between, WrittenTag.bytes]
  have hholds : (ofElement source path root).Holds o.parent o.count _ := holds_plug hc rfl
  exact hholds.spanOf hne

/-- A child is inserted behind the start tag or in front of the end tag. -/
theorem insertChild_plug (path markup : String) (first : Bool) :
    ∃ edit, (ofElement source path root).insertChild o.count markup first = .ok edit ∧
      edit.apply source = o.between t e next (if first then Bytes.ofString markup ++ inner.bytes
        else inner.bytes ++ Bytes.ofString markup) := by
  have hspan := spanOf_plug hc hsource path
  rw [o.bytes_element] at hsource
  unfold insertChild
  rw [hspan]
  cases first with
  | true =>
      refine ⟨_, rfl, ?_⟩
      have happly := Edit.apply_append (written o.before ++ t.bytes) [] (Bytes.ofString markup)
        (inner.bytes ++ (e.bytes ++ (next.bytes ++ written o.after)))
      rw [hsource]
      simpa [Around.between] using happly
  | false =>
      refine ⟨_, rfl, ?_⟩
      have happly := Edit.apply_append (written o.before ++ (t.bytes ++ inner.bytes)) []
        (Bytes.ofString markup) (e.bytes ++ (next.bytes ++ written o.after))
      rw [hsource]
      simpa [Around.between, Nat.add_assoc] using happly

/-- A text is put between the tags. -/
theorem replaceText_plug (path text : String) :
    ∃ edit, (ofElement source path root).replaceText o.count text = .ok edit ∧
      edit.apply source = o.between t e next (Bytes.ofString (Markup.escapedText text)) := by
  have hspan := spanOf_plug hc hsource path
  rw [o.bytes_element] at hsource
  unfold replaceText
  rw [hspan]
  refine ⟨_, rfl, ?_⟩
  have happly := Edit.apply_append (written o.before ++ t.bytes) inner.bytes
    (Bytes.ofString (Markup.escapedText text)) (e.bytes ++ (next.bytes ++ written o.after))
  rw [hsource]
  simpa [Around.between, Nat.add_assoc] using happly

end Between

/-- **Where edits inside of an element land.** -/
theorem exists_interior (h : Document.parse source path = .ok d) {id : Nat} (hid : id < d.size) :
    ∃ (o : Around) (t : WrittenTag) (ht : t.selfClosing = false) (inner : Content) (e : WrittenEnd)
      (he : e.qname = t.qname) (next : Content) (root : Element),
      (o.plug (.element t ht inner e he next)).IsDocument root ∧ o.count = id ∧
      d.rows = (o.plug (.element t ht inner e he next)).rows [] none 0 ∧
      d.descendants id = List.range' (id + 1) inner.size ∧
      (∀ markup first, ∃ edit, d.insertChild id markup first = .ok edit ∧
        edit.apply source = o.between t e next (if first then Bytes.ofString markup ++ inner.bytes
          else inner.bytes ++ Bytes.ofString markup)) ∧
      ∀ text, ∃ edit, d.replaceText id text = .ok edit ∧
        edit.apply source = o.between t e next (Bytes.ofString (Markup.escapedText text)) := by
  obtain ⟨o, x, root, hsource, hc, rfl, rfl, hx⟩ := exists_around h hid
  rcases hx with ⟨t, ht, next, rfl⟩ | ⟨t, ht, inner, e, he, next, rfl⟩
  · obtain ⟨hbefore, hafter⟩ := Around.apart_closed.mp hc.apart
    obtain ⟨root', hc'⟩ : ∃ root',
        (o.plug (.element t.opened rfl .done t.endTag rfl next)).IsDocument root' :=
      hc.change rfl rfl (Around.apart_element.mpr ⟨hbefore, .nil, hafter⟩)
    obtain ⟨s, hspan, hself, happly⟩ := apply_opened path hc hsource
    have hholds : (ofElement source path root).Holds o.parent o.count _ := holds_plug hc rfl
    refine ⟨o, t.opened, rfl, .done, t.endTag, rfl, next, root', hc', rfl, ?_, hholds.descendants,
      fun markup first => ⟨_, insertChild_of_selfClosing hspan hself markup first, ?_⟩,
      fun text => ⟨_, replaceText_of_selfClosing hspan hself text, happly _⟩⟩
    · rw [rows_ofElement hc, rows_opened]
    · rw [happly, Content.bytes_done, List.append_nil, List.nil_append, ite_self]
  · have hholds : (ofElement source path root).Holds o.parent o.count _ := holds_plug hc rfl
    refine ⟨o, t, ht, inner, e, he, next, root, hc, rfl, rows_ofElement hc, ?_,
      insertChild_plug hc hsource path, replaceText_plug hc hsource path⟩
    rw [hholds.descendants, sizeAll_elements]

end Document

end InstallerLint
