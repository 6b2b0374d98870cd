import InstallerLint.Proofs.Document.Retag

/-!
# Setting and removing an attribute

Setting an attribute changes its value or adds it, and removing it takes it away; nothing else in
the document changes.  Both edits look for the attribute in the text of its tag, so this needs a tag
that shows the attribute (`WrittenTag.Shows`): one whose attributes are parted by blanks, none of
which has the name with a prefix or something like the attribute inside of its value.

**The way there.**  The new text is that of a document with another start tag (`exists_tag`), and
only one row changes (`reattributed_of_rows`).
-/

namespace InstallerLint

namespace Document

open Xml Markup

variable {d d' : Document}

/-- The second document is the first one with other attributes of element `id`. -/
structure Reattributed (d d' : Document) (id : Nat) (attrs : List Attribute) : Prop where
  size : d'.size = d.size
  kind : ∀ i : Nat, d'.kind i = d.kind i
  parent : ∀ i : Nat, d'.parent? i = d.parent? i
  children : ∀ i : Nat, d'.children i = d.children i
  text : ∀ i : Nat, d'.text i = d.text i
  attrs_id : d'.attrs id = attrs
  attrs : ∀ i : Nat, i ≠ id → d'.attrs i = d.attrs i

theorem reattributed_of_rows (hd : d.Forest) (hd' : d'.Forest) {P Q : List Row} {r : Row} {id : Nat}
    {attrs : List Attribute} (hrows : d.rows = P ++ r :: Q)
    (hrows' : d'.rows = P ++ { r with attrs := attrs } :: Q) (hid : P.length = id) :
    Reattributed d d' id attrs := by
  have hself : d.rows[id]? = some r := by simp [hrows, ← hid]
  have hself' : d'.rows[id]? = some { r with attrs := attrs } := by simp [hrows', ← hid]
  have hother : ∀ i, i ≠ id → d'.rows[i]? = d.rows[i]? := by
    intro i hi
    rw [hrows, hrows']
    by_cases hlt : i < P.length
    · rw [List.getElem?_append_left hlt, List.getElem?_append_left hlt]
    · obtain ⟨k, hk⟩ : ∃ k, i - P.length = k + 1 := ⟨i - P.length - 1, by omega⟩
      rw [List.getElem?_append_right (by omega), List.getElem?_append_right (by omega), hk,
        List.getElem?_cons_succ, List.getElem?_cons_succ]
  have hparent : ∀ i : Nat, d'.parent? i = d.parent? i := by
    intro i
    rw [parent?_eq, parent?_eq]
    by_cases hi : i = id
    · rw [hi, hself, hself']
      rfl
    · rw [hother i hi]
  refine ⟨?_, ?_, hparent, ?_, ?_, ?_, ?_⟩
  · rw [← length_rows, ← length_rows, hrows, hrows']
    simp
  · intro i
    rw [kind_eq, kind_eq]
    by_cases hi : i = id
    · rw [hi, hself, hself']
      rfl
    · rw [hother i hi]
  · intro i
    refine eq_of_increasing (hd'.increasing i) (hd.increasing i) fun c => ?_
    rw [hd'.child_iff, hd.child_iff, hparent]
  · intro i
    rw [text_eq, text_eq]
    by_cases hi : i = id
    · rw [hi, hself, hself']
      rfl
    · rw [hother i hi]
  · rw [attrs_eq, hself']
    rfl
  · intro i hi
    rw [attrs_eq, attrs_eq, hother i hi]

/-- The tag stands in the text at the place that the span tells. -/
structure Stands (d : Document) (s : Span) (front rest : Bytes) (t : WrittenTag) : Prop where
  source : d.source = front ++ (t.bytes ++ rest)
  start : s.start = front.length
  tagEnd : s.tagEnd = front.length + t.bytes.length
  selfClosing : s.selfClosing = t.selfClosing

section Edits

variable {id : Nat} {s : Span} {front rest : Bytes} {t : WrittenTag} {name value : String}
  {l r : List WrittenAttr} {a : WrittenAttr}

theorem Stands.startTag (h : d.Stands s front rest t) : d.startTag s = t.bytes := by
  rw [Document.startTag, h.source, h.start, h.tagEnd, Bytes.slice_append]

theorem Stands.of_bytes {t₀ : WrittenTag} (h : d.Stands s front rest t₀) (ht : t₀.bytes = t.bytes) :
    d.Stands s front rest t := by
  have htoken := token_of_bytes ht
  simp only [WrittenTag.token, Token.startTag.injEq] at htoken
  exact ⟨ht ▸ h.source, h.start, ht ▸ h.tagEnd, h.selfClosing.trans htoken.2.2⟩

/-- Setting an attribute that is there changes its value. -/
theorem Stands.setAttr_there (h : d.Stands s front rest t) (hs : d.spanOf id = .ok s)
    (hshows : t.Shows name) (hname : IsPlainName name) (hvalue : Writable value)
    (hattrs : t.attrs = l ++ a :: r) (hl : ∀ b ∈ l, b.name ≠ Bytes.ofString name)
    (ha : a.name = Bytes.ofString name) :
    ∃ edit t', d.setAttr id name value = .ok edit ∧
      edit.apply d.source = front ++ (t'.bytes ++ rest) ∧
      Retagged t t' (setAttribute name value) := by
  obtain ⟨raw, hraw, hwrites⟩ := writes_value hvalue
  obtain ⟨t', hbytes, hretag⟩ := exists_assign hshows hname hattrs hl ha hwrites
  have hfind := hshows.findAttribute_eq_some hname hattrs hl ha front.length
  have hedit : d.setAttr id name value = .ok ⟨front.length + (t.upTo l).length + a.lead.length,
      front.length + (t.upTo l).length + a.bytes.length, Bytes.ofString (quotedValue value)⟩ := by
    unfold setAttr
    rw [hs]
    simp only [bind, Except.bind, h.startTag, h.start, hfind]
    rfl
  refine ⟨_, t', hedit, ?_, hretag⟩
  have happly := Edit.apply_append (front ++ (t.upTo l ++ a.lead)) a.quoted
    (Bytes.ofString (quotedValue value)) (t.onward r ++ rest)
  rw [h.source, t.bytes_split hattrs, hbytes, ← hraw]
  simpa [WrittenTag.onward, WrittenAttr.bytes_eq, Nat.add_assoc] using happly

/-- Where a new attribute goes: among the blanks before what closes the tag. -/
theorem Stands.insertOffset_eq (h : d.Stands s front rest t) :
    ∃ left right, t.blank = left ++ right ∧
      d.insertOffset s = (front ++ (t.upTo t.attrs ++ left)).length := by
  have hbytes : t.bytes = t.upTo t.attrs ++ (t.blank ++ closing t.selfClosing) := by
    rw [t.bytes_split (List.append_nil t.attrs).symm]
    simp [WrittenTag.onward]
  have hclose : closeOffset s = front.length + (t.upTo t.attrs ++ t.blank).length := by
    rw [closeOffset, h.selfClosing, h.tagEnd, hbytes]
    cases t.selfClosing <;> simp [closing] <;> omega
  have hslice : d.source.slice s.start (closeOffset s) = t.upTo t.attrs ++ t.blank := by
    have := Bytes.slice_append front (t.upTo t.attrs ++ t.blank) (closing t.selfClosing ++ rest)
    rw [h.source, h.start, hclose, hbytes]
    simpa using this
  obtain ⟨w, b, hlast, hb⟩ := t.exists_upTo_last t.attrs
  set p : UInt8 → Bool := fun b => b == 0x20 || b == 0x09 with hp
  have hb' : ¬p b = true := by
    intro hblank
    have : Tag.isBlankByte b = true := by
      simp only [hp, Bool.or_eq_true, beq_iff_eq] at hblank
      rcases hblank with rfl | rfl <;> rfl
    rw [hb] at this
    cases this
  have htake : (t.upTo t.attrs ++ t.blank).reverse.takeWhile p = t.blank.reverse.takeWhile p := by
    rw [hlast, List.reverse_append, List.reverse_append, List.reverse_singleton,
      List.singleton_append, List.takeWhile_append]
    split_ifs with hall
    · rw [List.takeWhile_cons_of_neg hb', List.append_nil]
      exact ((List.takeWhile_prefix p).eq_of_length hall).symm
    · rfl
  refine ⟨(t.blank.reverse.dropWhile p).reverse, (t.blank.reverse.takeWhile p).reverse, ?_, ?_⟩
  · rw [← List.reverse_append, List.takeWhile_append_dropWhile, List.reverse_reverse]
  · have hlen := congrArg List.length
      (List.takeWhile_append_dropWhile (p := p) (l := t.blank.reverse))
    rw [List.length_append, List.length_reverse] at hlen
    unfold insertOffset
    rw [hslice]
    dsimp only
    rw [← hp, htake, hclose]
    simp only [List.length_append, List.length_reverse]
    omega

/-- Setting an attribute that is not there adds it. -/
theorem Stands.setAttr_absent (h : d.Stands s front rest t) (hs : d.spanOf id = .ok s)
    (hshows : t.Shows name) (hname : IsPlainName name) (hvalue : Writable value)
    (hnone : ∀ b ∈ t.attrs, b.name ≠ Bytes.ofString name) :
    ∃ edit t', d.setAttr id name value = .ok edit ∧
      edit.apply d.source = front ++ (t'.bytes ++ rest) ∧
      Retagged t t' (setAttribute name value) := by
  obtain ⟨left, right, hblank, hoffset⟩ := h.insertOffset_eq
  obtain ⟨t', hbytes, hretag⟩ := exists_added hshows hname hnone hvalue hblank
  have hfind := WrittenTag.findAttribute_eq_none hname.spells
    (hshows.pass (fun b hb => hb) hnone) front.length
  have hedit : d.setAttr id name value = .ok ⟨d.insertOffset s, d.insertOffset s,
      Bytes.ofString (" " ++ name ++ "=") ++ Bytes.ofString (quotedValue value)⟩ := by
    unfold setAttr
    rw [hs]
    simp only [bind, Except.bind, h.startTag, h.start, hfind]
    rfl
  refine ⟨_, t', hedit, ?_, hretag⟩
  have happly := Edit.apply_append (front ++ (t.upTo t.attrs ++ left)) []
    (Bytes.ofString (" " ++ name ++ "=" ++ quotedValue value))
    (right ++ closing t.selfClosing ++ rest)
  rw [h.source, hoffset, ← Bytes.ofString_append, hbytes,
    t.bytes_split (List.append_nil t.attrs).symm]
  simpa [WrittenTag.onward, hblank] using happly

/-- Removing an attribute that is there takes it away with its blanks. -/
theorem Stands.removeAttr_there (h : d.Stands s front rest t) (hs : d.spanOf id = .ok s)
    (hshows : t.Shows name) (hname : IsPlainName name) (hattrs : t.attrs = l ++ a :: r)
    (hl : ∀ b ∈ l, b.name ≠ Bytes.ofString name) (ha : a.name = Bytes.ofString name) :
    ∃ edit t', d.removeAttr id name = .ok edit ∧
      edit.apply d.source = front ++ (t'.bytes ++ rest) ∧
      Retagged t t' fun attrs => attrs.eraseP (·.name = name) := by
  obtain ⟨t', hbytes, hretag⟩ := exists_without hshows hname hattrs hl ha
  have hfind := hshows.findAttribute_eq_some hname hattrs hl ha front.length
  have hedit : d.removeAttr id name = .ok ⟨front.length + (t.upTo l).length,
      front.length + (t.upTo l).length + a.bytes.length, []⟩ := by
    unfold removeAttr
    rw [hs]
    simp only [bind, Except.bind, h.startTag, h.start, hfind]
    rfl
  refine ⟨_, t', hedit, ?_, hretag⟩
  have happly := Edit.apply_append (front ++ t.upTo l) a.bytes [] (t.onward r ++ rest)
  rw [h.source, t.bytes_split hattrs, hbytes]
  simpa [WrittenTag.onward, Nat.add_assoc] using happly

theorem Stands.removeAttr_absent (h : d.Stands s front rest t) (hs : d.spanOf id = .ok s)
    (hshows : t.Shows name) (hname : IsPlainName name)
    (hnone : ∀ b ∈ t.attrs, b.name ≠ Bytes.ofString name) :
    d.removeAttr id name = .error (.attributeMissing name) := by
  have hfind := WrittenTag.findAttribute_eq_none hname.spells
    (hshows.pass (fun b hb => hb) hnone) front.length
  unfold removeAttr
  rw [hs]
  simp only [bind, Except.bind, h.startTag, h.start, hfind]
  rfl

end Edits

section Tags

variable {source : Bytes} {path : String} {id : Nat} {s : Span} {o : Around} {x x' : Content}
  {root : Element}

theorem attrs_ofElement {P Q : List Row} {r : Row} (hc : (o.plug x).IsDocument root)
    (hrows : (o.plug x).rows [] none 0 = P ++ r :: Q) (hP : P.length = o.count) :
    (ofElement source path root).attrs o.count = r.attrs := by
  rw [attrs_eq, rows_ofElement hc, hrows, ← hP]
  simp

/-- What fills a hole can be exchanged when this changes the attributes of one row. -/
theorem reattributed_of_plug {P Q : List Row} {r : Row} {attrs : List Attribute}
    (hc : (o.plug x).IsDocument root) (hsource : source = (o.plug x).bytes) (hP : P.length = o.count)
    (hrows : (o.plug x).rows [] none 0 = P ++ r :: Q)
    (hrows' : (o.plug x').rows [] none 0 = P ++ { r with attrs := attrs } :: Q)
    (hchars : x'.chars = x.chars) (htops : x'.tops = x.tops) (hapart : Apart (o.plug x').pieces) :
    ∃ d', Document.parse (o.plug x').bytes path = .ok d' ∧
      Reattributed (ofElement source path root) d' o.count attrs := by
  obtain ⟨root', hc'⟩ := hc.change hchars htops hapart
  have hparse : Document.parse source path = .ok _ := parse_eq_ok.mpr ⟨_, root, hsource, hc, rfl⟩
  have hparse' : Document.parse (o.plug x').bytes path = .ok _ :=
    parse_eq_ok.mpr ⟨_, root', rfl, hc', rfl⟩
  exact ⟨_, hparse', reattributed_of_rows (forest_of_parse hparse) (forest_of_parse hparse')
    ((rows_ofElement hc).trans hrows) ((rows_ofElement hc').trans hrows') hP⟩

/-- **Another start tag.**  Every element has a start tag, and with another one in its place the
text is read as the document with the attributes of that tag. -/
theorem exists_tag (h : Document.parse source path = .ok d) (hid : id < d.size)
    (hs : d.spanOf id = .ok s) :
    ∃ (front rest : Bytes) (t₀ : WrittenTag) (scope : Scope),
      source = front ++ (t₀.bytes ++ rest) ∧ d.source = source ∧ s.start = front.length ∧
      s.tagEnd = front.length + t₀.bytes.length ∧ s.selfClosing = t₀.selfClosing ∧
      d.attrs id = scope.kept t₀.tagAttrs ∧
      ∀ t' f, Retagged t₀ t' f →
        ∃ d', Document.parse (front ++ (t'.bytes ++ rest)) path = .ok d' ∧
          Reattributed d d' id (f (d.attrs id)) := by
  obtain ⟨o, x, root, hsource, hc, rfl, rfl, hx⟩ := exists_around h hid
  rcases hx with ⟨t, ht, next, rfl⟩ | ⟨t, ht, inner, e, he, next, rfl⟩
  · have hbytes : ∀ t' ht', (o.plug (.closed t' ht' next)).bytes =
        written o.before ++ (t'.bytes ++ (next.bytes ++ written o.after)) := by
      intro t' ht'
      rw [o.bytes_plug, Content.bytes_closed, List.append_assoc]
    have hsplit := hsource.trans (hbytes t ht)
    have hne : source ≠ [] := by simp [hsplit, WrittenTag.bytes]
    have hholds : (ofElement source path root).Holds o.parent o.count _ := holds_plug hc rfl
    obtain rfl := Except.ok.inj (hs.symm.trans (hholds.spanOf hne))
    have hrows := o.rows_plug (.closed t ht next)
    have hattrs : (ofElement source path root).attrs o.count = o.scope.kept t.tagAttrs :=
      attrs_ofElement hc hrows (o.length_rowsBefore _)
    refine ⟨_, _, t, o.scope, hsplit, rfl, rfl, rfl, ht.symm, hattrs, fun t' f hretag => ?_⟩
    have ht' : t'.selfClosing = true := hretag.selfClosing.trans ht
    rw [← hbytes t' ht', hattrs]
    refine reattributed_of_plug hc hsource (o.length_rowsBefore _) hrows ?_ rfl rfl
      (Around.apart_closed.mpr (Around.apart_closed.mp hc.apart))
    rw [o.rows_plug, Content.rows, hretag.kept, hretag.qname]
    rfl
  · have hbytes : ∀ t' ht' he', (o.plug (.element t' ht' inner e he' next)).bytes =
        written o.before ++
          (t'.bytes ++ (inner.bytes ++ (e.bytes ++ (next.bytes ++ written o.after)))) :=
      fun t' ht' he' => o.bytes_element t' ht' inner e he' next
    have hsplit := hsource.trans (hbytes t ht he)
    have hne : source ≠ [] := by simp [hsplit, WrittenTag.bytes]
    have hholds : (ofElement source path root).Holds o.parent o.count _ := holds_plug hc rfl
    obtain rfl := Except.ok.inj (hs.symm.trans (hholds.spanOf hne))
    have hrows : (o.plug (.element t ht inner e he next)).rows [] none 0 = _ := rows_element
    have hattrs : (ofElement source path root).attrs o.count = o.scope.kept t.tagAttrs :=
      attrs_ofElement hc hrows (o.length_rowsBefore _)
    refine ⟨_, _, t, o.scope, hsplit, rfl, rfl, rfl, ht.symm, hattrs, fun t' f hretag => ?_⟩
    have ht' : t'.selfClosing = false := hretag.selfClosing.trans ht
    have he' : e.qname = t'.qname := he.trans hretag.qname.symm
    rw [← hbytes t' ht' he', hattrs]
    refine reattributed_of_plug hc hsource (o.length_rowsBefore _) hrows ?_ rfl rfl
      (Around.apart_element.mpr (Around.apart_element.mp hc.apart))
    rw [rows_element, inner.rows_agrees _ _ (hretag.agrees o.scope), Around.rowAt, hretag.kept,
      hretag.qname]
    rfl

variable {t : WrittenTag} {name value : String}

/-- An attribute is there when the tag has it. -/
theorem isSome_attr? {scope : Scope} (hattrs : d.attrs id = scope.kept t.tagAttrs)
    (hshows : t.Shows name) (hname : IsPlainName name) :
    (d.attr? id name).isSome = true ↔ ∃ a ∈ t.attrs, a.name = Bytes.ofString name := by
  rw [attr?, isSome_findAttr, hattrs, Scope.kept_eq, WrittenTag.tagAttrs, List.map_map]
  constructor
  · rintro ⟨x, hx, hxname⟩
    obtain ⟨a, ha, rfl⟩ := List.mem_map.mp hx
    exact ⟨a, ha, (hshows.attrName_iff hname ha).mp hxname⟩
  · rintro ⟨a, ha, haname⟩
    exact ⟨_, List.mem_map_of_mem ha, (hshows.attrName_iff hname ha).mpr haname⟩

/-- A tag that is written at an element is the start tag of the element. -/
theorem exists_shown (h : Document.parse source path = .ok d) (hid : id < d.size)
    (hs : d.spanOf id = .ok s) (ht : d.startTag s = t.bytes) :
    ∃ (front rest : Bytes) (scope : Scope), d.source = source ∧ d.Stands s front rest t ∧
      d.attrs id = scope.kept t.tagAttrs ∧
      ∀ t' f, Retagged t t' f →
        ∃ d', Document.parse (front ++ (t'.bytes ++ rest)) path = .ok d' ∧
          Reattributed d d' id (f (d.attrs id)) := by
  obtain ⟨front, rest, t₀, scope, hsource, hd, hstart, hend, hself, hattrs, hchange⟩ :=
    exists_tag h hid hs
  have hstands : d.Stands s front rest t₀ := ⟨hd.trans hsource, hstart, hend, hself⟩
  have hbytes : t₀.bytes = t.bytes := hstands.startTag.symm.trans ht
  have htoken := token_of_bytes hbytes
  simp only [WrittenTag.token, Token.startTag.injEq] at htoken
  exact ⟨front, rest, scope, hd, hstands.of_bytes hbytes, htoken.2.1 ▸ hattrs,
    fun t' f hretag => hchange t' f (hretag.of_bytes hbytes)⟩

/-- **Setting an attribute.** -/
theorem set_of_parse (h : Document.parse source path = .ok d) (hid : id < d.size)
    (hs : d.spanOf id = .ok s) (ht : d.startTag s = t.bytes) (hshows : t.Shows name)
    (hname : IsPlainName name) (hvalue : Writable value) :
    ∃ edit d', d.setAttr id name value = .ok edit ∧
      Document.parse (edit.apply source) path = .ok d' ∧
      Reattributed d d' id (setAttribute name value (d.attrs id)) := by
  obtain ⟨front, rest, scope, rfl, hstands, -, hchange⟩ := exists_shown h hid hs ht
  have hedit : ∃ edit t', d.setAttr id name value = .ok edit ∧
      edit.apply d.source = front ++ (t'.bytes ++ rest) ∧
      Retagged t t' (setAttribute name value) := by
    rcases exists_first t.attrs (Bytes.ofString name) with hnone | ⟨l, a, r, hattrs, ha, hl⟩
    · exact hstands.setAttr_absent hs hshows hname hvalue hnone
    · exact hstands.setAttr_there hs hshows hname hvalue hattrs hl ha
  obtain ⟨edit, t', hedit, happly, hretag⟩ := hedit
  obtain ⟨d', hparse, hchanged⟩ := hchange t' _ hretag
  rw [← happly] at hparse
  exact ⟨edit, d', hedit, hparse, hchanged⟩

/-- **Removing an attribute.** -/
theorem remove_of_parse (h : Document.parse source path = .ok d) (hid : id < d.size)
    (hs : d.spanOf id = .ok s) (ht : d.startTag s = t.bytes) (hshows : t.Shows name)
    (hname : IsPlainName name) :
    (d.attr? id name = none ∧ d.removeAttr id name = .error (.attributeMissing name)) ∨
      (d.attr? id name).isSome = true ∧ ∃ edit d', d.removeAttr id name = .ok edit ∧
        Document.parse (edit.apply source) path = .ok d' ∧
        Reattributed d d' id ((d.attrs id).eraseP (·.name = name)) := by
  obtain ⟨front, rest, scope, rfl, hstands, hattrs, hchange⟩ := exists_shown h hid hs ht
  have hthere := isSome_attr? hattrs hshows hname
  rcases exists_first t.attrs (Bytes.ofString name) with hnone | ⟨l, a, r, hsplit, ha, hl⟩
  · refine .inl ⟨?_, hstands.removeAttr_absent hs hshows hname hnone⟩
    rw [← Option.not_isSome_iff_eq_none, hthere]
    rintro ⟨b, hb, hbname⟩
    exact hnone b hb hbname
  · obtain ⟨edit, t', hedit, happly, hretag⟩ :=
      hstands.removeAttr_there hs hshows hname hsplit hl ha
    obtain ⟨d', hparse, hchanged⟩ := hchange t' _ hretag
    rw [← happly] at hparse
    exact .inr ⟨hthere.mpr ⟨a, hsplit ▸ by simp, ha⟩, edit, d', hedit, hparse, hchanged⟩

/-- **Setting and removing an attribute.**  Where the start tag of an element shows an attribute,
setting it gives a text that is read again, as the document in which the element has the attribute
with this value; it can be removed exactly when it is there, and then the text is read as the
document without it. -/
theorem change_attribute (h : Document.parse source path = .ok d) (hid : id < d.size)
    (hs : d.spanOf id = .ok s) (ht : d.startTag s = t.bytes) (hshows : t.Shows name)
    (hname : IsPlainName name) :
    (∀ value, Writable value →
      ∃ edit d', d.setAttr id name value = .ok edit ∧
        Document.parse (edit.apply source) path = .ok d' ∧
        Reattributed d d' id (setAttribute name value (d.attrs id)) ∧
        d'.attr? id name = some value) ∧
    ((∃ edit, d.removeAttr id name = .ok edit) ↔ (d.attr? id name).isSome = true) ∧
    ∀ edit, d.removeAttr id name = .ok edit →
      ∃ d', Document.parse (edit.apply source) path = .ok d' ∧
        Reattributed d d' id ((d.attrs id).eraseP (·.name = name)) ∧
        (((d.attrs id).filter (·.name = name)).length ≤ 1 → d'.attr? id name = none) := by
  have hremove := remove_of_parse h hid hs ht hshows hname
  refine ⟨fun value hvalue => ?_, ?_, fun edit hedit => ?_⟩
  · obtain ⟨edit, d', hedit, hparse, hchanged⟩ := set_of_parse h hid hs ht hshows hname hvalue
    refine ⟨edit, d', hedit, hparse, hchanged, ?_⟩
    rw [attr?, hchanged.attrs_id, findAttr_setAttribute]
  · rcases hremove with ⟨hnone, herror⟩ | ⟨hsome, edit, d', hedit, -⟩
    · simp [hnone, herror]
    · simp [hsome, hedit]
  · rcases hremove with ⟨-, herror⟩ | ⟨-, edit', d', hedit', hparse, hchanged⟩
    · rw [herror] at hedit
      cases hedit
    · obtain rfl := Except.ok.inj (hedit'.symm.trans hedit)
      refine ⟨d', hparse, hchanged, fun honce => ?_⟩
      rw [attr?, hchanged.attrs_id, findAttr_eraseP honce]

theorem change_attribute_quoted :
    ∃ d edit d' edit' d'', Document.parse (Bytes.ofString "<a b=\"1\"/>") "x.wxs" = .ok d ∧
      d.setAttr (0 : Nat) "b" "1<2" = .ok edit ∧
      Document.parse (edit.apply (Bytes.ofString "<a b=\"1\"/>")) "x.wxs" = .ok d' ∧
      Reattributed d d' 0 [⟨"b", "1<2"⟩] ∧ d'.attr? (0 : Nat) "b" = some "1<2" ∧
      d.removeAttr (0 : Nat) "b" = .ok edit' ∧
      Document.parse (edit'.apply (Bytes.ofString "<a b=\"1\"/>")) "x.wxs" = .ok d'' ∧
      Reattributed d d'' 0 [] ∧ d''.attr? (0 : Nat) "b" = none := by
  have ha : IsPlainName "a" := isPlainName_of_letters rfl (by decide)
  have hb : IsPlainName "b" := isPlainName_of_letters rfl (by decide)
  have hone : Writable "1" := List.all_eq_true.mp (by decide)
  have hvalue : Writable "1<2" := List.all_eq_true.mp (by decide)
  obtain ⟨raw, hraw, hwrites⟩ := writes_value hone
  obtain rfl : raw = [0x31] := by
    have hbytes : Bytes.ofString (quotedValue "1") = 0x22 :: [0x31] ++ [0x22] := by decide
    rw [hbytes] at hraw
    exact (List.append_cancel_right (List.cons.inj hraw).2).symm
  let w : WrittenAttr := ⟨[0x20], Bytes.ofString "b", [], [], 0x22, [0x31], ⟨⟨"", "b"⟩, "1"⟩,
    List.forall_mem_singleton.mpr rfl, hb.spells, by simp, by simp, .inl rfl, hwrites⟩
  let t : WrittenTag :=
    ⟨Bytes.ofString "a", [w], [], true, ⟨"", "a"⟩, ha.spells, by simp [w], by simp⟩
  have hshows : t.Shows "b" := by
    refine ⟨?_, ?_, ?_⟩
    · exact List.forall_mem_singleton.mpr (by simp [w])
    · exact List.forall_mem_singleton.mpr fun _ => rfl
    · exact List.forall_mem_singleton.mpr fun h =>
        absurd h.mem (show (0x3D : UInt8) ∉ [0x31] by decide)
  let root : Content := .closed t rfl .done
  have hparse : Document.parse (Bytes.ofString "<a b=\"1\"/>") "x.wxs" = .ok _ :=
    parse_eq_ok.mpr ⟨root, _, rfl, ⟨.singleton _, rfl, rfl⟩, rfl⟩
  obtain ⟨hset, hiff, hremove⟩ := change_attribute hparse Nat.zero_lt_one rfl
    (t := t) rfl hshows hb
  obtain ⟨edit, d', hedit, hparse', hchanged, hattr⟩ := hset "1<2" hvalue
  obtain ⟨edit', hedit'⟩ := hiff.mpr rfl
  obtain ⟨d'', hparse'', hchanged', hnone⟩ := hremove edit' hedit'
  exact ⟨_, edit, d', edit', d'', hparse, hedit, hparse', hchanged, hattr, hedit', hparse'',
    hchanged', hnone (Nat.le_refl 1)⟩

end Tags

end Document

end InstallerLint
