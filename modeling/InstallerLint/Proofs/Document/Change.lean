import InstallerLint.Proofs.Document.Interior

/-!
# Inserting elements and replacing text

Putting an element in front of the children of another, or behind them, gives the old document with
one more element; replacing what is inside of an element by a text gives the old document without
what was below.  The numbers of the other elements are shifted, and nothing else changes.

**The way there.**  The new text is that of a content (`exists_elementTag`, `writes_content`), so it
is read, and its rows are the old ones under new numbers (`rows_element`).  From the rows come the
look-ups (`Inserted`, `Replaced`).
-/

namespace InstallerLint

namespace Xml

namespace Content

/-- Two contents one behind the other. -/
def append : Content → Content → Content
  | done, c => c
  | leaf p h next, c => leaf p h (next.append c)
  | closed t h next, c => closed t h (next.append c)
  | element t h inner e he next, c => element t h inner e he (next.append c)

theorem pieces_append (c c' : Content) : (c.append c').pieces = c.pieces ++ c'.pieces := by
  induction c with
  | done => rfl
  | leaf p h next ih => simp [append, pieces, ih]
  | closed t h next ih => simp [append, pieces, ih]
  | element t h inner e he next ihinner ihnext => simp [append, pieces, ihnext]

theorem chars_append (c c' : Content) : (c.append c').chars = c.chars ++ c'.chars := by
  induction c with
  | done => simp [append, chars]
  | leaf p h next ih => simp [append, chars, ih, String.append_assoc]
  | closed t h next ih => simp [append, chars, ih]
  | element t h inner e he next ihinner ihnext => simp [append, chars, ihnext]

/-- The rows of two contents, the second numbered on. -/
theorem rows_append (c c' : Content) (scope : Scope) (parent : Option Nat) :
    ∀ n, (c.append c').rows scope parent n =
      c.rows scope parent n ++ c'.rows scope parent (n + c.size) := by
  induction c with
  | done => intro n; rfl
  | leaf p h next ih => intro n; exact ih n
  | closed t h next ih =>
      intro n
      rw [append, rows, rows, ih, size, List.cons_append, Nat.add_assoc n 1, Nat.add_comm 1]
  | element t h inner e he next ihinner ihnext =>
      intro n
      rw [append, rows, rows, ihnext, size, List.cons_append, List.append_assoc,
        show n + 1 + inner.size + next.size = n + (inner.size + next.size + 1) by omega]

theorem size_append (c c' : Content) : (c.append c').size = c.size + c'.size := by
  rw [← length_rows _ [] none 0, rows_append, List.length_append, length_rows, length_rows]

end Content

theorem attrName_plain (scope : Scope) (name : String) : scope.attrName ⟨"", name⟩ = name := by
  simp [Scope.attrName, Scope.resolve, declaring]
  intro h
  exact (of_decide_eq_true h).symm

/-- Attributes whose names have one part are kept as they are. -/
theorem kept_plain (scope : Scope) (attrs : List Attribute) :
    scope.kept (attrs.map fun a => ⟨⟨"", a.name⟩, a.value⟩) = attrs := by
  unfold Scope.kept
  rw [List.map_map]
  conv_rhs => rw [← List.map_id attrs]
  refine List.map_congr_left fun a _ => ?_
  simp [attrName_plain]

end Xml

namespace Markup

open Xml

/-- A value that is read back from its written form. -/
def Writable (v : String) : Prop := ∀ c ∈ v.toList, isWritable c = true

/-- An attribute with a name of one part and a value that is read back. -/
structure PlainAttr (a : Attribute) : Prop where
  name : IsPlainName a.name
  value : Writable a.value

theorem exists_writtenAttr {a : Attribute} (h : PlainAttr a) :
    ∃ w : WrittenAttr, Bytes.ofString (" " ++ a.name ++ "=" ++ quotedValue a.value) = w.bytes ∧
      w.attr = ⟨⟨"", a.name⟩, a.value⟩ ∧ w.blank ≠ [] := by
  obtain ⟨raw, hraw, hwrites⟩ := writes_value h.value
  refine ⟨⟨[0x20], Bytes.ofString a.name, [], [], 0x22, raw, ⟨⟨"", a.name⟩, a.value⟩,
    List.forall_mem_singleton.mpr rfl, h.name.spells, by simp, by simp, .inl rfl, hwrites⟩, ?_, rfl,
    by simp⟩
  have hwords : Bytes.ofString " " = [0x20] ∧ Bytes.ofString "=" = [0x3D] := by decide
  rw [Bytes.ofString_append, Bytes.ofString_append, Bytes.ofString_append, hraw, hwords.1, hwords.2]
  simp [WrittenAttr.bytes, WrittenAttr.core, WrittenAttr.assigned]

/-- Plain attributes that are written out are attributes of a tag. -/
theorem exists_writtenAttrs {attrs : List Attribute} (h : ∀ a ∈ attrs, PlainAttr a) :
    ∃ ws : List WrittenAttr,
      Bytes.ofString (String.join (attrs.map fun a =>
        " " ++ a.name ++ "=" ++ quotedValue a.value)) = ws.flatMap WrittenAttr.bytes ∧
      ws.map WrittenAttr.attr = attrs.map (fun a => ⟨⟨"", a.name⟩, a.value⟩) ∧
      ∀ w ∈ ws, w.blank ≠ [] := by
  induction attrs with
  | nil => exact ⟨[], rfl, rfl, by simp⟩
  | cons a attrs ih =>
      obtain ⟨w, hbytes, hattr, hblank⟩ := exists_writtenAttr (h a List.mem_cons_self)
      obtain ⟨ws, hall, hattrs, hblanks⟩ := ih fun b hb => h b (List.mem_cons_of_mem a hb)
      refine ⟨w :: ws, ?_, ?_, ?_⟩
      · rw [List.map_cons, String.join_cons, Bytes.ofString_append, hbytes, hall]
        rfl
      · rw [List.map_cons, List.map_cons, hattr, hattrs]
      · intro v hv
        rcases List.mem_cons.mp hv with rfl | hv
        · exact hblank
        · exact hblanks v hv

/-- The markup of an element is a tag. -/
theorem exists_elementTag {kind : String} {attrs : List Attribute} (hkind : IsPlainName kind)
    (hattrs : ∀ a ∈ attrs, PlainAttr a) :
    ∃ t : WrittenTag, Bytes.ofString (element kind attrs) = t.bytes ∧ t.selfClosing = true ∧
      t.qname = ⟨"", kind⟩ ∧ t.tagAttrs = attrs.map fun a => ⟨⟨"", a.name⟩, a.value⟩ := by
  obtain ⟨ws, hbytes, hws, hblanks⟩ := exists_writtenAttrs hattrs
  refine ⟨⟨Bytes.ofString kind, ws, [0x20], true, ⟨"", kind⟩, hkind.spells, ?_,
    List.forall_mem_singleton.mpr rfl⟩, ?_, rfl, rfl, hws⟩
  · intro a ha
    exact hblanks a (List.mem_of_mem_head? ha)
  · have hwords : Bytes.ofString "<" = [0x3C] ∧ Bytes.ofString " />" = [0x20, 0x2F, 0x3E] := by
      decide
    rw [element, Bytes.ofString_append, Bytes.ofString_append, Bytes.ofString_append, hbytes,
      hwords.1, hwords.2]
    simp [WrittenTag.bytes, WrittenTag.core, WrittenTag.inside, closing]

end Markup

namespace Document

/-- The document of an element that has an identifier and nothing in it. -/
def lone (kind id path : String) : Document :=
  let source := Bytes.ofString (Markup.element kind [⟨"Id", id⟩])
  .ofElement source path (.mk ⟨kind, [⟨"Id", id⟩],
    ⟨0, source.length, source.length, source.length, true⟩, ""⟩ [])

/-- The markup of a single element is a document. -/
theorem parse_lone {kind id : String} (hkind : Xml.IsPlainName kind) (hid : Markup.Writable id)
    (path : String) :
    Document.parse (Bytes.ofString (Markup.element kind [⟨"Id", id⟩])) path =
      .ok (lone kind id path) := by
  have hattr : ∀ x ∈ [(⟨"Id", id⟩ : Attribute)], Markup.PlainAttr x :=
    List.forall_mem_singleton.mpr ⟨(Xml.isPlainName_of_letters rfl (by decide) :
      Xml.IsPlainName "Id"), hid⟩
  obtain ⟨t, hbytes, hself, hname, hattrs⟩ := Markup.exists_elementTag hkind hattr
  have hparse : Document.parse (Bytes.ofString (Markup.element kind [⟨"Id", id⟩])) path = .ok _ :=
    Document.parse_eq_ok.mpr
      ⟨.closed t hself .done, _, hbytes.trans (by simp), ⟨.singleton _, rfl, rfl⟩, rfl⟩
  have htrim : Blank.trim "" = "" := by decide
  rw [hparse, hname, hattrs, Nat.zero_add, ← congrArg List.length hbytes, Xml.kept_plain, htrim]
  rfl

end Document

namespace Xml

section Interior

variable {o : Around} {t : WrittenTag} {ht : t.selfClosing = false} {inner : Content}
  {e : WrittenEnd} {he : e.qname = t.qname} {next : Content} {ρ : Nat → Nat} {n n' : Nat}

/-- The rows behind an element at a place. -/
def Around.rowsFrom (o : Around) (next : Content) (n : Nat) : List Row :=
  next.rows o.scope o.parent n ++ o.rowsAfter (n + next.size)

/-- The row of an element at a place, when it has this character data inside. -/
def Around.rowAt (o : Around) (t : WrittenTag) (chars : String) : Row :=
  ⟨t.qname.part, o.scope.kept t.tagAttrs, Blank.trim chars, o.parent⟩

/-- Rows behind a change are the old ones under new numbers. -/
theorem rowsFrom_renumber (h : ∀ j < o.count, ρ j = j) (hn : ∀ j, ρ (n + j) = n' + j) :
    o.rowsFrom next n' = (o.rowsFrom next n).map (Row.renumber ρ) := by
  have hrows := next.rows_renumber ρ o.scope o.parent n n' fun j _ => hn j
  have hafter := o.rowsAfter_renumber (n + next.size) (n' + next.size) h fun j => by
    rw [Nat.add_assoc, hn, Nat.add_assoc]
  rw [o.map_parent h] at hrows
  rw [Around.rowsFrom, Around.rowsFrom, List.map_append, hrows, hafter]

theorem rowAt_renumber (h : ∀ j < o.count, ρ j = j) (chars : String) :
    (o.rowAt t chars).renumber ρ = o.rowAt t chars := by
  simp [Around.rowAt, Row.renumber, o.map_parent h]

/-- The rows around an element: before it, its own, inside, and behind it. -/
theorem rows_element :
    (o.plug (.element t ht inner e he next)).rows [] none 0 =
      o.rowsBefore next.chars ++ (o.rowAt t inner.chars ::
        (inner.rows (o.scope.declare t.tagAttrs) (some o.count) (o.count + 1) ++
          o.rowsFrom next (o.count + 1 + inner.size))) := by
  rw [o.rows_plug]
  simp only [Content.rows, Content.chars, Content.size, Around.rowAt, Around.rowsFrom,
    List.cons_append, List.append_assoc]
  rw [show o.count + 1 + inner.size + next.size = o.count + (inner.size + next.size + 1) by omega]

end Interior

end Xml

namespace Document

open Xml Markup

variable {d d' : Document}

section Renumber

/-- What a row says about an element, from one document to another. -/
structure Kept (d d' : Document) (ρ : Nat → Nat) (i : Nat) : Prop where
  kind : d'.kind (ρ i) = d.kind i
  attrs : d'.attrs (ρ i) = d.attrs i
  parent : d'.parent? (ρ i) = (d.parent? i).map ρ

theorem kept_of_row {ρ : Nat → Nat} {i : Nat} {f : String → String}
    (h : d'.rows[ρ i]? = d.rows[i]?.map fun r => { r.renumber ρ with text := f r.text }) :
    Kept d d' ρ i := by
  constructor
  · rw [kind_eq, kind_eq, h]
    cases d.rows[i]? <;> rfl
  · rw [attrs_eq, attrs_eq, h]
    cases d.rows[i]? <;> rfl
  · rw [parent?_eq, parent?_eq, h]
    cases d.rows[i]? <;> rfl

/-- Lists in increasing order are equal when they have the same members. -/
theorem eq_of_increasing {l l' : List Nat} (h : l.Pairwise (· < ·)) (h' : l'.Pairwise (· < ·))
    (hmem : ∀ x, x ∈ l ↔ x ∈ l') : l = l' := by
  have hperm : l.Perm l' :=
    (List.perm_ext_iff_of_nodup (h.imp Nat.ne_of_lt) (h'.imp Nat.ne_of_lt)).mpr hmem
  exact hperm.eq_of_pairwise (fun a b _ _ hab hba => absurd hab (Nat.lt_asymm hba)) h h'

theorem increasing_map {ρ : Nat → Nat} {l : List Nat} (h : l.Pairwise (· < ·))
    (hρ : ∀ a ∈ l, ∀ b ∈ l, a < b → ρ a < ρ b) : (l.map ρ).Pairwise (· < ·) :=
  List.pairwise_map.mpr (h.imp_of_mem fun ha hb hab => hρ _ ha _ hb hab)

/-- When elements go with all that is below them, the children that stay stay children. -/
theorem children_of_kept (hd : d.Forest) (hd' : d'.Forest) {ρ : Nat → Nat} {gone : List Nat}
    (hkept : ∀ i ∉ gone, Kept d d' ρ i) (hexists : ∀ c, ∃ i ∉ gone, c = ρ i)
    (hlt : ∀ i ∉ gone, ∀ j ∉ gone, (ρ i < ρ j ↔ i < j))
    (hparent : ∀ c ∉ gone, ∀ p, d.parent? c = some p → p ∉ gone) {i : Nat} (hi : i ∉ gone) :
    d'.children (ρ i) = ((d.children i).filter (· ∉ gone)).map ρ := by
  have hinj : ∀ i ∉ gone, ∀ j ∉ gone, ρ i = ρ j → i = j := by
    intro i hi j hj heq
    have h1 := hlt i hi j hj
    have h2 := hlt j hj i hi
    omega
  refine eq_of_increasing (hd'.increasing _) (increasing_map ((hd.increasing i).filter _) ?_)
    fun c => ?_
  · intro a ha b hb hab
    exact (hlt a (by simpa using (List.mem_filter.mp ha).2) b
      (by simpa using (List.mem_filter.mp hb).2)).mpr hab
  · obtain ⟨j, hj, rfl⟩ := hexists c
    rw [hd'.child_iff, (hkept j hj).parent]
    constructor
    · intro h
      obtain ⟨p, hp, heq⟩ := Option.map_eq_some_iff.mp h
      obtain rfl := hinj p (hparent j hj p hp) i hi heq
      exact List.mem_map_of_mem (List.mem_filter.mpr ⟨hd.child_iff.mpr hp, by simpa using hj⟩)
    · intro h
      obtain ⟨c, hc, heq⟩ := List.mem_map.mp h
      obtain ⟨hchild, hstays⟩ := List.mem_filter.mp hc
      obtain rfl := hinj c (by simpa using hstays) j hj heq
      rw [hd.child_iff.mp hchild]
      rfl

end Renumber

/-- Numbers when a new element gets number `k`. -/
def shiftUp (k i : Nat) : Nat := if i < k then i else i + 1

/-- Numbers when the `n` elements behind element `id` are gone. -/
def shiftDown (id n i : Nat) : Nat := if i ≤ id then i else i - n

/-- The second document is the first one with a new childless element, which has number `k` and is
the first or the last child of element `id`. -/
structure Inserted (d d' : Document) (id k : Nat) (kind : String) (attrs : List Attribute)
    (first : Bool) : Prop where
  size : d'.size = d.size + 1
  new_kind : d'.kind k = kind
  new_attrs : d'.attrs k = attrs
  new_text : d'.text k = ""
  new_parent : d'.parent? k = some id
  new_children : d'.children k = []
  kept : ∀ i < d.size, Kept d d' (shiftUp k) i ∧ d'.text (shiftUp k i) = d.text i
  children_id : d'.children id =
    if first then k :: (d.children id).map (shiftUp k) else (d.children id).map (shiftUp k) ++ [k]
  children : ∀ i < d.size, i ≠ id → d'.children (shiftUp k i) = (d.children i).map (shiftUp k)

/-- The second document is the first one without what is below element `id`, which has another
text. -/
structure Replaced (d d' : Document) (id : Nat) (text : String) : Prop where
  size : d'.size + (d.descendants id).length = d.size
  new_text : d'.text id = text
  kept : ∀ i < d.size, i ∉ d.descendants id →
    Kept d d' (shiftDown id (d.descendants id).length) i ∧
      (i ≠ id → d'.text (shiftDown id (d.descendants id).length i) = d.text i)
  children_id : d'.children id = []
  children : ∀ i < d.size, i ∉ d.descendants id → i ≠ id →
    d'.children (shiftDown id (d.descendants id).length i) =
      (d.children i).map (shiftDown id (d.descendants id).length)

theorem shiftUp_lt_iff {k i j : Nat} : shiftUp k i < shiftUp k j ↔ i < j := by
  unfold shiftUp
  split_ifs <;> omega

theorem shiftUp_inj {k i j : Nat} : shiftUp k i = shiftUp k j ↔ i = j := by
  unfold shiftUp
  split_ifs <;> omega

/-- Every number is the new one or an old one moved up. -/
theorem eq_shiftUp (k c : Nat) : c = k ∨ ∃ i, c = shiftUp k i := by
  by_cases hlt : c < k
  · exact .inr ⟨c, by simp [shiftUp, hlt]⟩
  · by_cases heq : c = k
    · exact .inl heq
    · refine .inr ⟨c - 1, ?_⟩
      unfold shiftUp
      split_ifs <;> omega

theorem shiftUp_ne (k i : Nat) : shiftUp k i ≠ k := by
  unfold shiftUp
  split_ifs <;> omega

/-- The rows of the second document are those of the first one under new numbers, and one that is
new. -/
structure NewRow (d d' : Document) (id k : Nat) (kind : String) (attrs : List Attribute) : Prop where
  size : d'.size = d.size + 1
  new : d'.rows[k]? = some ⟨kind, attrs, "", some id⟩
  same : ∀ i, d'.rows[shiftUp k i]? = d.rows[i]?.map (Row.renumber (shiftUp k))

section NewRow

variable {id k i c : Nat} {kind : String} {attrs : List Attribute}

/-- A row put between two stretches of rows is a new row. -/
theorem newRow_of_append {P Q : List Row} (hrows : d.rows = P ++ Q)
    (hrows' : d'.rows = P.map (Row.renumber (shiftUp P.length)) ++
      ⟨kind, attrs, "", some id⟩ :: Q.map (Row.renumber (shiftUp P.length))) :
    NewRow d d' id P.length kind attrs := by
  refine ⟨?_, ?_, fun i => ?_⟩
  · have hlen := congrArg List.length hrows
    have hlen' := congrArg List.length hrows'
    rw [length_rows] at hlen hlen'
    simp only [List.length_append, List.length_cons, List.length_map] at hlen hlen'
    omega
  · rw [hrows', List.getElem?_append_right (by simp), List.length_map, Nat.sub_self]
    rfl
  · rw [hrows, hrows']
    unfold shiftUp
    split_ifs with hi
    · rw [List.getElem?_append_left (by simpa using hi), List.getElem?_append_left hi,
        List.getElem?_map]
    · rw [List.getElem?_append_right (by simp; omega), List.getElem?_append_right (by omega),
        List.length_map, show i + 1 - P.length = (i - P.length) + 1 by omega,
        List.getElem?_cons_succ, List.getElem?_map]

theorem NewRow.kept (h : NewRow d d' id k kind attrs) (i : Nat) : Kept d d' (shiftUp k) i :=
  kept_of_row (f := fun s => s) (h.same i)

theorem NewRow.parent_new (h : NewRow d d' id k kind attrs) : d'.parent? k = some id := by
  rw [parent?_eq, h.new]
  rfl

/-- The children that an element had are its children under their new numbers. -/
theorem NewRow.mem_children (h : NewRow d d' id k kind attrs) (hd : d.Forest) (hd' : d'.Forest) :
    shiftUp k c ∈ d'.children (shiftUp k i) ↔ c ∈ d.children i := by
  rw [hd'.child_iff, hd.child_iff, (h.kept c).parent]
  cases hp : d.parent? c with
  | none => simp
  | some p => simp [shiftUp_inj]

theorem NewRow.new_mem_children (h : NewRow d d' id k kind attrs) (hd' : d'.Forest) :
    k ∈ d'.children i ↔ i = id := by
  rw [hd'.child_iff, h.parent_new]
  simp [eq_comm]

/-- The new element has no children. -/
theorem NewRow.children_new (h : NewRow d d' id k kind attrs) (hd' : d'.Forest) (hid : id < k) :
    d'.children k = [] := by
  rw [List.eq_nil_iff_forall_not_mem]
  intro c hc
  rcases eq_shiftUp k c with rfl | ⟨j, rfl⟩
  · have := (h.new_mem_children hd').mp hc
    omega
  · rw [hd'.child_iff, (h.kept j).parent] at hc
    obtain ⟨p, -, hp⟩ := Option.map_eq_some_iff.mp hc
    exact shiftUp_ne k p hp

theorem increasing_shiftUp (hd : d.Forest) (k i : Nat) :
    ((d.children i).map (shiftUp k)).Pairwise (· < ·) :=
  increasing_map (hd.increasing i) fun _ _ _ _ hab => shiftUp_lt_iff.mpr hab

/-- Elements other than the one with the new child keep their children. -/
theorem NewRow.children_other (h : NewRow d d' id k kind attrs) (hd : d.Forest) (hd' : d'.Forest)
    (hid : id < k) (hne : i ≠ id) : d'.children (shiftUp k i) = (d.children i).map (shiftUp k) := by
  refine eq_of_increasing (hd'.increasing _) (increasing_shiftUp hd k i) fun c => ?_
  rcases eq_shiftUp k c with rfl | ⟨j, rfl⟩
  · rw [h.new_mem_children hd']
    constructor
    · intro heq
      exact absurd (shiftUp_inj.mp (heq.trans (if_pos hid).symm)) hne
    · intro hc
      obtain ⟨j, -, hj⟩ := List.mem_map.mp hc
      exact absurd hj (shiftUp_ne _ j)
  · rw [h.mem_children hd hd']
    simp [shiftUp_inj]

theorem NewRow.mem_children_id (h : NewRow d d' id k kind attrs) (hd : d.Forest) (hd' : d'.Forest)
    (hid : id < k) : c ∈ d'.children id ↔ c = k ∨ c ∈ (d.children id).map (shiftUp k) := by
  rcases eq_shiftUp k c with rfl | ⟨j, rfl⟩
  · simp [h.new_mem_children hd']
  · have hmem := h.mem_children hd hd' (i := id) (c := j)
    rw [show shiftUp k id = id from if_pos hid] at hmem
    rw [hmem]
    simp [shiftUp_ne, shiftUp_inj]

/-- A new element right behind its parent is the first child. -/
theorem NewRow.children_first (h : NewRow d d' id k kind attrs) (hd : d.Forest) (hd' : d'.Forest)
    (hk : k = id + 1) : d'.children id = k :: (d.children id).map (shiftUp k) := by
  refine eq_of_increasing (hd'.increasing id) ?_ fun c => ?_
  · refine List.pairwise_cons.mpr ⟨fun c hc => ?_, increasing_shiftUp hd k id⟩
    obtain ⟨j, hj, rfl⟩ := List.mem_map.mp hc
    have hlt := hd.parent_lt (hd.child_iff.mp hj)
    unfold shiftUp
    split_ifs <;> omega
  · rw [h.mem_children_id hd hd' (by omega), List.mem_cons]

/-- A new element behind all children of its parent is the last one. -/
theorem NewRow.children_last (h : NewRow d d' id k kind attrs) (hd : d.Forest) (hd' : d'.Forest)
    (hid : id < k) (hlast : ∀ c ∈ d.children id, c < k) :
    d'.children id = (d.children id).map (shiftUp k) ++ [k] := by
  refine eq_of_increasing (hd'.increasing id) ?_ fun c => ?_
  · refine List.pairwise_append.mpr ⟨increasing_shiftUp hd k id, List.pairwise_singleton _ _, ?_⟩
    intro c hc c' hc'
    obtain rfl := List.mem_singleton.mp hc'
    obtain ⟨j, hj, rfl⟩ := List.mem_map.mp hc
    simp [shiftUp, hlast j hj]
  · rw [h.mem_children_id hd hd' hid, List.mem_append, List.mem_singleton, or_comm]

/-- An inserted row is an inserted element. -/
theorem NewRow.inserted (h : NewRow d d' id k kind attrs) (hd : d.Forest) (hd' : d'.Forest)
    {first : Bool} (hid : id < k) (hfirst : first = true → k = id + 1)
    (hlast : first = false → ∀ c ∈ d.children id, c < k) :
    Inserted d d' id k kind attrs first where
  size := h.size
  new_kind := by
    rw [kind_eq, h.new]
    rfl
  new_attrs := by
    rw [attrs_eq, h.new]
    rfl
  new_text := by
    rw [text_eq, h.new]
    rfl
  new_parent := h.parent_new
  new_children := h.children_new hd' hid
  kept := by
    intro i _
    refine ⟨h.kept i, ?_⟩
    rw [text_eq, text_eq, h.same]
    cases d.rows[i]? <;> rfl
  children_id := by
    cases first with
    | true => exact h.children_first hd hd' (hfirst rfl)
    | false => exact h.children_last hd hd' hid (hlast rfl)
  children := fun _ _ hne => h.children_other hd hd' hid hne

end NewRow

theorem shiftDown_lt_iff {id k n i j : Nat} (hk : k ≤ id + 1) (hid : id < k + n)
    (hi : i < k ∨ k + n ≤ i) (hj : j < k ∨ k + n ≤ j) :
    shiftDown id n i < shiftDown id n j ↔ i < j := by
  unfold shiftDown
  split_ifs <;> omega

theorem exists_shiftDown {id k n : Nat} (hk : k ≤ id + 1) (hid : id < k + n) (c : Nat) :
    ∃ i, (i < k ∨ k + n ≤ i) ∧ c = shiftDown id n i := by
  by_cases hc : c < k
  · exact ⟨c, .inl hc, (if_pos (by omega)).symm⟩
  · exact ⟨c + n, .inr (by omega), by rw [shiftDown, if_neg (by omega), Nat.add_sub_cancel]⟩

/-- Rows without a block, at the numbers that are left. -/
theorem getElem?_shiftDown {P B Q : List Row} {id i : Nat} (hk : P.length ≤ id + 1)
    (hid : id < P.length + B.length) (hi : i < P.length ∨ P.length + B.length ≤ i) :
    (P ++ Q)[shiftDown id B.length i]? = (P ++ (B ++ Q))[i]? := by
  unfold shiftDown
  rcases hi with hi | hi
  · rw [if_pos (by omega), List.getElem?_append_left hi, List.getElem?_append_left hi]
  · rw [if_neg (by omega), List.getElem?_append_right (by omega),
      List.getElem?_append_right (by omega), List.getElem?_append_right (by omega)]
    congr 1
    omega

/-- The second document is the first one without some elements.  The others have the numbers that
`ρ` gives them, and one of them, `p`, has the given text. -/
structure Without (d d' : Document) (gone : List Nat) (ρ : Nat → Nat) (p : Nat) (text : String) :
    Prop where
  size : d'.size + gone.length = d.size
  kept : ∀ i < d.size, i ∉ gone → Kept d d' ρ i
  text : ∀ i < d.size, i ∉ gone → d'.text (ρ i) = if i = p then text else d.text i
  children : ∀ i < d.size, i ∉ gone →
    d'.children (ρ i) = ((d.children i).filter (· ∉ gone)).map ρ

/-- Rows without a block are those of the elements that stay. -/
theorem without_of_rows (hd : d.Forest) (hd' : d'.Forest) {L R B Q : List Row} {r : Row}
    {gone : List Nat} {id : Nat} {text : String} (hrows : d.rows = (L ++ r :: R) ++ (B ++ Q))
    (hrows' : d'.rows = ((L ++ { r with text := text } :: R) ++ Q).map
      (Row.renumber (shiftDown id B.length)))
    (hgone : gone = List.range' (L ++ r :: R).length B.length)
    (hk : (L ++ r :: R).length ≤ id + 1) (hid : id < (L ++ r :: R).length + B.length)
    (hparent : ∀ c ∉ gone, ∀ p, d.parent? c = some p → p ∉ gone) :
    Without d d' gone (shiftDown id B.length) L.length text := by
  set k := (L ++ r :: R).length with hklen
  have hout : ∀ i, i ∉ gone ↔ i < k ∨ k + B.length ≤ i := by
    intro i
    rw [hgone, List.mem_range'_1]
    omega
  have hset : (L ++ { r with text := text } :: R) ++ (B ++ Q) =
      d.rows.set L.length { r with text := text } := by
    rw [hrows]
    simp
  have hlen : (L ++ { r with text := text } :: R).length = k := by simp [hklen]
  have hsame : ∀ i ∉ gone, d'.rows[shiftDown id B.length i]? = d.rows[i]?.map fun s =>
      { s.renumber (shiftDown id B.length) with text := if i = L.length then text else s.text } := by
    intro i hi
    rw [hrows', List.getElem?_map,
      getElem?_shiftDown (by omega) (by omega) (by rw [hlen]; exact (hout i).mp hi), hset,
      List.getElem?_set]
    by_cases heq : L.length = i
    · subst heq
      have hr : d.rows[L.length]? = some r := by
        rw [hrows, List.append_assoc, List.getElem?_append_right (Nat.le_refl _), Nat.sub_self]
        rfl
      rw [if_pos rfl, if_pos (by rw [hrows]; simp), hr]
      simp [Row.renumber]
    · rw [if_neg heq]
      cases d.rows[i]? with
      | none => rfl
      | some s => simp [Ne.symm heq, Row.renumber]
  have hkept : ∀ i ∉ gone, Kept d d' (shiftDown id B.length) i := fun i hi =>
    kept_of_row (f := fun s => if i = L.length then text else s) (hsame i hi)
  refine ⟨?_, fun i _ => hkept i, fun i hi hin => ?_, fun i _ => children_of_kept hd hd' hkept ?_ ?_
    hparent⟩
  · have hlength := congrArg List.length hrows
    have hlength' := congrArg List.length hrows'
    rw [length_rows] at hlength hlength'
    rw [hgone, List.length_range']
    simp at hlength hlength'
    omega
  · rw [text_eq, text_eq, hsame i hin]
    rw [← length_rows] at hi
    rw [List.getElem?_eq_getElem hi]
    rfl
  · intro c
    obtain ⟨i, hi, hc⟩ := exists_shiftDown hk hid c
    exact ⟨i, (hout i).mpr hi, hc⟩
  · intro i hi j hj
    exact shiftDown_lt_iff hk hid ((hout i).mp hi) ((hout j).mp hj)

theorem mem_descendants_of_parent (hd : d.Forest) {id c p : Nat} (hp : d.parent? c = some p) :
    c ∈ d.descendants id ↔ p = id ∨ p ∈ d.descendants id := by
  rw [hd.mem_descendants, hd.mem_descendants]
  change id ∈ d.ancestorsOf c ↔ p = id ∨ id ∈ d.ancestorsOf p
  rw [hd.ancestorsOf_of_parent hp, List.mem_cons, eq_comm]

/-- Rows without those below an element. -/
theorem replaced_of_rows (hd : d.Forest) (hd' : d'.Forest) {P I Q : List Row} {r : Row} {id : Nat}
    {text : String} (hrows : d.rows = P ++ r :: (I ++ Q))
    (hrows' : d'.rows = P.map (Row.renumber (shiftDown id I.length)) ++
      { r.renumber (shiftDown id I.length) with text := text }
        :: Q.map (Row.renumber (shiftDown id I.length)))
    (hid : P.length = id) (hblock : d.descendants id = List.range' (id + 1) I.length) :
    Replaced d d' id text := by
  have hlen : (d.descendants id).length = I.length := by rw [hblock, List.length_range']
  have hk : (P ++ [r]).length = id + 1 := by simp [hid]
  have hin : id ∉ d.descendants id := by
    rw [hblock, List.mem_range'_1]
    omega
  have hsize : id < d.size := by
    rw [← length_rows, hrows]
    simp [← hid]
  have hself : shiftDown id I.length id = id := if_pos (Nat.le_refl id)
  have h : Without d d' (d.descendants id) (shiftDown id I.length) P.length text :=
    without_of_rows hd hd' (R := []) (B := I) (Q := Q) (r := r) (by simp [hrows])
      (by simp [hrows', Row.renumber]) (by rw [hk, hblock]) (by omega) (by omega)
      fun c hc p hp hmem => hc ((mem_descendants_of_parent hd hp).mpr (.inr hmem))
  rw [hid] at h
  refine ⟨h.size, ?_, fun i hi hout => ⟨?_, fun hne => ?_⟩, ?_, fun i hi hout hne => ?_⟩
  · have := h.text id hsize hin
    rwa [hself, if_pos rfl] at this
  · rw [hlen]
    exact h.kept i hi hout
  · rw [hlen, h.text i hi hout, if_neg hne]
  · have hnone : (d.children id).filter (· ∉ d.descendants id) = [] :=
      List.filter_eq_nil_iff.mpr fun c hc => by
        simpa using (mem_descendants_of_parent hd (hd.child_iff.mp hc)).mpr (.inl rfl)
    have := h.children id hsize hin
    rwa [hself, hnone] at this
  · have hall : (d.children i).filter (· ∉ d.descendants id) = d.children i :=
      List.filter_eq_self.mpr fun c hc => by
        simpa [mem_descendants_of_parent hd (hd.child_iff.mp hc)] using ⟨hne, hout⟩
    rw [hlen, h.children i hi hout, hall]

section Edits

variable {source : Bytes} {path : String} {id : Nat}

/-- A content inside of an element can be exchanged; what is behind it gets other numbers. -/
theorem parse_between {o : Around} {t : WrittenTag} {ht : t.selfClosing = false}
    {inner : Content} {e : WrittenEnd} {he : e.qname = t.qname} {next : Content} {root : Element}
    (hc : (o.plug (.element t ht inner e he next)).IsDocument root) (path : String)
    {inner' : Content} (hapart : Apart inner'.pieces) :
    ∃ d', Document.parse (o.between t e next inner'.bytes) path = .ok d' ∧
      ∀ ρ : Nat → Nat, (∀ j ≤ o.count, ρ j = j) →
        (∀ j, ρ (o.count + 1 + inner.size + j) = o.count + 1 + inner'.size + j) →
        d'.rows = (o.rowsBefore next.chars).map (Row.renumber ρ) ++
          ((o.rowAt t inner'.chars).renumber ρ ::
            (inner'.rows (o.scope.declare t.tagAttrs) (some o.count) (o.count + 1) ++
              (o.rowsFrom next (o.count + 1 + inner.size)).map (Row.renumber ρ))) := by
  obtain ⟨hbefore, -, hafter⟩ := Around.apart_element.mp hc.apart
  have hdoc : ∃ root', (o.plug (.element t ht inner' e he next)).IsDocument root' :=
    hc.change rfl rfl (Around.apart_element.mpr ⟨hbefore, hapart, hafter⟩)
  obtain ⟨root', hc'⟩ := hdoc
  refine ⟨_, parse_eq_ok.mpr ⟨_, root', (o.bytes_element t ht inner' e he next).symm, hc', rfl⟩, ?_⟩
  intro ρ hlow hhigh
  have hlow' : ∀ j < o.count, ρ j = j := fun j hj => hlow j (Nat.le_of_lt hj)
  rw [rows_ofElement hc', rows_element, rowsFrom_renumber hlow' hhigh, rowAt_renumber hlow',
    o.rowsBefore_renumber _ hlow']

theorem shiftUp_of_lt {k i : Nat} (h : i < k) : shiftUp k i = i := if_pos h

theorem shiftUp_of_le {k i : Nat} (h : k ≤ i) : shiftUp k i = i + 1 := if_neg (by omega)

section Insertion

variable {o : Around} {t : WrittenTag} {ht : t.selfClosing = false} {inner : Content}
  {e : WrittenEnd} {he : e.qname = t.qname} {next : Content} {root : Element} {new : WrittenTag}
  {kind : String} {attrs : List Attribute}
  (hc : (o.plug (.element t ht inner e he next)).IsDocument root)
  (hrows : d.rows = o.rowsBefore next.chars ++ (o.rowAt t inner.chars ::
    (inner.rows (o.scope.declare t.tagAttrs) (some o.count) (o.count + 1) ++
      o.rowsFrom next (o.count + 1 + inner.size))))
  (hself : new.selfClosing = true)
  (hnew : ∀ (scope : Scope) (parent : Option Nat),
    (⟨new.qname.part, scope.kept new.tagAttrs, Blank.trim "", parent⟩ : Row) =
      ⟨kind, attrs, "", parent⟩)

include hc hrows hnew

/-- A tag in front of what is inside of an element is a row right behind that of the element. -/
theorem newRow_first (path : String) :
    ∃ d', Document.parse (o.between t e next (Content.closed new hself inner).bytes) path = .ok d' ∧
      NewRow d d' o.count (o.count + 1) kind attrs := by
  obtain ⟨-, hinner, -⟩ := Around.apart_element.mp hc.apart
  have hapart : Apart (Content.closed new hself inner).pieces := hinner.cons fun hbare => by
    cases hbare
  obtain ⟨d', hparse, hrows'⟩ := parse_between hc path hapart
  refine ⟨d', hparse, ?_⟩
  set P := o.rowsBefore next.chars ++ [o.rowAt t inner.chars] with hP
  have hlen : P.length = o.count + 1 := by simp [hP, o.length_rowsBefore next.chars]
  have hshift := hrows' (shiftUp P.length) (fun j hj => shiftUp_of_lt (by omega)) fun j => by
    rw [shiftUp_of_le (by omega), Content.size]
    omega
  have hinside := inner.rows_renumber (shiftUp P.length) (o.scope.declare t.tagAttrs)
    (some o.count) (o.count + 1) (o.count + 1 + 1) fun j _ => by
      rw [shiftUp_of_le (by omega)]
      omega
  rw [Option.map_some, shiftUp_of_lt (by omega)] at hinside
  rw [← hlen]
  refine newRow_of_append (P := P) (by rw [hrows, hP, List.append_assoc]; rfl) ?_
  rw [hshift, Content.rows, hnew, hinside, hP]
  simp [Content.chars]

/-- A tag behind what is inside of an element is a row behind those inside. -/
theorem newRow_last (path : String) :
    ∃ d', Document.parse
        (o.between t e next (inner.append (.closed new hself .done)).bytes) path = .ok d' ∧
      NewRow d d' o.count (o.count + 1 + inner.size) kind attrs := by
  obtain ⟨-, hinner, -⟩ := Around.apart_element.mp hc.apart
  have hapart : Apart (inner.append (.closed new hself .done)).pieces := by
    rw [Content.pieces_append]
    exact (apart_append_cons rfl).mpr ⟨hinner, .nil⟩
  obtain ⟨d', hparse, hrows'⟩ := parse_between hc path hapart
  refine ⟨d', hparse, ?_⟩
  set I := inner.rows (o.scope.declare t.tagAttrs) (some o.count) (o.count + 1) with hI
  set P := o.rowsBefore next.chars ++ (o.rowAt t inner.chars :: I) with hP
  have hlen : P.length = o.count + 1 + inner.size := by
    have hlenI : I.length = inner.size := inner.length_rows _ _ _
    simp [hP, o.length_rowsBefore next.chars, hlenI]
    omega
  have hshift := hrows' (shiftUp P.length) (fun j hj => shiftUp_of_lt (by omega)) fun j => by
    rw [shiftUp_of_le (by omega), Content.size_append, Content.size, Content.size]
    omega
  have hinside := inner.rows_renumber (shiftUp P.length) (o.scope.declare t.tagAttrs)
    (some o.count) (o.count + 1) (o.count + 1) fun j hj => shiftUp_of_lt (by omega)
  rw [Option.map_some, shiftUp_of_lt (by omega), ← hI] at hinside
  rw [← hlen]
  refine newRow_of_append (P := P) (by rw [hrows, hP, List.append_assoc]; rfl) ?_
  rw [hshift, Content.rows_append, Content.rows, hnew, Content.chars_append, ← hI, hP,
    List.map_append, List.map_cons, ← hinside]
  simp [Content.chars, Content.rows]

end Insertion

/-- **Inserting an element.** -/
theorem insert_of_parse (h : Document.parse source path = .ok d) (hid : id < d.size)
    {kind : String} {attrs : List Attribute} (hkind : IsPlainName kind)
    (hattrs : ∀ a ∈ attrs, PlainAttr a) (first : Bool) :
    ∃ edit d' k, d.insertChild id (Markup.element kind attrs) first = .ok edit ∧
      Document.parse (edit.apply source) path = .ok d' ∧ Inserted d d' id k kind attrs first := by
  have hforest := forest_of_parse h
  obtain ⟨o, t, ht, inner, e, he, next, root, hc, rfl, hrows, hblock, hinsert, -⟩ :=
    exists_interior h hid
  rw [rows_element] at hrows
  obtain ⟨new, hbytes, hself, hqname, htagAttrs⟩ := exists_elementTag hkind hattrs
  obtain ⟨edit, hedit, happly⟩ := hinsert (Markup.element kind attrs) first
  have hnew : ∀ (scope : Scope) (parent : Option Nat),
      (⟨new.qname.part, scope.kept new.tagAttrs, Blank.trim "", parent⟩ : Row) =
        ⟨kind, attrs, "", parent⟩ := by
    intro scope parent
    rw [hqname, htagAttrs, kept_plain]
    rfl
  cases first with
  | true =>
      have hedited : edit.apply source =
          o.between t e next (Content.closed new hself inner).bytes := by
        rw [happly, if_pos rfl, hbytes, Content.bytes_closed]
      obtain ⟨d', hparse, hrow⟩ := newRow_first hc hrows hself hnew path
      rw [← hedited] at hparse
      exact ⟨edit, d', _, hedit, hparse, hrow.inserted hforest (forest_of_parse hparse) (by omega)
        (fun _ => rfl) fun hfirst => absurd hfirst (by simp)⟩
  | false =>
      have hedited : edit.apply source =
          o.between t e next (inner.append (.closed new hself .done)).bytes := by
        rw [happly, if_neg (by simp), hbytes, Content.bytes, Content.bytes, Content.pieces_append,
          written_append]
        simp [Content.pieces, Piece.bytes]
      obtain ⟨d', hparse, hrow⟩ := newRow_last hc hrows hself hnew path
      rw [← hedited] at hparse
      refine ⟨edit, d', _, hedit, hparse, hrow.inserted hforest (forest_of_parse hparse) (by omega)
        (fun hfirst => absurd hfirst (by simp)) fun _ c hchild => ?_⟩
      have hbelow : c ∈ d.descendants o.count := by
        rw [hforest.mem_descendants]
        exact hforest.below_of_parent (hforest.child_iff.mp hchild) (.inl rfl)
      rw [hblock, List.mem_range'_1] at hbelow
      omega

/-- A written text is a content without elements. -/
theorem exists_textContent {text : String} (h : Writable text) :
    ∃ c : Content, c.bytes = Bytes.ofString (escapedText text) ∧ Apart c.pieces ∧ c.chars = text ∧
      c.size = 0 := by
  have hwrites := writes_content h
  by_cases hnil : Bytes.ofString (escapedText text) = []
  · refine ⟨.done, hnil.symm, .nil, ?_, rfl⟩
    rw [hnil] at hwrites
    obtain ⟨data, hdata, -, htext⟩ := readText_eq_ok.mp (hwrites.2 [] (by simp [Mode.Ends]))
    rw [readData.eq_def] at hdata
    cases hdata
    rw [htext]
    rfl
  · refine ⟨.leaf (.bare _ text hnil hwrites) rfl .done, ?_, .singleton _, ?_, rfl⟩
    · exact List.append_nil _
    · exact String.append_empty

/-- **Replacing what is inside of an element.** -/
theorem replace_of_parse (h : Document.parse source path = .ok d) (hid : id < d.size)
    {text : String} (htext : Writable text) :
    ∃ edit d', d.replaceText id text = .ok edit ∧
      Document.parse (edit.apply source) path = .ok d' ∧ Replaced d d' id (Blank.trim text) := by
  obtain ⟨o, t, ht, inner, e, he, next, root, hc, rfl, hrows, hblock, -, hreplace⟩ :=
    exists_interior h hid
  obtain ⟨edit, hedit, happly⟩ := hreplace text
  obtain ⟨c, hbytes, hapart, hchars, hsize⟩ := exists_textContent htext
  obtain ⟨d', hparse, hrows'⟩ := parse_between hc path hapart
  rw [hbytes, ← happly] at hparse
  set I := inner.rows (o.scope.declare t.tagAttrs) (some o.count) (o.count + 1) with hI
  have hlenI : I.length = inner.size := inner.length_rows _ _ _
  have hnone : c.rows (o.scope.declare t.tagAttrs) (some o.count) (o.count + 1) = [] :=
    List.length_eq_zero_iff.mp (by rw [c.length_rows, hsize])
  have hshift := hrows' (shiftDown o.count I.length) (fun j hj => if_pos hj) fun j => by
    unfold shiftDown
    split_ifs <;> omega
  rw [hnone, List.nil_append] at hshift
  rw [rows_element] at hrows
  refine ⟨edit, d', hedit, hparse, replaced_of_rows (forest_of_parse h) (forest_of_parse hparse)
    hrows ?_ (o.length_rowsBefore _) (by rw [hblock, hlenI])⟩
  rw [hshift, hchars]
  rfl

/-- **Inserting elements and replacing text.**  For every element of a document that was read, both
edits give a text that is read again, as the document with the new element or with the new text. -/
theorem change_inside (h : Document.parse source path = .ok d) (hid : id < d.size) :
    (∀ kind attrs first, IsPlainName kind → (∀ a ∈ attrs, PlainAttr a) →
      ∃ edit d' k, d.insertChild id (Markup.element kind attrs) first = .ok edit ∧
        Document.parse (edit.apply source) path = .ok d' ∧
        Inserted d d' id k kind attrs first) ∧
    ∀ text, Writable text →
      ∃ edit d', d.replaceText id text = .ok edit ∧
        Document.parse (edit.apply source) path = .ok d' ∧
        Replaced d d' id (Blank.trim text) :=
  ⟨fun _ _ first hkind hattrs => insert_of_parse h hid hkind hattrs first,
    fun _ htext => replace_of_parse h hid htext⟩

theorem change_inside_selfClosing :
    ∃ d edit d' k edit' d'', Document.parse (Bytes.ofString "<a/>") "x.wxs" = .ok d ∧
      d.insertChild (0 : Nat) (Markup.element "b" [⟨"c", "1<2"⟩]) true = .ok edit ∧
      Document.parse (edit.apply (Bytes.ofString "<a/>")) "x.wxs" = .ok d' ∧
      Inserted d d' 0 k "b" [⟨"c", "1<2"⟩] true ∧
      d.replaceText (0 : Nat) " 1<2 " = .ok edit' ∧
      Document.parse (edit'.apply (Bytes.ofString "<a/>")) "x.wxs" = .ok d'' ∧
      Replaced d d'' 0 "1<2" := by
  have ha : IsPlainName "a" := isPlainName_of_letters rfl (by decide)
  have hb : IsPlainName "b" := isPlainName_of_letters rfl (by decide)
  have hc : IsPlainName "c" := isPlainName_of_letters rfl (by decide)
  have hvalue : Writable "1<2" := List.all_eq_true.mp (by decide)
  have htext : Writable " 1<2 " := List.all_eq_true.mp (by decide)
  let root : Content := .closed (.bare ha true) rfl .done
  have hparse : Document.parse (Bytes.ofString "<a/>") "x.wxs" = .ok _ :=
    parse_eq_ok.mpr ⟨root, _, rfl, ⟨.singleton _, rfl, rfl⟩, rfl⟩
  obtain ⟨edit, d', k, hedit, hparse', hinserted⟩ := (change_inside hparse (Nat.zero_lt_one)).1 "b"
    [⟨"c", "1<2"⟩] true hb (by simpa using ⟨hc, hvalue⟩)
  obtain ⟨edit', d'', hedit', hparse'', hreplaced⟩ :=
    (change_inside hparse (Nat.zero_lt_one)).2 " 1<2 " htext
  exact ⟨_, edit, d', k, edit', d'', hparse, hedit, hparse', hinserted, hedit', hparse'', hreplaced⟩

end Edits

end Document

end InstallerLint
