import InstallerLint.Proofs.Document.Shape

/-!
# A place in a document

`Around` is a content with a hole: the way from a place up to the top, with what stands before and
behind it on every level.  Every element of a document stands in such a hole (`exists_around`).

**Rows.**  What a document says of its elements, apart from where they stand, is one row for each.
The rows around a hole do not change with what fills it, except that numbers behind it are shifted
(`rows_plug`, `rows_renumber`, `rowsAfter_renumber`).

**Characters.**  Whatever way an attribute value is written, with characters or with references to them,
only characters that markup may hold are read from it (`isAllowed_of_mem_attr`).
-/

namespace InstallerLint

/-- What a document says of an element, apart from where it stands. -/
structure Row where
  kind : String
  attrs : List Attribute
  text : String
  parent : Option Nat
  deriving DecidableEq, Repr

/-- The row of a node. -/
def Node.row (n : Node) : Row := ⟨n.kind, n.attrs, n.text, n.parent⟩

/-- A row when elements get other numbers. -/
def Row.renumber (ρ : Nat → Nat) (r : Row) : Row := { r with parent := r.parent.map ρ }

namespace Xml

namespace Content

/-- The number of elements. -/
def size : Content → Nat
  | done => 0
  | leaf _ _ next => next.size
  | closed _ _ next => next.size + 1
  | element _ _ inner _ _ next => inner.size + next.size + 1

/-- The number of elements on the outermost level. -/
def tops : Content → Nat
  | done => 0
  | leaf _ _ next => next.tops
  | closed _ _ next => next.tops + 1
  | element _ _ _ _ _ next => next.tops + 1

/-- The rows of the elements when the first one gets number `n`. -/
def rows : Content → (scope : Scope) → (parent : Option Nat) → (n : Nat) → List Row
  | done, _, _, _ => []
  | leaf _ _ next, scope, parent, n => next.rows scope parent n
  | closed t _ next, scope, parent, n =>
      ⟨t.qname.part, scope.kept t.tagAttrs, Blank.trim "", parent⟩
        :: next.rows scope parent (n + 1)
  | element t _ inner _ _ next, scope, parent, n =>
      ⟨t.qname.part, scope.kept t.tagAttrs, Blank.trim inner.chars, parent⟩
        :: (inner.rows (scope.declare t.tagAttrs) (some n) (n + 1)
          ++ next.rows scope parent (n + 1 + inner.size))

theorem length_rows (c : Content) :
    ∀ scope parent n, (c.rows scope parent n).length = c.size := by
  induction c with
  | done => intro scope parent n; rfl
  | leaf p hp next ih => intro scope parent n; exact ih scope parent n
  | closed t ht next ih => intro scope parent n; simp [rows, size, ih]
  | element t ht inner e he next ihinner ihnext =>
      intro scope parent n
      simp [rows, size, ihinner, ihnext]

/-- Rows under other numbers. -/
theorem rows_renumber (ρ : Nat → Nat) (c : Content) :
    ∀ (scope : Scope) (parent : Option Nat) (n n' : Nat), (∀ j < c.size, ρ (n + j) = n' + j) →
      c.rows scope (parent.map ρ) n' = (c.rows scope parent n).map (Row.renumber ρ) := by
  induction c with
  | done => intro scope parent n n' _; rfl
  | leaf p hp next ih => intro scope parent n n' h; exact ih scope parent n n' h
  | closed t ht next ih =>
      intro scope parent n n' h
      rw [size] at h
      rw [rows, rows, List.map_cons, ih scope parent (n + 1) (n' + 1)]
      · rfl
      · intro j hj
        have := h (j + 1) (by omega)
        rw [Nat.add_assoc, Nat.add_comm 1 j, this]
        omega
  | element t ht inner e he next ihinner ihnext =>
      intro scope parent n n' h
      rw [size] at h
      have hn : ρ n = n' := h 0 (by omega)
      have hinner : ∀ j < inner.size, ρ (n + 1 + j) = n' + 1 + j := by
        intro j hj
        have := h (j + 1) (by omega)
        rw [Nat.add_assoc, Nat.add_comm 1 j, this]
        omega
      have hnext : ∀ j < next.size, ρ (n + 1 + inner.size + j) = n' + 1 + inner.size + j := by
        intro j hj
        have := h (1 + inner.size + j) (by omega)
        rw [show n + 1 + inner.size + j = n + (1 + inner.size + j) by omega, this]
        omega
      have hrows := ihinner (scope.declare t.tagAttrs) (some n) (n + 1) (n' + 1) hinner
      rw [Option.map_some, hn] at hrows
      rw [rows, rows, List.map_cons, List.map_append, ihnext scope parent _ _ hnext, hrows]
      rfl

end Content

/-- A content with a hole. -/
inductive Around where
  /-- The hole is all there is. -/
  | top
  | afterLeaf (p : Piece) (isLeaf : p.isLeaf = true) (outer : Around)
  /-- Behind an element that closes itself. -/
  | afterClosed (t : WrittenTag) (self : t.selfClosing = true) (outer : Around)
  /-- Behind an element with an end tag. -/
  | afterElement (t : WrittenTag) (self : t.selfClosing = false) (inner : Content) (e : WrittenEnd)
      (same : e.qname = t.qname) (outer : Around)
  | inside (t : WrittenTag) (self : t.selfClosing = false) (e : WrittenEnd)
      (same : e.qname = t.qname) (next : Content) (outer : Around)

namespace Around

/-- Fills the hole. -/
def plug : Around → Content → Content
  | top, c => c
  | afterLeaf p h outer, c => outer.plug (.leaf p h c)
  | afterClosed t h outer, c => outer.plug (.closed t h c)
  | afterElement t h inner e he outer, c => outer.plug (.element t h inner e he c)
  | inside t h e he next outer, c => outer.plug (.element t h c e he next)

/-- The pieces before the hole. -/
def before : Around → List Piece
  | top => []
  | afterLeaf p _ outer => outer.before ++ [p]
  | afterClosed t _ outer => outer.before ++ [.start t]
  | afterElement t _ inner e _ outer => outer.before ++ .start t :: (inner.pieces ++ [.stop e])
  | inside t _ _ _ _ outer => outer.before ++ [.start t]

/-- The pieces behind the hole. -/
def after : Around → List Piece
  | top => []
  | afterLeaf _ _ outer => outer.after
  | afterClosed _ _ outer => outer.after
  | afterElement _ _ _ _ _ outer => outer.after
  | inside _ _ e _ next outer => .stop e :: (next.pieces ++ outer.after)

/-- The name spaces in force in the hole. -/
def scope : Around → Scope
  | top => []
  | afterLeaf _ _ outer => outer.scope
  | afterClosed _ _ outer => outer.scope
  | afterElement _ _ _ _ _ outer => outer.scope
  | inside t _ _ _ _ outer => outer.scope.declare t.tagAttrs

/-- The number of elements that start before the hole. -/
def count : Around → Nat
  | top => 0
  | afterLeaf _ _ outer => outer.count
  | afterClosed _ _ outer => outer.count + 1
  | afterElement _ _ inner _ _ outer => outer.count + 1 + inner.size
  | inside _ _ _ _ _ outer => outer.count + 1

/-- The element that the hole is in. -/
def parent : Around → Option Nat
  | top => none
  | afterLeaf _ _ outer => outer.parent
  | afterClosed _ _ outer => outer.parent
  | afterElement _ _ _ _ _ outer => outer.parent
  | inside _ _ _ _ _ outer => some outer.count

/-- The rows before the hole, with the character data that the hole is filled with. -/
def rowsBefore : Around → (chars : String) → List Row
  | top, _ => []
  | afterLeaf p _ outer, chars => outer.rowsBefore (p.chars ++ chars)
  | afterClosed t _ outer, chars =>
      outer.rowsBefore chars
        ++ [⟨t.qname.part, outer.scope.kept t.tagAttrs, Blank.trim "", outer.parent⟩]
  | afterElement t _ inner _ _ outer, chars =>
      outer.rowsBefore chars
        ++ ⟨t.qname.part, outer.scope.kept t.tagAttrs, Blank.trim inner.chars, outer.parent⟩
          :: inner.rows (outer.scope.declare t.tagAttrs) (some outer.count) (outer.count + 1)
  | inside t _ _ _ next outer, chars =>
      outer.rowsBefore next.chars
        ++ [⟨t.qname.part, outer.scope.kept t.tagAttrs, Blank.trim chars, outer.parent⟩]

/-- The rows behind the hole, when the next number there is `n`. -/
def rowsAfter : Around → (n : Nat) → List Row
  | top, _ => []
  | afterLeaf _ _ outer, n => outer.rowsAfter n
  | afterClosed _ _ outer, n => outer.rowsAfter n
  | afterElement _ _ _ _ _ outer, n => outer.rowsAfter n
  | inside _ _ _ _ next outer, n =>
      next.rows outer.scope outer.parent n ++ outer.rowsAfter (n + next.size)

/-- The pieces of a whole around its part. -/
theorem pieces_plug (o : Around) :
    ∀ c, (o.plug c).pieces = o.before ++ (c.pieces ++ o.after) := by
  induction o with
  | top => intro c; simp [plug, before, after]
  | afterLeaf p h outer ih => intro c; simp [plug, before, after, ih, Content.pieces]
  | afterClosed t h outer ih => intro c; simp [plug, before, after, ih, Content.pieces]
  | afterElement t h inner e he outer ih => intro c; simp [plug, before, after, ih, Content.pieces]
  | inside t h e he next outer ih => intro c; simp [plug, before, after, ih, Content.pieces]

/-- The bytes of a whole around its part. -/
theorem bytes_plug (o : Around) (c : Content) :
    (o.plug c).bytes = written o.before ++ (c.bytes ++ written o.after) := by
  rw [Content.bytes, pieces_plug, written_append, written_append]
  rfl

/-- What fills a hole matters to the text around it by its character data only. -/
theorem chars_plug (o : Around) :
    ∀ {c c' : Content}, c'.chars = c.chars → (o.plug c').chars = (o.plug c).chars := by
  induction o with
  | top => intro c c' h; exact h
  | afterLeaf p hp outer ih => intro c c' h; exact ih (by simp [Content.chars, h])
  | afterClosed t ht outer ih => intro c c' h; exact ih h
  | afterElement t ht inner e he outer ih => intro c c' h; exact ih h
  | inside t ht e he next outer ih => intro c c' h; exact ih rfl

/-- Parts with as many tops make wholes with as many tops. -/
theorem tops_plug (o : Around) :
    ∀ {c c' : Content}, c'.tops = c.tops → (o.plug c').tops = (o.plug c).tops := by
  induction o with
  | top => intro c c' h; exact h
  | afterLeaf p hp outer ih => intro c c' h; exact ih h
  | afterClosed t ht outer ih => intro c c' h; exact ih (by simp [Content.tops, h])
  | afterElement t ht inner e he outer ih => intro c c' h; exact ih (by simp [Content.tops, h])
  | inside t ht e he next outer ih => intro c c' h; exact ih rfl

theorem parent_lt (o : Around) : ∀ p ∈ o.parent, p < o.count := by
  induction o with
  | top => simp [parent]
  | afterLeaf p hp outer ih => exact ih
  | afterClosed t ht outer ih =>
      intro p hp
      have := ih p hp
      rw [count]
      omega
  | afterElement t ht inner e he outer ih =>
      intro p hp
      have := ih p hp
      rw [count]
      omega
  | inside t ht e he next outer ih => simp [parent, count]

theorem length_rowsBefore (o : Around) : ∀ chars, (o.rowsBefore chars).length = o.count := by
  induction o with
  | top => intro chars; rfl
  | afterLeaf p hp outer ih => intro chars; exact ih _
  | afterClosed t ht outer ih => intro chars; simp [rowsBefore, count, ih]
  | afterElement t ht inner e he outer ih =>
      intro chars
      simp [rowsBefore, count, ih, Content.length_rows]
      omega
  | inside t ht e he next outer ih => intro chars; simp [rowsBefore, count, ih]

/-- **Rows of a filled hole.** -/
theorem rows_plug (o : Around) :
    ∀ c, (o.plug c).rows [] none 0 = o.rowsBefore c.chars ++
      (c.rows o.scope o.parent o.count ++ o.rowsAfter (o.count + c.size)) := by
  induction o with
  | top => intro c; simp [plug, rowsBefore, rowsAfter, scope, parent, count]
  | afterLeaf p hp outer ih => intro c; exact ih _
  | afterClosed t ht outer ih =>
      intro c
      rw [plug, ih]
      simp [Content.rows, Content.chars, Content.size, rowsBefore, rowsAfter, scope, parent, count,
        Nat.add_assoc, Nat.add_comm 1]
  | afterElement t ht inner e he outer ih =>
      intro c
      rw [plug, ih]
      simp only [Content.rows, Content.chars, Content.size, rowsBefore, rowsAfter, scope, parent,
        count, List.append_assoc, List.cons_append]
      rw [show outer.count + 1 + inner.size + c.size = outer.count + (inner.size + c.size + 1) by
        omega]
  | inside t ht e he next outer ih =>
      intro c
      rw [plug, ih]
      simp only [Content.rows, Content.chars, Content.size, rowsBefore, rowsAfter, scope, parent,
        count, List.append_assoc, List.cons_append, List.nil_append]
      rw [show outer.count + 1 + c.size + next.size = outer.count + (c.size + next.size + 1) by
        omega]

theorem map_parent {ρ : Nat → Nat} (o : Around) (h : ∀ j < o.count, ρ j = j) :
    o.parent.map ρ = o.parent := by
  cases hp : o.parent with
  | none => rfl
  | some p => rw [Option.map_some, h p (o.parent_lt p hp)]

/-- Numbers before a hole stay. -/
theorem rowsBefore_renumber {ρ : Nat → Nat} (o : Around) :
    ∀ chars, (∀ j < o.count, ρ j = j) →
      (o.rowsBefore chars).map (Row.renumber ρ) = o.rowsBefore chars := by
  induction o with
  | top => intro chars _; rfl
  | afterLeaf p hp outer ih => intro chars h; exact ih _ h
  | afterClosed t ht outer ih =>
      intro chars h
      have hout : ∀ j < outer.count, ρ j = j := fun j hj => h j (by rw [count]; omega)
      simp [rowsBefore, ih chars hout, Row.renumber, outer.map_parent hout]
  | afterElement t ht inner e he outer ih =>
      intro chars h
      rw [count] at h
      have hout : ∀ j < outer.count, ρ j = j := fun j hj => h j (by omega)
      have hrows := inner.rows_renumber ρ (outer.scope.declare t.tagAttrs) (some outer.count)
        (outer.count + 1) (outer.count + 1) (fun j hj => h _ (by omega))
      rw [Option.map_some, h outer.count (by omega)] at hrows
      simp [rowsBefore, ih chars hout, Row.renumber, outer.map_parent hout, ← hrows]
  | inside t ht e he next outer ih =>
      intro chars h
      have hout : ∀ j < outer.count, ρ j = j := fun j hj => h j (by rw [count]; omega)
      simp [rowsBefore, ih next.chars hout, Row.renumber, outer.map_parent hout]

/-- Numbers behind a hole are shifted. -/
theorem rowsAfter_renumber {ρ : Nat → Nat} (o : Around) :
    ∀ n n', (∀ j < o.count, ρ j = j) → (∀ j, ρ (n + j) = n' + j) →
      o.rowsAfter n' = (o.rowsAfter n).map (Row.renumber ρ) := by
  induction o with
  | top => intro n n' _ _; rfl
  | afterLeaf p hp outer ih => intro n n' h hn; exact ih n n' h hn
  | afterClosed t ht outer ih =>
      intro n n' h hn
      exact ih n n' (fun j hj => h j (by rw [count]; omega)) hn
  | afterElement t ht inner e he outer ih =>
      intro n n' h hn
      exact ih n n' (fun j hj => h j (by rw [count]; omega)) hn
  | inside t ht e he next outer ih =>
      intro n n' h hn
      have hout : ∀ j < outer.count, ρ j = j := fun j hj => h j (by rw [count]; omega)
      have hrows := next.rows_renumber ρ outer.scope outer.parent n n' (fun j _ => hn j)
      rw [outer.map_parent hout] at hrows
      have hafter := ih (n + next.size) (n' + next.size) hout (fun j => by
        rw [Nat.add_assoc, hn, Nat.add_assoc])
      rw [rowsAfter, rowsAfter, List.map_append, hrows, hafter]

/-- Every element of a content stands in a hole, with nothing before it on its level. -/
theorem exists_plug (c : Content) :
    ∀ (outer : Around) (i : Nat), i < c.size →
      ∃ o x, outer.plug c = Around.plug o x ∧ o.count = outer.count + i ∧
        ((∃ t ht next, x = .closed t ht next) ∨
          ∃ t ht inner e he next, x = .element t ht inner e he next) := by
  induction c with
  | done => intro outer i hi; exact absurd hi (Nat.not_lt_zero i)
  | leaf p hp next ih => intro outer i hi; exact ih (.afterLeaf p hp outer) i hi
  | closed t ht next ih =>
      intro outer i hi
      rw [Content.size] at hi
      cases i with
      | zero => exact ⟨outer, .closed t ht next, rfl, rfl, .inl ⟨t, ht, next, rfl⟩⟩
      | succ i =>
          obtain ⟨o, x, hplug, hcount, hx⟩ := ih (.afterClosed t ht outer) i (by omega)
          refine ⟨o, x, hplug, ?_, hx⟩
          rw [hcount, count]
          omega
  | element t ht inner e he next ihinner ihnext =>
      intro outer i hi
      rw [Content.size] at hi
      cases i with
      | zero =>
          exact ⟨outer, .element t ht inner e he next, rfl, rfl,
            .inr ⟨t, ht, inner, e, he, next, rfl⟩⟩
      | succ i =>
          by_cases hin : i < inner.size
          · obtain ⟨o, x, hplug, hcount, hx⟩ := ihinner (.inside t ht e he next outer) i hin
            refine ⟨o, x, hplug, ?_, hx⟩
            rw [hcount, count]
            omega
          · obtain ⟨o, x, hplug, hcount, hx⟩ :=
              ihnext (.afterElement t ht inner e he outer) (i - inner.size) (by omega)
            refine ⟨o, x, hplug, ?_, hx⟩
            rw [hcount, count]
            omega

end Around

section Layout

open Element

/-- The nodes of siblings, with a parent or without. -/
def layoutRow (place : Nat → Position) (parent : Option Nat) (next : Nat) :
    List Element → List Node
  | [] => []
  | e :: es => e.layout place parent next ++ layoutRow place parent (next + e.size) es

theorem layoutAll_eq (place : Nat → Position) (parent : Nat) (es : List Element) :
    ∀ next, layoutAll place parent next es = layoutRow place (some parent) next es := by
  induction es with
  | nil => intro next; rfl
  | cons e es ih => intro next; rw [layoutAll, layoutRow, ih]

theorem sizeAll_elements (c : Content) :
    ∀ scope offset, sizeAll (c.elements scope offset) = c.size := by
  induction c with
  | done => intro scope offset; rfl
  | leaf p hp next ih => intro scope offset; exact ih scope _
  | closed t ht next ih =>
      intro scope offset
      simp only [Content.elements, sizeAll, Element.size, Content.size, ih]
      omega
  | element t ht inner e he next ihinner ihnext =>
      intro scope offset
      simp only [Content.elements, sizeAll, Element.size, Content.size, ihinner, ihnext]
      omega

theorem length_elements (c : Content) :
    ∀ scope offset, (c.elements scope offset).length = c.tops := by
  induction c with
  | done => intro scope offset; rfl
  | leaf p hp next ih => intro scope offset; exact ih scope _
  | closed t ht next ih => intro scope offset; simp [Content.elements, Content.tops, ih]
  | element t ht inner e he next ihinner ihnext =>
      intro scope offset
      simp [Content.elements, Content.tops, ihnext]

/-- The nodes of a content have its rows. -/
theorem layoutRow_elements (place : Nat → Position) (c : Content) :
    ∀ scope parent n offset,
      (layoutRow place parent n (c.elements scope offset)).map Node.row = c.rows scope parent n := by
  induction c with
  | done => intro scope parent n offset; rfl
  | leaf p hp next ih => intro scope parent n offset; exact ih scope parent n _
  | closed t ht next ih =>
      intro scope parent n offset
      simp [Content.elements, layoutRow, layout, layoutAll, Element.size, sizeAll, Content.rows,
        ih, Node.row]
  | element t ht inner e he next ihinner ihnext =>
      intro scope parent n offset
      simp only [Content.elements, layoutRow, layout, Element.size, sizeAll_elements, layoutAll_eq,
        Content.rows, List.map_append, List.map_cons, ← Nat.add_assoc, ihinner, ihnext,
        List.cons_append]
      rfl

/-- The nodes of what fills a hole stand among all nodes. -/
theorem Around.layout_plug (place : Nat → Position) (o : Around) :
    ∀ c, ∃ l r, layoutRow place none 0 ((o.plug c).elements [] 0) =
      l ++ (layoutRow place o.parent o.count (c.elements o.scope (written o.before).length) ++ r) ∧
      l.length = o.count := by
  induction o with
  | top => intro c; exact ⟨[], [], by simp [plug, before, parent, count, scope], rfl⟩
  | afterLeaf p hp outer ih =>
      intro c
      obtain ⟨l, r, hrow, hlen⟩ := ih (.leaf p hp c)
      exact ⟨l, r, by simpa [plug, before, Content.elements, parent, count, scope] using hrow, hlen⟩
  | afterClosed t ht outer ih =>
      intro c
      obtain ⟨l, r, hrow, hlen⟩ := ih (.closed t ht c)
      have hbefore : (written (afterClosed t ht outer).before).length =
          (written outer.before).length + t.bytes.length := by
        simp [before, Piece.bytes]
      rw [Content.elements, layoutRow, List.append_assoc, ← List.append_assoc] at hrow
      rw [plug, hbefore]
      exact ⟨_, r, hrow, by simp [hlen, count, length_layout, Element.size, sizeAll]⟩
  | afterElement t ht inner e he outer ih =>
      intro c
      obtain ⟨l, r, hrow, hlen⟩ := ih (.element t ht inner e he c)
      have hbefore : (written (afterElement t ht inner e he outer).before).length =
          (written outer.before).length + t.bytes.length + inner.bytes.length + e.bytes.length := by
        simp [before, Piece.bytes, Content.bytes, Nat.add_assoc]
      rw [Content.elements, layoutRow, Element.size, sizeAll_elements, ← Nat.add_assoc,
        List.append_assoc, ← List.append_assoc] at hrow
      rw [plug, hbefore]
      refine ⟨_, r, hrow, ?_⟩
      rw [List.length_append, hlen, length_layout, Element.size, sizeAll_elements, count]
      omega
  | inside t ht e he next outer ih =>
      intro c
      obtain ⟨l, r, hrow, hlen⟩ := ih (.element t ht c e he next)
      have hbefore : (written (inside t ht e he next outer).before).length =
          (written outer.before).length + t.bytes.length := by
        simp [before, Piece.bytes]
      rw [Content.elements, layoutRow, layout, layoutAll_eq, List.append_assoc, List.cons_append,
        List.append_cons] at hrow
      rw [plug, hbefore]
      exact ⟨_, _, hrow, by simp [hlen, count]⟩

end Layout

/-- What fills a hole can be exchanged when it has the same character data and as many elements. -/
theorem Content.IsDocument.change {o : Around} {x x' : Content} {e : Element}
    (h : (o.plug x).IsDocument e) (hchars : x'.chars = x.chars) (htops : x'.tops = x.tops)
    (hapart : Apart (o.plug x').pieces) : ∃ e', (o.plug x').IsDocument e' := by
  have hone : ((o.plug x').elements [] 0).length = 1 := by
    rw [length_elements, o.tops_plug htops, ← length_elements _ [] 0, h.root]
    rfl
  obtain ⟨e', he'⟩ := List.length_eq_one_iff.mp hone
  exact ⟨e', hapart, (o.chars_plug hchars).symm ▸ h.blank, he'⟩

end Xml

namespace Document

open Xml

variable {d : Document}

/-- What a document says of its elements. -/
def rows (d : Document) : List Row := d.nodes.toList.map Node.row

theorem length_rows (d : Document) : d.rows.length = d.size := by
  simp [rows, size]

theorem getElem?_rows (d : Document) (i : Nat) : d.rows[i]? = (d.node? i).map Node.row := by
  rw [rows, List.getElem?_map, Array.getElem?_toList]
  rfl

theorem kind_eq (d : Document) (i : Nat) : d.kind i = (d.rows[i]?.map Row.kind).getD "" := by
  rw [getElem?_rows, kind]
  cases d.node? i <;> rfl

theorem attrs_eq (d : Document) (i : Nat) : d.attrs i = (d.rows[i]?.map Row.attrs).getD [] := by
  rw [getElem?_rows, attrs]
  cases d.node? i <;> rfl

theorem text_eq (d : Document) (i : Nat) : d.text i = (d.rows[i]?.map Row.text).getD "" := by
  rw [getElem?_rows, text]
  cases d.node? i <;> rfl

theorem parent?_eq (d : Document) (i : Nat) : d.parent? i = d.rows[i]?.bind Row.parent := by
  rw [getElem?_rows, parent?]
  cases d.node? i <;> rfl

section OfContent

variable {source : Bytes} {path : String} {c : Content} {e : Element}

/-- The rows of a parsed document are those of its content. -/
theorem rows_ofElement (hc : c.IsDocument e) : (ofElement source path e).rows = c.rows [] none 0 := by
  have h := layoutRow_elements (fun n => (LineIndex.ofSource source).position n) c [] none 0 0
  rw [hc.root, layoutRow, layoutRow, List.append_nil] at h
  simpa [rows, ofElement] using h

theorem size_ofElement (hc : c.IsDocument e) : (ofElement source path e).size = c.size := by
  rw [← length_rows, rows_ofElement hc, Content.length_rows]

/-- The element at a place is held under its number. -/
theorem holds_plug {o : Around} {x : Content} {e' : Element} {es : List Element}
    (hc : (o.plug x).IsDocument e)
    (hx : x.elements o.scope (written o.before).length = e' :: es) :
    (ofElement source path e).Holds o.parent o.count e' := by
  obtain ⟨l, r, hrow, hlen⟩ :=
    o.layout_plug (fun n => (LineIndex.ofSource source).position n) x
  rw [hc.root, hx, layoutRow, layoutRow, layoutRow, List.append_nil, List.append_assoc] at hrow
  have hdrop : (ofElement source path e).nodes.toList.drop o.count =
      e'.layout (fun n => (LineIndex.ofSource source).position n) o.parent o.count ++
        (layoutRow (fun n => (LineIndex.ofSource source).position n) o.parent (o.count + e'.size) es
          ++ r) := by
    rw [show (ofElement source path e).nodes.toList =
      e.layout (fun n => (LineIndex.ofSource source).position n) none 0 from rfl, hrow]
    exact List.drop_left' hlen
  exact ⟨_, ⟨_, hdrop.symm⟩⟩

end OfContent

/-- **Every element stands in a hole.** -/
theorem exists_around {source : Bytes} {path : String}
    (h : Document.parse source path = .ok d) {i : Nat} (hi : i < d.size) :
    ∃ (o : Around) (x : Content) (e : Element), source = (o.plug x).bytes ∧
      (o.plug x).IsDocument e ∧ d = ofElement source path e ∧ o.count = i ∧
      ((∃ t ht next, x = .closed t ht next) ∨
        ∃ t ht inner e he next, x = .element t ht inner e he next) := by
  obtain ⟨c, e, hsource, hc, rfl⟩ := parse_eq_ok.mp h
  rw [size_ofElement hc] at hi
  obtain ⟨o, x, hplug, hcount, hx⟩ := Around.exists_plug c .top i hi
  rw [Around.count, Nat.zero_add] at hcount
  rw [Around.plug] at hplug
  subst hplug
  exact ⟨o, x, e, hsource, hc, rfl, hcount, hx⟩

end Document

namespace Xml

theorem isAllowed_of_charFault? {cs : List (Option Char)} (h : charFault? cs = none) {c : Char}
    (hc : c ∈ cs.map (·.getD '\uFFFD')) : isAllowed c = true := by
  obtain ⟨x, hx, rfl⟩ := List.mem_map.mp hc
  have hnone := List.findSome?_eq_none_iff.mp h x hx
  cases x with
  | none => cases hnone
  | some c =>
      dsimp only at hnone
      split_ifs at hnone with hallowed
      exact hallowed

/-- Every character of a text that was read is allowed. -/
theorem isAllowed_of_readText {mode : Mode} {s rest : Bytes} {v : String}
    (h : readText mode s = .ok (v, rest)) {c : Char} (hc : c ∈ v.toList) : isAllowed c = true := by
  obtain ⟨data, -, hfault, rfl⟩ := readText_eq_ok.mp h
  rw [Bytes.toText, String.toList_ofList] at hc
  exact isAllowed_of_charFault? hfault hc

theorem WrittenAttr.isAllowed_value (a : WrittenAttr) {c : Char} (hc : c ∈ a.attr.value.toList) :
    isAllowed c = true :=
  isAllowed_of_readText (a.writes.2 [] (Mode.ends_of_ne (by simp) [])) hc

end Xml

namespace Document

open Xml

variable {d : Document} {source : Bytes} {path : String}

/-- The attributes of an element are those of a written tag. -/
theorem exists_tag_of_lt (h : Document.parse source path = .ok d) {i : Nat} (hi : i < d.size) :
    ∃ (scope : Scope) (t : WrittenTag), d.attrs i = scope.kept t.tagAttrs := by
  obtain ⟨o, x, e, -, hc, rfl, rfl, hx⟩ := exists_around h hi
  have hrow : ∀ r rs, x.rows o.scope o.parent o.count = r :: rs →
      (ofElement source path e).attrs o.count = r.attrs := by
    intro r rs hrows
    rw [attrs_eq, rows_ofElement hc, o.rows_plug, hrows,
      List.getElem?_append_right (o.length_rowsBefore _).le, o.length_rowsBefore]
    simp
  rcases hx with ⟨t, ht, next, rfl⟩ | ⟨t, ht, inner, e', he, next, rfl⟩
  · exact ⟨o.scope, t, hrow _ _ rfl⟩
  · exact ⟨o.scope, t, hrow _ _ rfl⟩

/-- Attribute values hold only characters that markup may hold. -/
theorem isAllowed_of_mem_attr (h : Document.parse source path = .ok d) {i : Nat} {name : String}
    {c : Char} (hc : c ∈ (d.attr i name).toList) : isAllowed c = true := by
  rw [attr, attr?, findAttr] at hc
  cases hfind : (d.attrs i).find? (·.name = name) with
  | none =>
      rw [hfind] at hc
      cases hc
  | some x =>
      rw [hfind] at hc
      have hx := List.mem_of_find?_eq_some hfind
      by_cases hi : i < d.size
      · obtain ⟨scope, t, hattrs⟩ := exists_tag_of_lt h hi
        rw [hattrs, Scope.kept] at hx
        obtain ⟨y, hy, rfl⟩ := List.mem_map.mp hx
        obtain ⟨a, -, rfl⟩ := List.mem_map.mp hy
        exact a.isAllowed_value hc
      · rw [attrs_eq, List.getElem?_eq_none (by rw [length_rows]; omega)] at hx
        cases hx

end Document

end InstallerLint
