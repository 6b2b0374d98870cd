import InstallerLint.Document.Edit
import InstallerLint.Proofs.Document.Content
import InstallerLint.Proofs.Document.Forest
import InstallerLint.Proofs.Document.Layout
import Mathlib.Data.List.Nodup

/-!
# The shape of a document

A document that was read is a tree in document order, and its elements know where they stand in the
source: the spans of children lie one behind the other in the span of their parent.

**From the text.**  The elements of a content are `Placed`: each span starts and ends with the
brackets of its tags (`Content.placed`).  In the array every number holds such an element
(`exists_holds`), and from this come both the tree (`forest_of_parse`) and the spans.

**The main result** is `shape`; it also covers documents that were built step by step.
-/

namespace InstallerLint

namespace Bytes

theorem slice_append (front m rest : Bytes) :
    slice (front ++ (m ++ rest)) front.length (front.length + m.length) = m := by
  simp [slice]

end Bytes

/-- The offsets of an element belong to its tags. -/
structure Span.Located (source : Bytes) (s : Span) : Prop where
  start_lt : s.start < s.tagEnd
  tagEnd_le : s.tagEnd ≤ s.innerEnd
  innerEnd_le : s.innerEnd ≤ s.stop
  stop_le : s.stop ≤ source.length
  /-- The start tag opens with a bracket. -/
  opens : source[s.start]? = some 0x3C
  /-- The start tag ends with a bracket. -/
  closes : source[s.tagEnd - 1]? = some 0x3E
  self_iff : s.selfClosing = true ↔ [0x2F, 0x3E] <:+ source.slice s.start s.tagEnd

namespace Element

/-- Where an element stands. -/
def span : Element → Span
  | .mk head _ => head.span

/-- Elements that stand one behind the other between two offsets. -/
def InRow (lo hi : Nat) : List Element → Prop
  | [] => lo ≤ hi
  | e :: es => lo ≤ e.span.start ∧ InRow e.span.stop hi es

mutual

/-- All offsets in a tree belong to the source, and those of children lie in their parent. -/
def Placed (source : Bytes) : Element → Prop
  | .mk head children =>
      head.span.Located source ∧ InRow head.span.tagEnd head.span.innerEnd children ∧
        PlacedAll source children

/-- All offsets in several trees belong to the source. -/
def PlacedAll (source : Bytes) : List Element → Prop
  | [] => True
  | e :: es => e.Placed source ∧ PlacedAll source es

end

theorem Placed.located {source : Bytes} {e : Element} (h : e.Placed source) :
    e.span.Located source := by
  cases e with
  | mk head children =>
      rw [Placed] at h
      exact h.1

theorem InRow.mono {lo lo' hi : Nat} {es : List Element} (hlo : lo' ≤ lo) (h : InRow lo hi es) :
    InRow lo' hi es := by
  cases es with
  | nil => exact Nat.le_trans hlo h
  | cons e es => exact ⟨Nat.le_trans hlo h.1, h.2⟩

/-- The numbers of neighbours ascend and stay within their stretch. -/
theorem pairwise_indices (next : Nat) (es : List Element) :
    (indices next es).Pairwise (· < ·) ∧ ∀ i ∈ indices next es, next ≤ i ∧ i < next + sizeAll es := by
  induction es generalizing next with
  | nil => simp [indices]
  | cons e es ih =>
      obtain ⟨hpair, hbound⟩ := ih (next + e.size)
      have hpos := e.size_pos
      rw [indices, sizeAll]
      refine ⟨List.pairwise_cons.mpr ⟨fun i hi => ?_, hpair⟩, fun i hi => ?_⟩
      · have := hbound i hi
        omega
      · rcases List.mem_cons.mp hi with rfl | hi
        · omega
        · have := hbound i hi
          omega

end Element

namespace Xml

open Element

/-- The last byte before what closes a start tag is no slash. -/
theorem WrittenTag.getLast?_inside (t : WrittenTag) :
    (0x3C :: (t.name ++ t.inside)).getLast? ≠ some 0x2F := by
  have hname : t.name.getLast? ≠ some 0x2F := by
    intro h
    exact absurd (t.spells.bytes _ (List.mem_of_getLast? h)) (by decide)
  have hne : t.name ++ t.inside ≠ [] := by simp [t.spells.ne_nil]
  rw [List.getLast?_cons_of_ne_nil hne, inside, ← List.append_assoc]
  rw [List.getLast?_append]
  cases hblank : t.blank.getLast? with
  | some b =>
      rw [Option.some_or]
      rintro ⟨rfl⟩
      exact absurd (t.blank_space _ (List.mem_of_getLast? hblank)) (by decide)
  | none =>
      rw [Option.none_or, List.getLast?_append]
      rcases List.eq_nil_or_concat t.attrs with hattrs | ⟨attrs, a, hattrs⟩
      · simpa [hattrs] using hname
      · have hquote : (t.attrs.flatMap WrittenAttr.bytes).getLast? = some a.quote := by
          have hlast : a.bytes = a.blank ++ (a.name ++ (a.gap ++ 0x3D :: (a.gap' ++ a.quote :: a.raw)))
              ++ [a.quote] := by
            simp [WrittenAttr.bytes, WrittenAttr.core, WrittenAttr.assigned]
          rw [hattrs, List.concat_eq_append, List.flatMap_append, List.flatMap_singleton, hlast,
            ← List.append_assoc, List.getLast?_concat]
        rw [hquote, Option.some_or]
        rintro h
        have := a.proper
        rw [Option.some.inj h] at this
        exact absurd this (by decide)

theorem WrittenTag.bytes_eq (t : WrittenTag) :
    t.bytes = 0x3C :: (t.name ++ t.inside) ++ closing t.selfClosing := by
  simp [bytes, core]

/-- A start tag ends with a slash and a bracket exactly when it closes itself. -/
theorem WrittenTag.suffix_iff (t : WrittenTag) :
    t.selfClosing = true ↔ [0x2F, 0x3E] <:+ t.bytes := by
  rw [t.bytes_eq]
  cases ht : t.selfClosing with
  | true => exact ⟨fun _ => List.suffix_append _ _, fun _ => rfl⟩
  | false =>
      simp only [Bool.false_eq_true, false_iff]
      rintro ⟨u, hu⟩
      have hlast : u ++ [0x2F] = 0x3C :: (t.name ++ t.inside) := by
        refine (List.append_left_inj [0x3E]).mp ?_
        simpa [closing] using hu
      exact t.getLast?_inside (by rw [← hlast, List.getLast?_concat])

theorem WrittenTag.length_bytes_pos (t : WrittenTag) : 0 < t.bytes.length := by
  simp [bytes]

/-- A written tag in a source. -/
theorem WrittenTag.located (t : WrittenTag) {source front rest : Bytes} {innerEnd stop : Nat}
    (hsource : source = front ++ (t.bytes ++ rest))
    (hinner : front.length + t.bytes.length ≤ innerEnd) (hstop : innerEnd ≤ stop)
    (hle : stop ≤ source.length) :
    Span.Located source
      ⟨front.length, front.length + t.bytes.length, innerEnd, stop, t.selfClosing⟩ where
  start_lt := by
    have := t.length_bytes_pos
    dsimp only
    omega
  tagEnd_le := hinner
  innerEnd_le := hstop
  stop_le := hle
  opens := by
    simp [hsource, bytes]
  closes := by
    obtain ⟨u, hu⟩ : ∃ u, t.bytes = u ++ [0x3E] := by
      rw [t.bytes_eq]
      cases t.selfClosing
      · exact ⟨_, rfl⟩
      · exact ⟨0x3C :: (t.name ++ t.inside) ++ [0x2F], by simp [closing]⟩
    have hindex : front.length + t.bytes.length - 1 = (front ++ u).length := by
      rw [hu, List.length_append, List.length_append, List.length_singleton]
      omega
    have hsplit : source = (front ++ u) ++ 0x3E :: rest := by
      simp [hsource, hu]
    dsimp only
    rw [hindex, hsplit, List.getElem?_append_right (Nat.le_refl _), Nat.sub_self]
    rfl
  self_iff := by
    dsimp only
    rw [hsource, Bytes.slice_append]
    exact t.suffix_iff

/-- The elements of a content stand where the content stands. -/
theorem Content.placed (source : Bytes) (c : Content) :
    ∀ (scope : Scope) (front back : Bytes), source = front ++ (c.bytes ++ back) →
      InRow front.length (front.length + c.bytes.length) (c.elements scope front.length) ∧
      PlacedAll source (c.elements scope front.length) := by
  induction c with
  | done =>
      intro scope front back _
      simp [Content.elements, InRow, PlacedAll]
  | leaf p hp next ih =>
      intro scope front back hsource
      obtain ⟨hrow, hplaced⟩ := ih scope (front ++ p.bytes) back (by simp [hsource])
      rw [List.length_append] at hrow hplaced
      rw [Content.elements, Content.bytes_leaf, List.length_append, ← Nat.add_assoc]
      exact ⟨hrow.mono (by omega), hplaced⟩
  | closed t ht next ih =>
      intro scope front back hsource
      obtain ⟨hrow, hplaced⟩ := ih scope (front ++ t.bytes) back (by simp [hsource])
      rw [List.length_append] at hrow hplaced
      have hsplit : source = front ++ (t.bytes ++ (next.bytes ++ back)) := by simp [hsource]
      have hlocated := t.located hsplit (Nat.le_refl _) (Nat.le_refl _) (by simp [hsplit])
      rw [ht] at hlocated
      rw [Content.elements, Content.bytes_closed, List.length_append, ← Nat.add_assoc]
      refine ⟨⟨Nat.le_refl _, hrow⟩, ⟨?_, hplaced⟩⟩
      rw [Placed]
      exact ⟨hlocated, Nat.le_refl _, trivial⟩
  | element t ht inner e he next ihinner ihnext =>
      intro scope front back hsource
      obtain ⟨hrow, hplaced⟩ := ihnext scope (front ++ t.bytes ++ inner.bytes ++ e.bytes) back
        (by simp [hsource])
      obtain ⟨hrow', hplaced'⟩ := ihinner (scope.declare t.tagAttrs) (front ++ t.bytes)
        (e.bytes ++ (next.bytes ++ back)) (by simp [hsource])
      simp only [List.length_append] at hrow hplaced hrow' hplaced'
      have hsplit : source =
          front ++ (t.bytes ++ (inner.bytes ++ (e.bytes ++ (next.bytes ++ back)))) := by
        simp [hsource]
      have hlocated := t.located hsplit
        (Nat.le_add_right (front.length + t.bytes.length) inner.bytes.length)
        (Nat.le_add_right _ e.bytes.length) (by simp [hsplit]; omega)
      rw [ht] at hlocated
      have hend : front.length + (element t ht inner e he next).bytes.length =
          front.length + t.bytes.length + inner.bytes.length + e.bytes.length
            + next.bytes.length := by
        simp
        omega
      rw [Content.elements, hend]
      refine ⟨⟨Nat.le_refl _, hrow⟩, ⟨?_, hplaced⟩⟩
      rw [Placed]
      exact ⟨hlocated, hrow', hplaced'⟩

/-- The tree that is read from a source is placed in it. -/
theorem placed_of_readTree {source : Bytes} {e : Element} (h : readTree source = .ok e) :
    e.Placed source := by
  obtain ⟨c, hsource, hc⟩ := readTree_eq_ok.mp h
  have hplaced := (c.placed source [] [] [] (by simpa using hsource)).2
  rw [List.length_nil, hc.root] at hplaced
  exact hplaced.1

end Xml

namespace Document

open Element

variable {d : Document} {source : Bytes}

/-- The nodes of a tree stand in a document, its root under `id`. -/
def Holds (d : Document) (parent : Option Nat) (id : Nat) (e : Element) : Prop :=
  ∃ place, d.HasAt id (e.layout place parent id)

/-- The nodes of siblings stand in a document, the first one under `next`. -/
def HoldsAll (d : Document) (parent next : Nat) (es : List Element) : Prop :=
  ∃ place, d.HasAt next (layoutAll place parent next es)

section Holds

variable {parent : Option Nat} {id next p : Nat} {e : Element} {es : List Element}

theorem Holds.node? {head : ElementHead} (h : d.Holds parent id (.mk head es)) :
    ∃ range, d.node? id = some ⟨head.kind, head.attrs, indices (id + 1) es, parent, range, head.text,
      some head.span⟩ := by
  obtain ⟨place, hat⟩ := h
  rw [layout] at hat
  exact ⟨_, hat.node?⟩

theorem Holds.children {head : ElementHead} (h : d.Holds parent id (.mk head es)) :
    d.children id = indices (id + 1) es := by
  obtain ⟨range, hnode⟩ := h.node?
  unfold Document.children
  rw [hnode]
  rfl

theorem Holds.parent? (h : d.Holds parent id e) : d.parent? id = parent := by
  cases e with
  | mk head es =>
      obtain ⟨range, hnode⟩ := h.node?
      unfold Document.parent?
      rw [hnode]
      rfl

theorem Holds.spanOf (h : d.Holds parent id e) (hsource : d.source ≠ []) :
    d.spanOf id = .ok e.span := by
  cases e with
  | mk head es =>
      obtain ⟨range, hnode⟩ := h.node?
      unfold Document.spanOf
      rw [hnode]
      simp [hsource, span]

theorem Holds.inner {head : ElementHead} (h : d.Holds parent id (.mk head es)) :
    d.HoldsAll id (id + 1) es := by
  obtain ⟨place, hat⟩ := h
  rw [layout] at hat
  exact ⟨place, hat.right (l := [_])⟩

theorem HoldsAll.cons (h : d.HoldsAll p next (e :: es)) :
    d.Holds (some p) next e ∧ d.HoldsAll p (next + e.size) es := by
  obtain ⟨place, hat⟩ := h
  rw [layoutAll] at hat
  have hrest := hat.right
  rw [length_layout] at hrest
  exact ⟨⟨place, hat.left⟩, ⟨place, hrest⟩⟩

theorem HoldsAll.of_mem (h : d.HoldsAll p next es) (hplaced : PlacedAll source es) {i : Nat}
    (hi : i ∈ indices next es) : ∃ e, d.Holds (some p) i e ∧ e.Placed source := by
  induction es generalizing next with
  | nil => cases hi
  | cons e es ih =>
      obtain ⟨hfirst, hrest⟩ := h.cons
      rcases List.mem_cons.mp hi with rfl | hi
      · exact ⟨e, hfirst, hplaced.1⟩
      · exact ih hrest hplaced.2 hi

mutual

/-- Every number of a block holds an element; all but the first one are children of an element
before them. -/
theorem exists_holds :
    ∀ (e : Element) (parent : Option Nat) (id : Nat), d.Holds parent id e → e.Placed source →
      ∀ i, id ≤ i → i < id + e.size →
        i = id ∨ ∃ p e', p < i ∧ i ∈ d.children p ∧ d.Holds (some p) i e' ∧ e'.Placed source
  | .mk head children, parent, id, h, hplaced, i, hlo, hhi => by
      rw [Placed] at hplaced
      rw [Element.size] at hhi
      by_cases heq : i = id
      · exact .inl heq
      · obtain ⟨p, e', hp, hholds, hplaced'⟩ :=
          exists_holdsAll children id (id + 1) h.inner hplaced.2.2 i (by omega) (by omega)
        rcases hp with ⟨rfl, hmem⟩ | ⟨hlt, hmem⟩
        · exact .inr ⟨p, e', by omega, h.children ▸ hmem, hholds, hplaced'⟩
        · exact .inr ⟨p, e', hlt, hmem, hholds, hplaced'⟩

/-- Every number of a row of blocks holds an element. -/
theorem exists_holdsAll :
    ∀ (es : List Element) (parent next : Nat), d.HoldsAll parent next es → PlacedAll source es →
      ∀ i, next ≤ i → i < next + sizeAll es →
        ∃ p e', ((p = parent ∧ i ∈ indices next es) ∨ (p < i ∧ i ∈ d.children p)) ∧
          d.Holds (some p) i e' ∧ e'.Placed source
  | [], parent, next, _, _, i, hlo, hhi => by
      rw [sizeAll] at hhi
      omega
  | e :: es, parent, next, h, hplaced, i, hlo, hhi => by
      obtain ⟨hfirst, hrest⟩ := h.cons
      rw [sizeAll] at hhi
      by_cases hin : i < next + e.size
      · rcases exists_holds e (some parent) next hfirst hplaced.1 i hlo hin with
          rfl | ⟨p, e', hlt, hmem, hholds, hplaced'⟩
        · exact ⟨parent, e, .inl ⟨rfl, List.mem_cons_self⟩, hfirst, hplaced.1⟩
        · exact ⟨p, e', .inr ⟨hlt, hmem⟩, hholds, hplaced'⟩
      · obtain ⟨p, e', hp, hholds, hplaced'⟩ := exists_holdsAll es parent (next + e.size) hrest
          hplaced.2 i (by omega) (by omega)
        rcases hp with ⟨rfl, hmem⟩ | hp
        · exact ⟨p, e', .inl ⟨rfl, List.mem_cons_of_mem next hmem⟩, hholds, hplaced'⟩
        · exact ⟨p, e', .inr hp, hholds, hplaced'⟩

end

/-- The spans of siblings stand in a row. -/
theorem spans_of_row {lo hi : Nat} (h : d.HoldsAll p next es) (hplaced : PlacedAll source es)
    (hrow : InRow lo hi es) (hsource : d.source ≠ []) :
    lo ≤ hi ∧
    (∀ i ∈ indices next es, ∀ s, d.spanOf i = .ok s → lo ≤ s.start ∧ s.stop ≤ hi) ∧
    (indices next es).Pairwise fun (i j : Nat) =>
      ∀ s s', d.spanOf i = .ok s → d.spanOf j = .ok s' → s.stop ≤ s'.start := by
  induction es generalizing next lo with
  | nil => exact ⟨hrow, by simp [indices], by simp [indices]⟩
  | cons e es ih =>
      obtain ⟨hfirst, hrest⟩ := h.cons
      obtain ⟨hle, hin, hpair⟩ := ih hrest hplaced.2 hrow.2
      have hspan := hfirst.spanOf hsource
      have hlocated := hplaced.1.located
      have hstart := hlocated.start_lt
      have hinner := hlocated.tagEnd_le
      have hstop := hlocated.innerEnd_le
      have hlo := hrow.1
      rw [indices]
      refine ⟨by omega, ?_, List.pairwise_cons.mpr ⟨?_, hpair⟩⟩
      · intro i hi s hs
        rcases List.mem_cons.mp hi with rfl | hi
        · rw [hspan] at hs
          cases hs
          exact ⟨hlo, hle⟩
        · have := hin i hi s hs
          omega
      · intro j hj s s' hs hs'
        rw [hspan] at hs
        cases hs
        exact (hin j hj s' hs').1

end Holds

theorem path_of_parse {path : String} (h : Document.parse source path = .ok d) : d.path = path := by
  unfold Document.parse at h
  split at h
  · cases h
    rfl
  · cases h

theorem source_of_parse {path : String} (h : Document.parse source path = .ok d) :
    d.source = source := by
  unfold Document.parse at h
  split at h
  · cases h
    rfl
  · cases h

/-- A document that was read holds a tree that is placed in its source. -/
theorem holds_of_parse {path : String} (h : Document.parse source path = .ok d) :
    d.source = source ∧ ∃ e, d.Holds none 0 e ∧ e.Placed source ∧ d.size = e.size := by
  unfold Document.parse at h
  cases htree : Xml.readTree source with
  | error fault =>
      rw [htree] at h
      cases h
  | ok e =>
      rw [htree] at h
      cases h
      refine ⟨rfl, e, ⟨fun n => (LineIndex.ofSource source).position n, ⟨[], ?_⟩⟩,
        Xml.placed_of_readTree htree, ?_⟩
      · simp [ofElement]
      · simp [ofElement, Document.size, length_layout]

/-- What a number of a document that was read holds. -/
theorem holds_of_lt {path : String} (h : Document.parse source path = .ok d) {i : Nat}
    (hi : i < d.size) :
    ∃ parent e, d.Holds parent i e ∧ e.Placed source ∧
      ((i = 0 ∧ parent = none) ∨ ∃ p, parent = some p ∧ p < i ∧ i ∈ d.children p) := by
  obtain ⟨-, e, hholds, hplaced, hsize⟩ := holds_of_parse h
  rcases exists_holds e none 0 hholds hplaced i (Nat.zero_le i) (by omega) with
    rfl | ⟨p, e', hlt, hmem, hholds', hplaced'⟩
  · exact ⟨none, e, hholds, hplaced, .inl ⟨rfl, rfl⟩⟩
  · exact ⟨some p, e', hholds', hplaced', .inr ⟨p, rfl, hlt, hmem⟩⟩

theorem children_eq_nil {i : Nat} (h : ¬i < d.size) : d.children i = [] := by
  unfold Document.children
  rw [node?_natCast, Array.getElem?_eq_none (by unfold size at h; omega)]
  rfl

/-- **A document that was read is a tree.** -/
theorem forest_of_parse {path : String} (h : Document.parse source path = .ok d) : d.Forest where
  root := by
    intro i hi
    obtain ⟨parent, e, hholds, -, hparent⟩ := holds_of_lt h hi
    rw [hholds.parent?]
    rcases hparent with ⟨rfl, rfl⟩ | ⟨p, rfl, hlt, -⟩
    · simp
    · simp only [reduceCtorEq, false_iff]
      omega
  parent_lt := by
    intro i p hp
    obtain ⟨parent, e, hholds, -, hparent⟩ := holds_of_lt h (lt_size_of_parent? hp)
    rw [hholds.parent?] at hp
    rcases hparent with ⟨rfl, rfl⟩ | ⟨p', rfl, hlt, -⟩
    · cases hp
    · cases hp
      exact hlt
  child_iff := by
    intro p c
    constructor
    · intro hc
      by_cases hp : p < d.size
      · obtain ⟨parent, e, hholds, hplaced, -⟩ := holds_of_lt h hp
        cases e with
        | mk head es =>
            rw [hholds.children] at hc
            rw [Placed] at hplaced
            obtain ⟨e', hholds', -⟩ := hholds.inner.of_mem hplaced.2.2 hc
            exact hholds'.parent?
      · rw [children_eq_nil hp] at hc
        cases hc
    · intro hp
      obtain ⟨parent, e, hholds, -, hparent⟩ := holds_of_lt h (lt_size_of_parent? hp)
      rw [hholds.parent?] at hp
      rcases hparent with ⟨rfl, rfl⟩ | ⟨p', rfl, -, hmem⟩
      · cases hp
      · cases hp
        exact hmem
  increasing := by
    intro p
    by_cases hp : p < d.size
    · obtain ⟨parent, e, hholds, -, -⟩ := holds_of_lt h hp
      cases e with
      | mk head es =>
          rw [hholds.children]
          exact (pairwise_indices (p + 1) es).1
    · rw [children_eq_nil hp]
      exact List.Pairwise.nil

/-- A block of nodes is what is below its root. -/
theorem Holds.descendants {parent : Option Nat} {id : Nat} {head : ElementHead} {es : List Element}
    (h : d.Holds parent id (.mk head es)) : d.descendants id = List.range' (id + 1) (sizeAll es) := by
  obtain ⟨place, hat⟩ := h.inner
  have hfuel : sizeAll es ≤ d.size := by
    have hlen := hat.length_le
    rw [length_layoutAll, List.length_drop, Array.length_toList] at hlen
    unfold Document.size
    omega
  have hvisit := visit_layoutAll d place id es (id + 1) d.size [] hat hfuel
  have hempty : d.visit (fun _ => true) (d.size - sizeAll es) [] = [] := by
    cases d.size - sizeAll es <;> rfl
  rw [List.append_nil, hempty, List.append_nil] at hvisit
  rw [Document.descendants, h.children, hvisit]

/-- The elements below one are the block behind it. -/
theorem descendants_of_parse {path : String} (h : Document.parse source path = .ok d) {i : Nat}
    (hi : i < d.size) : d.descendants i = List.range' (i + 1) (d.descendants i).length := by
  obtain ⟨parent, e, hholds, -, -⟩ := holds_of_lt h hi
  cases e with
  | mk head es => rw [hholds.descendants, List.length_range']

/-- The numbers of a document are those of a tree in document order. -/
structure IsOrdered (d : Document) : Prop where
  size_pos : 0 < d.size
  /-- Only the first element has no parent. -/
  root : ∀ i < d.size, d.parent? i = none ↔ i = 0
  /-- A parent stands before its child and lists it once. -/
  parent : ∀ i p : Nat, d.parent? i = some p → p < i ∧ (d.children p).count i = 1
  /-- Only children are listed. -/
  child : ∀ p : Nat, ∀ c ∈ d.children p, d.parent? c = some p
  increasing : ∀ p : Nat, (d.children p).Pairwise (· < ·)
  walk : (d.walk fun _ => true) = List.range d.size
  /-- What is below an element is the block behind it. -/
  block : ∀ i < d.size, d.descendants i = List.range' (i + 1) (d.descendants i).length
  below : ∀ i j : Nat, j ∈ d.descendants i ↔ i ∈ d.ancestors j
  /-- The chase of parents goes from parent to parent. -/
  chase : ∀ i : Nat, d.ancestors i = (d.parent? i).elim [] fun p => p :: d.ancestors p
  chase_ends : ∀ i < d.size, 0 < i → (d.ancestors i).getLast? = some 0
  depth : ∀ i : Nat, d.depth i = (d.ancestors i).length ∧
    d.depth i = (d.parent? i).elim 0 fun p => d.depth p + 1

/-- The elements of a document stand where their offsets say. -/
structure IsLocated (d : Document) : Prop where
  located : ∀ i < d.size, ∃ s, d.spanOf i = .ok s ∧ s.Located d.source
  /-- Children stand between the tags of their parent. -/
  nested : ∀ i c : Nat, c ∈ d.children i → ∀ s s', d.spanOf i = .ok s → d.spanOf c = .ok s' →
    s.tagEnd ≤ s'.start ∧ s'.stop ≤ s.innerEnd
  /-- Siblings stand one behind the other. -/
  disjoint : ∀ i : Nat, (d.children i).Pairwise fun (a b : Nat) =>
    ∀ s s', d.spanOf a = .ok s → d.spanOf b = .ok s' → s.stop ≤ s'.start

theorem Forest.chase (h : d.Forest) (i : Nat) :
    d.ancestors i = (d.parent? i).elim [] fun p => p :: d.ancestors p := by
  change d.ancestorsOf i = _
  rw [h.ancestorsOf_eq]
  cases d.parent? i <;> rfl

/-- A parsed document is in document order. -/
theorem isOrdered_of_parse {path : String} (h : Document.parse source path = .ok d) :
    d.IsOrdered := by
  have hforest := forest_of_parse h
  obtain ⟨-, e, -, -, hsize⟩ := holds_of_parse h
  refine ⟨?_, hforest.root, ?_, ?_, hforest.increasing, ids_of_parse h,
    fun i hi => descendants_of_parse h hi, fun i j => hforest.mem_descendants, hforest.chase,
    fun i hi hpos => hforest.getLast?_ancestorsOf hi hpos, fun i => ⟨rfl, ?_⟩⟩
  · have := e.size_pos
    omega
  · intro i p hp
    refine ⟨hforest.parent_lt hp, ?_⟩
    have hnodup : (d.children p).Nodup := (hforest.increasing p).imp Nat.ne_of_lt
    exact List.count_eq_one_of_mem hnodup (hforest.child_iff.mpr hp)
  · intro p c hc
    exact hforest.child_iff.mp hc
  · rw [Document.depth, hforest.chase]
    cases d.parent? i <;> rfl

/-- Every node of a parsed document stands where its span says. -/
theorem isLocated_of_parse {path : String} (h : Document.parse source path = .ok d) :
    d.IsLocated := by
  obtain ⟨hsource, e, hholds, hplaced, -⟩ := holds_of_parse h
  have hne : d.source ≠ [] := by
    have hlocated := hplaced.located
    have h1 := hlocated.start_lt
    have h2 := hlocated.tagEnd_le
    have h3 := hlocated.innerEnd_le
    have h4 := hlocated.stop_le
    rw [hsource]
    exact List.length_pos_iff.mp (by omega)
  have hrow : ∀ i : Nat, i < d.size → ∃ s, d.spanOf i = .ok s ∧ s.Located source ∧
      (∀ c ∈ d.children i, ∀ s', d.spanOf c = .ok s' → s.tagEnd ≤ s'.start ∧ s'.stop ≤ s.innerEnd) ∧
      (d.children i).Pairwise fun (a b : Nat) =>
        ∀ s s', d.spanOf a = .ok s → d.spanOf b = .ok s' → s.stop ≤ s'.start := by
    intro i hi
    obtain ⟨parent, e', hholds', hplaced', -⟩ := holds_of_lt h hi
    refine ⟨e'.span, hholds'.spanOf hne, hplaced'.located, ?_⟩
    cases e' with
    | mk head es =>
        rw [Placed] at hplaced'
        rw [hholds'.children]
        exact (spans_of_row hholds'.inner hplaced'.2.2 hplaced'.2.1 hne).2
  refine ⟨?_, ?_, ?_⟩
  · intro i hi
    obtain ⟨s, hspan, hlocated, -⟩ := hrow i hi
    exact ⟨s, hspan, hsource ▸ hlocated⟩
  · intro i c hc s s' hs hs'
    have hi : i < d.size := by
      by_contra hge
      rw [children_eq_nil hge] at hc
      cases hc
    obtain ⟨s1, hspan, -, hin, -⟩ := hrow i hi
    rw [hspan] at hs
    cases hs
    exact hin c hc s' hs'
  · intro i
    by_cases hi : i < d.size
    · obtain ⟨s, -, -, -, hpair⟩ := hrow i hi
      exact hpair
    · rw [children_eq_nil hi]
      exact List.Pairwise.nil

/-- **The shape of documents.**  A document that was read is numbered in document order and knows
where its elements stand.  The walk through a document that was built meets every element once, an
element before its children and these in the order in which they were added. -/
theorem shape :
    (∀ (source : Bytes) (path : String) (d : Document), Document.parse source path = .ok d →
      d.source = source ∧ d.IsOrdered ∧ d.IsLocated) ∧
    (∀ (path : String) (steps steps' : List BuildStep) (d d' : Document),
      (blank path).buildAll steps = .ok d → (blank path).buildAll (steps ++ steps') = .ok d' →
      (d'.walk fun _ => true).Perm (List.range d'.size) ∧
      (∀ i < d'.size, (i :: d'.children i).Sublist (d'.walk fun _ => true)) ∧
      (∀ p c : Nat, c ∈ d'.children p ↔ d'.parent? c = some p) ∧
      ∀ i : Nat, d.children i <+: d'.children i ∧ (d'.children i).Pairwise (· < ·)) := by
  constructor
  · intro source path d h
    exact ⟨(holds_of_parse h).1, isOrdered_of_parse h, isLocated_of_parse h⟩
  · intro path steps steps' d d' h h'
    have hforest := ((forest_blank path).buildAll h).1
    obtain ⟨hforest', hfront⟩ := hforest.buildAll (buildAll_append h h')
    exact ⟨hforest'.perm_walk, fun i hi => hforest'.sublist_walk hi, fun p c => hforest'.child_iff,
      fun i => ⟨hfront i, hforest'.increasing i⟩⟩

theorem shape_nested :
    ∃ d d', Document.parse (Bytes.ofString "<a><b/></a>") "x.wxs" = .ok d ∧ d.IsOrdered ∧
      d.IsLocated ∧ (blank "x.wxs").buildAll [.root "a" [], .add 0 "b" []] = .ok d' ∧
      (d'.walk fun _ => true).Perm (List.range d'.size) := by
  have ha : Xml.IsPlainName "a" := Xml.isPlainName_of_letters rfl (by decide)
  have hb : Xml.IsPlainName "b" := Xml.isPlainName_of_letters rfl (by decide)
  let outer := Xml.WrittenTag.bare ha false
  let c : Xml.Content :=
    .element outer rfl (.closed (.bare hb true) rfl .done) outer.endTag rfl .done
  have hparse : Document.parse (Bytes.ofString "<a><b/></a>") "x.wxs" = .ok _ :=
    parse_eq_ok.mpr ⟨c, _, rfl, ⟨by simp [c, Xml.Apart, Xml.Content.pieces, Xml.Piece.isBare], rfl, rfl⟩,
      rfl⟩
  have hbuild : (blank "x.wxs").buildAll [.root "a" [], .add 0 "b" []] = .ok _ := rfl
  exact ⟨_, _, hparse, (shape.1 _ _ _ hparse).2.1, (shape.1 _ _ _ hparse).2.2, hbuild,
    (shape.2 "x.wxs" _ [] _ _ hbuild hbuild).1⟩

end Document

end InstallerLint
